import PineCheck.Proofs.Lexing

/-!
# PineCheck — what a line break ends

Except for block comments, nothing that is read goes on behind the line it starts
in, and nothing is looked at behind the line break. To what is read, a line break is
the end of the text: it makes no difference what follows it.

A lexeme that is read in front of a line break is therefore the lexeme of the line
alone, `followedBy` the line break and what is behind it.

Main results:

* `lexeme_append_newline` — a lexeme of a line is read as if the text ended with the
  line.
* `lexeme_ahead` — what is read in front of a line break, block comments among it,
  does not depend on what is behind the line break.
* `openLine_append_newline` — neither does the layout of a line.
-/

namespace PineCheck.Lexer

-- ---------------------------------------------------------------------------
-- Characters that stop a lexeme
-- ---------------------------------------------------------------------------

/-- Characters that end a line. -/
def IsBreak (x : Char) : Prop :=
  x = '\n' ∨ x = '\r'

/-- A lexeme with more text behind it. -/
def Lexeme.followedBy (front : Lexeme) (behind : List Char) : Lexeme :=
  { front with rest := front.rest ++ behind }

section

variable {p : Char → Bool} {x : Char}

/-- A line break is in no class that leaves out both of its characters. -/
theorem IsBreak.eq_false (hx : IsBreak x) (h : p '\n' = false ∧ p '\r' = false) : p x = false := by
  rcases hx with rfl | rfl
  · exact h.1
  · exact h.2

theorem IsBreak.ne (hx : IsBreak x) {c : Char} (h : '\n' ≠ c ∧ '\r' ≠ c) : x ≠ c := by
  rcases hx with rfl | rfl
  · exact h.1
  · exact h.2

/-- A text is taken up to a character that is not. -/
theorem takeWhile_append_cons (hx : p x = false) (v b : List Char) :
    (v ++ x :: b).takeWhile p = v.takeWhile p := by
  induction v with
  | nil => simp [hx]
  | cons c cs ih => rw [List.cons_append, List.takeWhile_cons, List.takeWhile_cons, ih]

/-- A character that is not taken is left, with what is behind it. -/
theorem dropWhile_append_cons (hx : p x = false) (v b : List Char) :
    (v ++ x :: b).dropWhile p = v.dropWhile p ++ x :: b := by
  induction v with
  | nil => simp [hx]
  | cons c cs ih =>
    rw [List.cons_append, List.dropWhile_cons, List.dropWhile_cons, ih]
    split <;> rfl

/-- A character that is not in the class may stand at the end of a text unseen. -/
theorem any_head?_append_cons (hx : p x = false) (v b : List Char) :
    (v ++ x :: b).head?.any p = v.head?.any p := by
  cases v with
  | nil => exact hx
  | cons => rfl

/-- The same for one character. -/
theorem head?_append_cons_eq_some {c : Char} (hx : x ≠ c) (v b : List Char) :
    (v ++ x :: b).head? = some c ↔ v.head? = some c := by
  cases v with
  | nil => simpa using hx
  | cons => exact Iff.rfl

-- ---------------------------------------------------------------------------
-- Numbers, words, colors and operators
-- ---------------------------------------------------------------------------

variable (hx : IsBreak x) (v b : List Char)

include hx

/-- Whether a number starts does not depend on what is behind a line break. -/
theorem startsNumber_append (c : Char) : startsNumber c (v ++ x :: b) = startsNumber c v := by
  rw [startsNumber, startsNumber, any_head?_append_cons (hx.eq_false (by decide))]

/-- A sign is read up to a line break. -/
theorem signPart_append_break :
    signPart (v ++ x :: b) = ((signPart v).1, (signPart v).2 ++ x :: b) := by
  cases v with
  | nil => exact if_neg (hx.ne (by decide))
  | cons c cs =>
    rw [List.cons_append, signPart, signPart]
    split <;> rfl

/-- A fraction is read up to a line break. -/
theorem fractionPart_append_break :
    fractionPart (v ++ x :: b) = ((fractionPart v).1, (fractionPart v).2 ++ x :: b) := by
  cases v with
  | nil =>
    have hpoint : x ≠ '.' := hx.ne (by decide)
    simp [fractionPart, hpoint]
  | cons c cs =>
    have hdigit : x.isDigit = false := hx.eq_false (by decide)
    rw [List.cons_append, fractionPart, fractionPart,
      any_head?_append_cons (hx.eq_false (by decide +kernel)), takeWhile_append_cons hdigit,
      dropWhile_append_cons hdigit]
    split <;> rfl

/-- An exponent is read up to a line break. -/
theorem exponentPart_append_break :
    exponentPart (v ++ x :: b) = ((exponentPart v).1, (exponentPart v).2 ++ x :: b) := by
  have hdigit : x.isDigit = false := hx.eq_false (by decide)
  match v with
  | [] =>
    have hmark : x ≠ 'e' ∧ x ≠ 'E' := ⟨hx.ne (by decide), hx.ne (by decide)⟩
    cases b <;> simp [exponentPart, hmark]
  -- a single character is no exponent, whatever follows the line break
  | [c] =>
    have hsign : x ≠ '+' ∧ x ≠ '-' := ⟨hx.ne (by decide), hx.ne (by decide)⟩
    simp [exponentPart, hdigit, hsign]
  -- the digits end before the line break
  | c :: d :: cs =>
    rw [List.cons_append, List.cons_append, exponentPart, exponentPart,
      any_head?_append_cons hdigit, takeWhile_append_cons hdigit, dropWhile_append_cons hdigit]
    split
    · split
      · rfl
      · split <;> rfl
    · rfl

/-- A number ends at the end of its line. -/
theorem numberLexeme_append_break :
    numberLexeme (v ++ x :: b) = (numberLexeme v).followedBy (x :: b) := by
  have hdigit : x.isDigit = false := hx.eq_false (by decide)
  simp only [numberLexeme, Lexeme.followedBy, signPart_append_break hx,
    dropWhile_append_cons hdigit, takeWhile_append_cons hdigit, fractionPart_append_break hx,
    exponentPart_append_break hx]

/-- A word ends at the end of its line. -/
theorem wordLexeme_append_break :
    wordLexeme (v ++ x :: b) = (wordLexeme v).followedBy (x :: b) := by
  have hword : isWordChar x = false := hx.eq_false (by decide)
  simp only [wordLexeme, Lexeme.followedBy, takeWhile_append_cons hword,
    dropWhile_append_cons hword]

/-- A color ends at the end of its line. -/
theorem colorLexeme_append_break :
    colorLexeme (v ++ x :: b) = (colorLexeme v).followedBy (x :: b) := by
  have hword : isWordChar x = false := hx.eq_false (by decide)
  simp only [colorLexeme, Lexeme.followedBy, takeWhile_append_cons hword,
    dropWhile_append_cons hword]

/-- No pair of marks ends in a line break. -/
theorem pairReading?_break (c : Char) : pairReading? c x = none := by
  have hne : x ≠ '=' ∧ x ≠ '>' ∧ x ≠ '/' :=
    ⟨hx.ne (by decide), hx.ne (by decide), hx.ne (by decide)⟩
  simp [pairReading?, hne]

/-- An operator or mark ends at the end of its line. -/
theorem symbolLexeme_append_break (c : Char) :
    symbolLexeme c (v ++ x :: b) = (symbolLexeme c v).followedBy (x :: b) := by
  cases v with
  | nil => simp [symbolLexeme, pairReading?_break hx, Lexeme.followedBy]
  | cons d ds =>
    rw [List.cons_append, symbolLexeme, symbolLexeme]
    split <;> rfl

end

-- ---------------------------------------------------------------------------
-- Strings and comments
-- ---------------------------------------------------------------------------

/-- A string is not closed on its line. -/
theorem stringBody_newline (quote : Char) (cs : List Char) :
    stringBody quote ('\n' :: cs) = (none, [], '\n' :: cs) := by
  unfold stringBody
  rfl

/-- A backslash does not carry a string over the end of its line. -/
theorem stringBody_backslash_newline (quote : Char) (cs : List Char) :
    stringBody quote ('\\' :: '\n' :: cs) = (none, ['\\'], '\n' :: cs) := by
  unfold stringBody
  rfl

/-- A character behind a backslash is unescaped. -/
theorem stringBody_escaped (quote : Char) {d : Char} (hd : d ≠ '\n') (ds : List Char) :
    stringBody quote ('\\' :: d :: ds) =
      ((stringBody quote ds).1.map (unescape d ++ ·), '\\' :: d :: (stringBody quote ds).2.1,
        (stringBody quote ds).2.2) := by
  rw [stringBody]
  simp [hd]

theorem stringBody_quote {quote : Char} (h : quote ≠ '\n' ∧ quote ≠ '\\') (cs : List Char) :
    stringBody quote (quote :: cs) = (some [], [quote], cs) := by
  unfold stringBody
  simp [h]

/-- Any other character stands for itself. -/
theorem stringBody_plain {quote c : Char} (hc : c ≠ '\n' ∧ c ≠ '\\' ∧ c ≠ quote)
    (cs : List Char) :
    stringBody quote (c :: cs) =
      ((stringBody quote cs).1.map (c :: ·), c :: (stringBody quote cs).2.1,
        (stringBody quote cs).2.2) := by
  conv_lhs => unfold stringBody
  simp [hc]

/-- A string is read up to the end of its line. -/
theorem stringBody_append_newline (quote : Char) (v b : List Char) :
    stringBody quote (v ++ '\n' :: b) =
      ((stringBody quote v).1, (stringBody quote v).2.1,
        (stringBody quote v).2.2 ++ '\n' :: b) := by
  induction v using stringBody.induct quote with
  | case1 => exact stringBody_newline quote b
  | case2 ds => rw [List.cons_append, stringBody_newline, stringBody_newline, List.cons_append]
  | case3 => exact stringBody_backslash_newline quote b
  | case4 ds => exact stringBody_backslash_newline quote _
  | case5 d ds hd _ _ _ _ _ ih =>
    rw [List.cons_append, List.cons_append, stringBody_escaped quote hd,
      stringBody_escaped quote hd, ih]
  | case6 ds hnewline hslash =>
    rw [List.cons_append, stringBody_quote ⟨hnewline, hslash⟩,
      stringBody_quote ⟨hnewline, hslash⟩]
  | case7 c cs hc hslash hquote _ _ _ _ ih =>
    rw [List.cons_append, stringBody_plain ⟨hc, hslash, hquote⟩,
      stringBody_plain ⟨hc, hslash, hquote⟩, ih]

/-- A string literal is closed on its line or not at all. -/
theorem stringLexeme_append_newline (quote : Char) (v b : List Char) :
    stringLexeme quote (v ++ '\n' :: b) = (stringLexeme quote v).followedBy ('\n' :: b) := by
  rw [stringLexeme, stringLexeme, stringBody_append_newline]
  rcases stringBody quote v with ⟨contents, taken, rest⟩
  cases contents <;> rfl

/-- A line comment takes in all of its line. -/
theorem lineCommentLexeme_of_notMem {v : List Char} (hv : '\n' ∉ v) :
    lineCommentLexeme v = ⟨some (.ok (.comment (String.ofList v))), v, []⟩ := by
  have hall : ∀ c ∈ v, (c != '\n') = true := fun c hc =>
    bne_iff_ne.mpr (ne_of_mem_of_not_mem hc hv)
  rw [lineCommentLexeme, List.takeWhile_eq_self_iff.mpr hall, List.dropWhile_eq_nil_iff.mpr hall]

/-- A line comment ends at the end of its line. -/
theorem lineCommentLexeme_append_newline (v b : List Char) :
    lineCommentLexeme (v ++ '\n' :: b) = (lineCommentLexeme v).followedBy ('\n' :: b) := by
  have htake := takeWhile_append_cons (p := (· != '\n')) (x := '\n') rfl v b
  have hdrop := dropWhile_append_cons (p := (· != '\n')) (x := '\n') rfl v b
  rw [lineCommentLexeme, htake, hdrop]
  rfl

/-- A relation between two conditionals on one condition. -/
theorem ite_rel {α β : Type} {r : α → β → Prop} {p : Prop} [Decidable p] {a b : α} {a' b' : β}
    (h : p → r a a') (h' : ¬ p → r b b') : r (if p then a else b) (if p then a' else b') := by
  split
  · exact h ‹_›
  · exact h' ‹_›

/-- A lexeme ends at the end of its line, with two exceptions: how strings and line comments go
on up to there is asked for. -/
theorem lexeme_append_break {r : Lexeme → Lexeme → Prop} {c x : Char} {v b : List Char}
    (hx : IsBreak x) (hblock : ¬ (c = '/' ∧ v.head? = some '*'))
    (hends : ∀ front, r front (front.followedBy (x :: b)))
    (hstring : c = '"' ∨ c = '\'' → r (stringLexeme c v) (stringLexeme c (v ++ x :: b)))
    (hcomment : r (lineCommentLexeme (c :: v)) (lineCommentLexeme (c :: v ++ x :: b))) :
    r (lexeme c v) (lexeme c (v ++ x :: b)) := by
  have hslash := head?_append_cons_eq_some (hx.ne (c := '/') (by decide)) v b
  have hstar := head?_append_cons_eq_some (hx.ne (c := '*') (by decide)) v b
  unfold lexeme
  simp only [startsNumber_append hx, hslash, hstar]
  -- one condition of the lexer after the other
  refine ite_rel (fun _ => hends _) fun _ => ?_
  refine ite_rel (fun _ => hends _) fun _ => ?_
  refine ite_rel (fun hquote => hstring (by simpa using hquote)) fun _ => ?_
  refine ite_rel (fun _ => ?_) fun _ => ?_
  · rw [← List.cons_append, numberLexeme_append_break hx]
    exact hends _
  refine ite_rel (fun _ => ?_) fun _ => ?_
  · rw [← List.cons_append, wordLexeme_append_break hx]
    exact hends _
  refine ite_rel (fun _ => ?_) fun _ => ?_
  · rw [colorLexeme_append_break hx]
    exact hends _
  refine ite_rel (fun _ => hcomment) fun _ => ?_
  refine ite_rel (fun hopens => absurd (by simpa using hopens) hblock) fun _ => ?_
  rw [symbolLexeme_append_break hx]
  exact hends _

/-- A lexeme of a line is read as if the text ended with the line. -/
theorem lexeme_append_newline {c : Char} {v : List Char}
    (h : ¬ (c = '/' ∧ v.head? = some '*')) (b : List Char) :
    lexeme c (v ++ '\n' :: b) = (lexeme c v).followedBy ('\n' :: b) :=
  lexeme_append_break (r := fun front front' => front' = front.followedBy ('\n' :: b)) (Or.inl rfl)
    h (fun _ => rfl) (fun _ => stringLexeme_append_newline c v b)
    (lineCommentLexeme_append_newline (c :: v) b)

-- ---------------------------------------------------------------------------
-- Block comments
-- ---------------------------------------------------------------------------

/-- A character that does not close the comment is inside it. -/
theorem blockBody_cons_of_neg {c : Char} {cs : List Char}
    (h : ¬ (c = '*' ∧ cs.head? = some '/')) :
    blockBody (c :: cs) = (c :: (blockBody cs).1, (blockBody cs).2) := by
  rw [blockBody, if_neg (by simpa using h)]

/-- A block comment takes the first character of its inside. -/
theorem head?_blockBody (c : Char) (cs : List Char) : (blockBody (c :: cs)).1.head? = some c := by
  rw [blockBody]
  split <;> rfl

/-- The end of a block comment is found without a look behind it. -/
theorem blockBody_ahead {cs : List Char} (h : (blockBody cs).2 ≠ []) (behind : List Char) :
    blockBody ((blockBody cs).1 ++ behind) = ((blockBody cs).1, behind) := by
  induction cs with
  | nil => exact absurd rfl h
  | cons c cs ih =>
    by_cases hclose : c = '*' ∧ cs.head? = some '/'
    · obtain ⟨rfl, hslash⟩ := hclose
      obtain ⟨tail, rfl⟩ := List.head?_eq_some_iff.mp hslash
      rfl
    · rw [blockBody_cons_of_neg hclose] at h ⊢
      have hhead : ((blockBody cs).1 ++ behind).head? = cs.head? := by
        cases cs with
        | nil => exact absurd rfl h
        | cons d ds => rw [List.head?_append, head?_blockBody, Option.some_or, List.head?_cons]
      rw [List.cons_append, blockBody_cons_of_neg (by rwa [hhead]), ih h]

/-- A block comment is one lexeme. -/
theorem lexeme_block (cs : List Char) :
    lexeme '/' ('*' :: cs) =
      ⟨some (.ok (.comment (String.ofList ('/' :: '*' :: (blockBody cs).1)))),
        '/' :: '*' :: (blockBody cs).1, (blockBody cs).2⟩ :=
  rfl

/-- What is read in front of a line break does not depend on what is behind the line
break. -/
theorem lexeme_ahead {c : Char} {cs v b : List Char} (h : (lexeme c cs).rest = v ++ '\n' :: b) :
    ∃ w, cs = w ++ '\n' :: b ∧ c :: w = (lexeme c cs).taken ++ v ∧
      ∀ b', lexeme c (w ++ '\n' :: b') =
        ⟨(lexeme c cs).reading, (lexeme c cs).taken, v ++ '\n' :: b'⟩ := by
  have hcut := lexeme_taken_append_rest c cs
  rw [h, ← List.append_assoc] at hcut
  obtain ⟨w, hw⟩ : ∃ w, (lexeme c cs).taken ++ v = c :: w := by
    obtain ⟨d, ds, hd⟩ := List.exists_cons_of_ne_nil (lexeme_taken_ne_nil c cs)
    rw [hd] at hcut ⊢
    exact ⟨ds ++ v, congrArg (· :: (ds ++ v)) (List.cons.inj hcut).1⟩
  rw [hw] at hcut
  have hcs : cs = w ++ '\n' :: b := (List.cons.inj hcut).2.symm
  refine ⟨w, hcs, hw.symm, ?_⟩
  intro b'
  by_cases hblock : c = '/' ∧ w.head? = some '*'
  · -- the comment is closed before the line break, since something is left behind it
    obtain ⟨rfl, hstar⟩ := hblock
    obtain ⟨inside, rfl⟩ := List.head?_eq_some_iff.mp hstar
    rw [hcs, List.cons_append, lexeme_block] at h hw ⊢
    have hinside : inside = (blockBody (inside ++ '\n' :: b)).1 ++ v :=
      (List.cons.inj (List.cons.inj hw).2).2.symm
    have hrest : (blockBody (inside ++ '\n' :: b)).2 = v ++ '\n' :: b := h
    have hclosed : (blockBody (inside ++ '\n' :: b)).2 ≠ [] := by
      rw [hrest]
      exact List.append_ne_nil_of_right_ne_nil v (List.cons_ne_nil _ _)
    have hahead := blockBody_ahead hclosed (v ++ '\n' :: b')
    rw [← List.append_assoc, ← hinside] at hahead
    rw [List.cons_append, lexeme_block, hahead]
  -- any other lexeme is read within the line
  · have hread := lexeme_append_newline hblock b
    rw [← hcs] at hread
    have hrest : (lexeme c w).rest = v := by
      rw [hread] at h
      exact List.append_cancel_right h
    rw [lexeme_append_newline hblock b', hread]
    simp only [Lexeme.followedBy, hrest]

-- ---------------------------------------------------------------------------
-- Layout
-- ---------------------------------------------------------------------------

/-- How the open blocks fit a line, with what `fitBlocks` tells. A blank line leaves
them as they are. -/
def fitLine (blocks : List Nat) (line : List Char) : List Nat × Nat × Bool :=
  if isBlankLine (line.dropWhile Text.isSpace) then (blocks, 0, false)
  else fitBlocks blocks (Text.columns (line.takeWhile Text.isSpace))

/-- Opening a line gives the marks of layout that `fitLine` tells. -/
theorem openLine_eq_fitLine (p : Position) (blocks : List Nat) (line : List Char) :
    openLine ⟨p, blocks, line⟩ =
      (List.replicate (fitLine blocks line).2.1
          ⟨.ok .dedent, Span.emptyAt (p.after (line.takeWhile Text.isSpace))⟩ ++
        (if (fitLine blocks line).2.2 then
          [⟨.ok .indent, Span.between p (p.after (line.takeWhile Text.isSpace))⟩] else []),
        ⟨p.after (line.takeWhile Text.isSpace), (fitLine blocks line).1,
          line.dropWhile Text.isSpace⟩) := by
  unfold openLine fitLine
  dsimp only
  split <;> rfl

/-- The tokens from the start of a line to the end of the script. -/
def resume (cursor : Cursor) : List Lexed :=
  (openLine cursor).1 ++ scan (openLine cursor).2

/-- Whether a line is blank does not depend on the next one. -/
theorem isBlankLine_append_newline (v b : List Char) :
    isBlankLine (v ++ '\n' :: b) = isBlankLine v := by
  cases v with
  | nil => rfl
  | cons c cs =>
    have hslash := head?_append_cons_eq_some (c := '/') (x := '\n') (by decide) cs b
    rw [List.cons_append, isBlankLine, isBlankLine, Bool.eq_iff_iff]
    simp only [Bool.or_eq_true, Bool.and_eq_true, beq_iff_eq, hslash]

/-- Where a line is opened, nothing is looked at behind its line break. -/
theorem fitLine_append_newline (blocks : List Nat) (v b : List Char) :
    fitLine blocks (v ++ '\n' :: b) = fitLine blocks v := by
  have hspace : Text.isSpace '\n' = false := rfl
  rw [fitLine, fitLine, takeWhile_append_cons hspace, dropWhile_append_cons hspace,
    isBlankLine_append_newline]

/-- The margin of a line does not depend on the next one. -/
theorem openLine_append_newline (p : Position) (blocks : List Nat) (v b : List Char) :
    openLine ⟨p, blocks, v ++ '\n' :: b⟩ =
      ((openLine ⟨p, blocks, v⟩).1,
        { (openLine ⟨p, blocks, v⟩).2 with
          rest := (openLine ⟨p, blocks, v⟩).2.rest ++ '\n' :: b }) := by
  have hspace : Text.isSpace '\n' = false := rfl
  rw [openLine_eq_fitLine, openLine_eq_fitLine, fitLine_append_newline,
    takeWhile_append_cons hspace, dropWhile_append_cons hspace]

end PineCheck.Lexer
