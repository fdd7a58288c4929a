import PineCheck.Proofs.MaskedScript

/-!
# PineCheck — call sites of a printed script

The call sites that are found in the masked text of a printed script, without a parse,
are the calls that its parse finds.

* `namedArguments_inside` — the cut of an argument list at its commas gives the
  arguments that were written, and the names among them.
* `Scans` is about a text of which the search for call sites finds some sites and then
  goes on; `Scans.expr` and `Scans.statement` are its cases.

Main result:

* `callSites_agree_with_calls` — text and tree have the same calls, in the same order and
  at the same offsets, with the same named arguments.
-/

namespace PineCheck.Script

open Lexer (isWordStart isWordChar)
open Indexed (isNameChar)
open Text (Slice isAsciiBlank)

-- ---------------------------------------------------------------------------
-- Texts without blanks at their ends
-- ---------------------------------------------------------------------------

/-- Neither the first nor the last character of a text is a blank, and there are such
characters. -/
structure Tight (cs : List Char) : Prop where
  front : ∃ c behind, cs = c :: behind ∧ isAsciiBlank c = false
  back : ∃ before c, cs = before ++ [c] ∧ isAsciiBlank c = false

/-- A bare character is no blank. -/
theorem not_isAsciiBlank_of_isBare {c : Char} (h : isBare c = true) : isAsciiBlank c = false := by
  simp [isAsciiBlank, ne_of_isBare h (d := ' ') rfl, ne_of_isBare h (d := '\t') rfl,
    ne_of_isBare h (d := '\n') rfl, ne_of_isBare h (d := '\x0c') rfl,
    ne_of_isBare h (d := '\r') rfl]

namespace Tight

/-- A bare text has no blank at its ends. -/
theorem bare {c : Char} {cs : List Char} (h : Bare (c :: cs)) : Tight (c :: cs) := by
  refine ⟨⟨c, cs, rfl, not_isAsciiBlank_of_isBare (h c List.mem_cons_self)⟩, ?_⟩
  refine ⟨(c :: cs).dropLast, (c :: cs).getLast (List.cons_ne_nil _ _), ?_, ?_⟩
  · exact (List.dropLast_concat_getLast _).symm
  · exact not_isAsciiBlank_of_isBare (h _ (List.getLast_mem _))

/-- Two texts without blanks at their ends, with anything in between. -/
theorem join {a b : List Char} (ha : Tight a) (hb : Tight b) (middle : List Char) :
    Tight (a ++ (middle ++ b)) := by
  obtain ⟨c, behind, rfl, hc⟩ := ha.front
  obtain ⟨before, d, rfl, hd⟩ := hb.back
  refine ⟨⟨c, _, rfl, hc⟩, c :: behind ++ (middle ++ before), d, ?_, hd⟩
  simp only [List.append_assoc]

/-- A dotted name has no blank at its ends. -/
theorem chain (chain : Chain) : Tight chain.chars := by
  have h := Bare.chain chain
  obtain ⟨c, cs, hchars, -⟩ := chain.exists_cons
  rw [hchars] at h ⊢
  exact bare h

/-- An operand that is no call has no blank at its ends. -/
theorem atom (a : Atom) : Tight a.masked := by
  cases a with
  | number numeral =>
    have h := Bare.numeral numeral
    obtain ⟨d, ds, hwhole, -, -⟩ := numeral.whole.exists_cons
    show Tight numeral.chars
    cases hchars : numeral.chars with
    | nil => simp [Numeral.chars, hwhole] at hchars
    | cons c cs => exact bare (hchars ▸ h)
  | string contents => exact ⟨⟨'"', _, rfl, by decide⟩, '"' :: _, '"', rfl, by decide⟩
  | boolean value =>
    cases value with
    | true => exact @bare 't' ['r', 'u', 'e'] (.boolean true)
    | false => exact @bare 'f' ['a', 'l', 's', 'e'] (.boolean false)
  | color code => exact bare (.color code)
  | name name => exact chain name.toChain

/-- An expression has no blank at its ends. -/
theorem expr (e : Expr) : Tight e.masked := by
  cases e with
  | atom a => exact atom a
  | call function positional named =>
    rw [Expr.masked_call]
    have hclose : Tight [')'] := ⟨⟨')', [], rfl, by decide⟩, [], ')', rfl, by decide⟩
    exact (chain function).join hclose ('(' :: _)

/-- An argument has no blank at its ends. -/
theorem argument (word : Option Word) (e : Expr) :
    Tight (Expr.argumentChars (word, e.masked)) := by
  cases word with
  | none => exact expr e
  | some word =>
    have hword := chain ⟨word, []⟩
    rw [Chain.chars, List.flatMap_nil, List.append_nil] at hword
    exact hword.join (expr e) _

theorem ne_nil {cs : List Char} (h : Tight cs) : cs ≠ [] := by
  obtain ⟨c, behind, rfl, -⟩ := h.front
  exact List.cons_ne_nil _ _

/-- Trimming takes nothing away. -/
theorem trim_eq {cs : List Char} (h : Tight cs) (offset : Nat) :
    (Slice.mk offset cs).trim = ⟨offset, cs⟩ := by
  have hback : Text.dropEndWhile isAsciiBlank cs = cs := by
    obtain ⟨before, c, rfl, hc⟩ := h.back
    simp [Text.dropEndWhile, hc]
  obtain ⟨c, behind, rfl, hc⟩ := h.front
  simp [Slice.trim, Slice.dropWhile, hc, hback]

end Tight

/-- A space at the front of a part is trimmed away. -/
theorem trim_space (offset : Nat) (cs : List Char) :
    (Slice.mk offset (' ' :: cs)).trim = (Slice.mk (offset + 1) cs).trim := by
  have hspace : isAsciiBlank ' ' = true := by decide
  have hsize : Char.utf8Size ' ' = 1 := by decide
  simp [Slice.trim, Slice.dropWhile, hspace, hsize, Nat.add_assoc]

-- ---------------------------------------------------------------------------
-- Arguments
-- ---------------------------------------------------------------------------

/-- The number of bytes of an argument. -/
theorem byteLength_argument (word : Option Word) (e : Expr) :
    byteLength (Expr.argumentChars (word, e.masked)) =
      width (Expr.labelPieces word) + width e.pieces := by
  rw [((Masks.expr e).label word).byteLength_eq, ← ((Gives.expr e).label word).1, charsOf_append,
    byteLength_append]
  rfl

/-- The arguments of a call, placed where they are written. -/
def partsOf (offset : Nat) : List (Option Word × Expr) → List Slice
  | [] => []
  | argument :: given =>
    ⟨offset, Expr.argumentChars (argument.1, argument.2.masked)⟩ ::
      partsOf (Laid.next offset (argument.1, argument.2.laid)) given

theorem next_eq (offset : Nat) (word : Option Word) (e : Expr) :
    Laid.next offset (word, e.laid) =
      offset + byteLength (Expr.argumentChars (word, e.masked)) + 2 := by
  rw [Laid.next, Laid.valueStart, Expr.pieces_laid, byteLength_argument, Nat.add_assoc offset]

/-- A blank in front of the first piece is trimmed. -/
theorem trim_parts_space (offset : Nat) (pieces : List (List Char)) (h : pieces ≠ []) :
    (Text.placePieces offset (Indexed.joinFirst [' '] pieces)).map Slice.trim =
      (Text.placePieces (offset + 1) pieces).map Slice.trim := by
  cases pieces with
  | nil => exact absurd rfl h
  | cons piece pieces =>
    have hsize : byteLength (' ' :: piece) = 1 + byteLength piece := rfl
    show (Slice.mk offset (' ' :: piece)).trim ::
      (Text.placePieces (offset + byteLength (' ' :: piece) + 1) pieces).map Slice.trim = _
    rw [trim_space, hsize, ← Nat.add_assoc]
    rfl

/-- The arguments are what stands between the commas. -/
theorem trim_rawArguments (argument : Option Word × Expr) (given : List (Option Word × Expr))
    (offset : Nat) :
    (Text.placePieces offset (Text.rawArguments 0 (Expr.insideMasked (argument :: given)))).map
      Slice.trim = partsOf offset (argument :: given) := by
  induction given generalizing argument offset with
  -- a single argument: there is no comma to split at
  | nil =>
    obtain ⟨word, e⟩ := argument
    have hraw := ((Balanced.expr e).label word).rawArguments_append le_rfl nofun []
    rw [List.append_nil] at hraw
    show (Text.placePieces offset (Text.rawArguments 0 (Expr.argumentChars (word, e.masked)))).map
      Slice.trim = _
    rw [hraw]
    show [(Slice.mk offset (Expr.argumentChars (word, e.masked) ++ [])).trim] = _
    rw [List.append_nil, (Tight.argument word e).trim_eq]
    rfl
  | cons next given ih =>
    obtain ⟨word, e⟩ := argument
    -- the first comma ends the first argument, and the blank behind it goes to the next one
    have hraw : Text.rawArguments 0 (Expr.insideMasked ((word, e) :: next :: given)) =
        Expr.argumentChars (word, e.masked) ::
          Indexed.joinFirst [' '] (Text.rawArguments 0 (Expr.insideMasked (next :: given))) := by
      show Text.rawArguments 0 (Expr.argumentChars (word, e.masked) ++
        (',' :: ' ' :: Expr.insideMasked (next :: given))) = _
      have hspace : Text.rawArguments 0 (' ' :: Expr.insideMasked (next :: given)) =
          Indexed.joinFirst [' '] (Text.rawArguments 0 (Expr.insideMasked (next :: given))) :=
        Indexed.rawArguments_cons ..
      rw [((Balanced.expr e).label word).rawArguments_append le_rfl nofun, Text.rawArguments,
        hspace]
      exact congrArg (· :: _) (List.append_nil _)
    rw [hraw, Text.placePieces, List.map_cons,
      trim_parts_space _ _ (Indexed.rawArguments_ne_nil _ _), ih, (Tight.argument word e).trim_eq]
    exact congrArg (fun offset' => _ :: partsOf offset' (next :: given))
      (next_eq offset word e).symm

/-- **An argument list is cut into the arguments that were written.** -/
theorem splitArguments_inside (offset : Nat) (given : List (Option Word × Expr)) :
    Text.splitArguments ⟨offset, Expr.insideMasked given⟩ = partsOf offset given := by
  cases given with
  | nil => rfl
  | cons argument given =>
    unfold Text.splitArguments
    simp only [trim_rawArguments]
    cases given with
    | nil => exact if_neg (Tight.argument argument.1 argument.2).ne_nil
    | cons next given => rfl

/-- A named argument has an equals sign. -/
theorem namedArgument?_eq_none {offset : Nat} {cs : List Char} (h : '=' ∉ cs) :
    Text.namedArgument? ⟨offset, cs⟩ = none := by
  rw [Option.eq_none_iff_forall_ne_some]
  intro argument hargument
  obtain ⟨front, value, htext, -⟩ := Indexed.exists_equals_of_namedArgument? hargument
  have hcs : cs = front ++ '=' :: value := htext
  rw [hcs] at h
  exact h (List.mem_append_right front List.mem_cons_self)

/-- A word starts as words do. -/
theorem head?_word (word : Word) (rest : List Char) :
    (word.text.toList ++ rest).head?.any isWordStart = true := by
  have hword := word.isWordStart
  cases htext : word.text.toList with
  | nil =>
    rw [htext] at hword
    cases hword
  | cons c cs => rwa [htext] at hword

/-- A word is read as far as it goes. -/
theorem word?_word (word : Word) {rest : List Char} (hrest : Stops isWordChar rest) :
    Text.word? (word.text.toList ++ rest) = some (word.text.toList, rest) := by
  rw [Indexed.word?_eq_ite, if_pos (head?_word word rest), takeWhile_append word.isWordChar hrest,
    dropWhile_append word.isWordChar hrest]

/-- What an atom consists of. -/
theorem mem_atom {a : Atom} {c : Char} (h : c ∈ a.masked) :
    isBare c = true ∨ c = '"' ∨ c = ' ' := by
  cases a with
  | number numeral => exact .inl (Bare.numeral numeral c h)
  | boolean value => exact .inl (Bare.boolean value c h)
  | color code => exact .inl (Bare.color code c h)
  | name chain => exact .inl (Bare.chain chain.toChain c h)
  | string contents =>
    simp only [Atom.masked, Text.blanked, List.mem_cons, List.mem_append, List.mem_flatMap,
      List.mem_replicate, List.not_mem_nil, or_false] at h
    tauto

/-- An expression by itself is no named argument. -/
theorem namedArgument?_expr (offset : Nat) (e : Expr) :
    Text.namedArgument? ⟨offset, e.masked⟩ = none := by
  cases e with
  | atom a =>
    refine namedArgument?_eq_none fun hmem => ?_
    rcases mem_atom hmem with h | h | h <;> exact absurd h (by decide)
  | call function positional named =>
    -- behind the first word of the function stands a full stop or a parenthesis
    obtain ⟨c, rest, hrest, hc⟩ : ∃ c rest, (function.others.flatMap fun word =>
        '.' :: word.text.toList) ++ ('(' :: (Expr.insideMasked (arguments positional named) ++
          [')'])) = c :: rest ∧ (c = '.' ∨ c = '(') := by
      cases function.others with
      | nil => exact ⟨_, _, rfl, .inr rfl⟩
      | cons word others => exact ⟨_, _, rfl, .inl rfl⟩
    rw [Expr.masked_call, Chain.chars, List.append_assoc, hrest, Text.namedArgument?,
      word?_word function.first (.cons (by rcases hc with rfl | rfl <;> decide) rest)]
    rcases hc with rfl | rfl <;> rfl

/-- A name and an equals sign before an expression make a named argument. -/
theorem namedArgument?_label (offset : Nat) (word : Word) (e : Expr) :
    ∃ value, Text.namedArgument? ⟨offset, Expr.argumentChars (some word, e.masked)⟩ =
      some ⟨word.text, offset, value⟩ := by
  refine ⟨(Slice.mk (offset + (byteLength word.text.toList + 1 + 1)) (' ' :: e.masked)).trim, ?_⟩
  show Text.namedArgument? ⟨offset, word.text.toList ++ (' ' :: '=' :: ' ' :: e.masked)⟩ = _
  rw [Text.namedArgument?, word?_word word (.cons (by decide) _)]
  show some (Text.NamedArgument.mk (String.ofList word.text.toList) _ _) = _
  rw [String.ofList_toList]
  rfl

/-- Where a named argument stands: its name, and the offset at which name and argument
start. -/
def place (argument : Text.NamedArgument) : String × Nat × Nat :=
  (argument.name, argument.offset, argument.offset)

/-- **The named arguments of an argument list are those that were written.** -/
theorem namedArguments_inside (offset : Nat) (given : List (Option Word × Expr)) :
    (Text.namedArguments ⟨offset, Expr.insideMasked given⟩).map place =
      Laid.named offset (Expr.mapArguments Expr.laid given) := by
  rw [Text.namedArguments, splitArguments_inside]
  induction given generalizing offset with
  | nil => rfl
  | cons argument given ih =>
    obtain ⟨word, e⟩ := argument
    show ((⟨offset, Expr.argumentChars (word, e.masked)⟩ ::
      partsOf (Laid.next offset (word, e.laid)) given).filterMap _).map place =
      (word.map fun word => (word.text, offset, offset)).toList ++
        Laid.named (Laid.next offset (word, e.laid)) (Expr.mapArguments Expr.laid given)
    rw [← ih]
    -- an argument without a name gives nothing
    cases word with
    | none =>
      have hvalue : Text.namedArgument? ⟨offset, Expr.argumentChars (none, e.masked)⟩ = none :=
        namedArgument?_expr offset e
      rw [List.filterMap_cons_none hvalue]
      rfl
    | some word =>
      obtain ⟨value, hvalue⟩ := namedArgument?_label offset word e
      rw [List.filterMap_cons_some hvalue]
      rfl

-- ---------------------------------------------------------------------------
-- Texts without call sites
-- ---------------------------------------------------------------------------

/-- Nothing is found at a character that starts no name. -/
theorem callSitesFrom_skip {c : Char} (hc : isWordStart c = false) (previous : Option Char)
    (offset : Nat) (cs : List Char) :
    Text.callSitesFrom previous offset (c :: cs) =
      Text.callSitesFrom (some c) (offset + c.utf8Size) cs := by
  rw [Text.callSitesFrom, Indexed.startsName_eq, hc]
  rfl

/-- What stands before a character that starts no name does not matter. -/
theorem callSitesFrom_previous {rest : List Char} (h : Stops isWordStart rest)
    (previous : Option Char) (offset : Nat) :
    Text.callSitesFrom previous offset rest = Text.callSitesFrom none offset rest := by
  cases rest with
  | nil => rfl
  | cons c cs => rw [callSitesFrom_skip (h c rfl), callSitesFrom_skip (h c rfl)]

/-- Whether a character can go on the front of a call site: a name, the spaces behind it,
or the parenthesis. -/
def joinsSite (c : Char) : Bool :=
  isNameChar c || Text.isSpace c || c = '('

/-- What ends an operand does not join a call site. -/
theorem stops_joinsSite {rest : List Char} (h : EndsOperand rest) : Stops joinsSite rest :=
  h.stops (by decide)

/-- A text that stops a reader stops every reader that takes less. -/
theorem Stops.imp {p q : Char → Bool} {rest : List Char} (h : Stops p rest)
    (hq : ∀ c, q c = true → p c = true) : Stops q rest := by
  intro c hc
  exact Bool.eq_false_iff.mpr fun hqc => Bool.false_ne_true ((h c hc).symm.trans (hq c hqc))

/-- A name in a text ends inside of the text or with it. -/
theorem nameTail_inside {cs rest : List Char} (hrest : Stops isNameChar rest) :
    ∃ behind, (Text.nameTail (cs ++ rest)).2 = behind ++ rest ∧ behind <:+ cs := by
  have happend := Indexed.nameTail_append (cs ++ rest)
  cases rest with
  | nil =>
    rw [List.append_nil cs] at happend ⊢
    exact ⟨_, (List.append_nil _).symm, _, happend⟩
  | cons c rest =>
    have hc : c ∉ (Text.nameTail (cs ++ c :: rest)).1 := by
      intro hmem
      have hstop : isNameChar c = false := hrest c rfl
      rw [Indexed.isNameChar_of_mem_nameTail _ hmem] at hstop
      cases hstop
    obtain ⟨behind, hcs, hbehind⟩ := exists_append_of_notMem happend hc
    exact ⟨behind, hbehind, _, hcs.symm⟩

/-- Without a parenthesis there is no call site. -/
theorem callSiteAt?_eq_none {cs rest : List Char} (h : '(' ∉ cs) (hrest : Stops joinsSite rest)
    (offset : Nat) : Text.callSiteAt? offset (cs ++ rest) = none := by
  have hspace : rest.head?.any Text.isSpace = false := by
    have hstops : Stops Text.isSpace rest := hrest.imp fun c hc => by simp [joinsSite, hc]
    rw [Option.any_eq_false]
    exact hstops
  obtain ⟨behind, hbehind, hsuffix⟩ : ∃ behind,
      (Text.nameTail (cs ++ rest)).2 = behind ++ rest ∧ behind <:+ cs :=
    nameTail_inside (hrest.imp fun c hc => by simp [joinsSite, hc])
  unfold Text.callSiteAt?
  rcases hname : Text.nameTail (cs ++ rest) with ⟨name, tail⟩
  rw [hname] at hbehind
  obtain rfl : tail = behind ++ rest := hbehind
  dsimp only
  split
  · next inner hskip =>
    rw [Text.skipSpaces, (Indexed.span_append hspace).2] at hskip
    cases hdrop : behind.dropWhile Text.isSpace with
    -- the parenthesis would have to stand at the front of what follows
    | nil =>
      rw [hdrop] at hskip
      have hopen : joinsSite '(' = false := hrest '(' (by rw [← List.nil_append rest, hskip]; rfl)
      exact absurd hopen (by decide)
    -- or in the text itself
    | cons c cs =>
      rw [hdrop] at hskip
      obtain rfl : c = '(' := (List.cons.inj hskip).1
      have hmem : '(' ∈ behind.dropWhile Text.isSpace := by
        rw [hdrop]
        exact List.mem_cons_self
      exact (h (hsuffix.subset (List.dropWhile_suffix _ |>.subset hmem))).elim
  · rfl

/-- The search for call sites goes past a text without parentheses. -/
theorem callSitesFrom_quiet {cs rest : List Char} (h : '(' ∉ cs) (hrest : Stops joinsSite rest)
    (previous : Option Char) (offset : Nat) :
    Text.callSitesFrom previous offset (cs ++ rest) =
      Text.callSitesFrom none (offset + byteLength cs) rest := by
  induction cs generalizing previous offset with
  | nil =>
    refine callSitesFrom_previous (hrest.imp fun c hc => ?_) previous offset
    simp [joinsSite, isNameChar, Lexer.isWordChar_of_isWordStart hc]
  | cons c cs ih =>
    rw [List.cons_append, Text.callSitesFrom, ih (fun hmem => h (List.mem_cons_of_mem c hmem)),
      ← List.cons_append, callSiteAt?_eq_none h hrest, byteLength_cons, Nat.add_assoc]
    split <;> rfl

-- ---------------------------------------------------------------------------
-- Calls
-- ---------------------------------------------------------------------------

/-- The name of a function goes up to the parenthesis. -/
theorem nameTail_chain (function : Chain) (rest : List Char) :
    Text.nameTail (function.chars ++ '(' :: rest) = (function.chars, '(' :: rest) := by
  have hname : (Text.nameTail (function.chars ++ '(' :: rest)).1 = function.chars := by
    have hothers (others : List Word) : (Text.nameTail ((others.flatMap fun word =>
        '.' :: word.text.toList) ++ '(' :: rest)).1 =
          others.flatMap fun word => '.' :: word.text.toList := by
      induction others with
      | nil => rfl
      | cons word others ih =>
        have hstart : (word.text.toList ++ ((others.flatMap fun word =>
            '.' :: word.text.toList) ++ '(' :: rest)).head?.any isWordStart = true :=
          head?_word word _
        rw [List.flatMap_cons, List.append_assoc, List.cons_append, Text.nameTail,
          if_pos (by simp only [hstart]; rfl)]
        show '.' :: (Text.nameTail _).1 = _
        rw [Indexed.nameTail_word (List.all_eq_true.mp word.isWordChar), ih]
        rfl
    rw [Chain.chars, List.append_assoc,
      Indexed.nameTail_word (List.all_eq_true.mp function.first.isWordChar), hothers]
  -- what is left is what is not taken
  have happend := Indexed.nameTail_append (function.chars ++ '(' :: rest)
  rw [hname] at happend
  exact Prod.ext hname (List.append_cancel_left happend)

/-- A name with its namespaces is no keyword. -/
theorem ofSpelling?_chain (function : Chain) : Keyword.ofSpelling? function.text = none := by
  obtain ⟨first, others⟩ := function
  cases others with
  | nil =>
    rw [Chain.text, Chain.chars, List.flatMap_nil, List.append_nil, String.ofList_toList]
    exact first.notKeyword
  | cons word others =>
    -- the full stop is in no keyword
    have hall : ∀ keyword ∈ Keyword.all, '.' ∉ keyword.spelling.toList := by decide
    rw [Keyword.ofSpelling?, List.find?_eq_none]
    intro keyword hkeyword hspelling
    have hchars : keyword.spelling.toList = (Chain.mk first (word :: others)).chars := by
      rw [of_decide_eq_true hspelling, Chain.text, String.toList_ofList]
    refine hall keyword hkeyword ?_
    rw [hchars]
    exact List.mem_append_right _ List.mem_cons_self

/-- A name, and a balanced text in parentheses, are a call site. -/
theorem callSiteAt?_call (function : Chain) {inside : List Char} (h : Balanced true inside)
    {rest : List Char} (hrest : EndsOperand rest) (offset : Nat) :
    Text.callSiteAt? offset (function.chars ++ '(' :: (inside ++ ')' :: rest)) =
      some ⟨function.text, offset, ⟨offset + byteLength function.chars + 1, inside⟩, true,
        false⟩ := by
  -- what ends an operand is no arrow, so the site is no definition
  have harrow : Text.arrowFollows rest = false := by
    obtain ⟨c, cs, rfl, rfl | rfl | rfl⟩ := hrest <;> rfl
  have hclose : Text.upToClosing? '(' ')' 1 (inside ++ ')' :: rest) =
      some (inside, ')' :: rest) := by
    rw [h.upToClosing?_append Int.one_pos]
    show some (inside ++ [], ')' :: rest) = _
    rw [List.append_nil]
  have hskip : Text.skipSpaces ('(' :: (inside ++ ')' :: rest)) = '(' :: (inside ++ ')' :: rest) :=
    List.dropWhile_cons_of_neg (by decide)
  have hblanks : ('(' :: (inside ++ ')' :: rest)).takeWhile Text.isSpace = [] :=
    List.takeWhile_cons_of_neg (by decide)
  have hname : String.ofList function.chars = function.text := rfl
  unfold Text.callSiteAt?
  simp only [nameTail_chain, hskip, hblanks, hname, ofSpelling?_chain, hclose]
  simp [Chain.text, harrow]

/-- The search finds a call, and goes on between its parentheses. -/
theorem callSitesFrom_call (function : Chain) {inside : List Char} (h : Balanced true inside)
    {rest : List Char} (hrest : EndsOperand rest) {previous : Option Char}
    (hprevious : previous.any isNameChar = false) (offset : Nat) :
    Text.callSitesFrom previous offset (function.chars ++ '(' :: (inside ++ ')' :: rest)) =
      ⟨function.text, offset, ⟨offset + byteLength function.chars + 1, inside⟩, true, false⟩ ::
        Text.callSitesFrom (some '(') (offset + byteLength function.chars + 1)
          (inside ++ ')' :: rest) := by
  have hsite := callSiteAt?_call function h hrest offset
  have hchars : ∀ c ∈ function.chars, isNameChar c = true := by
    intro c hc
    have hname := nameTail_chain function []
    refine Indexed.isNameChar_of_mem_nameTail (function.chars ++ '(' :: []) ?_
    rwa [hname]
  obtain ⟨c, name, hcons, hc⟩ := function.exists_cons
  rw [hcons] at hchars hsite ⊢
  obtain ⟨hfirst, hname⟩ := List.forall_mem_cons.mp hchars
  have hstart : Text.startsName previous c = true := by
    rw [Indexed.startsName_eq, hc, hprevious]
    rfl
  -- behind its first character no name starts inside of the name
  have hinside := Indexed.scanNames_inside (fun i cs => (Text.callSiteAt? i cs).toList) hname hfirst
    (offset + c.utf8Size) ('(' :: (inside ++ ')' :: rest))
  rw [← Indexed.callSitesFrom_eq_scanNames, ← Indexed.callSitesFrom_eq_scanNames,
    callSitesFrom_skip (by decide), Nat.add_assoc offset] at hinside
  rw [List.cons_append, Text.callSitesFrom, if_pos hstart, hinside, ← List.cons_append, hsite]
  rfl

-- ---------------------------------------------------------------------------
-- Scans
-- ---------------------------------------------------------------------------

/-- A call site as it is seen in a text: its name, its offset and its named arguments. -/
def siteOf (site : Text.CallSite) : Site :=
  ⟨site.name, site.offset, (Text.namedArguments site.arguments).map place⟩

/-- The call sites that are found are these. All are closed, and none is the head of a
definition. -/
structure Seen (found : List Text.CallSite) (sites : List Site) : Prop where
  sites : found.map siteOf = sites
  whole : ∀ site ∈ found, site.isClosed = true ∧ site.isDefinition = false

namespace Seen

theorem nil : Seen [] [] :=
  ⟨rfl, nofun⟩

/-- A site in front that is closed and defines nothing. -/
theorem cons {site : Text.CallSite} {found : List Text.CallSite} {sites : List Site}
    (h : Seen found sites) (hclosed : site.isClosed = true)
    (hdefinition : site.isDefinition = false) : Seen (site :: found) (siteOf site :: sites) :=
  ⟨congrArg (siteOf site :: ·) h.sites,
    List.forall_mem_cons.mpr ⟨⟨hclosed, hdefinition⟩, h.whole⟩⟩

theorem append {a b : List Text.CallSite} {sites others : List Site} (ha : Seen a sites)
    (hb : Seen b others) : Seen (a ++ b) (sites ++ others) :=
  ⟨by rw [List.map_append, ha.sites, hb.sites], List.forall_mem_append.mpr ⟨ha.whole, hb.whole⟩⟩

end Seen

/-- In a text the search for call sites finds these sites, whatever follows the text and
wherever it stands, if no name goes on into it. -/
def Scans (cs : List Char) (sites : Nat → List Site) : Prop :=
  ∀ (previous : Option Char) (offset : Nat) (rest : List Char),
    previous.any isNameChar = false → EndsOperand rest →
      ∃ found, Text.callSitesFrom previous offset (cs ++ rest) =
          found ++ Text.callSitesFrom none (offset + byteLength cs) rest ∧
        Seen found (sites offset)

namespace Scans

/-- Without parentheses nothing is found. -/
theorem quiet {cs : List Char} (h : '(' ∉ cs) : Scans cs fun _ => [] := by
  intro previous offset rest _ hrest
  exact ⟨[], callSitesFrom_quiet h (stops_joinsSite hrest) previous offset, .nil⟩

/-- A name and an equals sign before a text add no sites. -/
theorem behindEquals {front cs : List Char} {sites : Nat → List Site} (hfront : '(' ∉ front)
    (h : Scans cs sites) :
    Scans (front ++ '=' :: ' ' :: cs) fun offset => sites (offset + byteLength front + 2) := by
  intro previous offset rest _ hrest
  obtain ⟨found, hfound, hseen⟩ := h (some ' ') (offset + byteLength front + 2) rest rfl hrest
  refine ⟨found, ?_, hseen⟩
  have hequals : Stops joinsSite ('=' :: ' ' :: (cs ++ rest)) := .cons (by decide) _
  have hwidth : byteLength (front ++ '=' :: ' ' :: cs) = byteLength front + 2 + byteLength cs := by
    rw [byteLength_append, Nat.add_assoc]
    show byteLength front + (1 + (1 + byteLength cs)) = _
    omega
  rw [hwidth, List.append_assoc, List.cons_append, List.cons_append,
    callSitesFrom_quiet hfront hequals, callSitesFrom_skip (by decide),
    callSitesFrom_skip (by decide), ← Nat.add_assoc, ← Nat.add_assoc, ← hfound]
  rfl

theorem atom (a : Atom) : Scans a.masked fun _ => [] := by
  refine quiet fun hmem => ?_
  rcases mem_atom hmem with h | h | h <;> exact absurd h (by decide)

/-- The name of an argument adds no site. -/
theorem label {cs : List Char} {sites : Nat → List Site} (h : Scans cs sites)
    (word : Option Word) :
    Scans (Expr.argumentChars (word, cs)) fun offset =>
      sites (offset + width (Expr.labelPieces word)) := by
  cases word with
  | none => exact h
  | some word =>
    have hname : '(' ∉ word.text.toList ++ [' '] := by
      intro hmem
      rcases List.mem_append.mp hmem with hmem | hmem
      · exact absurd (Bare.word word _ hmem) (by decide)
      · exact absurd hmem (by decide)
    have hscans := behindEquals hname h
    have hwidth : width (Expr.labelPieces (some word)) =
        byteLength (word.text.toList ++ [' ']) + 2 := by
      rw [byteLength_append]
      exact byteLength_append word.text.toList [' ', '=', ' ']
    rw [hwidth]
    rw [List.append_assoc] at hscans
    exact hscans

/-- In arguments the sites of each are found. -/
theorem joined {given : List (Option Word × Expr)}
    (h : ∀ argument ∈ given, Scans argument.2.masked argument.2.sites) :
    Scans (Expr.insideMasked given) fun offset =>
      Laid.inner offset (Expr.mapArguments Expr.laid given) := by
  induction given with
  | nil =>
    intro previous offset rest _ hrest
    exact ⟨[], callSitesFrom_previous (hrest.stops (by decide)) previous offset, .nil⟩
  | cons argument others ih =>
    obtain ⟨word, e⟩ := argument
    obtain ⟨hargument, hothers⟩ := List.forall_mem_cons.mp h
    have hfirst := hargument.label word
    intro previous offset rest hprevious hrest
    cases others with
    | nil =>
      obtain ⟨found, hfound, hseen⟩ := hfirst previous offset rest hprevious hrest
      refine ⟨found, hfound, ?_⟩
      show Seen found (_ ++ [])
      rwa [List.append_nil]
    -- the sites of the first argument, and those behind the comma
    | cons next others =>
      let inside := Expr.insideMasked (next :: others)
      obtain ⟨found, hfound, hseen⟩ := hfirst previous offset (',' :: ' ' :: (inside ++ rest))
        hprevious (.comma _)
      obtain ⟨later, hlater, hseen'⟩ := ih hothers (some ' ') (Laid.next offset (word, e.laid)) rest
        rfl hrest
      refine ⟨found ++ later, ?_, hseen.append hseen'⟩
      have hwidth : byteLength (Expr.argumentChars (word, e.masked) ++ (',' :: ' ' :: inside)) =
          byteLength (Expr.argumentChars (word, e.masked)) + 2 + byteLength inside := by
        rw [byteLength_append, Nat.add_assoc]
        show _ + (1 + (1 + byteLength inside)) = _
        omega
      show Text.callSitesFrom previous offset
        (Expr.argumentChars (word, e.masked) ++ (',' :: ' ' :: inside) ++ rest) = _ ++
          Text.callSitesFrom none (offset + byteLength (Expr.argumentChars (word, e.masked) ++
            (',' :: ' ' :: inside))) rest
      rw [callSitesFrom_skip (by decide), callSitesFrom_skip (by decide)] at hfound
      rw [next_eq] at hlater
      rw [hwidth, List.append_assoc, List.cons_append, List.cons_append, hfound, List.append_assoc,
        ← Nat.add_assoc, ← Nat.add_assoc, ← hlater]
      rfl

/-- A call is found before the sites in its arguments. -/
theorem call (function : Chain) {given : List (Option Word × Expr)}
    (h : ∀ argument ∈ given, Scans argument.2.masked argument.2.sites) :
    Scans (function.chars ++ ('(' :: (Expr.insideMasked given ++ [')'])))
      (Laid.call function (Expr.mapArguments Expr.laid given)).sites := by
  intro previous offset rest hprevious hrest
  obtain ⟨found, hfound, hseen⟩ := joined h (some '(') (offset + byteLength function.chars + 1)
    (')' :: rest) rfl (.parenRight rest)
  have hwidth : byteLength (function.chars ++ ('(' :: (Expr.insideMasked given ++ [')']))) =
      byteLength function.chars + 1 + byteLength (Expr.insideMasked given) + 1 := by
    rw [byteLength_append, byteLength_cons, byteLength_append]
    show _ + (1 + (_ + 1)) = _
    omega
  have hpieces : width function.pieces = byteLength function.chars :=
    congrArg byteLength (Gives.chain function).1
  let site : Text.CallSite := ⟨function.text, offset,
    ⟨offset + byteLength function.chars + 1, Expr.insideMasked given⟩, true, false⟩
  refine ⟨site :: found, ?_, ?_⟩
  · rw [callSitesFrom_skip (by decide), callSitesFrom_previous (hrest.stops (by decide))] at hfound
    rw [List.append_assoc, List.cons_append, List.append_assoc, List.singleton_append,
      callSitesFrom_call function (Balanced.inside given) hrest hprevious, hfound, hwidth]
    simp only [← Nat.add_assoc]
    rfl
  -- the call is the first site, and its named arguments are the written ones
  · have hsite : siteOf site = ⟨function.text, offset,
        Laid.named (offset + byteLength function.chars + 1) (Expr.mapArguments Expr.laid given)⟩ :=
      congrArg (Site.mk _ _) (namedArguments_inside _ given)
    have hsites : Seen (site :: found) (siteOf site :: _) := hseen.cons rfl rfl
    rw [hsite, ← hpieces] at hsites
    exact hsites

/-- **In an expression the search for call sites finds its calls.** -/
theorem expr (e : Expr) : Scans e.masked e.sites := by
  induction e using Expr.induction with
  | atom a => exact atom a
  | call function positional named ih =>
    have h := call function ih
    rwa [← Expr.masked_call, ← Expr.laid_call] at h

/-- The head of a declaration adds no site. -/
theorem head (isVar : Bool) (type : Option TypeName) (name : Word) {op : Operator}
    (hop : op = .assignment ∨ op = .reassignment) (value : Expr) :
    Scans (Statement.headChars isVar type name op ++ value.masked) fun offset =>
      value.sites (offset + width (Statement.headPieces isVar type name op)) := by
  obtain ⟨front, hchars, hfront⟩ := headChars_eq isVar type name hop
  have hopen : '(' ∉ front := fun hmem =>
    ne_parenLeft_of_isHeadChar (List.all_eq_true.mp hfront '(' hmem) rfl
  have hscans := behindEquals hopen (expr value)
  have hwidth : width (Statement.headPieces isVar type name op) = byteLength front + 2 := by
    have h := congrArg byteLength hchars
    rwa [byteLength_append] at h
  rw [hwidth, hchars, List.append_assoc]
  exact hscans

/-- The sites of a statement are found. -/
theorem statement (stmt : Statement) : Scans stmt.masked fun offset => stmt.sites offset := by
  cases stmt with
  | call function positional named => exact expr (.call function positional named)
  | declare isVar type name value => exact head isVar type name (.inl rfl) value
  | reassign type name value => exact head false type name (.inr rfl) value

/-- In a script the sites of all statements are found. -/
theorem script (script : List Statement) {previous : Option Char}
    (hprevious : previous.any isNameChar = false) (offset : Nat) :
    Seen (Text.callSitesFrom previous offset (script.flatMap fun stmt => stmt.masked ++ ['\n']))
      (sites offset script) := by
  induction script generalizing previous offset with
  | nil => exact .nil
  | cons stmt script ih =>
    let rest := script.flatMap fun stmt => stmt.masked ++ ['\n']
    obtain ⟨found, hfound, hseen⟩ := statement stmt previous offset ('\n' :: rest) hprevious
      (.newline rest)
    have hwidth : byteLength stmt.masked = width stmt.line :=
      (Masks.statement stmt).byteLength_eq
    rw [callSitesFrom_skip (by decide), hwidth] at hfound
    rw [List.flatMap_cons, List.append_assoc, List.singleton_append, hfound]
    exact hseen.append (ih rfl _)

end Scans

-- ---------------------------------------------------------------------------
-- Text and tree
-- ---------------------------------------------------------------------------

/-- **Text and tree have the same calls.** The call sites in the masked text of a printed
script are the calls in its tree, in the same order: with the same names, at the same
offsets, and with the same named arguments at the same offsets. All of them are closed,
and none is the head of a definition. -/
theorem callSites_agree_with_calls (script : List Statement) (allowed : Nat)
    (h : ∀ stmt ∈ script, stmt.height ≤ 127) :
    (Text.callSites (Text.mask (print script).toList)).map siteOf =
      ((parse (print script) allowed).program.calls.flatMap Call.walk).map Call.site ∧
    ∀ site ∈ Text.callSites (Text.mask (print script).toList),
      site.isClosed = true ∧ site.isDefinition = false := by
  have hseen : Seen (Text.callSites (Text.mask (print script).toList)) (sites 0 script) := by
    rw [mask_print]
    exact Scans.script script rfl 0
  exact ⟨hseen.sites.trans (sites_parse script allowed h).symm, hseen.whole⟩

/-- A script of five lines, searched and parsed. -/
theorem callSites_agree_with_calls_sample :
    (∀ stmt ∈ sample, stmt.height ≤ 127) ∧
    (Text.callSites (Text.mask (print sample).toList)).map siteOf =
      ((parse (print sample) 10).program.calls.flatMap Call.walk).map Call.site ∧
    ∀ site ∈ Text.callSites (Text.mask (print sample).toList),
      site.isClosed = true ∧ site.isDefinition = false :=
  have h : ∀ stmt ∈ sample, stmt.height ≤ 127 := by decide
  ⟨h, callSites_agree_with_calls sample 10 h⟩

end PineCheck.Script
