import Mathlib.Data.List.Forall2
import PineCheck.Proofs.Breaks

/-!
# PineCheck — carriage returns before line breaks

A script that is written with a carriage return before every line break reads like
the script without them. The scan skips carriage returns like other blanks, with two
exceptions: a line comment goes on up to the line break and takes the carriage return
in, and so does a string that is not closed on its line. In either case the next token
is the line break.

`Facing` tells how the cursors of two scans stand to each other, of which the second
goes over the script with carriage returns: at the same column of the same line, or both
in front of the same line break.

Main result:

* `lex_withReturns` — the two scripts have the same tokens and faults on the same lines,
  but for the texts of comments, and in the same columns, but for line breaks.
-/

namespace PineCheck

/-- A text with a carriage return before every line break. -/
def withReturns (cs : List Char) : List Char :=
  cs.flatMap fun c => if c = '\n' then ['\r', '\n'] else [c]

/-- A reading without the text of a comment. -/
def plainReading : Reading → Reading
  | .ok (.comment _) => .ok (.comment "")
  | reading => reading

/-- Two tokens say the same, up to the text of a comment, on the same line and, unless
they are line breaks, in the same column. -/
structure Lexed.Alike (lexed lexed' : Lexed) : Prop where
  reading : plainReading lexed'.reading = plainReading lexed.reading
  line : lexed'.span.line = lexed.span.line
  column : lexed.reading ≠ .ok .newline → lexed'.span.column = lexed.span.column

-- ---------------------------------------------------------------------------
-- Texts with carriage returns
-- ---------------------------------------------------------------------------

@[simp] theorem withReturns_nil : withReturns [] = [] := rfl

@[simp] theorem withReturns_newline (cs : List Char) :
    withReturns ('\n' :: cs) = '\r' :: '\n' :: withReturns cs := rfl

/-- Only a line break is changed. -/
theorem withReturns_cons {c : Char} (hc : c ≠ '\n') (cs : List Char) :
    withReturns (c :: cs) = c :: withReturns cs := by
  rw [withReturns, List.flatMap_cons, if_neg hc]
  rfl

@[simp] theorem withReturns_append (a b : List Char) :
    withReturns (a ++ b) = withReturns a ++ withReturns b :=
  List.flatMap_append

/-- A text without line breaks stays as it is. -/
theorem withReturns_of_notMem {cs : List Char} (h : '\n' ∉ cs) : withReturns cs = cs := by
  induction cs with
  | nil => rfl
  | cons c cs ih =>
    obtain ⟨hc, hcs⟩ := List.ne_and_not_mem_of_not_mem_cons h
    rw [withReturns_cons hc.symm, ih hcs]

/-- The first character stays as it is, unless it is a line break. -/
theorem head?_withReturns {c : Char} (hc : c ≠ '\n' ∧ c ≠ '\r') (cs : List Char) :
    (withReturns cs).head? = some c ↔ cs.head? = some c := by
  cases cs with
  | nil => exact Iff.rfl
  | cons d cs =>
    by_cases hd : d = '\n'
    · simp [hd, hc.1.symm, hc.2.symm]
    · rw [withReturns_cons hd, List.head?_cons, List.head?_cons]

/-- What is taken up to a line break at the latest stays as it is. -/
theorem takeWhile_withReturns {p : Char → Bool} (hp : p '\n' = false ∧ p '\r' = false)
    (cs : List Char) : (withReturns cs).takeWhile p = cs.takeWhile p := by
  induction cs with
  | nil => rfl
  | cons c cs ih =>
    by_cases hc : c = '\n'
    · simp [hc, hp]
    · rw [withReturns_cons hc, List.takeWhile_cons, List.takeWhile_cons, ih]

/-- What is dropped up to a line break is the same. -/
theorem dropWhile_withReturns {p : Char → Bool} (hp : p '\n' = false ∧ p '\r' = false)
    (cs : List Char) : (withReturns cs).dropWhile p = withReturns (cs.dropWhile p) := by
  induction cs with
  | nil => rfl
  | cons c cs ih =>
    by_cases hc : c = '\n'
    · simp [hc, hp]
    · rw [withReturns_cons hc, List.dropWhile_cons, List.dropWhile_cons, ih]
      split
      · rfl
      · rw [withReturns_cons hc]

/-- Two places are on the same line and in the same column. -/
def Position.Level (p q : Position) : Prop :=
  q.line = p.line ∧ q.column = p.column

/-- Carriage returns before line breaks move neither lines nor columns. -/
theorem Position.Level.after {p q : Position} (h : p.Level q) (cs : List Char) :
    (p.after cs).Level (q.after (withReturns cs)) := by
  induction cs generalizing p q with
  | nil => exact h
  | cons c cs ih =>
    by_cases hc : c = '\n'
    · subst hc
      rw [withReturns_newline]
      exact ih ⟨congrArg (· + 1) h.1, rfl⟩
    · rw [withReturns_cons hc]
      refine ih ?_
      rw [Position.advance, Position.advance, if_neg hc, if_neg hc]
      exact ⟨h.1, congrArg (· + 1) h.2⟩

/-- Tokens at places on the same line and in the same column. -/
theorem Lexed.Alike.of_level {reading reading' : Reading} {p q p' q' : Position} (h : p.Level q)
    (hreading : plainReading reading' = plainReading reading) :
    Lexed.Alike ⟨reading, Span.between p p'⟩ ⟨reading', Span.between q q'⟩ :=
  ⟨hreading, h.1, fun _ => h.2⟩

namespace Lexer

-- ---------------------------------------------------------------------------
-- Lexemes
-- ---------------------------------------------------------------------------

/-- How a lexeme stands to that of the text with carriage returns: they cut the text at the
same place, or the second takes in the carriage return before the line break at which the
first one ends. -/
structure Returned (front front' : Lexeme) : Prop where
  reading : front'.reading.map plainReading = front.reading.map plainReading
  cut : (front'.taken = withReturns front.taken ∧ front'.rest = withReturns front.rest) ∨
    ∃ behind, front'.taken = front.taken ++ ['\r'] ∧ front.rest = '\n' :: behind ∧
      front'.rest = '\n' :: withReturns behind

/-- How a lexeme of a line stands to that of the line with a carriage return behind it. -/
inductive Followed (front front' : Lexeme) : Prop
  | ends (same : front' = front.followedBy ['\r'])
  | goesOn (reading : front'.reading.map plainReading = front.reading.map plainReading)
      (taken : front'.taken = front.taken ++ ['\r']) (rest : front.rest = [])
      (rest' : front'.rest = [])

/-- Up to a carriage return behind its line, a string is closed, or it takes the carriage
return in. -/
theorem stringBody_return {quote : Char} {v : List Char} (hv : '\n' ∉ v) (hquote : quote ≠ '\r') :
    stringBody quote (v ++ ['\r']) =
        ((stringBody quote v).1, (stringBody quote v).2.1, (stringBody quote v).2.2 ++ ['\r']) ∨
      (stringBody quote v = (none, v, []) ∧
        stringBody quote (v ++ ['\r']) = (none, v ++ ['\r'], [])) := by
  induction v using stringBody.induct quote with
  -- the return goes into a string that is not closed
  | case1 =>
    refine Or.inr ⟨rfl, ?_⟩
    rw [List.nil_append, stringBody_plain ⟨by decide, by decide, hquote.symm⟩]
    rfl
  | case2 => exact absurd List.mem_cons_self hv
  -- a backslash at the end escapes the return
  | case3 => exact Or.inr ⟨rfl, stringBody_escaped quote (by decide) []⟩
  | case4 => simp at hv
  | case5 d ds hd _ _ _ _ _ ih =>
    have hds : '\n' ∉ ds := fun h => hv (List.mem_cons_of_mem _ (List.mem_cons_of_mem _ h))
    rw [List.cons_append, List.cons_append, stringBody_escaped quote hd,
      stringBody_escaped quote hd]
    rcases ih hds with h | ⟨h, h'⟩
    · exact Or.inl (by rw [h])
    · exact Or.inr ⟨by rw [h]; rfl, by rw [h']; rfl⟩
  | case6 ds hnewline hslash =>
    rw [List.cons_append, stringBody_quote ⟨hnewline, hslash⟩,
      stringBody_quote ⟨hnewline, hslash⟩]
    exact Or.inl rfl
  | case7 c cs hc hslash hclose _ _ _ _ ih =>
    have hcs : '\n' ∉ cs := fun h => hv (List.mem_cons_of_mem _ h)
    rw [List.cons_append, stringBody_plain ⟨hc, hslash, hclose⟩,
      stringBody_plain ⟨hc, hslash, hclose⟩]
    rcases ih hcs with h | ⟨h, h'⟩
    · exact Or.inl (by rw [h])
    · exact Or.inr ⟨by rw [h]; rfl, by rw [h']; rfl⟩

/-- A string is not ended by a return at the end of its line. -/
theorem stringLexeme_return {quote : Char} {v : List Char} (hv : '\n' ∉ v)
    (hquote : quote ≠ '\r') :
    Followed (stringLexeme quote v) (stringLexeme quote (v ++ ['\r'])) := by
  rcases stringBody_return hv hquote with h | ⟨h, h'⟩
  · refine .ends ?_
    rw [stringLexeme, stringLexeme, h]
    rcases stringBody quote v with ⟨contents, taken, rest⟩
    cases contents <;> rfl
  · rw [stringLexeme, stringLexeme, h, h']
    exact .goesOn rfl rfl rfl rfl

/-- What is read on a line either ends before the carriage return behind the line, or goes
on up to the end of the line and takes the carriage return in. -/
theorem lexeme_return {c : Char} {v : List Char} (hc : c ≠ '\n') (hv : '\n' ∉ v)
    (hblock : ¬ (c = '/' ∧ v.head? = some '*')) :
    Followed (lexeme c v) (lexeme c (v ++ ['\r'])) := by
  refine lexeme_append_break (Or.inr rfl) hblock (fun _ => .ends rfl) (fun hquote => ?_) ?_
  · refine stringLexeme_return hv ?_
    rcases hquote with rfl | rfl <;> decide
  · have hline : '\n' ∉ c :: v := List.not_mem_cons_of_ne_of_not_mem hc.symm hv
    have hreturn : '\n' ∉ c :: v ++ ['\r'] := by
      simp [hc.symm, hv]
    rw [lineCommentLexeme_of_notMem hline, lineCommentLexeme_of_notMem hreturn]
    exact .goesOn rfl rfl rfl rfl

/-- The end of a block comment is found past carriage returns. -/
theorem blockBody_withReturns (cs : List Char) :
    blockBody (withReturns cs) =
      (withReturns (blockBody cs).1, withReturns (blockBody cs).2) := by
  induction cs with
  | nil => rfl
  | cons c cs ih =>
    by_cases hclose : c = '*' ∧ cs.head? = some '/'
    · obtain ⟨rfl, hslash⟩ := hclose
      obtain ⟨tail, rfl⟩ := List.head?_eq_some_iff.mp hslash
      rfl
    rw [blockBody_cons_of_neg hclose]
    by_cases hc : c = '\n'
    · rw [hc, withReturns_newline, withReturns_newline, blockBody_cons_of_neg (by simp),
        blockBody_cons_of_neg (by simp), ih]
    · have hopen : ¬ (c = '*' ∧ (withReturns cs).head? = some '/') := by
        rwa [head?_withReturns (by decide)]
      rw [withReturns_cons hc, withReturns_cons hc, blockBody_cons_of_neg hopen, ih]

/-- Carriage returns before line breaks make no difference to a lexeme, but for the end
of what goes on up to a line break. -/
theorem lexeme_withReturns {c : Char} {cs : List Char} (hc : c ≠ '\n') :
    Returned (lexeme c cs) (lexeme c (withReturns cs)) := by
  by_cases hblock : c = '/' ∧ cs.head? = some '*'
  · obtain ⟨rfl, hstar⟩ := hblock
    obtain ⟨inside, rfl⟩ := List.head?_eq_some_iff.mp hstar
    rw [withReturns_cons (by decide), lexeme_block, lexeme_block, blockBody_withReturns]
    exact ⟨rfl, Or.inl ⟨rfl, rfl⟩⟩
  by_cases hmem : '\n' ∈ cs
  · obtain ⟨v, behind, rfl, hv⟩ := List.eq_append_cons_of_mem hmem
    have hreturns : withReturns (v ++ '\n' :: behind) =
        v ++ ['\r'] ++ '\n' :: withReturns behind := by
      rw [withReturns_append, withReturns_newline, withReturns_of_notMem hv, List.append_assoc]
      rfl
    have hstar := head?_append_cons_eq_some (c := '*') (x := '\n') (by decide) v behind
    have hstar' := head?_append_cons_eq_some (c := '*') (x := '\r') (by decide) v []
    rw [hstar] at hblock
    have hfollowed := lexeme_return hc hv hblock
    rw [hreturns, lexeme_append_newline hblock, lexeme_append_newline (by rwa [hstar'])]
    have hcut := lexeme_taken_append_rest c v
    have hline : '\n' ∉ c :: v := List.not_mem_cons_of_ne_of_not_mem hc.symm hv
    rw [← hcut] at hline
    cases hfollowed with
    | ends same =>
      rw [same]
      refine ⟨rfl, Or.inl ⟨?_, ?_⟩⟩
      · exact (withReturns_of_notMem fun h => hline (List.mem_append_left _ h)).symm
      · show (lexeme c v).rest ++ ['\r'] ++ '\n' :: withReturns behind =
          withReturns ((lexeme c v).rest ++ '\n' :: behind)
        rw [withReturns_append, withReturns_newline,
          withReturns_of_notMem fun h => hline (List.mem_append_right _ h), List.append_assoc]
        rfl
    | goesOn reading taken rest rest' =>
      refine ⟨reading, Or.inr ⟨behind, taken, ?_, ?_⟩⟩
      · rw [Lexeme.followedBy, rest, List.nil_append]
      · rw [Lexeme.followedBy, rest', List.nil_append]
  · have hcut := lexeme_taken_append_rest c cs
    have hline : '\n' ∉ c :: cs := List.not_mem_cons_of_ne_of_not_mem hc.symm hmem
    rw [← hcut] at hline
    rw [withReturns_of_notMem hmem]
    refine ⟨rfl, Or.inl ⟨?_, ?_⟩⟩
    · exact (withReturns_of_notMem fun h => hline (List.mem_append_left _ h)).symm
    · exact (withReturns_of_notMem fun h => hline (List.mem_append_right _ h)).symm

-- ---------------------------------------------------------------------------
-- Two scans
-- ---------------------------------------------------------------------------

/-- How the cursors of the two scans stand to each other. -/
inductive Facing (cursor cursor' : Cursor) : Prop
  | level (position : cursor.position.Level cursor'.position)
      (rest : cursor'.rest = withReturns cursor.rest)
  | atBreak {behind : List Char} (line : cursor'.position.line = cursor.position.line)
      (rest : cursor.rest = '\n' :: behind) (rest' : cursor'.rest = '\n' :: withReturns behind)

/-- A line is blank with a carriage return at its end as without one. -/
theorem isBlankLine_withReturns (cs : List Char) :
    isBlankLine (withReturns cs) = isBlankLine cs := by
  cases cs with
  | nil => rfl
  | cons c cs =>
    by_cases hc : c = '\n'
    · rw [hc]
      rfl
    · have hslash := head?_withReturns (c := '/') (by decide) cs
      rw [withReturns_cons hc, isBlankLine, isBlankLine, Bool.eq_iff_iff]
      simp only [Bool.or_eq_true, Bool.and_eq_true, beq_iff_eq, hslash]

theorem fitLine_withReturns (blocks : List Nat) (line : List Char) :
    fitLine blocks (withReturns line) = fitLine blocks line := by
  have hspace : Text.isSpace '\n' = false ∧ Text.isSpace '\r' = false := ⟨rfl, rfl⟩
  rw [fitLine, fitLine, takeWhile_withReturns hspace, dropWhile_withReturns hspace,
    isBlankLine_withReturns]

theorem forall₂_replicate {α β : Type} {r : α → β → Prop} {a : α} {b : β} (h : r a b) (n : Nat) :
    List.Forall₂ r (List.replicate n a) (List.replicate n b) := by
  induction n with
  | zero => exact .nil
  | succ n ih => exact .cons h ih

/-- Spaces and tabs move two places alike. -/
theorem level_after_blanks {p q : Position} (h : p.Level q) (line : List Char) :
    (p.after (line.takeWhile Text.isSpace)).Level (q.after (line.takeWhile Text.isSpace)) := by
  have hnone : '\n' ∉ line.takeWhile Text.isSpace := by
    intro hmem
    have hspace := List.mem_takeWhile_imp hmem
    revert hspace
    decide
  have hafter := h.after (line.takeWhile Text.isSpace)
  rwa [withReturns_of_notMem hnone] at hafter

/-- The two scans give the same marks of layout at the start of a line. -/
theorem openLine_alike {p q : Position} (h : p.Level q) (blocks : List Nat)
    (line : List Char) :
    List.Forall₂ Lexed.Alike (openLine ⟨p, blocks, line⟩).1
      (openLine ⟨q, blocks, withReturns line⟩).1 := by
  have hspace : Text.isSpace '\n' = false ∧ Text.isSpace '\r' = false := ⟨rfl, rfl⟩
  rw [openLine_eq_fitLine, openLine_eq_fitLine, fitLine_withReturns, takeWhile_withReturns hspace]
  refine List.rel_append (forall₂_replicate (.of_level (level_after_blanks h line) rfl) _) ?_
  split
  · exact .cons (.of_level h rfl) .nil
  · exact .nil

/-- Behind the blanks of a line, the two scans face each other. -/
theorem openLine_facing {p q : Position} (h : p.Level q) (blocks : List Nat)
    (line : List Char) :
    Facing (openLine ⟨p, blocks, line⟩).2 (openLine ⟨q, blocks, withReturns line⟩).2 ∧
      (openLine ⟨q, blocks, withReturns line⟩).2.blocks =
        (openLine ⟨p, blocks, line⟩).2.blocks := by
  have hspace : Text.isSpace '\n' = false ∧ Text.isSpace '\r' = false := ⟨rfl, rfl⟩
  rw [openLine_eq_fitLine, openLine_eq_fitLine, fitLine_withReturns, takeWhile_withReturns hspace,
    dropWhile_withReturns hspace]
  exact ⟨.level (level_after_blanks h line) rfl, rfl⟩

/-- In front of a line break, the second scan skips the carriage return, unless that is in the
token before. -/
theorem Facing.scan_eq {p : Position} {blocks : List Nat} {cs : List Char} {cursor' : Cursor}
    (h : Facing ⟨p, blocks, '\n' :: cs⟩ cursor') :
    ∃ q, q.line = p.line ∧
      scan cursor' = scan ⟨q, cursor'.blocks, '\n' :: withReturns cs⟩ := by
  obtain ⟨q, blocks', rest'⟩ := cursor'
  cases h with
  | level position rest =>
    refine ⟨q.after ['\r'], position.1, ?_⟩
    obtain rfl : rest' = '\r' :: '\n' :: withReturns cs := rest
    rw [scan_cons _ _ _ (by decide)]
    rfl
  | atBreak line rest rest' =>
    obtain ⟨-, rfl⟩ := List.cons.inj rest
    exact ⟨q, line, by rw [← rest']⟩

/-- Lexemes that stand to each other like this are read alike. -/
theorem Returned.alike {front front' : Lexeme} (h : Returned front front') {p q : Position}
    (position : p.Level q) :
    List.Forall₂ Lexed.Alike
      (front.reading.toList.map (⟨·, Span.between p (p.after front.taken)⟩))
      (front'.reading.toList.map (⟨·, Span.between q (q.after front'.taken)⟩)) := by
  have hreading := h.reading
  cases hfront : front.reading with
  | none =>
    rw [hfront, Option.map_none, Option.map_eq_none_iff] at hreading
    rw [hreading]
    exact .nil
  | some reading =>
    rw [hfront] at hreading
    obtain ⟨reading', hfront', hsame⟩ := Option.map_eq_some_iff.mp hreading
    rw [hfront']
    exact .cons (.of_level position hsame) .nil

/-- Behind such lexemes, the two scans face each other. -/
theorem Returned.facing {front front' : Lexeme} (h : Returned front front') {p q : Position}
    (position : p.Level q) (blocks : List Nat) :
    Facing ⟨p.after front.taken, blocks, front.rest⟩
      ⟨q.after front'.taken, blocks, front'.rest⟩ := by
  rcases h.cut with ⟨htaken, hrest⟩ | ⟨behind, htaken, hrest, hrest'⟩
  · exact .level (by rw [htaken]; exact position.after _) hrest
  · refine .atBreak ?_ hrest hrest'
    show (q.after front'.taken).line = (p.after front.taken).line
    rw [htaken, Position.after_line, Position.after_line, List.count_append, position.1]
    rfl

/-- Two scans from cursors that face each other give the same tokens. -/
theorem scan_alike (cursor : Cursor) : ∀ cursor', Facing cursor cursor' →
    cursor'.blocks = cursor.blocks → List.Forall₂ Lexed.Alike (scan cursor) (scan cursor') := by
  induction cursor using scan.induct with
  | case1 cursor hrest =>
    obtain ⟨p, blocks, rest⟩ := cursor
    rintro ⟨q, blocks', rest'⟩ hfacing hblocks
    cases hrest
    cases hblocks
    cases hfacing with
    | level position rest =>
      cases rest
      rw [scan_nil, scan_nil]
      exact List.rel_append (forall₂_replicate (.of_level position rfl) _)
        (.cons (.of_level position rfl) .nil)
    | atBreak line rest => cases rest
  | case2 cursor cs hrest _ next opened ih =>
    obtain ⟨p, blocks, rest⟩ := cursor
    rintro ⟨q₀, blocks', rest'⟩ hfacing hblocks
    cases hrest
    cases hblocks
    -- wherever the carriage return went, both scans are at the line break now
    obtain ⟨q, hline, hscan⟩ := hfacing.scan_eq
    have hlevel : (p.after ['\n']).Level (q.after ['\n']) := ⟨congrArg (· + 1) hline, rfl⟩
    rw [hscan, scan_newline, scan_newline]
    refine .cons ⟨rfl, hline, fun h => absurd rfl h⟩ ?_
    obtain ⟨hopened, hblocks⟩ := openLine_facing hlevel blocks cs
    exact List.rel_append (openLine_alike hlevel blocks cs) (ih _ hopened hblocks)
  | case3 cursor c cs hrest _ next hc ih =>
    obtain ⟨p, blocks, rest⟩ := cursor
    rintro ⟨q, blocks', rest'⟩ hfacing hblocks
    cases hrest
    cases hblocks
    cases hfacing with
    | level position rest =>
      obtain rfl : rest' = c :: withReturns cs := rest.trans (withReturns_cons hc cs)
      have hreturned : Returned (lexeme c cs) (lexeme c (withReturns cs)) := lexeme_withReturns hc
      rw [scan_cons _ _ _ hc, scan_cons _ _ _ hc]
      exact List.rel_append (hreturned.alike position) (ih _ (hreturned.facing position _) rfl)
    | atBreak line rest =>
      exact absurd (List.cons.inj rest).1 hc

end Lexer

/-- A script with a carriage return before every line break has the same tokens and faults on
the same lines and in the same columns, but for the texts of comments and the columns of line
breaks. -/
theorem lex_withReturns (source : String) :
    List.Forall₂ Lexed.Alike (lex source)
      (lex (String.ofList (withReturns source.toList))) := by
  rw [lex, lex, String.toList_ofList]
  have hlevel : Position.Level {} {} := ⟨rfl, rfl⟩
  obtain ⟨hopened, hblocks⟩ := Lexer.openLine_facing hlevel [0] source.toList
  exact List.rel_append (Lexer.openLine_alike hlevel [0] source.toList)
    (Lexer.scan_alike _ _ hopened hblocks)

end PineCheck
