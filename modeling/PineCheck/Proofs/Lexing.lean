import Mathlib.Data.List.TakeWhile
import PineCheck.Proofs.Place
import PineCheck.Token.Lexer

/-!
# PineCheck — lossless lexing

Nothing of a script gets lost when it is read as tokens: the tokens stand in the
script one behind the other, what stands between them is blank, and each token
is spelled by the characters it covers.

`Run before rest tokens` tells a scan from the text `rest` behind the text
`before`, without positions and open blocks: every step reads one lexeme, or the
blanks at the start of a line with the marks of layout they stand for. What is
said about tokens here and elsewhere is proved by induction on a run.

Main results:

* `lex_run` — every script has a run that gives its tokens.
* `Run.readFrom` — a token of a run is read from a lexeme, from the blanks at the start of a
  line, or from the end of the text.
* `lexeme_spells` — a lexeme that reads as a token spells it.
* `lex_lossless` — the tokens of a script are in order, disjoint and spelled by
  the script, only blanks stand between them, and the end of the file is the
  last one.
-/

namespace PineCheck

-- ---------------------------------------------------------------------------
-- How tokens are spelled
-- ---------------------------------------------------------------------------

/-- What the inside of a string literal stands for. -/
def decodeEscapes : List Char → List Char
  | '\\' :: 'n' :: cs => '\n' :: decodeEscapes cs
  | '\\' :: 't' :: cs => '\t' :: decodeEscapes cs
  | '\\' :: 'r' :: cs => '\r' :: decodeEscapes cs
  | '\\' :: '\\' :: cs => '\\' :: decodeEscapes cs
  | '\\' :: '"' :: cs => '"' :: decodeEscapes cs
  | '\\' :: '\'' :: cs => '\'' :: decodeEscapes cs
  | '\\' :: c :: cs => '\\' :: c :: decodeEscapes cs
  | c :: cs => c :: decodeEscapes cs
  | [] => []

/-- The characters that a token is read from. Marks of layout and the end of the
file are not spelled by characters of their own. -/
def Token.Spells : Token → List Char → Prop
  | .punctuation mark, cs => cs = [mark.spelling]
  | .operator op, cs => cs = op.spelling.toList
  | .keyword word, cs => cs = word.spelling.toList
  | .identifier text, cs | .number text, cs | .color text, cs | .comment text, cs =>
    cs = text.toList
  | .boolean value, cs => cs = (if value then "true" else "false").toList
  | .string contents, cs => ∃ quote inner, (quote = '"' ∨ quote = '\'') ∧
      cs = quote :: (inner ++ [quote]) ∧ contents.toList = decodeEscapes inner
  | .newline, cs => cs = ['\n']
  | .indent, _ | .dedent, _ | .endOfFile, _ => False

namespace Lexer

/-- A backslash stands for what the character behind it says. -/
theorem decodeEscapes_escape (c : Char) (cs : List Char) :
    decodeEscapes ('\\' :: c :: cs) = unescape c ++ decodeEscapes cs := by
  unfold unescape
  by_cases hn : c = 'n'
  · simp [hn, decodeEscapes]
  by_cases ht : c = 't'
  · simp [ht, decodeEscapes]
  by_cases hr : c = 'r'
  · simp [hr, decodeEscapes]
  by_cases hs : c = '\\'
  · simp [hs, decodeEscapes]
  by_cases hd : c = '"'
  · simp [hd, decodeEscapes]
  by_cases hq : c = '\''
  · simp [hq, decodeEscapes]
  simp [hn, ht, hr, hs, hd, hq, decodeEscapes]

theorem decodeEscapes_cons {c : Char} (h : c ≠ '\\') (cs : List Char) :
    decodeEscapes (c :: cs) = c :: decodeEscapes cs := by
  cases cs <;> simp [decodeEscapes, h]

/-- A string that is closed ends in its quote, and holds what the text before the
quote stands for. -/
theorem stringBody_closed {quote : Char} {cs contents : List Char}
    (h : (stringBody quote cs).1 = some contents) :
    ∃ inner, (stringBody quote cs).2.1 = inner ++ [quote] ∧ contents = decodeEscapes inner := by
  fun_induction stringBody quote cs generalizing contents with
  | case1 => simp at h
  | case2 => simp at h
  | case3 => simp at h
  | case4 => simp at h
  -- an escaped character
  | case5 d ds hd inside taken rest hbody _ ih =>
    obtain ⟨more, hmore, rfl⟩ := Option.map_eq_some_iff.mp h
    rw [hbody] at ih
    obtain ⟨inner, htaken, rfl⟩ := ih hmore
    exact ⟨'\\' :: d :: inner, congrArg ('\\' :: d :: ·) htaken,
      (decodeEscapes_escape d inner).symm⟩
  -- the quote that closes
  | case6 cs _ _ =>
    simp only [Option.some.injEq] at h
    exact ⟨[], rfl, by rw [← h]; rfl⟩
  | case7 c cs hnl hslash hquote inside taken rest hbody ih =>
    obtain ⟨more, hmore, rfl⟩ := Option.map_eq_some_iff.mp h
    rw [hbody] at ih
    obtain ⟨inner, htaken, rfl⟩ := ih hmore
    exact ⟨c :: inner, congrArg (c :: ·) htaken, (decodeEscapes_cons hslash inner).symm⟩

/-- A string is spelled by its quotes and what stands for its contents. -/
theorem stringLexeme_spells {quote : Char} {cs : List Char} {token : Token}
    (hquote : quote = '"' ∨ quote = '\'')
    (h : (stringLexeme quote cs).reading = some (.ok token)) :
    token.Spells (stringLexeme quote cs).taken := by
  have hclosed := @stringBody_closed quote cs
  unfold stringLexeme at h ⊢
  rcases hbody : stringBody quote cs with ⟨contents, taken, rest⟩
  rw [hbody] at h hclosed
  cases contents with
  | none => simp at h
  | some contents =>
    simp only [Option.some.injEq, Except.ok.injEq] at h
    obtain ⟨inner, htaken, hcontents⟩ := hclosed rfl
    subst h
    refine ⟨quote, inner, hquote, ?_, by rw [String.toList_ofList, hcontents]⟩
    show quote :: taken = quote :: (inner ++ [quote])
    rw [← htaken]

/-- A word spells what it reads as. -/
theorem wordToken_spells (word : List Char) : (wordToken (String.ofList word)).Spells word := by
  unfold wordToken
  split
  · next keyword h =>
    -- the keyword was found by its spelling
    have hspelled := List.find?_some h
    rw [decide_eq_true_eq] at hspelled
    rw [Token.Spells, hspelled, String.toList_ofList]
  · split
    · next h => rw [Token.Spells, if_pos rfl, ← h, String.toList_ofList]
    split
    · next h => rw [Token.Spells, if_neg (by decide), ← h, String.toList_ofList]
    · rw [Token.Spells, String.toList_ofList]

/-- A colour is spelled by a hash and its digits. -/
theorem colorReading_spells {digits : List Char} {token : Token}
    (h : colorReading digits = .ok token) : token.Spells ('#' :: digits) := by
  unfold colorReading at h
  split at h
  · cases h
  split at h
  · cases h
    rw [Token.Spells, String.toList_ofList]
  · cases h

/-- A pair of marks spells its operator. -/
theorem pairReading?_spells {c d : Char} {token : Token}
    (h : pairReading? c d = some (.ok token)) : token.Spells [c, d] := by
  fun_cases pairReading? c d <;> simp_all [pairReading?] <;> subst h <;> rfl

/-- A single mark spells its token. -/
theorem singleReading_spells {c : Char} {token : Token}
    (h : singleReading c = .ok token) : token.Spells [c] := by
  fun_cases singleReading c <;> simp_all [singleReading] <;> subst h <;> rfl

/-- A mark, single or in a pair, spells its token. -/
theorem symbolLexeme_spells {c : Char} {cs : List Char} {token : Token} :
    (symbolLexeme c cs).reading = some (.ok token) →
      token.Spells (symbolLexeme c cs).taken := by
  fun_cases symbolLexeme c cs with
  | case1 => exact fun h => singleReading_spells (Option.some.inj h)
  | case2 d ds reading hpair =>
    intro h
    exact pairReading?_spells (hpair.trans h)
  | case3 => exact fun h => singleReading_spells (Option.some.inj h)

/-- **Lexemes spell their tokens.** A lexeme that reads as a token is made of the
characters that spell it. -/
theorem lexeme_spells {c : Char} {cs : List Char} {token : Token} :
    (lexeme c cs).reading = some (.ok token) → token.Spells (lexeme c cs).taken := by
  fun_cases lexeme c cs with
  | case1 hc =>
    intro h
    cases h
    exact congrArg ([·]) hc
  | case2 =>
    intro h
    cases h
  | case3 _ _ hquote => exact stringLexeme_spells (by simpa using hquote)
  | case4 =>
    intro h
    cases h
    rw [Token.Spells, String.toList_ofList]
    rfl
  | case5 =>
    intro h
    cases h
    exact wordToken_spells _
  | case6 => exact fun h => colorReading_spells (Option.some.inj h)
  | case7 | case8 =>
    intro h
    cases h
    rw [Token.Spells, String.toList_ofList]
    rfl
  | case9 => exact symbolLexeme_spells

/-- Spaces are blanks and tabs. -/
theorem eq_of_isSpace {c : Char} (h : Text.isSpace c = true) : c = ' ' ∨ c = '\t' := by
  rwa [Text.isSpace, Bool.or_eq_true, decide_eq_true_eq, decide_eq_true_eq] at h

/-- A blank is no part of a word. -/
theorem isWordChar_of_isSpace {c : Char} (h : Text.isSpace c = true) : isWordChar c = false := by
  rcases eq_of_isSpace h with rfl | rfl <;> rfl

/-- A lexeme that does not read as anything is one blank. -/
theorem lexeme_blank {c : Char} {cs : List Char} :
    (lexeme c cs).reading = none →
      (lexeme c cs).taken = [c] ∧ (c = ' ' ∨ c = '\t' ∨ c = '\r') := by
  fun_cases lexeme c cs with
  | case2 _ hblank => exact fun _ => ⟨rfl, by simpa [or_assoc] using hblank⟩
  | case3 =>
    unfold stringLexeme
    split
    split <;> exact nofun
  | case9 => fun_cases symbolLexeme c cs <;> exact nofun
  | _ => exact nofun

-- ---------------------------------------------------------------------------
-- Runs
-- ---------------------------------------------------------------------------

/-- The marks of layout that stand for `blanks` at the start of a line, when the
line ends and begins blocks. The marks for an end are empty and stand behind the
blanks; the mark for a beginning covers them. -/
def layoutMarks (before blanks : List Char) (ended : Nat) (begins : Bool) : List Lexed :=
  List.replicate ended ⟨.ok .dedent, stretch (before ++ blanks) []⟩ ++
    if begins then [⟨.ok .indent, stretch before blanks⟩] else []

/-- A mark ends a block or begins one. -/
theorem mem_layoutMarks {before blanks : List Char} {ended : Nat} {begins : Bool}
    {lexed : Lexed} (h : lexed ∈ layoutMarks before blanks ended begins) :
    lexed = ⟨.ok .dedent, stretch (before ++ blanks) []⟩ ∨
      lexed = ⟨.ok .indent, stretch before blanks⟩ := by
  rcases List.mem_append.mp h with h | h
  · exact Or.inl (List.eq_of_mem_replicate h)
  · cases begins with
    | false => simp at h
    | true => exact Or.inr (List.mem_singleton.mp h)

/-- How a scan goes on from the text `rest` behind the text `before`, and the
tokens it gives. -/
inductive Run : List Char → List Char → List Lexed → Prop
  | finish (before : List Char) : Run before [] [⟨.ok .endOfFile, stretch before []⟩]
  | read {before : List Char} {c : Char} {cs : List Char} {tokens : List Lexed}
      (next : Run (before ++ (lexeme c cs).taken) (lexeme c cs).rest tokens) :
      Run before (c :: cs)
        ((lexeme c cs).reading.toList.map (⟨·, stretch before (lexeme c cs).taken⟩) ++ tokens)
  | line {before blanks rest : List Char} {tokens : List Lexed} (ended : Nat) (begins : Bool)
      (spaces : ∀ c ∈ blanks, Text.isSpace c = true)
      (next : Run (before ++ blanks) rest tokens) :
      Run before (blanks ++ rest) (layoutMarks before blanks ended begins ++ tokens)

/-- The span between two positions of a text is a stretch of it. -/
theorem between_after (before taken : List Char) :
    Span.between (Position.after {} before) ((Position.after {} before).after taken) =
      stretch before taken := by
  rw [← Position.after_append]
  rfl

/-- Opening a line takes the blanks at its front and gives marks for them. -/
theorem openLine_eq {cursor : Cursor} {before : List Char}
    (hpos : cursor.position = Position.after {} before) :
    ∃ blanks rest ended begins, cursor.rest = blanks ++ rest ∧
      (∀ c ∈ blanks, Text.isSpace c = true) ∧
      (openLine cursor).1 = layoutMarks before blanks ended begins ∧
      (openLine cursor).2.position = Position.after {} (before ++ blanks) ∧
      (openLine cursor).2.rest = rest := by
  refine ⟨cursor.rest.takeWhile Text.isSpace, cursor.rest.dropWhile Text.isSpace, ?_⟩
  have hcut := (List.takeWhile_append_dropWhile (p := Text.isSpace) (l := cursor.rest)).symm
  have hspaces : ∀ c ∈ cursor.rest.takeWhile Text.isSpace, Text.isSpace c = true :=
    fun c hc => List.mem_takeWhile_imp hc
  unfold openLine
  generalize cursor.rest.takeWhile Text.isSpace = blanks at hcut hspaces ⊢
  generalize cursor.rest.dropWhile Text.isSpace = rest at hcut ⊢
  have hinner : cursor.position.after blanks = Position.after {} (before ++ blanks) := by
    rw [hpos, Position.after_append]
  dsimp only
  -- a blank line gives no marks, any other one is fitted into the blocks
  split
  · exact ⟨0, false, hcut, hspaces, rfl, hinner, rfl⟩
  · generalize fitBlocks cursor.blocks (Text.columns blanks) = fitted
    refine ⟨fitted.2.1, fitted.2.2, hcut, hspaces, ?_, hinner, rfl⟩
    rw [layoutMarks, ← emptyAt_after, ← between_after, ← hpos, ← hinner]

/-- Opening a line is one step of a run. -/
theorem openLine_run {cursor : Cursor} {before : List Char} {tokens : List Lexed}
    (hpos : cursor.position = Position.after {} before)
    (next : ∀ inner, (openLine cursor).2.position = Position.after {} inner →
      Run inner (openLine cursor).2.rest tokens) :
    Run before cursor.rest ((openLine cursor).1 ++ tokens) := by
  obtain ⟨blanks, rest, ended, begins, hcut, hspaces, hmarks, hinner, hrest⟩ :=
    openLine_eq hpos
  have hnext := next _ hinner
  rw [hrest] at hnext
  rw [hcut, hmarks]
  exact Run.line ended begins hspaces hnext

/-- At the end the blocks that are open are closed. -/
theorem scan_nil (p : Position) (blocks : List Nat) :
    scan ⟨p, blocks, []⟩ = List.replicate (blocks.length - 1) ⟨.ok .dedent, Span.emptyAt p⟩ ++
      [⟨.ok .endOfFile, Span.emptyAt p⟩] := by
  rw [scan]

/-- The end of a line opens the next one. -/
theorem scan_newline (p : Position) (blocks : List Nat) (cs : List Char) :
    scan ⟨p, blocks, '\n' :: cs⟩ =
      ⟨.ok .newline, Span.between p (p.after ['\n'])⟩ ::
        ((openLine ⟨p.after ['\n'], blocks, cs⟩).1 ++
          scan (openLine ⟨p.after ['\n'], blocks, cs⟩).2) := by
  rw [scan]
  rfl

/-- Any other character starts a lexeme. -/
theorem scan_cons {c : Char} (p : Position) (blocks : List Nat) (cs : List Char)
    (hc : c ≠ '\n') :
    scan ⟨p, blocks, c :: cs⟩ =
      (lexeme c cs).reading.toList.map
          (⟨·, Span.between p (p.after (lexeme c cs).taken)⟩) ++
        scan ⟨p.after (lexeme c cs).taken, blocks, (lexeme c cs).rest⟩ := by
  rw [scan]
  exact if_neg hc

/-- A scan is a run from where its cursor stands. -/
theorem scan_run (cursor : Cursor) :
    ∀ before, cursor.position = Position.after {} before →
      Run before cursor.rest (scan cursor) := by
  induction cursor using scan.induct with
  | case1 cursor hrest =>
    obtain ⟨p, blocks, rest⟩ := cursor
    rintro before rfl
    cases hrest
    rw [scan_nil, emptyAt_after]
    -- the blocks that are still open end in a line without blanks
    have hmarks : List.replicate (blocks.length - 1) ⟨.ok .dedent, stretch before []⟩ =
        layoutMarks before [] (blocks.length - 1) false := by
      rw [layoutMarks, List.append_nil, if_neg (by decide), List.append_nil]
    rw [hmarks]
    have hnext : Run (before ++ []) [] [⟨.ok .endOfFile, stretch before []⟩] := by
      rw [List.append_nil]
      exact Run.finish before
    have hspaces : ∀ c ∈ ([] : List Char), Text.isSpace c = true := nofun
    exact Run.line _ false hspaces hnext
  | case2 cursor cs hrest front next opened ih =>
    obtain ⟨p, blocks, rest⟩ := cursor
    rintro before rfl
    cases hrest
    rw [scan_newline, between_after]
    -- the line break is one step, and the blanks behind it are the next
    apply Run.read
    exact openLine_run (Position.after_append ..).symm ih
  | case3 cursor c cs hrest front next hc ih =>
    obtain ⟨p, blocks, rest⟩ := cursor
    rintro before rfl
    cases hrest
    rw [scan_cons _ _ _ hc, between_after]
    apply Run.read
    exact ih _ (Position.after_append ..).symm

/-- Every script has a run that gives its tokens. -/
theorem lex_run (source : String) : Run [] source.toList (lex source) := by
  have hpos : (start source.toList).position = Position.after {} [] := rfl
  exact openLine_run hpos fun inner hinner => scan_run _ inner hinner

-- ---------------------------------------------------------------------------
-- Where tokens stand
-- ---------------------------------------------------------------------------

/-- What a token of a run is read from: a lexeme, the blanks at the start of a line, or the end
of the text. -/
inductive ReadFrom (before rest : List Char) : Lexed → Prop
  | lexeme {front : List Char} {c : Char} {cs : List Char} {reading : Reading}
      (cut : rest = front ++ c :: cs) (reads : (lexeme c cs).reading = some reading) :
      ReadFrom before rest ⟨reading, stretch (before ++ front) (lexeme c cs).taken⟩
  | dedent {front behind : List Char} (cut : rest = front ++ behind) :
      ReadFrom before rest ⟨.ok .dedent, stretch (before ++ front) []⟩
  | indent {front blanks behind : List Char} (cut : rest = front ++ (blanks ++ behind))
      (spaces : ∀ c ∈ blanks, Text.isSpace c = true) :
      ReadFrom before rest ⟨.ok .indent, stretch (before ++ front) blanks⟩
  | endOfFile : ReadFrom before rest ⟨.ok .endOfFile, stretch (before ++ rest) []⟩

/-- A token that is read behind a longer text is read behind each part of it. -/
theorem ReadFrom.behind {before piece rest : List Char} {lexed : Lexed}
    (h : ReadFrom (before ++ piece) rest lexed) : ReadFrom before (piece ++ rest) lexed := by
  cases h with
  | lexeme cut reads =>
    rw [List.append_assoc]
    exact .lexeme (by rw [cut, List.append_assoc]) reads
  | dedent cut =>
    rw [List.append_assoc]
    exact .dedent (by rw [cut, List.append_assoc])
  | indent cut spaces =>
    rw [List.append_assoc]
    exact .indent (by rw [cut, List.append_assoc]) spaces
  | endOfFile =>
    rw [List.append_assoc]
    exact .endOfFile

/-- Every token of a run is read from the text of the run. -/
theorem Run.readFrom {before rest : List Char} {tokens : List Lexed}
    (run : Run before rest tokens) : ∀ lexed ∈ tokens, ReadFrom before rest lexed := by
  induction run with
  | finish before =>
    intro lexed hmem
    rw [List.mem_singleton.mp hmem]
    simpa using @ReadFrom.endOfFile before []
  | @read before c cs tokens next ih =>
    intro lexed hmem
    rcases List.mem_append.mp hmem with hmem | hmem
    -- the token of the lexeme, or one that is read behind it
    · obtain ⟨reading, hreading, rfl⟩ := List.mem_map.mp hmem
      simpa using
        @ReadFrom.lexeme before (c :: cs) [] c cs reading rfl (Option.mem_toList.mp hreading)
    · have hbehind := (ih lexed hmem).behind
      rwa [lexeme_taken_append_rest] at hbehind
  | @line before blanks rest tokens ended begins spaces next ih =>
    intro lexed hmem
    rcases List.mem_append.mp hmem with hmem | hmem
    · rcases mem_layoutMarks hmem with rfl | rfl
      · exact .dedent rfl
      · simpa using @ReadFrom.indent before (blanks ++ rest) [] blanks rest rfl spaces
    · exact (ih lexed hmem).behind

/-- Whether a token is a mark of layout or the end of the file, which characters
do not spell. -/
def isUnspelled : Token → Bool
  | .indent | .dedent | .endOfFile => true
  | _ => false

/-- A reading stands in a script when its span is the stretch of a piece of it
that spells the token, if it is one that is spelled. -/
def StandsIn (script : List Char) (lexed : Lexed) : Prop :=
  ∃ before taken behind, script = before ++ (taken ++ behind) ∧
    lexed.span = stretch before taken ∧
    ∀ token, lexed.reading = .ok token → isUnspelled token = true ∨ token.Spells taken

/-- Every token of a run stands in the script. -/
theorem Run.standsIn {before rest : List Char} {tokens : List Lexed}
    (run : Run before rest tokens) : ∀ lexed ∈ tokens, StandsIn (before ++ rest) lexed := by
  intro lexed hmem
  cases run.readFrom lexed hmem with
  -- what a lexeme reads spells its token, the marks are not spelled
  | @lexeme front c cs reading cut reads =>
    refine ⟨before ++ front, (lexeme c cs).taken, (lexeme c cs).rest, ?_, rfl, ?_⟩
    · rw [cut, lexeme_taken_append_rest, List.append_assoc]
    · rintro token rfl
      exact .inr (lexeme_spells reads)
  | @dedent front behind cut =>
    refine ⟨before ++ front, [], behind, by rw [cut]; simp, rfl, ?_⟩
    rintro _ ⟨⟩
    exact .inl rfl
  | @indent front blanks behind cut =>
    refine ⟨before ++ front, blanks, behind, by rw [cut]; simp, rfl, ?_⟩
    rintro _ ⟨⟩
    exact .inl rfl
  | endOfFile =>
    refine ⟨before ++ rest, [], [], by simp, rfl, ?_⟩
    rintro _ ⟨⟩
    exact .inl rfl

-- ---------------------------------------------------------------------------
-- The order of tokens
-- ---------------------------------------------------------------------------

/-- Tokens of a run start behind the text before the run. -/
theorem Run.byteLength_le_start {before rest : List Char} {tokens : List Lexed}
    (run : Run before rest tokens) :
    ∀ lexed ∈ tokens, byteLength before ≤ lexed.span.start := by
  intro lexed hmem
  cases run.readFrom lexed hmem <;>
    · rw [stretch_start, byteLength_append]
      exact Nat.le_add_right ..

/-- Whether a reading comes before another one: it does not end behind it, and if
both cover something, it ends before the other one starts. -/
def Precedes (s t : Lexed) : Prop :=
  s.span.stop ≤ t.span.stop ∧
    (s.span.start < s.span.stop → t.span.start < t.span.stop → s.span.stop ≤ t.span.start)

/-- A span that ends where a run goes on comes before all tokens of the run. -/
theorem Run.precedes {before rest : List Char} {tokens : List Lexed}
    (run : Run before rest tokens) {s : Lexed} (h : s.span.stop = byteLength before) :
    ∀ t ∈ tokens, Precedes s t := by
  intro t hmem
  have hstart := run.byteLength_le_start t hmem
  obtain ⟨_, _, _, _, hspan, _⟩ := run.standsIn t hmem
  have hle : t.span.start ≤ t.span.stop := by
    rw [hspan, stretch_start, stretch_stop]
    omega
  exact ⟨by omega, fun _ _ => by omega⟩

/-- The tokens of a run come one before the other. -/
theorem Run.pairwise_precedes {before rest : List Char} {tokens : List Lexed}
    (run : Run before rest tokens) : tokens.Pairwise Precedes := by
  induction run with
  | finish => exact List.pairwise_singleton ..
  | @read before c cs tokens next ih =>
    refine List.pairwise_append.mpr ⟨?_, ih, ?_⟩
    · cases (lexeme c cs).reading with
      | none => exact List.Pairwise.nil
      | some => exact List.pairwise_singleton ..
    · intro s hs
      obtain ⟨reading, -, rfl⟩ := List.mem_map.mp hs
      exact next.precedes (by rw [stretch_stop, byteLength_append])
  | @line before blanks rest tokens ended begins spaces next ih =>
    refine List.pairwise_append.mpr ⟨List.pairwise_append.mpr ⟨?_, ?_, ?_⟩, ih, ?_⟩
    · -- the marks for an end are equal and empty
      exact List.pairwise_replicate.mpr (Or.inr ⟨Nat.le_refl _, fun h => absurd h (by simp)⟩)
    · cases begins with
      | false => exact List.Pairwise.nil
      | true => exact List.pairwise_singleton ..
    · intro s hs t ht
      rw [List.eq_of_mem_replicate hs]
      cases begins with
      | false => simp at ht
      | true =>
        rw [List.mem_singleton.mp ht]
        exact ⟨by simp, fun h => absurd h (by simp)⟩
    · intro s hs
      apply next.precedes
      rcases mem_layoutMarks hs with rfl | rfl <;> simp

-- ---------------------------------------------------------------------------
-- What stands between tokens
-- ---------------------------------------------------------------------------

/-- Whether a byte is a space, a tab or a carriage return. -/
def isBlankByte (b : UInt8) : Bool :=
  b = 0x20 || b = 0x09 || b = 0x0D

/-- Blanks are written as blank bytes. -/
theorem isBlankByte_of_mem_utf8 {cs : List Char} {b : UInt8}
    (hcs : ∀ c ∈ cs, c = ' ' ∨ c = '\t' ∨ c = '\r') (hb : b ∈ utf8 cs) :
    isBlankByte b = true := by
  obtain ⟨c, hc, hbyte⟩ := List.mem_flatMap.mp hb
  rcases hcs c hc with rfl | rfl | rfl <;>
    · rw [List.mem_singleton.mp hbyte]
      decide

/-- The byte of a text at an offset that lies in the first of two pieces. -/
theorem exists_mem_utf8 {cs : List Char} {i : Nat} (h : i < byteLength cs) (rest : List Char) :
    ∃ b ∈ utf8 cs, (utf8 (cs ++ rest))[i]? = some b := by
  rw [← length_utf8] at h
  exact ⟨(utf8 cs)[i], List.getElem_mem h, by
    rw [utf8_append, List.getElem?_append_left h, List.getElem?_eq_getElem h]⟩

/-- The byte of a text at an offset that lies behind its first piece. -/
theorem getElem?_utf8_append {cs : List Char} {i : Nat} (h : byteLength cs ≤ i)
    (rest : List Char) : (utf8 (cs ++ rest))[i]? = (utf8 rest)[i - byteLength cs]? := by
  rw [← length_utf8] at h ⊢
  rw [utf8_append, List.getElem?_append_right h]

/-- A byte of a text behind the text `before` lies in one of the tokens, or is
blank. -/
def CoveredOrBlank (before rest : List Char) (tokens : List Lexed) (i : Nat) : Prop :=
  (∃ t ∈ tokens, t.span.Covers (byteLength before + i)) ∨
    ∃ b, (utf8 rest)[i]? = some b ∧ isBlankByte b = true

/-- If every byte of a piece and every byte of the text behind it is covered or
blank, so is every byte of both. -/
theorem coveredOrBlank_append {before piece rest : List Char} {here tokens : List Lexed}
    (hpiece : (∃ t ∈ here, t.span = stretch before piece) ∨
      ∀ c ∈ piece, c = ' ' ∨ c = '\t' ∨ c = '\r')
    (hrest : ∀ i < byteLength rest, CoveredOrBlank (before ++ piece) rest tokens i) :
    ∀ i < byteLength (piece ++ rest),
      CoveredOrBlank before (piece ++ rest) (here ++ tokens) i := by
  intro i hi
  rw [byteLength_append] at hi
  rcases Nat.lt_or_ge i (byteLength piece) with hlt | hge
  · rcases hpiece with ⟨t, ht, hspan⟩ | hblank
    · refine Or.inl ⟨t, List.mem_append_left _ ht, ?_⟩
      rw [hspan, Span.Covers, stretch_start, stretch_stop]
      omega
    · obtain ⟨b, hb, hbyte⟩ := exists_mem_utf8 hlt rest
      exact Or.inr ⟨b, hbyte, isBlankByte_of_mem_utf8 hblank hb⟩
  · rw [CoveredOrBlank, getElem?_utf8_append hge]
    rcases hrest (i - byteLength piece) (by omega) with ⟨t, ht, hcov⟩ | hblank
    · rw [byteLength_append, Nat.add_assoc, Nat.add_sub_cancel' hge] at hcov
      exact Or.inl ⟨t, List.mem_append_right _ ht, hcov⟩
    · exact Or.inr hblank

/-- Every byte of a run lies in a token or is blank. -/
theorem Run.coveredOrBlank {before rest : List Char} {tokens : List Lexed}
    (run : Run before rest tokens) :
    ∀ i < byteLength rest, CoveredOrBlank before rest tokens i := by
  induction run with
  | finish =>
    intro i hi
    simp at hi
  | @read before c cs tokens next ih =>
    have hpiece : (∃ t ∈ (lexeme c cs).reading.toList.map
          (⟨·, stretch before (lexeme c cs).taken⟩ : Reading → Lexed),
          t.span = stretch before (lexeme c cs).taken) ∨
        ∀ d ∈ (lexeme c cs).taken, d = ' ' ∨ d = '\t' ∨ d = '\r' := by
      cases hreading : (lexeme c cs).reading with
      -- a lexeme that reads as something covers its bytes, any other one is a blank
      | some reading => exact Or.inl ⟨_, List.mem_singleton.mpr rfl, rfl⟩
      | none =>
        obtain ⟨htaken, hblank⟩ := lexeme_blank hreading
        rw [htaken]
        exact Or.inr fun d hd => List.mem_singleton.mp hd ▸ hblank
    have hcovered := coveredOrBlank_append hpiece ih
    rw [lexeme_taken_append_rest] at hcovered
    exact hcovered
  | @line before blanks rest tokens ended begins spaces next ih =>
    refine coveredOrBlank_append (Or.inr fun c hc => ?_) ih
    exact (eq_of_isSpace (spaces c hc)).imp_right Or.inl

/-- The last token of a run is the end of the file, and no other one is. -/
theorem Run.ends {before rest : List Char} {tokens : List Lexed}
    (run : Run before rest tokens) :
    ∃ front, tokens = front ++ [⟨.ok .endOfFile, stretch (before ++ rest) []⟩] ∧
      ∀ t ∈ front, t.reading ≠ .ok .endOfFile := by
  induction run with
  | finish before => exact ⟨[], by simp, nofun⟩
  | @read before c cs tokens next ih =>
    obtain ⟨front, rfl, hfront⟩ := ih
    rw [List.append_assoc, lexeme_taken_append_rest, ← List.append_assoc]
    refine ⟨_, rfl, ?_⟩
    intro t ht
    rcases List.mem_append.mp ht with ht | ht
    · obtain ⟨reading, hreading, rfl⟩ := List.mem_map.mp ht
      rintro rfl
      exact lexeme_spells (Option.mem_toList.mp hreading)
    · exact hfront t ht
  | @line before blanks rest tokens ended begins spaces next ih =>
    obtain ⟨front, rfl, hfront⟩ := ih
    rw [List.append_assoc, ← List.append_assoc (layoutMarks ..)]
    refine ⟨_, rfl, ?_⟩
    intro t ht
    rcases List.mem_append.mp ht with ht | ht
    · rcases mem_layoutMarks ht with rfl | rfl <;> simp
    · exact hfront t ht

end Lexer

-- ---------------------------------------------------------------------------
-- Lossless lexing
-- ---------------------------------------------------------------------------

/-- What it means for tokens to be a lossless reading of a text. -/
structure Lossless (source : String) (tokens : List Lexed) : Prop where
  /-- Spans lie in the text, between character boundaries. -/
  inside : ∀ t ∈ tokens, t.span.start ≤ t.span.stop ∧ t.span.stop ≤ source.utf8ByteSize ∧
    String.Pos.Raw.IsValid source ⟨t.span.start⟩ ∧ String.Pos.Raw.IsValid source ⟨t.span.stop⟩
  /-- The ends of spans never go back. -/
  stops_sorted : tokens.Pairwise fun s t => s.span.stop ≤ t.span.stop
  /-- Spans that are not empty are disjoint and in order. -/
  disjoint : (tokens.filter fun t => t.span.start < t.span.stop).Pairwise
    fun s t => s.span.stop ≤ t.span.start
  /-- Bytes that no token covers are blank. -/
  gaps_blank : ∀ i < source.utf8ByteSize, (∀ t ∈ tokens, ¬ t.span.Covers i) →
    (utf8 source.toList)[i]? = some 0x20 ∨ (utf8 source.toList)[i]? = some 0x09 ∨
      (utf8 source.toList)[i]? = some 0x0D
  /-- The end of the file is the last token, stands behind the text, and is the
  only one of its kind. -/
  ends : ∃ front last, tokens = front ++ [last] ∧ last.reading = .ok .endOfFile ∧
    last.span.start = source.utf8ByteSize ∧ last.span.stop = source.utf8ByteSize ∧
    ∀ t ∈ front, t.reading ≠ .ok .endOfFile
  /-- Tokens are spelled by what they cover, marks of layout and the end of the
  file apart. -/
  spelled : ∀ t ∈ tokens, ∀ token, t.reading = .ok token → Lexer.isUnspelled token = false →
    token.Spells (Text.between source.toList t.span.start t.span.stop)

/-- **Lossless lexing.** The tokens of every text are a lossless reading of it. -/
theorem lex_lossless (source : String) : Lossless source (lex source) := by
  have run := Lexer.lex_run source
  have hstands := run.standsIn
  rw [List.nil_append] at hstands
  have hpoints : ∀ t ∈ lex source, t.span.PointsInto source := by
    intro t ht
    obtain ⟨before, taken, behind, hcut, hspan, -⟩ := hstands t ht
    exact Span.StandsIn.pointsInto ⟨before, taken, behind, hcut, hspan⟩
  refine ⟨?_, ?_, ?_, ?_, ?_, ?_⟩
  · intro t ht
    have h := hpoints t ht
    exact ⟨h.start_le_stop, h.stop_le_size, h.isValid_start, h.isValid_stop⟩
  · exact run.pairwise_precedes.imp fun h => h.1
  · rw [List.pairwise_filter]
    refine run.pairwise_precedes.imp fun h hs ht => ?_
    exact h.2 (of_decide_eq_true hs) (of_decide_eq_true ht)
  · intro i hi hgap
    rw [← byteLength_toList] at hi
    rcases run.coveredOrBlank i hi with ⟨t, ht, hcov⟩ | ⟨b, hbyte, hblank⟩
    · rw [byteLength_nil, Nat.zero_add] at hcov
      exact absurd hcov (hgap t ht)
    · rw [hbyte]
      simpa [Lexer.isBlankByte, or_assoc] using hblank
  -- one end of the file, behind all other tokens
  · obtain ⟨front, hfront, hno⟩ := run.ends
    refine ⟨front, _, hfront, rfl, ?_, ?_, hno⟩
    · rw [stretch_start, List.nil_append, byteLength_toList]
    · rw [stretch_stop, List.nil_append, byteLength_toList, byteLength_nil, Nat.add_zero]
  · intro t ht token hreading hspelled
    obtain ⟨before, taken, behind, hcut, hspan, hspells⟩ := hstands t ht
    rw [hspan, hcut, stretch_start, stretch_stop, Text.between_stretch]
    rcases hspells token hreading with h | h
    · rw [h] at hspelled
      cases hspelled
    · exact h

end PineCheck
