import PineCheck.Proofs.Breaks

/-!
# PineCheck — lines that hold only a comment

A line with nothing on it but a comment is meant to say nothing about the blocks of a
script. The scan keeps to this for line comments: it looks for one behind the
indentation and then leaves the open blocks alone. It does not look for block
comments, so the indentation of such a line opens and ends blocks like that of a
statement (`lex_insert_comment_reindents`).

A line is put in where a line of the script starts. What was read up to there does
not change, since nothing looks behind a line break; what is read from there on
depends on the text and on the open blocks, but not on the position.

Main result:

* `lex_insert_comment` — a comment line leaves everything as it was, but for comments
  and line breaks, if it holds a line comment, or a block comment that lines up with
  the innermost open block or with the line behind it.
-/

namespace PineCheck

-- ---------------------------------------------------------------------------
-- Comment lines
-- ---------------------------------------------------------------------------

/-- Comments that begin and end on one line. -/
inductive CompleteComment : List Char → Prop
  | line {text : List Char} (whole : '\n' ∉ text) : CompleteComment ('/' :: '/' :: text)
  | block {text : List Char} (whole : '\n' ∉ text) (unclosed : ¬ ['*', '/'] <:+: text) :
      CompleteComment ('/' :: '*' :: (text ++ ['*', '/']))

/-- A line made of spaces and tabs, one comment and a line break. -/
structure CommentLine where
  blanks : List Char
  comment : List Char
  spaces : ∀ c ∈ blanks, Text.isSpace c = true
  complete : CompleteComment comment

namespace CommentLine

/-- The characters of a comment line. -/
def text (line : CommentLine) : List Char :=
  line.blanks ++ (line.comment ++ ['\n'])

/-- Whether a comment line leaves the blocks alone that are open in front of the text
`behind`: it holds a line comment, or it is indented as far as the innermost block or
as the line that starts with `behind`, if that is no blank line. -/
def LinesUp (line : CommentLine) (widths : List Nat) (behind : List Char) : Prop :=
  (∃ text, line.comment = '/' :: '/' :: text) ∨
  widths.head? = some (Text.columns line.blanks) ∨
  (Lexer.isBlankLine (behind.dropWhile Text.isSpace) = false ∧
    Text.columns (behind.takeWhile Text.isSpace) = Text.columns line.blanks)

end CommentLine

/-- Whether a reading is neither a comment nor a line break. -/
def isSignificant : Reading → Bool
  | .ok (.comment _) | .ok .newline => false
  | _ => true

/-- What tokens say, comments and line breaks apart. -/
def significant (tokens : List Lexed) : List Reading :=
  (tokens.map Lexed.reading).filter isSignificant

theorem significant_append (front behind : List Lexed) :
    significant (front ++ behind) = significant front ++ significant behind := by
  rw [significant, List.map_append, List.filter_append]
  rfl

/-- The widths of the open blocks behind a token, when those in front of it are given
with the innermost first. -/
def blockWidths (script : List Char) (widths : List Nat) (lexed : Lexed) : List Nat :=
  match lexed.reading with
  | .ok .indent => Text.columns (Text.between script lexed.span.start lexed.span.stop) :: widths
  | .ok .dedent => widths.tail
  | _ => widths

/-- The widths of the blocks that tokens leave open, with the innermost first. -/
def openWidths (script : List Char) (tokens : List Lexed) : List Nat :=
  tokens.foldl (blockWidths script) [0]

/-- The places at which a line of a script is opened, with the text and the tokens
before them and the text behind them: the start of the script and the places behind a
line break that is a token. -/
inductive LineStart (source : String) : List Char → List Lexed → List Char → Prop
  | first : LineStart source [] [] source.toList
  | next {front behind : List Char} {before later : List Lexed} {span : Span}
      (reads : lex source = before ++ ⟨.ok .newline, span⟩ :: later)
      (cut : source.toList = front ++ behind) (stop : span.stop = byteLength front) :
      LineStart source front (before ++ [⟨.ok .newline, span⟩]) behind

namespace Lexer

-- ---------------------------------------------------------------------------
-- Positions do not matter to what is read
-- ---------------------------------------------------------------------------

/-- What tokens say, without where they stand. -/
def readings (tokens : List Lexed) : List Reading :=
  tokens.map Lexed.reading

/-- The marks of layout at the start of a line, without where they stand. -/
def layoutReadings (fitted : List Nat × Nat × Bool) : List Reading :=
  List.replicate fitted.2.1 (.ok .dedent) ++ if fitted.2.2 then [.ok .indent] else []

/-- The marks of a line are told by its margin and the open blocks. -/
theorem openLine_readings (p : Position) (blocks : List Nat) (line : List Char) :
    readings (openLine ⟨p, blocks, line⟩).1 = layoutReadings (fitLine blocks line) := by
  rw [openLine_eq_fitLine, readings, layoutReadings, List.map_append, List.map_replicate]
  split <;> rfl

/-- The position of a line makes no difference to what is left of it. -/
theorem openLine_cursor (p q : Position) (blocks : List Nat) (line : List Char) :
    (openLine ⟨q, blocks, line⟩).2 =
      { (openLine ⟨p, blocks, line⟩).2 with
        position := q.after (line.takeWhile Text.isSpace) } := by
  rw [openLine_eq_fitLine, openLine_eq_fitLine]

/-- Where a scan starts makes no difference to what it reads. -/
theorem scan_readings (cursor : Cursor) : ∀ q,
    readings (scan cursor) = readings (scan { cursor with position := q }) := by
  induction cursor using scan.induct with
  | case1 cursor hrest =>
    obtain ⟨p, blocks, rest⟩ := cursor
    cases hrest
    intro q
    rw [scan_nil, scan_nil]
    simp only [readings, List.map_append, List.map_replicate]
    rfl
  | case2 cursor cs hrest front next opened ih =>
    obtain ⟨p, blocks, rest⟩ := cursor
    cases hrest
    intro q
    -- the marks of the line and what is read behind them do not depend on the position
    have hmarks := openLine_readings (p.after ['\n']) blocks cs
    rw [← openLine_readings (q.after ['\n']) blocks cs] at hmarks
    have hscan := ih ((q.after ['\n']).after (cs.takeWhile Text.isSpace))
    rw [scan_newline, scan_newline, openLine_cursor (p.after ['\n']) (q.after ['\n'])]
    simp only [readings, List.map_cons, List.map_append] at hmarks hscan ⊢
    rw [← hmarks]
    exact congrArg (fun later => _ :: (_ ++ later)) hscan
  | case3 cursor c cs hrest front next hc ih =>
    obtain ⟨p, blocks, rest⟩ := cursor
    cases hrest
    intro q
    have hscan := ih (q.after (lexeme c cs).taken)
    rw [scan_cons _ _ _ hc, scan_cons _ _ _ hc]
    simp only [readings, List.map_append, List.map_map] at hscan ⊢
    rw [← hscan]
    rfl

/-- What is read from the start of a line. -/
theorem resume_readings (p q : Position) (blocks : List Nat) (line : List Char) :
    readings (resume ⟨p, blocks, line⟩) =
      layoutReadings (fitLine blocks line) ++
        readings (scan ⟨q, (fitLine blocks line).1, line.dropWhile Text.isSpace⟩) := by
  rw [resume, readings, List.map_append]
  refine congrArg₂ (· ++ ·) (openLine_readings p blocks line) ?_
  refine (scan_readings _ q).trans ?_
  rw [openLine_eq_fitLine]

-- ---------------------------------------------------------------------------
-- Up to a line break
-- ---------------------------------------------------------------------------

/-- How tokens are cut at the line break behind `front`: the text `rest` behind `before`, of
which `tokensOf` gives the tokens, is cut there as well, and whatever text is put behind the
line break, `front` stays what it is. -/
def Cuts (script : List Char) (tokensOf : List Char → List Lexed) (before rest : List Char)
    (blocks : List Nat) (front : List Lexed) (span : Span) : Prop :=
  ∃ v b, rest = v ++ '\n' :: b ∧ span = stretch (before ++ v) ['\n'] ∧
    ∀ b', tokensOf (v ++ '\n' :: b') = front ++ ⟨.ok .newline, span⟩ ::
      resume ⟨Position.after {} (before ++ (v ++ ['\n'])),
        front.foldl (blockWidths script) blocks, b'⟩

/-- A step over a piece of the text, if it does not look behind line breaks. -/
theorem Cuts.step {script before piece rest : List Char} {blocks : List Nat}
    {tokensOf next : List Char → List Lexed} {here front : List Lexed} {span : Span}
    (h : Cuts script next (before ++ piece) rest (here.foldl (blockWidths script) blocks)
      front span)
    (hstep : ∀ v b, rest = v ++ '\n' :: b → ∀ b',
      tokensOf (piece ++ (v ++ '\n' :: b')) = here ++ next (v ++ '\n' :: b')) :
    Cuts script tokensOf before (piece ++ rest) blocks (here ++ front) span := by
  obtain ⟨v, b, hrest, hspan, hnext⟩ := h
  refine ⟨piece ++ v, b, ?_, ?_, ?_⟩
  · rw [hrest, List.append_assoc]
  · rw [hspan, List.append_assoc]
  · intro b'
    rw [List.append_assoc, hstep v b hrest, hnext, List.foldl_append]
    simp only [List.append_assoc]

/-- Marks for an end drop blocks, wherever they stand. -/
theorem foldl_dedents (script : List Char) (span : Span) (ended : Nat) (blocks : List Nat) :
    (List.replicate ended ⟨.ok .dedent, span⟩).foldl (blockWidths script) blocks =
      blocks.drop ended := by
  induction ended generalizing blocks with
  | zero => rfl
  | succ n ih =>
    rw [List.replicate_succ, List.foldl_cons, ih]
    cases blocks with
    | nil => exact List.drop_nil
    | cons width blocks => rfl

/-- Marks of layout fit the open blocks to their line. -/
theorem foldl_layoutMarks (script before blanks rest : List Char) (blocks : List Nat)
    (hscript : script = before ++ (blanks ++ rest)) (ended : Nat) (begins : Bool) :
    (layoutMarks before blanks ended begins).foldl (blockWidths script) blocks =
      if begins then Text.columns blanks :: blocks.drop ended else blocks.drop ended := by
  rw [layoutMarks, List.foldl_append, foldl_dedents]
  cases begins with
  | false => rfl
  | true =>
    show Text.columns (Text.between script (stretch before blanks).start
      (stretch before blanks).stop) :: blocks.drop ended = _
    rw [stretch_start, stretch_stop, hscript, Text.between_stretch, if_pos rfl]

/-- Fitting a margin ends some blocks, and begins one if the margin is wider than the last. -/
theorem fitBlocks_eq (blocks : List Nat) (width : Nat) :
    (fitBlocks blocks width).1 =
      if (fitBlocks blocks width).2.2 then width :: blocks.drop (fitBlocks blocks width).2.1
      else blocks.drop (fitBlocks blocks width).2.1 := by
  have hdrop : blocks.dropWhile (width < ·) =
      blocks.drop (blocks.takeWhile (width < ·)).length := by
    induction blocks with
    | nil => rfl
    | cons first blocks ih =>
      rw [List.dropWhile_cons, List.takeWhile_cons]
      split
      · rw [ih, List.length_cons, List.drop_succ_cons]
      · rfl
  unfold fitBlocks
  dsimp only
  split
  · rw [← hdrop]
    rfl
  · exact hdrop

/-- The marks of a line tell which blocks are open in it. -/
theorem foldl_openLine {script before line : List Char} (hscript : script = before ++ line)
    (blocks : List Nat) :
    (openLine ⟨Position.after {} before, blocks, line⟩).1.foldl (blockWidths script) blocks =
      (fitLine blocks line).1 := by
  have hline := (List.takeWhile_append_dropWhile (p := Text.isSpace) (l := line)).symm
  have hfold := foldl_layoutMarks script before (line.takeWhile Text.isSpace)
    (line.dropWhile Text.isSpace) blocks (by rw [hscript, ← hline])
    (fitLine blocks line).2.1 (fitLine blocks line).2.2
  rw [openLine_eq_fitLine, ← Position.after_append, emptyAt_after, Position.after_append,
    between_after]
  refine hfold.trans ?_
  rw [fitLine]
  split
  · rfl
  · exact (fitBlocks_eq ..).symm

/-- Opening a line cuts it behind its blanks. -/
theorem openLine_cut {before line : List Char} {blocks : List Nat} {opened : List Lexed × Cursor}
    (hopened : openLine ⟨Position.after {} before, blocks, line⟩ = opened) :
    opened.2.position = Position.after {} (before ++ line.takeWhile Text.isSpace) ∧
      line = line.takeWhile Text.isSpace ++ opened.2.rest := by
  rw [← hopened, openLine_eq_fitLine, Position.after_append]
  exact ⟨rfl, List.takeWhile_append_dropWhile.symm⟩

/-- If the text behind the indentation of a line can be cut at a line break, so can the
line. -/
theorem cuts_resume {script before line : List Char} {blocks : List Nat} {front : List Lexed}
    {span : Span} (hscript : script = before ++ line) {opened : List Lexed × Cursor}
    (hopened : openLine ⟨Position.after {} before, blocks, line⟩ = opened)
    (h : Cuts script (fun rest => scan { opened.2 with rest := rest })
      (before ++ line.takeWhile Text.isSpace) opened.2.rest opened.2.blocks front span) :
    Cuts script (fun rest => resume ⟨Position.after {} before, blocks, rest⟩) before line blocks
      (opened.1 ++ front) span := by
  have hblocks : opened.2.blocks = opened.1.foldl (blockWidths script) blocks := by
    rw [← hopened, foldl_openLine hscript, openLine_eq_fitLine]
  have hline := (openLine_cut hopened).2
  rw [hblocks] at h
  generalize line.takeWhile Text.isSpace = piece at h hline
  rw [hline]
  refine Cuts.step h ?_
  intro v b hrest b'
  rw [hrest, ← List.append_assoc] at hline
  rw [hline, openLine_append_newline] at hopened
  rw [← List.append_assoc, resume, openLine_append_newline]
  have hv : (openLine ⟨Position.after {} before, blocks, piece ++ v⟩).2.rest = v := by
    rw [← hopened] at hrest
    exact List.append_cancel_right hrest
  rw [← hopened, hv]

/-- No mark of a line is a line break. -/
theorem openLine_reading_ne {p : Position} {blocks : List Nat} {line : List Char} {t : Lexed}
    (h : t ∈ (openLine ⟨p, blocks, line⟩).1) : t.reading ≠ .ok .newline := by
  rw [openLine_eq_fitLine] at h
  rcases List.mem_append.mp h with h | h
  · rw [List.eq_of_mem_replicate h]
    exact nofun
  · split at h
    · rw [List.mem_singleton.mp h]
      exact nofun
    · cases h

/-- What is read inside a line is neither a line break nor a mark of layout. -/
theorem lexeme_reading_ne {c : Char} {cs : List Char} (hc : c ≠ '\n') {token : Token}
    (h : (lexeme c cs).reading = some (.ok token)) :
    token ≠ .newline ∧ token ≠ .indent ∧ token ≠ .dedent := by
  have hspells := lexeme_spells h
  refine ⟨?_, ?_, ?_⟩
  · rintro rfl
    -- a line break would be the first character that is taken
    have htaken : (lexeme c cs).taken = ['\n'] := hspells
    have hcut := lexeme_taken_append_rest c cs
    rw [htaken] at hcut
    exact hc (List.cons.inj hcut).1.symm
  · rintro rfl
    exact hspells
  · rintro rfl
    exact hspells

/-- Tokens that are no marks of layout leave the open blocks as they are. -/
theorem foldl_blockWidths {script : List Char} {tokens : List Lexed} {blocks : List Nat}
    (h : ∀ t ∈ tokens, ∀ token, t.reading = .ok token → token ≠ .indent ∧ token ≠ .dedent) :
    tokens.foldl (blockWidths script) blocks = blocks := by
  induction tokens with
  | nil => rfl
  | cons t tokens ih =>
    obtain ⟨ht, htokens⟩ := List.forall_mem_cons.mp h
    have hsame : blockWidths script blocks t = blocks := by
      unfold blockWidths
      split
      · next hreading => exact absurd rfl (ht _ hreading).1
      · next hreading => exact absurd rfl (ht _ hreading).2
      · rfl
    rw [List.foldl_cons, hsame, ih htokens]

/-- A line break is read as one, and the line behind it is opened. -/
theorem scan_newline_resume (before : List Char) (blocks : List Nat) (rest : List Char) :
    scan ⟨Position.after {} before, blocks, '\n' :: rest⟩ =
      ⟨.ok .newline, stretch before ['\n']⟩ ::
        resume ⟨Position.after {} (before ++ ['\n']), blocks, rest⟩ := by
  rw [scan_newline, between_after, ← Position.after_append]
  rfl

/-- A text that starts with a line break can be cut there. -/
theorem cuts_here (script before rest : List Char) (blocks : List Nat) :
    Cuts script (fun rest => scan ⟨Position.after {} before, blocks, rest⟩) before
      ('\n' :: rest) blocks [] (stretch before ['\n']) :=
  ⟨[], rest, rfl, by rw [List.append_nil], scan_newline_resume before blocks⟩

/-- If the line behind a line break can be cut, so can the text from that line break on. -/
theorem cuts_newline {script before line : List Char} {blocks : List Nat} {front : List Lexed}
    {span : Span}
    (h : Cuts script (fun rest => resume ⟨Position.after {} (before ++ ['\n']), blocks, rest⟩)
      (before ++ ['\n']) line blocks front span) :
    Cuts script (fun rest => scan ⟨Position.after {} before, blocks, rest⟩) before
      ('\n' :: line) blocks (⟨.ok .newline, stretch before ['\n']⟩ :: front) span := by
  show Cuts script _ before (['\n'] ++ line) blocks
    ([⟨.ok .newline, stretch before ['\n']⟩] ++ front) span
  exact Cuts.step h fun v b _ b' => scan_newline_resume before blocks (v ++ '\n' :: b')

/-- The token that is read at one place inside a line, if there is one. -/
def lexedHere (before : List Char) (c : Char) (cs : List Char) : List Lexed :=
  (lexeme c cs).reading.toList.map (⟨·, stretch before (lexeme c cs).taken⟩)

/-- A scan reads one lexeme and goes on behind it. -/
theorem scan_lexedHere {c : Char} (hc : c ≠ '\n') (before : List Char) (blocks : List Nat)
    (cs : List Char) :
    scan ⟨Position.after {} before, blocks, c :: cs⟩ = lexedHere before c cs ++
      scan ⟨Position.after {} (before ++ (lexeme c cs).taken), blocks, (lexeme c cs).rest⟩ := by
  rw [scan_cons _ _ _ hc, between_after, ← Position.after_append]
  rfl

/-- A lexeme is neither a line break nor a mark. -/
theorem lexedHere_reading_ne {before : List Char} {c : Char} {cs : List Char} (hc : c ≠ '\n')
    {t : Lexed} (ht : t ∈ lexedHere before c cs) {token : Token} (h : t.reading = .ok token) :
    token ≠ .newline ∧ token ≠ .indent ∧ token ≠ .dedent := by
  obtain ⟨reading, hreading, rfl⟩ := List.mem_map.mp ht
  exact lexeme_reading_ne hc ((Option.mem_toList.mp hreading).trans (congrArg some h))

/-- If the text behind what is read at one place inside a line can be cut, so can the text
from that place on: nothing that is read looks behind a line break. -/
theorem cuts_lexeme {script before : List Char} {c : Char} (hc : c ≠ '\n') {cs : List Char}
    {blocks : List Nat} {front : List Lexed} {span : Span}
    (h : Cuts script
      (fun rest => scan ⟨Position.after {} (before ++ (lexeme c cs).taken), blocks, rest⟩)
      (before ++ (lexeme c cs).taken) (lexeme c cs).rest blocks front span) :
    Cuts script (fun rest => scan ⟨Position.after {} before, blocks, rest⟩) before (c :: cs)
      blocks (lexedHere before c cs ++ front) span := by
  have hsame : (lexedHere before c cs).foldl (blockWidths script) blocks = blocks :=
    foldl_blockWidths fun t ht token htoken => (lexedHere_reading_ne hc ht htoken).2
  rw [← hsame] at h
  rw [← lexeme_taken_append_rest c cs]
  refine Cuts.step h ?_
  intro v b hrest b'
  obtain ⟨w, -, hw, hahead⟩ := lexeme_ahead hrest
  rw [← List.append_assoc, ← hw, List.cons_append, scan_lexedHere hc, lexedHere, hahead, hsame]
  rfl

/-- The tokens of a text can be cut at every line break that is one of them. -/
theorem cuts_scan {script : List Char} {span : Span} {later : List Lexed} (cursor : Cursor) :
    ∀ before front, script = before ++ cursor.rest →
      cursor.position = Position.after {} before →
      scan cursor = front ++ ⟨.ok .newline, span⟩ :: later →
      Cuts script (fun rest => scan { cursor with rest := rest }) before cursor.rest
        cursor.blocks front span := by
  induction cursor using scan.induct with
  | case1 cursor hrest =>
    obtain ⟨p, blocks, rest⟩ := cursor
    cases hrest
    rintro before front hscript rfl hscan
    rw [scan_nil] at hscan
    have hmem : (⟨.ok .newline, span⟩ : Lexed) ∈ front ++ ⟨.ok .newline, span⟩ :: later :=
      List.mem_append_right _ List.mem_cons_self
    rw [← hscan] at hmem
    rcases List.mem_append.mp hmem with hmem | hmem
    -- at the end there are marks and the end of the file, and no line break
    · cases List.eq_of_mem_replicate hmem
    · cases List.mem_singleton.mp hmem
  | case2 cursor cs hrest _ next opened ih =>
    obtain ⟨p, blocks, rest⟩ := cursor
    cases hrest
    rintro before front hscript rfl hscan
    have hopened : openLine ⟨Position.after {} (before ++ ['\n']), blocks, cs⟩ = opened := by
      rw [Position.after_append]
      rfl
    rw [scan_newline_resume] at hscan
    cases front with
    | nil =>
      -- the line break is the first token
      obtain rfl : stretch before ['\n'] = span := by
        injection (List.cons.inj hscan).1
      exact cuts_here script before cs blocks
    | cons first front =>
      obtain ⟨rfl, hlater⟩ := List.cons.inj hscan
      rw [resume, hopened] at hlater
      obtain ⟨more, rfl, hmore⟩ := exists_append_of_notMem hlater
        fun hmem => openLine_reading_ne (hopened ▸ hmem) rfl
      -- the line break is behind the marks of the line that opens here
      obtain ⟨hposition, hrest⟩ := openLine_cut hopened
      have hline : script = before ++ ['\n'] ++ cs := by
        rw [hscript, List.append_assoc, List.singleton_append]
      have hinside : script =
          before ++ ['\n'] ++ cs.takeWhile Text.isSpace ++ opened.2.rest := by
        rw [hline, List.append_assoc (before ++ ['\n']), ← hrest]
      exact cuts_newline (cuts_resume hline hopened (ih _ more hinside hposition hmore))
  | case3 cursor c cs hrest _ next hc ih =>
    obtain ⟨p, blocks, rest⟩ := cursor
    cases hrest
    rintro before front hscript rfl hscan
    rw [scan_lexedHere hc] at hscan
    obtain ⟨more, rfl, hmore⟩ := exists_append_of_notMem hscan
      fun hmem => (lexedHere_reading_ne hc hmem rfl).1 rfl
    have hinside : script = before ++ (lexeme c cs).taken ++ (lexeme c cs).rest := by
      rw [hscript, List.append_assoc, lexeme_taken_append_rest]
    have hnext : next =
        ⟨Position.after {} (before ++ (lexeme c cs).taken), blocks, (lexeme c cs).rest⟩ := by
      rw [Position.after_append]
    have hinner := ih _ more hinside (congrArg Cursor.position hnext)
    rw [hnext] at hinner
    exact cuts_lexeme hc (hinner hmore)

-- ---------------------------------------------------------------------------
-- Comment lines
-- ---------------------------------------------------------------------------

/-- A block comment goes up to the first end mark. -/
theorem blockBody_unclosed {text : List Char} (h : ¬ ['*', '/'] <:+: text)
    (behind : List Char) :
    blockBody (text ++ (['*', '/'] ++ behind)) = (text ++ ['*', '/'], behind) := by
  induction text with
  | nil => rfl
  | cons c text ih =>
    have hopen : ¬ (c = '*' ∧ (text ++ (['*', '/'] ++ behind)).head? = some '/') := by
      rintro ⟨rfl, hslash⟩
      cases text with
      | nil => cases hslash
      | cons d text =>
        cases hslash
        exact h ⟨[], text, rfl⟩
    have hinside : ¬ ['*', '/'] <:+: text := fun hmem =>
      h (hmem.trans (List.suffix_cons c text).isInfix)
    rw [List.cons_append, blockBody_cons_of_neg hopen, ih hinside]
    rfl

/-- A complete comment is read as one token. -/
theorem lexeme_comment {comment : List Char} (h : CompleteComment comment) :
    ∃ cs, comment = '/' :: cs ∧ ∀ behind, lexeme '/' (cs ++ '\n' :: behind) =
      ⟨some (.ok (.comment (String.ofList comment))), comment, '\n' :: behind⟩ := by
  cases h with
  | @line text whole =>
    refine ⟨'/' :: text, rfl, ?_⟩
    intro behind
    have hwhole : '\n' ∉ '/' :: '/' :: text := by
      simpa using whole
    show lineCommentLexeme ('/' :: '/' :: text ++ '\n' :: behind) = _
    rw [lineCommentLexeme_append_newline, lineCommentLexeme_of_notMem hwhole]
    rfl
  | @block text whole unclosed =>
    refine ⟨'*' :: (text ++ ['*', '/']), rfl, ?_⟩
    intro behind
    have hbody := blockBody_unclosed unclosed ('\n' :: behind)
    rw [List.cons_append, lexeme_block, List.append_assoc, hbody]

/-- Behind a comment and its line break, the next line is opened. -/
theorem significant_scan_comment {comment : List Char} (h : CompleteComment comment)
    (p : Position) (blocks : List Nat) (behind : List Char) :
    significant (scan ⟨p, blocks, comment ++ '\n' :: behind⟩) =
      significant (resume ⟨(p.after comment).after ['\n'], blocks, behind⟩) := by
  obtain ⟨cs, hcs, hread⟩ := lexeme_comment h
  rw [hcs, List.cons_append, scan_cons p blocks _ (by decide), hread, ← hcs, scan_newline]
  rfl

/-- A blank line leaves the open blocks as they are, and so does a line that is
indented as far as the innermost of them. -/
theorem fitBlocks_of_head? {blocks : List Nat} {width : Nat} (h : blocks.head? = some width) :
    fitBlocks blocks width = (blocks, 0, false) := by
  obtain ⟨outer, rfl⟩ := List.head?_eq_some_iff.mp h
  simp [fitBlocks]

/-- A line that is not blank stands in a block of its own width. -/
theorem head?_fitBlocks (blocks : List Nat) (width : Nat) :
    (fitBlocks blocks width).1.head? = some width := by
  have hnot := List.head?_dropWhile_not (width < ·) blocks
  unfold fitBlocks
  dsimp only
  cases hkept : blocks.dropWhile (width < ·) with
  | nil => rfl
  | cons first outer =>
    rw [hkept] at hnot
    have hle : ¬ width < first := of_decide_eq_false hnot
    by_cases hlt : first < width
    · simp [hlt]
    · obtain rfl : first = width := by omega
      simp

/-- The marks of a line are significant. -/
theorem isSignificant_layout (fitted : List Nat × Nat × Bool) :
    (layoutReadings fitted).filter isSignificant = layoutReadings fitted := by
  rw [List.filter_eq_self]
  intro reading h
  rcases List.mem_append.mp h with h | h
  · rw [List.eq_of_mem_replicate h]
    rfl
  · split at h
    · rw [List.mem_singleton.mp h]
      rfl
    · cases h

/-- What is read from the start of a line, comments and line breaks apart. -/
theorem significant_resume (p q : Position) (blocks : List Nat) (line : List Char) :
    significant (resume ⟨p, blocks, line⟩) =
      layoutReadings (fitLine blocks line) ++
        significant (scan ⟨q, (fitLine blocks line).1, line.dropWhile Text.isSpace⟩) := by
  have h := congrArg (List.filter isSignificant) (resume_readings p q blocks line)
  rw [List.filter_append, isSignificant_layout] at h
  exact h

end Lexer

namespace CommentLine

open Lexer

variable (line : CommentLine) (blocks : List Nat) (behind : List Char)

/-- A comment line is its margin, its comment and a line break. -/
theorem text_append : line.text ++ behind = line.blanks ++ (line.comment ++ '\n' :: behind) := by
  rw [text, List.append_assoc, List.append_assoc, List.singleton_append]

/-- Behind the blanks of a comment line, the comment starts. -/
theorem cut_text : (line.text ++ behind).takeWhile Text.isSpace = line.blanks ∧
    (line.text ++ behind).dropWhile Text.isSpace = line.comment ++ '\n' :: behind := by
  obtain ⟨cs, hcs, -⟩ := lexeme_comment line.complete
  rw [text_append, List.takeWhile_append_of_pos line.spaces,
    List.dropWhile_append_of_pos line.spaces, hcs, List.cons_append,
    List.takeWhile_cons_of_neg (by decide), List.dropWhile_cons_of_neg (by decide),
    List.append_nil]
  exact ⟨rfl, rfl⟩

/-- What is read from a comment line on: the marks of layout of the line, and what is
read behind it. -/
theorem significant_resume_text (p q : Position) :
    significant (resume ⟨p, blocks, line.text ++ behind⟩) =
      layoutReadings (fitLine blocks (line.text ++ behind)) ++
        significant (resume ⟨q, (fitLine blocks (line.text ++ behind)).1, behind⟩) := by
  rw [significant_resume p q, (line.cut_text behind).2, significant_scan_comment line.complete]
  rw [significant_resume _ q, significant_resume q q]

/-- A comment line that lines up makes no difference to what is read behind it. -/
theorem LinesUp.significant_resume_text {line : CommentLine} {blocks : List Nat}
    {behind : List Char} (h : line.LinesUp blocks behind) (p q : Position) :
    significant (resume ⟨p, blocks, line.text ++ behind⟩) =
      significant (resume ⟨q, blocks, behind⟩) := by
  obtain ⟨hblanks, hcomment⟩ := line.cut_text behind
  rw [line.significant_resume_text blocks behind p q]
  by_cases hblank : isBlankLine (line.comment ++ '\n' :: behind) = true
  · have hfit : fitLine blocks (line.text ++ behind) = (blocks, 0, false) := by
      rw [fitLine, hcomment, if_pos hblank]
    rw [hfit]
    rfl
  · have hfit : fitLine blocks (line.text ++ behind) =
        fitBlocks blocks (Text.columns line.blanks) := by
      rw [fitLine, hcomment, if_neg hblank, hblanks]
    rw [hfit]
    rcases h with ⟨text, hline⟩ | hwidth | ⟨hnext, hcolumns⟩
    · -- a line comment makes a blank line
      rw [hline] at hblank
      exact absurd rfl hblank
    -- a margin as wide as the last block opens and ends none
    · rw [fitBlocks_of_head? hwidth]
      rfl
    · -- the comment line opens and ends the blocks that the next line would
      have hnow : fitLine blocks behind = fitBlocks blocks (Text.columns line.blanks) := by
        rw [fitLine, hnext, if_neg (by decide), hcolumns]
      have hthen : fitLine (fitBlocks blocks (Text.columns line.blanks)).1 behind =
          ((fitBlocks blocks (Text.columns line.blanks)).1, 0, false) := by
        rw [fitLine, hnext, if_neg (by decide), hcolumns,
          fitBlocks_of_head? (head?_fitBlocks ..)]
      rw [Lexer.significant_resume q q, hthen, Lexer.significant_resume q q blocks, hnow]
      rfl

end CommentLine

-- ---------------------------------------------------------------------------
-- Putting a line in
-- ---------------------------------------------------------------------------

open Lexer in
/-- What is read up to the start of a line does not depend on the text from there on. -/
theorem LineStart.tokens_append {source : String} {front behind : List Char}
    {before : List Lexed} (h : LineStart source front before behind) :
    source.toList = front ++ behind ∧ ∀ text, tokens (front ++ text) =
      before ++ resume ⟨Position.after {} front, openWidths source.toList before, text⟩ := by
  cases h with
  -- the first line starts with the script
  | first => exact ⟨rfl, fun _ => rfl⟩
  | @next _ _ before later span reads cut stop =>
    refine ⟨cut, ?_⟩
    have hopened : openLine ⟨Position.after {} [], [0], source.toList⟩ =
      openLine (start source.toList) := rfl
    have hreads : (openLine (start source.toList)).1 ++ scan (openLine (start source.toList)).2 =
        before ++ ⟨.ok .newline, span⟩ :: later := reads
    obtain ⟨more, rfl, hmore⟩ := exists_append_of_notMem hreads
      fun hmem => openLine_reading_ne hmem rfl
    obtain ⟨hposition, hrest⟩ := openLine_cut hopened
    have hinner := cuts_scan _ _ more hrest hposition hmore
    have hwhole : source.toList = [] ++ source.toList := rfl
    obtain ⟨v, b, hv, hspan, hread⟩ := cuts_resume hwhole hopened hinner
    -- the text in front of the line is what was read up to the line break
    have hfront : v ++ ['\n'] = front := by
      refine eq_of_byteLength_eq (b := b) (d := behind) ?_ cut ?_
      · rw [hv, List.append_assoc, List.singleton_append]
      · rw [← stop, hspan, stretch_stop, List.nil_append, byteLength_append]
    intro text
    rw [openWidths, List.foldl_append, ← hfront, List.append_assoc v, List.append_assoc _ [_]]
    exact hread text

/-- Two spaces and a block comment. -/
def indentedBlockComment : CommentLine where
  blanks := [' ', ' ']
  comment := ['/', '*', ' ', 'c', ' ', '*', '/']
  spaces := by simp [Text.isSpace]
  complete := @CompleteComment.block [' ', 'c', ' '] (by decide) (by decide)

/-- An indented block comment opens a block, which the next line ends. -/
theorem lex_insert_comment_reindents :
    LineStart "x\n" [] [] "x\n".toList ∧
      String.ofList indentedBlockComment.text = "  /* c */\n" ∧
      significant (lex (String.ofList (indentedBlockComment.text ++ "x\n".toList))) ≠
        significant (lex "x\n") := by
  refine ⟨LineStart.first, by decide, ?_⟩
  intro h
  have hlength := congrArg List.length h
  revert hlength
  decide +kernel

/-- **A comment line says nothing.** Putting one in where a line starts leaves all that is
read unchanged, but for comments and line breaks, if the line holds a line comment or
lines up with the innermost open block or with the line behind it. -/
theorem lex_insert_comment {source : String} {front behind : List Char} {before : List Lexed}
    (h : LineStart source front before behind) (line : CommentLine)
    (aligned : line.LinesUp (openWidths source.toList before) behind) :
    significant (lex (String.ofList (front ++ (line.text ++ behind)))) =
      significant (lex source) := by
  obtain ⟨hcut, htokens⟩ := h.tokens_append
  have hlex : lex source = before ++ Lexer.resume
      ⟨Position.after {} front, openWidths source.toList before, behind⟩ := by
    rw [← htokens, ← hcut]
    rfl
  rw [lex, String.toList_ofList, htokens, hlex, significant_append, significant_append,
    aligned.significant_resume_text]

/-- The same line in front of one that is indented as far. -/
theorem lex_insert_comment_above_indented :
    LineStart "  x\n" [] [] "  x\n".toList ∧
      indentedBlockComment.LinesUp (openWidths "  x\n".toList []) "  x\n".toList ∧
      significant (lex (String.ofList ([] ++ (indentedBlockComment.text ++ "  x\n".toList)))) =
        significant (lex "  x\n") :=
  have aligned : indentedBlockComment.LinesUp (openWidths "  x\n".toList []) "  x\n".toList :=
    .inr (.inr (by decide))
  ⟨.first, aligned, lex_insert_comment .first indentedBlockComment aligned⟩

end PineCheck
