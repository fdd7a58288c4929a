import PineCheck.Proofs.CommentLines

/-!
# PineCheck — balanced indentation

The blocks that are open in a scan are kept with their widths, the innermost first. Their
widths grow strictly from the outermost one, which is 0 and never ends, so a line never
ends more blocks than there are, and the last line ends all but the outermost one.

`Visits` tells the states of a scan with the tokens that were emitted up to them, as the
scan goes from one to the next. What holds in all of them is proved by one step lemma for
each way to go on. Between two states a line may end several blocks and begin one; what
holds there as well is told by the widths that the tokens themselves leave open
(`openWidths`), for every beginning of the list of tokens.

Main results:

* `Visits.tokens_eq` — the states of `Visits` are those of the scan.
* `Visits.blocks_eq` — the blocks of a state are those that the tokens before it leave open.
* `indentation_balanced` — no beginning of the tokens ends more blocks than it begins, all
  blocks end, and a line that is measured is as wide as the innermost block behind it.
-/

namespace PineCheck

namespace Lexer

-- ---------------------------------------------------------------------------
-- Widths of open blocks
-- ---------------------------------------------------------------------------

/-- Widths of blocks that lie one in the other, the innermost first: they grow strictly from
the outermost one, which is 0. -/
structure Widening (widths : List Nat) : Prop where
  decreasing : widths.Pairwise (· > ·)
  outermost : widths.getLast? = some 0

namespace Widening

variable {widths : List Nat}

/-- There is always an open block. -/
theorem ne_nil (h : Widening widths) : widths ≠ [] := by
  rintro rfl
  cases h.outermost

/-- Outer blocks are as wide as they were. -/
theorem suffix (h : Widening widths) {outer : List Nat} (houter : outer <:+ widths)
    (hne : outer ≠ []) : Widening outer := by
  refine ⟨h.decreasing.sublist houter.sublist, ?_⟩
  obtain ⟨inner, rfl⟩ := houter
  rw [← h.outermost, List.getLast?_append, List.getLast?_eq_some_getLast hne, Option.some_or]

theorem drop (h : Widening widths) {ended : Nat} (hended : ended < widths.length) :
    Widening (widths.drop ended) :=
  h.suffix (List.drop_suffix ended widths) (by simpa using hended)

/-- A line never ends the outermost block. -/
theorem dropWhile_ne_nil (h : Widening widths) (width : Nat) :
    widths.dropWhile (width < ·) ≠ [] := by
  intro hnil
  have hzero := List.dropWhile_eq_nil_iff.mp hnil 0 (List.mem_of_getLast? h.outermost)
  exact Nat.not_lt_zero width (of_decide_eq_true hzero)

/-- A margin does not end the outermost block. -/
theorem ended_lt (h : Widening widths) (width : Nat) :
    (fitBlocks widths width).2.1 < widths.length := by
  have hkept := List.length_pos_iff.mpr (h.dropWhile_ne_nil width)
  have hcut := congrArg List.length
    (List.takeWhile_append_dropWhile (p := (width < ·)) (l := widths))
  have hended : (fitBlocks widths width).2.1 = (widths.takeWhile (width < ·)).length := by
    unfold fitBlocks
    dsimp only
    split <;> rfl
  rw [List.length_append] at hcut
  omega

/-- A block that is wider than the innermost one is wider than all. -/
theorem cons (h : Widening widths) {width : Nat} (hwider : widths.head?.all (· < width) = true) :
    Widening (width :: widths) := by
  have hwidest : ∀ outer ∈ widths, outer < width := by
    intro outer houter
    obtain ⟨first, rest, rfl⟩ := List.exists_cons_of_ne_nil h.ne_nil
    have hfirst : first < width := of_decide_eq_true hwider
    rcases List.mem_cons.mp houter with rfl | houter
    · exact hfirst
    · exact Nat.lt_trans (List.rel_of_pairwise_cons h.decreasing houter) hfirst
  refine ⟨List.pairwise_cons.mpr ⟨hwidest, h.decreasing⟩, ?_⟩
  rw [List.getLast?_cons, h.outermost]
  rfl

/-- Fitting a margin leaves blocks that lie one in the other. -/
theorem fitBlocks (h : Widening widths) (width : Nat) :
    Widening (fitBlocks widths width).1 := by
  have hkept : Widening (widths.dropWhile (width < ·)) :=
    h.suffix (List.dropWhile_suffix _) (h.dropWhile_ne_nil width)
  unfold Lexer.fitBlocks
  dsimp only
  split
  · next hwider => exact hkept.cons hwider
  · exact hkept

/-- Fitting a line leaves blocks that lie one in the other, and does not end the outermost one. -/
theorem fitLine (h : Widening widths) (line : List Char) :
    Widening (fitLine widths line).1 ∧ (fitLine widths line).2.1 < widths.length := by
  unfold Lexer.fitLine
  split
  · exact ⟨h, List.length_pos_iff.mpr h.ne_nil⟩
  · exact ⟨h.fitBlocks _, h.ended_lt _⟩

end Widening

/-- How often a mark of layout is among tokens. -/
def marks (mark : Token) (tokens : List Lexed) : Nat :=
  tokens.countP (·.reading = .ok mark)

theorem marks_append (mark : Token) (front behind : List Lexed) :
    marks mark (front ++ behind) = marks mark front + marks mark behind :=
  List.countP_append

theorem marks_singleton (mark : Token) (t : Lexed) :
    marks mark [t] = if t.reading = .ok mark then 1 else 0 := by
  simp [marks, List.countP_singleton]

/-- As many blocks are open behind tokens as the tokens begin and do not end, if at least one
is open in front of each of them. -/
theorem length_openWidths {script : List Char} {tokens : List Lexed}
    (h : ∀ front, front <+: tokens → openWidths script front ≠ []) :
    (openWidths script tokens).length + marks .dedent tokens = 1 + marks .indent tokens := by
  induction tokens using List.reverseRecOn with
  | nil => rfl
  | append_singleton front t ih =>
    have hfront := ih fun q hq => h q (hq.trans (List.prefix_append ..))
    have hpos := List.length_pos_iff.mpr (h front (List.prefix_append ..))
    have hlast : openWidths script (front ++ [t]) =
        blockWidths script (openWidths script front) t := by
      rw [openWidths, List.foldl_append]
      rfl
    rw [hlast, marks_append, marks_append, marks_singleton, marks_singleton, blockWidths]
    split
    -- an indent opens one block
    · next hindent =>
      rw [hindent, List.length_cons, if_neg (by decide), if_pos rfl]
      omega
    -- a dedent ends one, and there is one to end
    · next hdedent =>
      rw [hdedent, List.length_tail, if_pos rfl, if_neg (by decide)]
      omega
    · next hindent hdedent =>
      rw [if_neg hdedent, if_neg hindent]
      omega

-- ---------------------------------------------------------------------------
-- The marks of one line
-- ---------------------------------------------------------------------------

/-- Behind every mark of a line, the open blocks lie one in the other. -/
theorem widening_of_prefix_openLine {script before line : List Char}
    (hscript : script = before ++ line) {blocks : List Nat} (h : Widening blocks)
    {front : List Lexed}
    (hfront : front <+: (openLine ⟨Position.after {} before, blocks, line⟩).1) :
    Widening (front.foldl (blockWidths script) blocks) := by
  have hwhole := foldl_openLine hscript blocks
  obtain ⟨hfitted, hended⟩ := h.fitLine line
  rw [openLine_eq_fitLine] at hfront hwhole
  -- a part of the marks holds some of those for an end
  have hdedents : ∀ {span}, front <+: List.replicate (fitLine blocks line).2.1
      (⟨.ok .dedent, span⟩ : Lexed) → Widening (front.foldl (blockWidths script) blocks) := by
    intro span hpart
    obtain ⟨hlength, hreplicate⟩ := List.prefix_replicate_iff.mp hpart
    rw [hreplicate, foldl_dedents]
    exact h.drop (by omega)
  split at hfront
  · next hbegins =>
    rw [if_pos hbegins] at hwhole
    rcases List.prefix_concat_iff.mp hfront with hall | hpart
    · rwa [hall, hwhole]
    · exact hdedents hpart
  · rw [List.append_nil] at hfront
    exact hdedents hfront

-- ---------------------------------------------------------------------------
-- The states of a scan
-- ---------------------------------------------------------------------------

/-- A beginning of two parts is a beginning of the first one, or holds it and a beginning of
the second one. -/
theorem prefix_append_cases {α : Type} {front a b : List α} (h : front <+: a ++ b) :
    front <+: a ∨ ∃ more, more <+: b ∧ front = a ++ more := by
  rcases List.prefix_or_prefix_of_prefix h (List.prefix_append a b) with h' | ⟨more, rfl⟩
  · exact .inl h'
  · exact .inr ⟨more, (List.prefix_append_right_inj a).mp h, rfl⟩

/-- A token that ends a prefix of two lists stands in the first or in the second. -/
theorem concat_prefix_append_cases {α : Type} {front a b : List α} {t : α}
    (h : front ++ [t] <+: a ++ b) :
    front ++ [t] <+: a ∨ ∃ more, more ++ [t] <+: b ∧ front = a ++ more := by
  rcases prefix_append_cases h with h | ⟨more, hmore, hcut⟩
  · exact .inl h
  rcases List.eq_nil_or_concat more with rfl | ⟨more, last, rfl⟩
  · rw [hcut, List.append_nil]
    exact .inl List.prefix_rfl
  · rw [List.concat_eq_append] at hmore hcut
    rw [← List.append_assoc] at hcut
    obtain ⟨rfl, hlast⟩ := List.append_inj' hcut rfl
    rw [List.cons.inj hlast |>.1]
    exact .inr ⟨more, hmore, rfl⟩

/-- The token of the lexeme at a position, if it has one. -/
def readAt (p : Position) (c : Char) (cs : List Char) : List Lexed :=
  (lexeme c cs).reading.toList.map (⟨·, Span.between p (p.after (lexeme c cs).taken)⟩)

/-- Lexemes are no marks of layout. -/
theorem readAt_reading_ne {p : Position} {c : Char} {cs : List Char} {t : Lexed}
    (h : t ∈ readAt p c cs) (token : Token) (htoken : t.reading = .ok token) :
    token ≠ .indent ∧ token ≠ .dedent := by
  obtain ⟨reading, hreading, rfl⟩ := List.mem_map.mp h
  have hspells := lexeme_spells ((Option.mem_toList.mp hreading).trans (congrArg some htoken))
  constructor
  · rintro rfl
    exact hspells
  · rintro rfl
    exact hspells

/-- The states of a scan of a script: the tokens that were emitted so far, whether the
indentation of a line is read next, and the cursor. At the end of the script, one block ends
after the other. -/
inductive Visits (script : List Char) : List Lexed → Bool → Cursor → Prop
  | start : Visits script [] true (start script)
  | measure {emitted : List Lexed} {cursor : Cursor} (visits : Visits script emitted true cursor) :
      Visits script (emitted ++ (openLine cursor).1) false (openLine cursor).2
  | read {emitted : List Lexed} {p : Position} {blocks : List Nat} {c : Char} {cs : List Char}
      (visits : Visits script emitted false ⟨p, blocks, c :: cs⟩) :
      Visits script (emitted ++ readAt p c cs) (c = '\n')
        ⟨p.after (lexeme c cs).taken, blocks, (lexeme c cs).rest⟩
  | close {emitted : List Lexed} {p : Position} {width outer : Nat} {blocks : List Nat}
      (visits : Visits script emitted false ⟨p, width :: outer :: blocks, []⟩) :
      Visits script (emitted ++ [⟨.ok .dedent, Span.emptyAt p⟩]) false ⟨p, outer :: blocks, []⟩

namespace Visits

variable {script : List Char} {emitted : List Lexed} {atLineStart : Bool} {cursor : Cursor}

/-- The tokens of a script are those that were emitted up to a state and those that are read
from there on. -/
theorem tokens_eq (visits : Visits script emitted atLineStart cursor) :
    tokens script = emitted ++ if atLineStart then resume cursor else scan cursor := by
  induction visits with
  | start => rfl
  | measure visits ih =>
    rw [ih, List.append_assoc]
    rfl
  | @read emitted p blocks c cs visits ih =>
    rw [ih, List.append_assoc]
    by_cases hc : c = '\n'
    · subst hc
      exact congrArg (emitted ++ ·) (scan_newline p blocks cs)
    · simp only [hc, decide_false, Bool.false_eq_true, if_false, scan_cons p blocks cs hc, readAt]
  | close visits ih =>
    rw [ih, List.append_assoc, if_neg (by decide), if_neg (by decide), scan_nil, scan_nil]
    rfl

/-- The cursor of a state stands in the script. -/
theorem position_eq (visits : Visits script emitted atLineStart cursor) :
    ∃ before, script = before ++ cursor.rest ∧ cursor.position = Position.after {} before := by
  induction visits with
  | start => exact ⟨[], rfl, rfl⟩
  | @measure emitted cursor visits ih =>
    obtain ⟨before, hscript, hposition⟩ := ih
    obtain ⟨blanks, rest, ended, begins, hcut, -, -, hinner, hrest⟩ := openLine_eq hposition
    exact ⟨before ++ blanks, by rw [hscript, hcut, hrest, List.append_assoc], hinner⟩
  | @read emitted p blocks c cs visits ih =>
    obtain ⟨before, hscript, hposition⟩ := ih
    refine ⟨before ++ (lexeme c cs).taken, ?_, ?_⟩
    · rw [hscript, List.append_assoc, lexeme_taken_append_rest]
    · rw [Position.after_append, ← hposition]
  | close visits ih => exact ih

/-- The open blocks of a state are those that the tokens before it leave open. -/
theorem blocks_eq (visits : Visits script emitted atLineStart cursor) :
    openWidths script emitted = cursor.blocks := by
  induction visits with
  | start => rfl
  | @measure emitted cursor visits ih =>
    obtain ⟨p, blocks, line⟩ := cursor
    obtain ⟨before, hscript, rfl⟩ := visits.position_eq
    rw [openWidths, List.foldl_append, ← openWidths, ih, foldl_openLine hscript,
      openLine_eq_fitLine]
  | @read emitted p blocks c cs visits ih =>
    rw [openWidths, List.foldl_append, ← openWidths, ih,
      foldl_blockWidths fun _ => readAt_reading_ne]
  | close visits ih =>
    rw [openWidths, List.foldl_append, ← openWidths, ih]
    rfl

/-- Behind every token of a scan, the open blocks lie one in the other. -/
theorem widening (visits : Visits script emitted atLineStart cursor) :
    ∀ front, front <+: emitted → Widening (openWidths script front) := by
  induction visits with
  | start =>
    intro front hfront
    rw [List.prefix_nil.mp hfront]
    exact ⟨List.pairwise_singleton .., rfl⟩
  -- the marks of a line
  | @measure emitted cursor visits ih =>
    intro front hfront
    rcases prefix_append_cases hfront with hfront | ⟨more, hmore, rfl⟩
    · exact ih front hfront
    have hblocks := ih emitted List.prefix_rfl
    rw [openWidths, List.foldl_append, ← openWidths]
    rw [visits.blocks_eq] at hblocks ⊢
    obtain ⟨p, blocks, line⟩ := cursor
    obtain ⟨before, hscript, rfl⟩ := visits.position_eq
    exact widening_of_prefix_openLine hscript hblocks hmore
  -- a lexeme opens and ends no block
  | @read emitted p blocks c cs visits ih =>
    intro front hfront
    rcases prefix_append_cases hfront with hfront | ⟨more, hmore, rfl⟩
    · exact ih front hfront
    rw [openWidths, List.foldl_append,
      foldl_blockWidths fun t ht => readAt_reading_ne (hmore.subset ht)]
    exact ih emitted List.prefix_rfl
  -- at the end of the script a block ends
  | @close emitted p width outer blocks visits ih =>
    intro front hfront
    rcases List.prefix_concat_iff.mp hfront with rfl | hfront
    · have hblocks := ih emitted List.prefix_rfl
      rw [openWidths, List.foldl_append, ← openWidths]
      rw [visits.blocks_eq] at hblocks ⊢
      exact hblocks.suffix (List.suffix_cons ..) (List.cons_ne_nil outer blocks)
    · exact ih front hfront

/-- At the end of the script, all blocks end but the outermost one. -/
theorem exists_closed {p : Position} {blocks : List Nat}
    (visits : Visits script emitted false ⟨p, blocks, []⟩) :
    ∃ emitted, Visits script emitted false ⟨p, [0], []⟩ := by
  induction blocks generalizing emitted with
  | nil =>
    have hblocks := visits.widening emitted List.prefix_rfl
    rw [visits.blocks_eq] at hblocks
    exact absurd rfl hblocks.ne_nil
  | cons width blocks ih =>
    cases blocks with
    | nil =>
      have hblocks := visits.widening emitted List.prefix_rfl
      rw [visits.blocks_eq] at hblocks
      obtain rfl : width = 0 := Option.some.inj hblocks.outermost
      exact ⟨emitted, visits⟩
    | cons outer blocks => exact ih visits.close

/-- From every state inside a line, the scan gets to the end of the script. -/
theorem exists_end (cursor : Cursor) : ∀ emitted, Visits script emitted false cursor →
    ∃ emitted p, Visits script emitted false ⟨p, [0], []⟩ := by
  induction cursor using scan.induct with
  -- at the end of the script the open blocks are closed one by one
  | case1 cursor hrest =>
    obtain ⟨p, blocks, rest⟩ := cursor
    cases hrest
    intro emitted visits
    obtain ⟨emitted, visits⟩ := visits.exists_closed
    exact ⟨emitted, p, visits⟩
  | case2 cursor cs hrest front next opened ih =>
    obtain ⟨p, blocks, rest⟩ := cursor
    cases hrest
    exact fun emitted visits => ih _ visits.read.measure
  | case3 cursor c cs hrest front next hc ih =>
    obtain ⟨p, blocks, rest⟩ := cursor
    cases hrest
    intro emitted visits
    have hnext := visits.read
    rw [decide_eq_false hc] at hnext
    exact ih _ hnext

/-- A line starts behind every line break that was emitted. -/
theorem exists_line (visits : Visits script emitted atLineStart cursor) {front : List Lexed}
    {t : Lexed} (hfront : front ++ [t] <+: emitted) (ht : t.reading = .ok .newline) :
    ∃ cursor, Visits script (front ++ [t]) true cursor := by
  induction visits with
  | start => exact absurd (List.prefix_nil.mp hfront) (List.concat_ne_nil _ _)
  | @measure emitted cursor visits ih =>
    rcases concat_prefix_append_cases hfront with hfront | ⟨more, hmore, -⟩
    · exact ih hfront
    exact absurd ht (openLine_reading_ne (hmore.subset List.mem_concat_self))
  | @read emitted p blocks c cs visits ih =>
    rcases concat_prefix_append_cases hfront with hfront | ⟨more, hmore, rfl⟩
    · exact ih hfront
    have hc : c = '\n' := by
      obtain ⟨reading, hreading, rfl⟩ := List.mem_map.mp (hmore.subset List.mem_concat_self)
      by_contra hc
      exact (lexeme_reading_ne hc ((Option.mem_toList.mp hreading).trans (congrArg some ht))).1 rfl
    subst hc
    -- the line break is all that is read
    have hall : more ++ [t] = readAt p '\n' cs := hmore.eq_of_length_le (by simp [readAt, lexeme])
    rw [List.append_assoc, hall]
    exact ⟨_, visits.read⟩
  | close visits ih =>
    rcases concat_prefix_append_cases hfront with hfront | ⟨more, hmore, -⟩
    · exact ih hfront
    rw [List.mem_singleton.mp (hmore.subset List.mem_concat_self)] at ht
    cases ht

end Visits

-- ---------------------------------------------------------------------------
-- Measured lines
-- ---------------------------------------------------------------------------

/-- A space takes one column and a tab takes four. -/
theorem columns_eq {blanks : List Char} (h : ∀ b ∈ blanks, b = ' ' ∨ b = '\t') :
    Text.columns blanks = blanks.count ' ' + 4 * blanks.count '\t' := by
  induction blanks with
  | nil => rfl
  | cons b blanks ih =>
    obtain ⟨hb, hblanks⟩ := List.forall_mem_cons.mp h
    have hcolumns : Text.columns (b :: blanks) =
        (if b = '\t' then 4 else 1) + Text.columns blanks := rfl
    rw [hcolumns, ih hblanks]
    rcases hb with rfl | rfl
    · simp
      omega
    · simp
      omega

/-- A line that is not blank is measured. -/
theorem head?_openLine {p : Position} {blocks : List Nat} {blanks cs : List Char} {c : Char}
    (hblanks : ∀ b ∈ blanks, b = ' ' ∨ b = '\t') (hc : c ∉ [' ', '\t', '\n', '\r'])
    (hcomment : ¬ (c = '/' ∧ cs.head? = some '/')) :
    (openLine ⟨p, blocks, blanks ++ c :: cs⟩).2.blocks.head? =
      some (blanks.count ' ' + 4 * blanks.count '\t') := by
  simp only [List.mem_cons, List.not_mem_nil, or_false, not_or] at hc
  have hspace : Text.isSpace c = false := by simp [Text.isSpace, hc]
  have hspaces : ∀ b ∈ blanks, Text.isSpace b = true := by
    intro b hb
    rcases hblanks b hb with rfl | rfl <;> rfl
  have hblank : isBlankLine (c :: cs) = false := by
    simpa [isBlankLine, hc] using hcomment
  have hneg : ¬ Text.isSpace c = true := Bool.eq_false_iff.mp hspace
  rw [openLine_eq_fitLine, fitLine, List.takeWhile_append_of_pos hspaces,
    List.dropWhile_append_of_pos hspaces, List.takeWhile_cons_of_neg hneg,
    List.dropWhile_cons_of_neg hneg, hblank, if_neg (by decide), List.append_nil, head?_fitBlocks,
    columns_eq hblanks]

end Lexer

-- ---------------------------------------------------------------------------
-- Balanced indentation
-- ---------------------------------------------------------------------------

open Lexer

/-- What it means for the indentation of a script to be balanced. -/
structure BalancedIndentation (source : String) : Prop where
  /-- No beginning of the tokens ends more blocks than it begins. -/
  dedents_le : ∀ front, front <+: lex source → marks .dedent front ≤ marks .indent front
  /-- All blocks end. -/
  dedents_eq : marks .dedent (lex source) = marks .indent (lex source)
  /-- In every state of the scan, the blocks lie one in the other, and there is one more of them
  than the tokens so far begin and do not end. -/
  blocks : ∀ emitted atLineStart cursor, Visits source.toList emitted atLineStart cursor →
    emitted <+: lex source ∧ Widening cursor.blocks ∧
      cursor.blocks.length + marks .dedent emitted = 1 + marks .indent emitted
  /-- The same holds between two states, for the blocks that the tokens leave open. -/
  widths : ∀ front, front <+: lex source → Widening (openWidths source.toList front) ∧
    (openWidths source.toList front).length + marks .dedent front = 1 + marks .indent front
  /-- The scan goes on to the end of the script, where only the outermost block is open. -/
  ends : ∃ emitted p, Visits source.toList emitted false ⟨p, [0], []⟩ ∧
    lex source = emitted ++ [⟨.ok .endOfFile, Span.emptyAt p⟩]
  /-- Behind every line break that is a token, the indentation of a line is read next. -/
  lines : ∀ front t, front ++ [t] <+: lex source → t.reading = .ok .newline →
    ∃ cursor, Visits source.toList (front ++ [t]) true cursor
  /-- Behind the indentation of a line that is not blank, the innermost block is as wide as the
  indentation. -/
  measured : ∀ emitted cursor, Visits source.toList emitted true cursor →
    ∀ blanks c cs, cursor.rest = blanks ++ c :: cs → (∀ b ∈ blanks, b = ' ' ∨ b = '\t') →
      c ∉ [' ', '\t', '\n', '\r'] → ¬ (c = '/' ∧ cs.head? = some '/') →
      Visits source.toList (emitted ++ (openLine cursor).1) false (openLine cursor).2 ∧
        (openLine cursor).2.blocks.head? = some (blanks.count ' ' + 4 * blanks.count '\t')

/-- **Indentation is balanced**, in every script. -/
theorem indentation_balanced (source : String) : BalancedIndentation source := by
  obtain ⟨emitted, p, visits⟩ :=
    Visits.exists_end _ _ (.measure (.start : Visits source.toList [] true (start source.toList)))
  have hlex : lex source = emitted ++ [⟨.ok .endOfFile, Span.emptyAt p⟩] := by
    rw [lex, visits.tokens_eq, if_neg (by decide), scan_nil]
    rfl
  -- all blocks but the outermost are ended by the end of the script
  have hends : openWidths source.toList (lex source) = [0] := by
    rw [hlex, openWidths, List.foldl_append, ← openWidths, visits.blocks_eq]
    rfl
  have hwidening : ∀ front, front <+: lex source → Widening (openWidths source.toList front) := by
    intro front hfront
    rw [hlex] at hfront
    rcases List.prefix_concat_iff.mp hfront with rfl | hfront
    · rw [← hlex, hends]
      exact ⟨List.pairwise_singleton .., rfl⟩
    · exact visits.widening front hfront
  have hlength : ∀ front, front <+: lex source →
      (openWidths source.toList front).length + marks .dedent front = 1 + marks .indent front :=
    fun front hfront => length_openWidths fun q hq => (hwidening q (hq.trans hfront)).ne_nil
  refine ⟨?_, ?_, ?_, fun front hfront => ⟨hwidening front hfront, hlength front hfront⟩,
    ⟨emitted, p, visits, hlex⟩, ?_, ?_⟩
  · intro front hfront
    have hpos := List.length_pos_iff.mpr (hwidening front hfront).ne_nil
    have hcount := hlength front hfront
    omega
  · have hcount := hlength _ List.prefix_rfl
    rw [hends, List.length_singleton] at hcount
    omega
  · intro front atLineStart cursor hvisits
    have hfront : front <+: lex source := ⟨_, hvisits.tokens_eq.symm⟩
    have hblocks := hvisits.blocks_eq
    exact ⟨hfront, hblocks ▸ hwidening front hfront, hblocks ▸ hlength front hfront⟩
  · intro front t hfront ht
    rw [hlex] at hfront
    rcases concat_prefix_append_cases hfront with hfront | ⟨more, hmore, -⟩
    · exact visits.exists_line hfront ht
    · rw [List.mem_singleton.mp (hmore.subset List.mem_concat_self)] at ht
      cases ht
  · rintro front ⟨p, blocks, line⟩ hvisits blanks c cs hline hblanks hc hcomment
    cases hline
    exact ⟨hvisits.measure, head?_openLine hblanks hc hcomment⟩

end PineCheck
