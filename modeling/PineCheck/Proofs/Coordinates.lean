import PineCheck.Proofs.Indexed.Location
import PineCheck.Proofs.Locations
import PineCheck.Text.Line

/-!
# PineCheck — three ways to count lines and columns

The scan counts lines and columns as it goes over the characters. A span that is
asked for by offsets looks them up in a table of line starts. The checks that go
through a script line by line cut it at its line breaks and number the pieces.
This module says that the three always agree.

`Lined number offset cs lines` tells how a text is made of numbered lines, without
the cut and without the carriage returns that are dropped: every line is followed by
its ending, and the next line starts behind that. What is said about lines is proved
by induction on it.

Main result:

* `positions_agree` — the location of every token is found again in the table, and
  so are the number of every line and the columns in it; with their endings the lines
  make up the script.
-/

namespace PineCheck

-- ---------------------------------------------------------------------------
-- Places in a line
-- ---------------------------------------------------------------------------

/-- In a text without line breaks, every character is one column. -/
theorem Position.after_of_notMem {cs : List Char} (p : Position) (h : '\n' ∉ cs) :
    p.after cs = ⟨p.offset + byteLength cs, p.line, p.column + cs.length⟩ := by
  induction cs generalizing p with
  | nil => rfl
  | cons c cs ih =>
    obtain ⟨hc, hcs⟩ := List.ne_and_not_mem_of_not_mem_cons h
    rw [after_cons, ih _ hcs, advance, if_neg hc.symm, byteLength_cons, List.length_cons,
      Nat.add_assoc, Nat.add_right_comm p.column, Nat.add_assoc p.column]

/-- Behind a line break, a line starts. -/
theorem Position.after_newline (p : Position) : p.after ['\n'] = ⟨p.offset + 1, p.line + 1, 0⟩ :=
  rfl

namespace Text

-- ---------------------------------------------------------------------------
-- Lines and their endings
-- ---------------------------------------------------------------------------

/-- A text without a cut is one piece. -/
theorem splitAll_of_forall {p : Char → Bool} {cs : List Char} (h : ∀ c ∈ cs, p c = false) :
    splitAll p cs = [cs] := by
  induction cs with
  | nil => rfl
  | cons c cs ih =>
    obtain ⟨hc, hcs⟩ := List.forall_mem_cons.mp h
    rw [splitAll, hc, ih hcs]
    rfl

/-- The first piece of a text ends at the first cut. -/
theorem splitAll_append_cons {p : Char → Bool} {piece : List Char} {cut : Char} (cs : List Char)
    (h : ∀ c ∈ piece, p c = false) (hcut : p cut = true) :
    splitAll p (piece ++ cut :: cs) = piece :: splitAll p cs := by
  induction piece with
  | nil => rw [List.nil_append, splitAll, if_pos hcut]
  | cons c piece ih =>
    obtain ⟨hc, hpiece⟩ := List.forall_mem_cons.mp h
    rw [List.cons_append, splitAll, hc, ih hpiece]
    rfl

/-- Only a carriage return is ever dropped from a line. -/
theorem exists_dropReturn (raw : List Char) :
    ∃ returned, (returned = [] ∨ returned = ['\r']) ∧ raw = dropReturn raw ++ returned := by
  unfold dropReturn
  split
  · next h =>
    obtain ⟨front, rfl⟩ := List.getLast?_eq_some_iff.mp h
    exact ⟨['\r'], Or.inr rfl, by rw [List.dropLast_concat]⟩
  · exact ⟨[], Or.inl rfl, (List.append_nil raw).symm⟩

/-- How a text behind `offset` bytes is made of lines that are numbered from `number` on. -/
inductive Lined : Nat → Nat → List Char → List Line → Prop
  | last (number offset : Nat) {text returned : List Char} (whole : '\n' ∉ text)
      (bare : returned = [] ∨ returned = ['\r']) :
      Lined number offset (text ++ returned) [⟨number, offset, text⟩]
  | line {number offset : Nat} {text returned rest : List Char} {later : List Line}
      (whole : '\n' ∉ text) (bare : returned = [] ∨ returned = ['\r'])
      (next : Lined (number + 1) (offset + byteLength (text ++ (returned ++ ['\n']))) rest later) :
      Lined number offset (text ++ (returned ++ ['\n']) ++ rest) (⟨number, offset, text⟩ :: later)

/-- The numbered pieces of a text are its lines. -/
theorem numberLines_lined (number offset : Nat) (cs : List Char) :
    Lined number offset cs (numberLines number offset (splitAll (· = '\n') cs)) := by
  by_cases hmem : '\n' ∈ cs
  · obtain ⟨raw, rest, rfl, hraw⟩ := List.eq_append_cons_of_mem hmem
    have hlength : rest.length < (raw ++ '\n' :: rest).length := by
      rw [List.length_append, List.length_cons]
      omega
    obtain ⟨returned, hbare, hcut⟩ := exists_dropReturn raw
    have hwhole : '\n' ∉ dropReturn raw := fun h =>
      hraw (hcut ▸ List.mem_append_left returned h)
    have hnext := numberLines_lined (number + 1) (offset + byteLength raw + 1) rest
    have hoffset : offset + byteLength raw + 1 =
        offset + byteLength (dropReturn raw ++ (returned ++ ['\n'])) := by
      rw [← List.append_assoc, ← hcut, byteLength_append, ← Nat.add_assoc]
      rfl
    have hpieces : splitAll (· = '\n') (raw ++ '\n' :: rest) =
        raw :: splitAll (· = '\n') rest :=
      splitAll_append_cons rest (fun c hc => decide_eq_false (ne_of_mem_of_not_mem hc hraw)) rfl
    have htext : raw ++ '\n' :: rest = dropReturn raw ++ (returned ++ ['\n']) ++ rest := by
      rw [← List.append_assoc, ← hcut, List.append_assoc, List.singleton_append]
    rw [hpieces, numberLines]
    rw [hoffset] at hnext ⊢
    rw [htext]
    exact Lined.line hwhole hbare hnext
  · obtain ⟨returned, hbare, hcut⟩ := exists_dropReturn cs
    have hwhole : '\n' ∉ dropReturn cs := fun h =>
      hmem (hcut ▸ List.mem_append_left returned h)
    have hpieces : splitAll (· = '\n') cs = [cs] :=
      splitAll_of_forall fun c hc => decide_eq_false (ne_of_mem_of_not_mem hc hmem)
    rw [hpieces, numberLines, numberLines]
    generalize dropReturn cs = text at hcut hwhole ⊢
    rw [hcut]
    exact Lined.last number offset hwhole hbare
termination_by cs.length

/-- The lines of a text are numbered from one and start at its start. -/
theorem lines_lined (cs : List Char) : Lined 1 0 cs (lines cs) :=
  numberLines_lined 1 0 cs

namespace Lined

variable {number offset : Nat} {cs : List Char} {lines : List Line}

theorem notMem_returned {returned : List Char} (bare : returned = [] ∨ returned = ['\r']) :
    '\n' ∉ returned := by
  rcases bare with rfl | rfl <;> decide

/-- There is one more line than there are line breaks. -/
theorem length_eq (lined : Lined number offset cs lines) :
    lines.length = cs.count '\n' + 1 := by
  induction lined with
  | last _ _ whole bare =>
    rw [List.count_append, List.count_eq_zero_of_not_mem whole,
      List.count_eq_zero_of_not_mem (notMem_returned bare)]
    rfl
  | line whole bare next ih =>
    rw [List.count_append, List.count_append, List.count_append,
      List.count_eq_zero_of_not_mem whole,
      List.count_eq_zero_of_not_mem (notMem_returned bare), List.count_singleton_self,
      List.length_cons, ih]
    omega

/-- Lines with their endings make up the text. Every line ends in a line break, with or
without a carriage return, except for the last one. -/
theorem exists_endings (lined : Lined number offset cs lines) :
    ∃ endings : List (List Char), ∃ ending, endings.length + 1 = lines.length ∧
      (∀ e ∈ endings, e = ['\n'] ∨ e = ['\r', '\n']) ∧ (ending = [] ∨ ending = ['\r']) ∧
      (List.zipWith (fun line e => line.text ++ e) lines (endings ++ [ending])).flatten = cs := by
  induction lined with
  | @last _ _ text returned whole bare =>
    refine ⟨[], returned, rfl, fun e he => absurd he List.not_mem_nil, bare, ?_⟩
    exact List.append_nil _
  | @line _ _ text returned rest later whole bare next ih =>
    obtain ⟨endings, ending, hlength, hbroken, hlast, hjoined⟩ := ih
    refine ⟨(returned ++ ['\n']) :: endings, ending, congrArg (· + 1) hlength, ?_, hlast, ?_⟩
    · refine List.forall_mem_cons.mpr ⟨?_, hbroken⟩
      exact bare.imp (congrArg (· ++ ['\n'])) (congrArg (· ++ ['\n']))
    · rw [List.cons_append, List.zipWith_cons_cons, List.flatten_cons, hjoined]

/-- Every line stands in the text, at the place that its number and its offset tell. -/
theorem standsAt (lined : Lined number offset cs lines) {before : List Char}
    (hbefore : Position.after {} before = ⟨offset, number, 0⟩) :
    ∀ line ∈ lines, '\n' ∉ line.text ∧ ∃ front behind,
      before ++ cs = front ++ (line.text ++ behind) ∧
      Position.after {} front = ⟨line.offset, line.number, 0⟩ := by
  induction lined generalizing before with
  | last _ _ whole bare =>
    intro line hline
    rw [List.mem_singleton.mp hline]
    exact ⟨whole, before, _, rfl, hbefore⟩
  | @line number offset text returned rest later whole bare next ih =>
    have hnext : Position.after {} (before ++ (text ++ (returned ++ ['\n']))) =
        ⟨offset + byteLength (text ++ (returned ++ ['\n'])), number + 1, 0⟩ := by
      have hinside : '\n' ∉ text ++ returned := fun h =>
        (List.mem_append.mp h).elim whole (notMem_returned bare)
      rw [← List.append_assoc text, Position.after_append, hbefore, Position.after_append,
        Position.after_of_notMem _ hinside, Position.after_newline, byteLength_append _ ['\n'],
        ← Nat.add_assoc]
      rfl
    refine List.forall_mem_cons.mpr ⟨⟨whole, before, returned ++ ['\n'] ++ rest, ?_, hbefore⟩, ?_⟩
    · rw [List.append_assoc text]
    · intro line hline
      have h := ih hnext line hline
      rwa [List.append_assoc before] at h

end Lined

end Text

-- ---------------------------------------------------------------------------
-- Agreement
-- ---------------------------------------------------------------------------

/-- At a character boundary in a line, the table of line starts tells the number of the
line, and as many columns as there are characters of the line before the boundary. -/
theorem location_in_line {source : String} {line : Text.Line}
    (hline : line ∈ Text.lines source.toList) {place : Nat}
    (hvalid : String.Pos.Raw.IsValid source ⟨place⟩) (hle : line.offset ≤ place)
    (hge : place ≤ line.offset + byteLength line.text) :
    Indexed.location source.toList place 0 = .ok
      ⟨place, place, line.number, (Text.between source.toList line.offset place).length⟩ := by
  have hstart : Position.after {} [] = ⟨0, 1, 0⟩ := rfl
  obtain ⟨hwhole, front, behind, hcut, hfront⟩ :=
    (Text.lines_lined source.toList).standsAt hstart line hline
  rw [List.nil_append] at hcut
  have hoffset : byteLength front = line.offset := by
    have h := Position.after_offset {} front
    rw [hfront] at h
    exact (h.trans (Nat.zero_add _)).symm
  -- the boundary cuts the script, and it does so inside the line
  obtain ⟨upTo, beyond, hplace, hsize⟩ : ∃ upTo beyond, source.toList = upTo ++ beyond ∧
      byteLength upTo = place := by
    obtain ⟨s, t, hs, hsize⟩ := (String.Pos.Raw.isValid_iff_exists_append).mp hvalid
    refine ⟨s.toList, t.toList, by rw [hs, String.toList_append], ?_⟩
    rw [byteLength_toList]
    exact (congrArg String.Pos.Raw.byteIdx hsize).symm
  obtain ⟨inside, rfl⟩ := exists_append_of_byteLength_le hcut hplace (by omega)
  rw [byteLength_append] at hsize
  obtain ⟨left, hleft⟩ : ∃ left, line.text = inside ++ left := by
    have hinside : line.text ++ behind = inside ++ beyond := by
      rwa [hcut, List.append_assoc, List.append_cancel_left_eq] at hplace
    exact exists_append_of_byteLength_le hinside rfl (by omega)
  have hnone : '\n' ∉ inside := fun h => hwhole (hleft ▸ List.mem_append_left left h)
  have hbetween : Text.between source.toList line.offset place = inside := by
    rw [hplace, List.append_assoc, ← hoffset, ← hsize, Text.between_stretch]
  have hlocate : locate source.toList place 0 = stretch (front ++ inside) [] := by
    rw [hplace, ← hsize, ← byteLength_append]
    exact locate_stretch (front ++ inside) [] beyond
  rw [Indexed.location_eq, hlocate, hbetween, stretch, List.append_nil, Position.after_append,
    hfront, Position.after_of_notMem _ hnone, Span.between, ← hoffset, hsize, Nat.zero_add]

/-- What it means for the three ways of counting to agree on a script. -/
structure PositionsAgree (source : String) : Prop where
  /-- The table of line starts finds the location of every token again. -/
  tokens : ∀ lexed ∈ lex source, Indexed.location source.toList lexed.span.start
    (lexed.span.stop - lexed.span.start) = .ok lexed.span
  /-- There is one more line than there are line breaks. -/
  lineCount : (Text.lines source.toList).length = source.toList.count '\n' + 1
  /-- Lines with their endings make up the script. -/
  restored : ∃ endings : List (List Char), ∃ ending,
    endings.length + 1 = (Text.lines source.toList).length ∧
    (∀ e ∈ endings, e = ['\n'] ∨ e = ['\r', '\n']) ∧ (ending = [] ∨ ending = ['\r']) ∧
    (List.zipWith (fun line e => line.text ++ e) (Text.lines source.toList)
      (endings ++ [ending])).flatten = source.toList
  /-- The table of line starts finds the number of every line at every character boundary
  in it, and counts the characters of the line before the boundary. -/
  boundaries : ∀ line ∈ Text.lines source.toList, ∀ place,
    String.Pos.Raw.IsValid source ⟨place⟩ → line.offset ≤ place →
    place ≤ line.offset + byteLength line.text →
    Indexed.location source.toList place 0 = .ok
      ⟨place, place, line.number, (Text.between source.toList line.offset place).length⟩

/-- **The scan, the table of line starts and the numbered lines agree** on the place of
everything in a script. -/
theorem positions_agree (source : String) : PositionsAgree source where
  tokens := by
    intro lexed hlexed
    rw [Indexed.location_eq, ← (lex_span_standsIn hlexed).pointsInto.eq_locate]
  lineCount := (Text.lines_lined source.toList).length_eq
  restored := (Text.lines_lined source.toList).exists_endings
  boundaries := fun _ hline _ => location_in_line hline

end PineCheck
