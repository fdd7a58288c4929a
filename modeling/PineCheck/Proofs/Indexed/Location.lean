import PineCheck.Proofs.Indexed.Operations

/-!
# PineCheck — spans by byte offsets

A span is found from an offset through a table of the offsets at which lines start.
The offset is moved back to a character boundary, the line is looked up in the table,
and the column is the number of characters in a slice of the text.

Main result:

* `location_eq` — this never goes wrong, and it finds the span that `locate` finds by
  going through the text.
-/

namespace PineCheck.Indexed

/-- The offsets behind the line breaks among bytes. -/
def breaksBehind (offset : Nat) : List UInt8 → List Nat
  | [] => []
  | b :: bytes =>
    if onByte (· = '\n') b then (offset + 1) :: breaksBehind (offset + 1) bytes
    else breaksBehind (offset + 1) bytes

/-- The offsets at which the lines of a text start. -/
def lineStarts (text : List Char) : List Nat :=
  0 :: breaksBehind 0 (utf8 text)

/-- Goes back from an offset to a character boundary. -/
def floorFrom (text : List Char) : Nat → Nat → Checked Nat
  | 0, _ => .error .unfinished
  | fuel + 1, i =>
    if (splitAt? text i).isSome then .ok i
    else do floorFrom text fuel (← minus i 1)

/-- The last character boundary that is not behind an offset. -/
def floorBoundary (text : List Char) (offset : Nat) : Checked Nat :=
  floorFrom text (byteLength text + 1) (min offset (byteLength text))

/-- The span of `length` bytes from an offset. -/
def location (source : List Char) (offset length : Nat) : Checked Span := do
  let start ← floorBoundary source offset
  let stop ← floorBoundary source (start + length)
  let starts := lineStarts source
  let index ← minus (max (starts.takeWhile (· ≤ start)).length 1) 1
  match starts[index]? with
  | none => .error (.outOfBounds index)
  | some lineStart =>
    let line ← slice source lineStart start
    .ok ⟨start, stop, index + 1, line.length⟩

-- ---------------------------------------------------------------------------
-- Boundaries
-- ---------------------------------------------------------------------------

/-- Nothing can be cut inside a character. -/
theorem splitAt?_inside {before cs : List Char} {c : Char} {i : Nat} (h : byteLength before < i)
    (h' : i < byteLength before + c.utf8Size) : splitAt? (before ++ c :: cs) i = none := by
  cases hsplit : splitAt? (before ++ c :: cs) i with
  | none => rfl
  | some pieces =>
    obtain ⟨heq, hlength⟩ := splitAt?_eq_some_iff.mp hsplit
    obtain ⟨inside, hinside⟩ := exists_append_of_byteLength_le rfl heq (by omega)
    rw [hinside, byteLength_append] at hlength
    rw [hinside, List.append_assoc, List.append_cancel_left_eq] at heq
    cases inside with
    | nil =>
      rw [byteLength_nil] at hlength
      omega
    | cons d ds =>
      cases heq
      rw [byteLength_cons] at hlength
      omega

/-- Seeking stops at the last boundary that is not behind the limit. -/
theorem seek_spec (p : Position) (limit : Nat) (cs : List Char) (h : p.offset ≤ limit) :
    ∃ before rest, cs = before ++ rest ∧ p.seek limit cs = p.after before ∧
      p.offset + byteLength before ≤ limit ∧
      ∀ c tail, rest = c :: tail → limit < p.offset + byteLength before + c.utf8Size := by
  induction cs generalizing p with
  | nil => exact ⟨[], [], rfl, rfl, h, fun _ _ h => by cases h⟩
  | cons c cs ih =>
    rw [Position.seek]
    split
    · next hle =>
      obtain ⟨before, rest, rfl, hseek, hbefore, hrest⟩ := ih (p.advance c) (by simpa using hle)
      rw [Position.advance_offset] at hbefore hrest
      refine ⟨c :: before, rest, rfl, by rw [hseek, Position.after_cons], ?_, fun d tail h => ?_⟩
      · rw [byteLength_cons]
        omega
      · have := hrest d tail h
        rw [byteLength_cons]
        omega
    · next hlt =>
      refine ⟨[], c :: cs, rfl, rfl, h, fun d tail heq => ?_⟩
      cases heq
      rw [byteLength_nil]
      omega

/-- Going down from a place inside a character comes to the start of the character. -/
theorem floorFrom_eq {before rest : List Char} {fuel i : Nat} (hfuel : i < fuel)
    (hle : byteLength before ≤ i)
    (hrest : ∀ c tail, rest = c :: tail → i < byteLength before + c.utf8Size)
    (hend : i ≤ byteLength (before ++ rest)) :
    floorFrom (before ++ rest) fuel i = .ok (byteLength before) := by
  induction fuel generalizing i with
  | zero => omega
  | succ fuel ih =>
    rw [floorFrom]
    rcases Nat.eq_or_lt_of_le hle with heq | hlt
    · rw [← heq, splitAt?_append]
      rfl
    · cases rest with
      | nil =>
        rw [List.append_nil] at hend
        omega
      | cons c tail =>
        have hinside := hrest c tail rfl
        rw [splitAt?_inside hlt hinside, minus_eq (by omega)]
        exact ih (by omega) (by omega) (fun d ds h => by have := hrest d ds h; omega) (by omega)

/-- Going back to a boundary finds what seeking finds. -/
theorem floorBoundary_eq (text : List Char) (offset : Nat) :
    floorBoundary text offset = .ok (Position.seek {} offset text).offset := by
  obtain ⟨before, rest, rfl, hseek, hle, hrest⟩ := seek_spec {} offset text (Nat.zero_le _)
  simp only [Nat.zero_add] at hle hrest
  rw [hseek, Position.after_offset, Nat.zero_add, floorBoundary]
  have hlength := byteLength_append before rest
  refine floorFrom_eq (by omega) (by omega) (fun c tail h => ?_) (Nat.min_le_right ..)
  exact Nat.lt_of_le_of_lt (Nat.min_le_left ..) (hrest c tail h)

-- ---------------------------------------------------------------------------
-- Lines
-- ---------------------------------------------------------------------------

theorem breaksBehind_append (offset : Nat) (a b : List UInt8) :
    breaksBehind offset (a ++ b) = breaksBehind offset a ++ breaksBehind (offset + a.length) b := by
  induction a generalizing offset with
  | nil => rfl
  | cons x xs ih =>
    have hlength : offset + (x :: xs).length = offset + 1 + xs.length := by
      rw [List.length_cons]
      omega
    rw [List.cons_append, breaksBehind, breaksBehind, hlength, ih]
    split <;> rfl

theorem mem_breaksBehind {offset : Nat} {bytes : List UInt8} {i : Nat}
    (h : i ∈ breaksBehind offset bytes) : offset < i ∧ i ≤ offset + bytes.length := by
  induction bytes generalizing offset with
  | nil => cases h
  | cons b bytes ih =>
    rw [List.length_cons]
    rw [breaksBehind] at h
    split at h
    · rcases List.mem_cons.mp h with rfl | h
      · omega
      · have := ih h
        omega
    · have := ih h
      omega

/-- A character other than a line break has no byte of one. -/
theorem breaksBehind_char (offset : Nat) (c : Char) :
    breaksBehind offset (String.utf8EncodeChar c) = if c = '\n' then [offset + 1] else [] := by
  split
  · next hc =>
    subst hc
    rfl
  · next hc =>
    have hbytes : ∀ b ∈ String.utf8EncodeChar c, onByte (· = '\n') b = false := by
      intro b hb
      rw [onByte_of_mem (onlyAscii_eq (by decide)) hb]
      exact decide_eq_false hc
    generalize String.utf8EncodeChar c = bytes at hbytes
    induction bytes generalizing offset with
    | nil => rfl
    | cons b bytes ih =>
      rw [breaksBehind, hbytes b List.mem_cons_self]
      exact ih _ fun d hd => hbytes d (List.mem_cons_of_mem b hd)

theorem lastLine_append_singleton (cs : List Char) (c : Char) :
    Position.lastLine (cs ++ [c]) = if c = '\n' then [] else Position.lastLine cs ++ [c] := by
  rw [Position.lastLine, List.reverse_append, Position.lastLine]
  split
  · next hc => simp [hc]
  · next hc => simp [hc]

/-- The lines that start in a text: as many as there are line breaks, and the last one
of them behind the last line break. -/
theorem lineStarts_spec (cs : List Char) :
    (breaksBehind 0 (utf8 cs)).length = cs.count '\n' ∧
      ∃ before, cs = before ++ Position.lastLine cs ∧
        (lineStarts cs).getLast? = some (byteLength before) := by
  induction cs using List.reverseRecOn with
  | nil => exact ⟨rfl, [], rfl, rfl⟩
  | append_singleton cs c ih =>
    obtain ⟨hcount, before, hcs, hlast⟩ := ih
    have hbreaks : breaksBehind 0 (utf8 (cs ++ [c])) =
        breaksBehind 0 (utf8 cs) ++ if c = '\n' then [byteLength cs + 1] else [] := by
      rw [utf8_append, breaksBehind_append, utf8_cons, utf8_nil, List.append_nil,
        breaksBehind_char, length_utf8, Nat.zero_add]
    rw [lineStarts, hbreaks, lastLine_append_singleton]
    by_cases hc : c = '\n'
    · subst hc
      refine ⟨by simp [hcount], cs ++ ['\n'], by simp, ?_⟩
      rw [if_pos rfl, ← List.cons_append, List.getLast?_concat, byteLength_append]
      rfl
    · refine ⟨by simp [hc, hcount], before, ?_, ?_⟩
      · rw [if_neg hc, ← List.append_assoc, ← hcs]
      · rw [if_neg hc, List.append_nil]
        exact hlast

/-- The lines that start up to a place of a text. -/
theorem takeWhile_lineStarts (before rest : List Char) :
    (lineStarts (before ++ rest)).takeWhile (· ≤ byteLength before) = lineStarts before := by
  have hsplit : lineStarts (before ++ rest) =
      lineStarts before ++ breaksBehind (byteLength before) (utf8 rest) := by
    rw [lineStarts, lineStarts, utf8_append, breaksBehind_append, length_utf8, Nat.zero_add]
    rfl
  have hbefore : ∀ i ∈ lineStarts before, decide (i ≤ byteLength before) = true := by
    intro i hi
    rcases List.mem_cons.mp hi with rfl | hi
    · exact decide_eq_true (Nat.zero_le _)
    · have := (mem_breaksBehind hi).2
      rw [length_utf8] at this
      exact decide_eq_true (by omega)
  have hrest : (breaksBehind (byteLength before) (utf8 rest)).takeWhile
      (· ≤ byteLength before) = [] := by
    cases hbreaks : breaksBehind (byteLength before) (utf8 rest) with
    | nil => rfl
    | cons i is =>
      have := (mem_breaksBehind (hbreaks ▸ List.mem_cons_self : i ∈ _)).1
      exact List.takeWhile_cons_of_neg (by simpa using this)
  rw [hsplit, List.takeWhile_append_of_pos hbefore, hrest, List.append_nil]

/-- **Finding a span by offsets never goes wrong**, and it finds what `locate` finds. -/
theorem location_eq (source : List Char) (offset length : Nat) :
    location source offset length = .ok (locate source offset length) := by
  obtain ⟨before, rest, rfl, hseek⟩ := Position.exists_seek_eq_after {} offset source
  obtain ⟨hcount, head, hbefore, hlast⟩ := lineStarts_spec before
  have hstart : (Position.after {} before).offset = byteLength before := by
    rw [Position.after_offset]
    exact Nat.zero_add _
  have hlength : (lineStarts before).length = before.count '\n' + 1 := by
    rw [lineStarts, List.length_cons, hcount]
  -- the line is the last one that starts before the place
  have hindex : (lineStarts (before ++ rest))[before.count '\n']? = some (byteLength head) := by
    obtain ⟨later, hlater⟩ : lineStarts before <+: lineStarts (before ++ rest) := by
      rw [← takeWhile_lineStarts before rest]
      exact List.takeWhile_prefix _
    rw [List.getLast?_eq_getElem?, hlength, Nat.add_sub_cancel] at hlast
    rw [← hlater, List.getElem?_append_left (by omega), hlast]
  have hslice : slice (before ++ rest) (byteLength head) (byteLength before) =
      .ok (Position.lastLine before) := by
    have h := slice_append head (Position.lastLine before) rest
    rwa [← List.append_assoc, ← hbefore, ← byteLength_append, ← hbefore] at h
  rw [location, floorBoundary_eq, locate, hseek, hstart]
  simp only [bind, Except.bind, floorBoundary_eq, takeWhile_lineStarts, hlength]
  rw [minus_eq (by omega)]
  simp only [Nat.max_eq_left (Nat.le_add_left 1 _), Nat.add_sub_cancel, hindex, hslice]
  rw [Span.between, hstart, Position.after_line, Position.after_column,
    Nat.add_comm (List.count _ _)]

end PineCheck.Indexed
