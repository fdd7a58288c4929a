import Mathlib.Data.List.Induction
import PineCheck.Text.Slice

/-!
# PineCheck — places in a script

A place is told in three ways at once: by its offset, its line and its column.
This module says what the three have to do with the text before the place, and
which spans are places of a script at all.

A span **stands in** a script when the script can be cut in three so that the
span is the `stretch` of the middle piece. All spans of a script are built by
two operations, and both stay inside it:

* `locate_standsIn` — whatever offset and length `locate` is given, what it
  finds stands in the script;
* `Span.StandsIn.through` — a span that is stretched to the end of another one
  still stands in the script.

Main result:

* `Span.StandsIn.pointsInto` — a span that stands in a script starts and ends
  on character boundaries of it, is found again by `locate`, and has the line
  and the column of its start.
-/

namespace PineCheck

-- ---------------------------------------------------------------------------
-- Cuts
-- ---------------------------------------------------------------------------

/-- What stands behind a front part that does not hold it stands in what is left. -/
theorem exists_append_of_notMem {α : Type} {here later front behind : List α} {x : α}
    (h : here ++ later = front ++ x :: behind) (hx : x ∉ here) :
    ∃ more, front = here ++ more ∧ later = more ++ x :: behind := by
  rcases List.append_eq_append_iff.mp h with ⟨more, hfront, hlater⟩ | ⟨more, hhere, hbehind⟩
  · exact ⟨more, hfront, hlater⟩
  · cases more with
    | nil => exact ⟨[], by rw [hhere, List.append_nil, List.append_nil], hbehind.symm⟩
    | cons y more =>
      obtain ⟨rfl, -⟩ := List.cons.inj hbehind
      rw [hhere] at hx
      exact absurd (List.mem_append_right front List.mem_cons_self) hx

-- ---------------------------------------------------------------------------
-- Bytes
-- ---------------------------------------------------------------------------

/-- The bytes of characters in UTF-8. -/
def utf8 (cs : List Char) : List UInt8 :=
  cs.flatMap String.utf8EncodeChar

@[simp] theorem utf8_nil : utf8 [] = [] := rfl

@[simp] theorem utf8_cons (c : Char) (cs : List Char) :
    utf8 (c :: cs) = String.utf8EncodeChar c ++ utf8 cs := rfl

@[simp] theorem utf8_append (a b : List Char) : utf8 (a ++ b) = utf8 a ++ utf8 b := by
  simp [utf8]

@[simp] theorem length_utf8 (cs : List Char) : (utf8 cs).length = byteLength cs := by
  induction cs with
  | nil => rfl
  | cons c cs ih => simp [ih]

/-- The bytes of a text are the bytes of its characters. -/
theorem utf8_toList (source : String) :
    utf8 source.toList = source.toByteArray.data.toList := by
  rw [← String.utf8Encode_toList]
  simp [utf8, List.utf8Encode]

/-- A text is as long as its characters are. -/
theorem byteLength_toList (source : String) :
    byteLength source.toList = source.utf8ByteSize := by
  rw [← length_utf8, utf8_toList, ← String.size_toByteArray]
  rfl

/-- Only the empty text takes up no room. -/
theorem byteLength_eq_zero_iff (cs : List Char) : byteLength cs = 0 ↔ cs = [] := by
  cases cs with
  | nil => simp
  | cons c cs =>
    have := c.utf8Size_pos
    simp only [byteLength_cons, reduceCtorEq, iff_false]
    omega

/-- A place between two characters is a character boundary. -/
theorem isValid_of_append {source : String} {before behind : List Char}
    (h : source.toList = before ++ behind) :
    String.Pos.Raw.IsValid source ⟨byteLength before⟩ := by
  rw [String.Pos.Raw.isValid_iff_exists_append]
  refine ⟨String.ofList before, String.ofList behind, ?_, ?_⟩
  · rw [← String.ofList_append, ← h, String.ofList_toList]
  · have hsize := byteLength_toList (String.ofList before)
    rw [String.toList_ofList] at hsize
    rw [hsize]
    rfl

/-- Of two pieces that a text starts with, the shorter one starts the longer
one. -/
theorem exists_append_of_byteLength_le {script a b c d : List Char}
    (h₁ : script = a ++ b) (h₂ : script = c ++ d) (hle : byteLength a ≤ byteLength c) :
    ∃ inside, c = a ++ inside := by
  have ha : a <+: script := ⟨b, h₁.symm⟩
  have hc : c <+: script := ⟨d, h₂.symm⟩
  rcases List.prefix_or_prefix_of_prefix ha hc with ⟨inside, h⟩ | ⟨inside, h⟩
  · exact ⟨inside, h.symm⟩
  · -- `a` is not the longer one, so nothing stands behind `c` in it
    rw [← h, byteLength_append] at hle
    have hnil : inside = [] := (byteLength_eq_zero_iff inside).mp (by omega)
    rw [hnil, List.append_nil] at h
    exact ⟨[], by rw [h, List.append_nil]⟩

/-- Pieces of the same length that a text starts with are equal. -/
theorem eq_of_byteLength_eq {script a b c d : List Char} (h₁ : script = a ++ b)
    (h₂ : script = c ++ d) (h : byteLength a = byteLength c) : a = c := by
  obtain ⟨inside, rfl⟩ := exists_append_of_byteLength_le h₁ h₂ (Nat.le_of_eq h)
  have hnil : inside = [] := by
    rw [← byteLength_eq_zero_iff]
    rw [byteLength_append] at h
    omega
  rw [hnil, List.append_nil]

-- ---------------------------------------------------------------------------
-- Lines and columns
-- ---------------------------------------------------------------------------

namespace Position

/-- A text moves the line by the number of its line breaks. -/
theorem after_line (p : Position) (cs : List Char) :
    (p.after cs).line = p.line + cs.count '\n' := by
  induction cs generalizing p with
  | nil => rfl
  | cons c cs ih =>
    rw [after_cons, ih, advance, List.count_cons]
    split
    · next h => simp [h]; omega
    · next h => simp [h]

/-- The characters of a text behind its last line break. -/
def lastLine (cs : List Char) : List Char :=
  (cs.reverse.takeWhile (· ≠ '\n')).reverse

/-- The column behind a text is the number of characters behind its last line
break. -/
theorem after_column (cs : List Char) :
    (Position.after {} cs).column = (lastLine cs).length := by
  induction cs using List.reverseRecOn with
  | nil => rfl
  | append_singleton before c ih =>
    rw [after_append, after_cons, after_nil, advance, lastLine, List.reverse_append]
    by_cases hc : c = '\n'
    · simp [hc]
    · simp [hc, ih, lastLine]

-- ---------------------------------------------------------------------------
-- Seeking an offset
-- ---------------------------------------------------------------------------

/-- Seeking goes over a piece that ends before the limit. -/
theorem seek_append {p : Position} {limit : Nat} (a b : List Char)
    (h : p.offset + byteLength a ≤ limit) :
    p.seek limit (a ++ b) = (p.after a).seek limit b := by
  induction a generalizing p with
  | nil => rfl
  | cons c cs ih =>
    rw [byteLength_cons] at h
    rw [List.cons_append, seek, if_pos (by omega), after_cons]
    exact ih (by rw [advance_offset]; omega)

/-- Seeking the end of a piece finds it. -/
theorem seek_after (p : Position) (a b : List Char) :
    p.seek (p.offset + byteLength a) (a ++ b) = p.after a := by
  rw [seek_append a b (Nat.le_refl _)]
  cases b with
  | nil => rfl
  | cons c cs =>
    have := c.utf8Size_pos
    rw [seek, if_neg (by rw [after_offset]; omega)]

/-- Seeking always stops between two characters. -/
theorem exists_seek_eq_after (p : Position) (limit : Nat) (cs : List Char) :
    ∃ a b, cs = a ++ b ∧ p.seek limit cs = p.after a := by
  induction cs generalizing p with
  | nil => exact ⟨[], [], rfl, rfl⟩
  | cons c cs ih =>
    rw [seek]
    split
    · obtain ⟨a, b, hcut, hseek⟩ := ih (p.advance c)
      exact ⟨c :: a, b, by rw [hcut, List.cons_append], by rw [hseek, after_cons]⟩
    · exact ⟨[], c :: cs, rfl, rfl⟩

end Position

-- ---------------------------------------------------------------------------
-- Spans that stand in a script
-- ---------------------------------------------------------------------------

/-- The span of the text `inside` behind the text `before`. -/
def stretch (before inside : List Char) : Span :=
  Span.between (Position.after {} before) (Position.after {} (before ++ inside))

@[simp] theorem stretch_start (before inside : List Char) :
    (stretch before inside).start = byteLength before := by
  simp [stretch, Span.between]

@[simp] theorem stretch_stop (before inside : List Char) :
    (stretch before inside).stop = byteLength before + byteLength inside := by
  simp [stretch, Span.between]

/-- An empty span behind a text is a stretch of nothing. -/
theorem emptyAt_after (before : List Char) :
    Span.emptyAt (Position.after {} before) = stretch before [] := by
  rw [stretch, List.append_nil]
  rfl

/-- The piece of a text that a stretch covers. -/
theorem Text.between_stretch (before inside behind : List Char) :
    Text.between (before ++ (inside ++ behind)) (byteLength before)
      (byteLength before + byteLength inside) = inside := by
  induction before with
  | nil =>
    induction inside with
    | nil => cases behind <;> simp [Text.between]
    | cons c cs ih =>
      have := c.utf8Size_pos
      rw [List.nil_append, List.cons_append, Text.between, if_neg (by simp; omega),
        if_pos byteLength_nil]
      simp only [byteLength_nil, byteLength_cons, Nat.zero_add, Nat.add_sub_cancel_left] at ih ⊢
      exact congrArg (c :: ·) ih
  | cons c cs ih =>
    have := c.utf8Size_pos
    rw [List.cons_append, Text.between, byteLength_cons, if_neg (by omega), if_neg (by omega),
      Nat.add_assoc, Nat.add_sub_cancel_left, Nat.add_sub_cancel_left]
    exact ih

/-- Whether the byte at an offset lies in a span. -/
def Span.Covers (span : Span) (offset : Nat) : Prop :=
  span.start ≤ offset ∧ offset < span.stop

/-- A span stands in a script when it is the stretch of a piece of it. -/
def Span.StandsIn (script : List Char) (span : Span) : Prop :=
  ∃ before inside behind, script = before ++ (inside ++ behind) ∧ span = stretch before inside

/-- `locate` finds a stretch by its offset and its length. -/
theorem locate_stretch (before inside behind : List Char) :
    locate (before ++ (inside ++ behind)) (byteLength before) (byteLength inside) =
      stretch before inside := by
  have hstart := Position.seek_after {} before (inside ++ behind)
  have hstop := Position.seek_after {} (before ++ inside) behind
  rw [byteLength_append, List.append_assoc, ← Nat.add_assoc] at hstop
  simp only [Nat.zero_add] at hstart hstop
  rw [locate, hstart, Position.after_offset]
  simp only [Nat.zero_add]
  rw [hstop]
  rfl

/-- What `locate` finds stands in the script, whatever it is asked for: an offset
inside a character or behind the end is moved to a place that exists. -/
theorem locate_standsIn (script : List Char) (offset length : Nat) :
    (locate script offset length).StandsIn script := by
  obtain ⟨before, rest, hcut, hstart⟩ := Position.exists_seek_eq_after {} offset script
  -- the end is sought from the start of the script, but lies behind `before`
  have hover : Position.seek {} ((Position.after {} before).offset + length) script =
      (Position.after {} before).seek ((Position.after {} before).offset + length) rest := by
    rw [hcut]
    apply Position.seek_append
    rw [Position.after_offset]
    omega
  obtain ⟨inside, behind, hrest, hstop⟩ := Position.exists_seek_eq_after
    (Position.after {} before) ((Position.after {} before).offset + length) rest
  refine ⟨before, inside, behind, by rw [hcut, hrest], ?_⟩
  rw [locate, hstart, hover, hstop, ← Position.after_append]
  rfl

/-- Stretching a span to the end of another one stays in the script. -/
theorem Span.StandsIn.through {script : List Char} {s t : Span}
    (hs : s.StandsIn script) (ht : t.StandsIn script) : (s.through t).StandsIn script := by
  obtain ⟨before, inside, behind, hcut, rfl⟩ := hs
  obtain ⟨before', inside', behind', hcut', rfl⟩ := ht
  rw [Span.through]
  split
  · next hlt =>
    rw [stretch_stop, stretch_stop, ← byteLength_append, ← byteLength_append] at hlt
    rw [← List.append_assoc] at hcut hcut'
    obtain ⟨more, hmore⟩ := exists_append_of_byteLength_le hcut hcut' (Nat.le_of_lt hlt)
    refine ⟨before, inside ++ more, behind', ?_, ?_⟩
    · rw [hcut', hmore]
      simp only [List.append_assoc]
    · rw [stretch, stretch, Span.between, Span.between, hmore, List.append_assoc]
      rfl
  · exact ⟨before, inside, behind, hcut, rfl⟩

/-- What it means for a span to point at a real place of a text. -/
structure Span.PointsInto (source : String) (span : Span) : Prop where
  start_le_stop : span.start ≤ span.stop
  stop_le_size : span.stop ≤ source.utf8ByteSize
  isValid_start : String.Pos.Raw.IsValid source ⟨span.start⟩
  isValid_stop : String.Pos.Raw.IsValid source ⟨span.stop⟩
  /-- The span is found again from its offset and its length. -/
  eq_locate : span = locate source.toList span.start (span.stop - span.start)
  /-- Line and column are those of the text before the span. -/
  line_column : ∃ before, before <+: source.toList ∧ byteLength before = span.start ∧
    span.line = 1 + before.count '\n' ∧ span.column = (Position.lastLine before).length

/-- **Spans point at real places.** A span that stands in a script lies between
character boundaries of it, and its line and column are those of its start. -/
theorem Span.StandsIn.pointsInto {source : String} {span : Span}
    (h : span.StandsIn source.toList) : span.PointsInto source := by
  obtain ⟨before, inside, behind, hcut, rfl⟩ := h
  have hsize : byteLength before + byteLength inside ≤ source.utf8ByteSize := by
    rw [← byteLength_toList, hcut, byteLength_append, byteLength_append]
    omega
  refine ⟨?_, ?_, ?_, ?_, ?_, before, ⟨_, hcut.symm⟩, (stretch_start ..).symm, ?_, ?_⟩
  · rw [stretch_start, stretch_stop]
    omega
  · rw [stretch_stop]
    exact hsize
  · rw [stretch_start]
    exact isValid_of_append hcut
  · rw [stretch_stop, ← byteLength_append]
    exact isValid_of_append (by rw [hcut, List.append_assoc])
  · rw [stretch_start, stretch_stop, Nat.add_sub_cancel_left, hcut, locate_stretch]
  · exact Position.after_line {} before
  · exact Position.after_column before

end PineCheck
