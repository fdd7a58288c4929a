import PineCheck.Proofs.Indexed.Arguments

/-!
# PineCheck — the parts of an argument list make up all of it

An argument list is any range of bytes of a text. Its parts are found in one pass that counts
brackets, cuts at commas and takes blanks off both ends of what it has cut. A comma cuts when
as many brackets have been closed as opened since the start of the range (`separates`), also
where brackets do not match and the count has been negative in between.

Each piece between two such commas is `Trimmed` to a part, and the parts of the pieces make
up a `Cut` of the range: one step of the pass either goes on with its piece or puts a part
before a cut of the rest (`Cut.cons`), and `exists_partsFrom` carries that over the loop.

Main result:

* `splitArguments_partition` — the parts of an argument list are in order and trimmed, all
  else in it are blanks and the commas that cut, and there is one more part than such commas.
  The named arguments lie in the parts, with their values behind the equals sign.
-/

namespace PineCheck.Indexed

open Text (Slice isAsciiBlank)

-- ---------------------------------------------------------------------------
-- Definitions
-- ---------------------------------------------------------------------------

/-- How many more brackets open than close between two offsets. -/
def depthBetween (text : List Char) (start stop : Nat) : Int :=
  let bytes := ((utf8 text).take stop).drop start
  bytes.countP (onByte fun c => c = '(' || c = '[') -
    bytes.countP (onByte fun c => c = ')' || c = ']')

/-- Whether a comma at an offset cuts an argument list that starts at `start`. -/
def separates (text : List Char) (start i : Nat) : Bool :=
  testAt (· = ',') text i && depthBetween text start i = 0

/-- A range without the blanks at its ends. -/
structure Trimmed (text : List Char) (range part : Range) : Prop where
  start_le : range.start ≤ part.start
  le : part.start ≤ part.stop
  stop_le : part.stop ≤ range.stop
  front : part.start < part.stop → testAt isAsciiBlank text part.start = false
  back : part.start < part.stop → testAt isAsciiBlank text (part.stop - 1) = false
  blank : ∀ i, range.start ≤ i → i < range.stop → ¬ (part.start ≤ i ∧ i < part.stop) →
    testAt isAsciiBlank text i = true

/-- A range is cut into parts, with nothing but blanks and separators between them. -/
structure Cut (text : List Char) (isSeparator : Nat → Bool) (range : Range)
    (parts : List Range) : Prop where
  inside : ∀ part ∈ parts,
    range.start ≤ part.start ∧ part.start ≤ part.stop ∧ part.stop ≤ range.stop
  ordered : parts.Pairwise fun a b => a.stop < b.start
  front : ∀ part ∈ parts, part.start < part.stop → testAt isAsciiBlank text part.start = false
  back : ∀ part ∈ parts,
    part.start < part.stop → testAt isAsciiBlank text (part.stop - 1) = false
  whole : ∀ part ∈ parts, ∀ i, part.start ≤ i → i < part.stop → isSeparator i = false
  rest : ∀ i, range.start ≤ i → i < range.stop →
    (∀ part ∈ parts, ¬ (part.start ≤ i ∧ i < part.stop)) →
      testAt isAsciiBlank text i = true ∨ isSeparator i = true

/-- The parts of an argument list. -/
structure Partition (text : List Char) (range : Range) (parts : List Range) : Prop where
  cut : Cut text (separates text range.start) range parts
  empty : (∀ i, range.start ≤ i → i < range.stop → testAt isAsciiBlank text i = true) → parts = []
  length : (∃ i, range.start ≤ i ∧ i < range.stop ∧ testAt isAsciiBlank text i = false) →
    parts.length =
      (List.range' range.start (range.stop - range.start)).countP (separates text range.start) + 1

/-- The offset behind the name of an argument and the spaces that follow it. -/
def Named.equals (text : List Char) (argument : Named) : Nat :=
  spacesEnd text (argument.offset + byteLength argument.name.toList)

/-- A named argument stands at the start of a part, and its value lies in the part behind the
equals sign. -/
structure Named.LiesIn (text : List Char) (argument : Named) (part : Range) : Prop where
  offset : argument.offset = part.start
  name : slice text argument.offset (argument.offset + byteLength argument.name.toList) =
    .ok argument.name.toList
  mark : testAt (· = '=') text (argument.equals text) = true
  start : argument.equals text < argument.value.start
  le : argument.value.start ≤ argument.value.stop
  stop : argument.value.stop ≤ part.stop

-- ---------------------------------------------------------------------------
-- Bytes
-- ---------------------------------------------------------------------------

/-- Before the end of a text there is a byte to read, and a test of the place is a test of that
byte. -/
theorem exists_byteAt {text : List Char} {i : Nat} (h : i < byteLength text) :
    ∃ b, (utf8 text)[i]? = some b ∧ byteAt text i = .ok b ∧
      ∀ p, testAt p text i = onByte p b := by
  rw [← length_utf8] at h
  have hbyte := List.getElem?_eq_getElem h
  exact ⟨_, hbyte, by rw [byteAt, hbyte], fun p => by rw [testAt, hbyte, Option.any_some]⟩

/-- A byte of ASCII is a character. -/
theorem exists_follows {text : List Char} {i : Nat} {b : UInt8}
    (hbyte : (utf8 text)[i]? = some b) (hb : ¬ IsHigh b) :
    ∃ c rest, Follows text i (c :: rest) := by
  induction text generalizing i with
  | nil => cases hbyte
  | cons c cs ih =>
    rw [utf8_cons] at hbyte
    by_cases hlt : i < (String.utf8EncodeChar c).length
    · rw [List.getElem?_append_left hlt] at hbyte
      rcases utf8EncodeChar_cases c with ⟨-, b', hone, -⟩ | ⟨-, hhigh⟩
      · rw [hone, List.length_singleton] at hlt
        exact ⟨c, cs, [], rfl, by rw [byteLength_nil]; omega⟩
      · exact absurd (hhigh b (List.mem_of_getElem? hbyte)) hb
    · rw [List.getElem?_append_right (Nat.le_of_not_lt hlt)] at hbyte
      obtain ⟨d, rest, before, rfl, hbefore⟩ := ih hbyte
      have hlength := String.length_utf8EncodeChar c
      refine ⟨d, rest, c :: before, rfl, ?_⟩
      rw [byteLength_cons]
      omega

/-- A word starts and ends between characters. -/
theorem exists_slice_of_wordEnd? {text : List Char} {i stop : Nat}
    (h : wordEnd? text i = some stop) :
    ∃ word, slice text i stop = .ok word ∧ stop = i + byteLength word := by
  have hstart : testAt Lexer.isWordStart text i = true := by
    rw [wordEnd?] at h
    split at h
    · assumption
    · cases h
  cases hbyte : (utf8 text)[i]? with
  | none =>
    rw [testAt, hbyte] at hstart
    cases hstart
  | some b =>
    rw [testAt, hbyte, Option.any_some] at hstart
    have hascii : ¬ IsHigh b := by
      intro hhigh
      rw [onByte_of_isHigh onlyAscii_isWordStart hhigh] at hstart
      cases hstart
    obtain ⟨c, rest, hplace⟩ := exists_follows hbyte hascii
    rw [hplace.wordEnd?] at h
    obtain ⟨⟨word, behind⟩, hword, rfl⟩ := Option.map_eq_some_iff.mp h
    rw [(word?_eq_some hword).1] at hplace
    exact ⟨word, hplace.slice, rfl⟩

/-- A byte is one character of ASCII only. -/
theorem eq_of_testAt {p : Char → Bool} {text : List Char} {i : Nat} {c : Char}
    (h : testAt (· = c) text i = true) : testAt p text i = p c := by
  rw [testAt] at h ⊢
  cases hbyte : (utf8 text)[i]? with
  | none =>
    rw [hbyte] at h
    cases h
  | some b =>
    rw [hbyte] at h
    have hchar : Char.ofUInt8 b = c := of_decide_eq_true h
    rw [Option.any_some, onByte, hchar]

theorem depthBetween_self (text : List Char) (start : Nat) : depthBetween text start start = 0 := by
  have hnil : ((utf8 text).take start).drop start = [] :=
    List.drop_eq_nil_of_le (List.length_take_le start (utf8 text))
  rw [depthBetween, hnil]
  rfl

/-- One byte on, the depth has gone up or down by one, or not at all. -/
theorem depthBetween_succ {text : List Char} {start i : Nat} {b : UInt8} (h : start ≤ i)
    (hbyte : (utf8 text)[i]? = some b) :
    depthBetween text start (i + 1) =
      depthBetween text start i + depthOf b := by
  obtain ⟨hlt, -⟩ := List.getElem?_eq_some_iff.mp hbyte
  have hbytes : ((utf8 text).take (i + 1)).drop start =
      ((utf8 text).take i).drop start ++ [b] := by
    rw [List.take_add_one, hbyte, List.drop_append_of_le_length]
    · rfl
    · rw [List.length_take]
      omega
  have hnot : onByte (fun c => c = '(' || c = '[') b = true →
      onByte (fun c => c = ')' || c = ']') b = false := by
    simp only [onByte, Bool.or_eq_true, decide_eq_true_eq]
    rintro (h | h) <;> rw [h] <;> rfl
  rw [depthBetween, depthBetween, hbytes, depthOf]
  simp only [List.countP_append, List.countP_singleton]
  split
  · next hopen =>
    rw [hnot hopen]
    simp only [Bool.false_eq_true, ↓reduceIte]
    omega
  · split
    · omega
    · omega

-- ---------------------------------------------------------------------------
-- Trimming
-- ---------------------------------------------------------------------------

/-- With fuel for every byte, trimming at the front gives a result: it stops at the first byte that
is no blank, or at the end. -/
theorem exists_trimFront {text : List Char} {start stop fuel : Nat} (h : start ≤ stop)
    (hstop : stop ≤ byteLength text) (hfuel : stop - start < fuel) :
    ∃ front, trimFront text fuel ⟨start, stop⟩ = .ok ⟨front, stop⟩ ∧ start ≤ front ∧
      front ≤ stop ∧ (front < stop → testAt isAsciiBlank text front = false) ∧
      ∀ i, start ≤ i → i < front → testAt isAsciiBlank text i = true := by
  induction fuel generalizing start with
  | zero => omega
  | succ fuel ih =>
    rw [trimFront]
    dsimp only
    split
    · next hlt =>
      obtain ⟨b, -, hread, htest⟩ := exists_byteAt (Nat.lt_of_lt_of_le hlt hstop)
      rw [hread]
      simp only [bind, Except.bind]
      split
      · next hblank =>
        obtain ⟨front, hfound, hle, hfront, hnot, hall⟩ := @ih (start + 1) hlt (by omega)
        refine ⟨front, hfound, by omega, hfront, hnot, fun i hi hlater => ?_⟩
        rcases Nat.eq_or_lt_of_le hi with rfl | hi
        · rw [htest, hblank]
        · exact hall i hi hlater
      · next hnot =>
        refine ⟨start, rfl, Nat.le_refl _, h, fun _ => ?_, fun i hi hlater => ?_⟩
        · rw [htest]
          exact Bool.eq_false_iff.mpr hnot
        · omega
    · exact ⟨start, rfl, Nat.le_refl _, h, fun hlt => by omega, fun i hi hlater => by omega⟩

/-- The same at the back, where the byte that is tested is the one before the end. -/
theorem exists_trimBack {text : List Char} {start stop fuel : Nat} (h : start ≤ stop)
    (hstop : stop ≤ byteLength text) (hfuel : stop - start < fuel) :
    ∃ back, trimBack text fuel ⟨start, stop⟩ = .ok ⟨start, back⟩ ∧ start ≤ back ∧
      back ≤ stop ∧ (start < back → testAt isAsciiBlank text (back - 1) = false) ∧
      ∀ i, back ≤ i → i < stop → testAt isAsciiBlank text i = true := by
  induction fuel generalizing stop with
  | zero => omega
  | succ fuel ih =>
    rw [trimBack]
    dsimp only
    split
    · next hlt =>
      have hlast : stop - 1 < byteLength text := by omega
      obtain ⟨b, -, hread, htest⟩ := exists_byteAt hlast
      rw [minus_eq (by omega)]
      simp only [bind, Except.bind, hread]
      split
      · next hblank =>
        obtain ⟨back, hfound, hback, hle, hnot, hall⟩ :=
          @ih (stop - 1) (by omega) (by omega) (by omega)
        refine ⟨back, hfound, hback, by omega, hnot, fun i hi hlater => ?_⟩
        by_cases heq : i = stop - 1
        · rw [heq, htest, hblank]
        · exact hall i hi (by omega)
      · next hnot =>
        refine ⟨stop, rfl, h, Nat.le_refl _, fun _ => ?_, fun i hi hlater => by omega⟩
        rw [htest]
        exact Bool.eq_false_iff.mpr hnot
    · exact ⟨stop, rfl, h, Nat.le_refl _, fun hlt => by omega, fun i hi hlater => by omega⟩

/-- Trimming at both ends, one after the other, leaves a range with blanks around it and none at its
ends. -/
theorem exists_trimRange {text : List Char} {range : Range} (h : range.start ≤ range.stop)
    (hstop : range.stop ≤ byteLength text) :
    ∃ part, trimRange text range = .ok part ∧ Trimmed text range part := by
  obtain ⟨start, stop⟩ := range
  dsimp only at h hstop
  have hfuel : stop - start < stop + 1 := by omega
  obtain ⟨front, hfront, hstart, hle, hfirst, hbefore⟩ := exists_trimFront h hstop hfuel
  have hfuel' : stop - front < stop + 1 := by omega
  obtain ⟨back, hback, hle', hend, hlast, hbehind⟩ := exists_trimBack hle hstop hfuel'
  refine ⟨⟨front, back⟩, ?_, hstart, hle', hend, fun hlt => hfirst (Nat.lt_of_lt_of_le hlt hend),
    hlast, fun i hi hlater hout => ?_⟩
  · rw [trimRange, hfront]
    exact hback
  · dsimp only at hi hlater hout
    by_cases hi' : i < front
    · exact hbefore i hi hi'
    · exact hbehind i (by omega) hlater

-- ---------------------------------------------------------------------------
-- Cutting
-- ---------------------------------------------------------------------------

namespace Cut

variable {text : List Char} {isSeparator : Nat → Bool} {range part : Range}

/-- A range without separators is one part. -/
theorem single (h : Trimmed text range part)
    (hwhole : ∀ i, range.start ≤ i → i < range.stop → isSeparator i = false) :
    Cut text isSeparator range [part] where
  inside := List.forall_mem_singleton.mpr ⟨h.start_le, h.le, h.stop_le⟩
  ordered := List.pairwise_singleton _ part
  front := List.forall_mem_singleton.mpr h.front
  back := List.forall_mem_singleton.mpr h.back
  whole := List.forall_mem_singleton.mpr fun i hi hlt =>
    hwhole i (Nat.le_trans h.start_le hi) (Nat.lt_of_lt_of_le hlt h.stop_le)
  rest i hi hlt hout := .inl (h.blank i hi hlt (hout part List.mem_cons_self))

/-- A part before a separator, and the parts behind it. -/
theorem cons {start stop i : Nat} {parts : List Range} (h : Trimmed text ⟨start, i⟩ part)
    (hwhole : ∀ j, start ≤ j → j < i → isSeparator j = false) (hle : start ≤ i) (hlt : i < stop)
    (hi : isSeparator i = true) (hrest : Cut text isSeparator ⟨i + 1, stop⟩ parts) :
    Cut text isSeparator ⟨start, stop⟩ (part :: parts) where
  inside := by
    refine List.forall_mem_cons.mpr ⟨⟨h.start_le, h.le, Nat.le_trans h.stop_le hlt.le⟩, ?_⟩
    intro other hother
    obtain ⟨hstart, hinside⟩ := hrest.inside other hother
    dsimp only at hstart
    exact ⟨by dsimp only; omega, hinside⟩
  ordered := by
    refine List.pairwise_cons.mpr ⟨fun other hother => ?_, hrest.ordered⟩
    exact Nat.lt_of_le_of_lt h.stop_le (hrest.inside other hother).1
  front := List.forall_mem_cons.mpr ⟨h.front, hrest.front⟩
  back := List.forall_mem_cons.mpr ⟨h.back, hrest.back⟩
  whole := List.forall_mem_cons.mpr ⟨fun j hj hlt =>
    hwhole j (Nat.le_trans h.start_le hj) (Nat.lt_of_lt_of_le hlt h.stop_le), hrest.whole⟩
  rest j hj hend hout := by
    obtain ⟨hfirst, hothers⟩ := List.forall_mem_cons.mp hout
    rcases Nat.lt_trichotomy j i with hbefore | rfl | hbehind
    · exact .inl (h.blank j hj hbefore hfirst)
    · exact .inr hi
    · exact hrest.rest j hbehind hend hothers

/-- An empty part may be left out when there is no separator. -/
theorem nil (h : Cut text isSeparator range [part]) (hempty : ¬ part.start < part.stop) :
    Cut text isSeparator range [] where
  inside := nofun
  ordered := .nil
  front := nofun
  back := nofun
  whole := nofun
  rest i hi hlt _ := h.rest i hi hlt (List.forall_mem_singleton.mpr fun hin => by omega)

end Cut

/-- The rest of the loop cuts the rest of the range, from the start of the part it is in. -/
theorem exists_partsFrom {text : List Char} {start from' i left : Nat} {depth : Int}
    (hstart : start ≤ i) (hfrom : from' ≤ i) (hend : i + left ≤ byteLength text)
    (hdepth : depth = depthBetween text start i) (hroom : Room depth left)
    (hwhole : ∀ j, from' ≤ j → j < i → separates text start j = false) :
    ∃ parts, partsFrom text (i + left) left i depth from' = .ok parts ∧
      Cut text (separates text start) ⟨from', i + left⟩ parts ∧
      parts.length = (List.range' i left).countP (separates text start) + 1 := by
  induction left generalizing from' i depth with
  | zero =>
    obtain ⟨part, hpart, htrimmed⟩ := @exists_trimRange text ⟨from', i⟩ hfrom hend
    exact ⟨[part], by rw [partsFrom, Nat.add_zero, hpart]; rfl, .single htrimmed hwhole, rfl⟩
  | succ left ih =>
    have hlt : i < byteLength text := by omega
    obtain ⟨b, hbyte, hread, htest⟩ := exists_byteAt hlt
    have hsucc := depthBetween_succ hstart hbyte
    have hsep : (onByte (· = ',') b && depth = 0) = separates text start i := by
      rw [separates, htest, hdepth]
    have hcount : (List.range' i (left + 1)).countP (separates text start) =
        (List.range' (i + 1) left).countP (separates text start) +
          if separates text start i then 1 else 0 := by
      rw [List.range'_succ, List.countP_cons]
    have hstop : i + (left + 1) = i + 1 + left := by omega
    rw [hcount, hstop, partsFrom_succ hread hroom, hsep]
    cases hcut : separates text start i with
    | false =>
      -- the part goes on
      refine ih (Nat.le_succ_of_le hstart) (Nat.le_succ_of_le hfrom) (by omega) ?_
        (hroom.behind b) fun j hj hlt => ?_
      · rw [hsucc, hdepth]
      · rcases Nat.lt_succ_iff_lt_or_eq.mp hlt with hlt | rfl
        · exact hwhole j hj hlt
        · exact hcut
    | true =>
      -- the part ends, and the next one starts behind the comma
      obtain ⟨hcomma, -⟩ := (Bool.and_eq_true ..).mp (hsep.trans hcut)
      have hroom' := hroom.behind b
      rw [depthOf_comma hcomma, Int.add_zero] at hsucc hroom'
      obtain ⟨part, hpart, htrimmed⟩ := @exists_trimRange text ⟨from', i⟩ hfrom hlt.le
      obtain ⟨parts, hparts, hrest, hlength⟩ :=
        @ih (i + 1) (i + 1) depth (Nat.le_succ_of_le hstart) (Nat.le_refl _) (by omega)
          (hdepth.trans hsucc.symm) hroom' fun j hj hlt => by omega
      rw [if_pos rfl, hpart, hparts]
      refine ⟨part :: parts, rfl, hrest.cons htrimmed hwhole hfrom (by omega) hcut, ?_⟩
      rw [List.length_cons, hlength]
      rfl

/-- A comma that cuts is no blank. -/
theorem isAsciiBlank_of_separates {text : List Char} {start i : Nat}
    (h : separates text start i = true) : testAt isAsciiBlank text i = false := by
  rw [separates, Bool.and_eq_true] at h
  rw [eq_of_testAt h.1]
  rfl

theorem exists_separates_of_countP_pos {text : List Char} {start stop : Nat}
    (h : 0 < (List.range' start (stop - start)).countP (separates text start)) :
    ∃ i, start ≤ i ∧ i < stop ∧ separates text start i = true := by
  obtain ⟨i, hi, hcomma⟩ := List.countP_pos_iff.mp h
  obtain ⟨hi, hlt⟩ := List.mem_range'_1.mp hi
  exact ⟨i, hi, by omega, hcomma⟩

/-- The parts of a range are a partition of it. -/
theorem exists_splitArguments {text : List Char} (hsize : byteLength text < counterLimit)
    {range : Range} (hle : range.start ≤ range.stop) (hstop : range.stop ≤ byteLength text) :
    ∃ parts, splitArguments text range = .ok parts ∧ Partition text range parts := by
  obtain ⟨start, stop⟩ := range
  dsimp only at hle hstop
  have hstop' : start + (stop - start) = stop := by omega
  obtain ⟨parts, hparts, hcut, hlength⟩ :=
    @exists_partsFrom text start start start (stop - start) 0 (Nat.le_refl _) (Nat.le_refl _)
      (by omega) (depthBetween_self text start).symm ⟨by omega, by omega⟩
      fun j hj hlt => by omega
  rw [hstop'] at hparts hcut
  have hmin : min stop (byteLength text) = stop := Nat.min_eq_left hstop
  rw [splitArguments]
  simp only [hmin, hparts, bind, Except.bind]
  rcases parts with _ | ⟨part, _ | ⟨second, others⟩⟩
  · cases hlength
  · -- no comma cuts, and so all that is left out are blanks
    have hnone : ∀ i, start ≤ i → i < stop → separates text start i = false := by
      have hcount : (List.range' start (stop - start)).countP (separates text start) = 0 := by
        rw [List.length_singleton] at hlength
        omega
      intro i hi hlt
      exact Bool.eq_false_iff.mpr
        (List.countP_eq_zero.mp hcount i (List.mem_range'_1.mpr ⟨hi, by omega⟩))
    have hblank : ∀ i, start ≤ i → i < stop → ¬ (part.start ≤ i ∧ i < part.stop) →
        testAt isAsciiBlank text i = true := by
      intro i hi hlt hout
      refine (hcut.rest i hi hlt (List.forall_mem_singleton.mpr hout)).resolve_right ?_
      rw [hnone i hi hlt]
      exact Bool.false_ne_true
    dsimp only
    split
    · next hpart =>
      obtain ⟨hstart, -, hend⟩ := hcut.inside part List.mem_cons_self
      refine ⟨[part], rfl, hcut, fun hall => ?_, fun _ => hlength⟩
      have hfront := hcut.front part List.mem_cons_self hpart
      rw [hall part.start hstart (Nat.lt_of_lt_of_le hpart hend)] at hfront
      cases hfront
    · next hpart =>
      refine ⟨[], rfl, hcut.nil hpart, fun _ => rfl, ?_⟩
      rintro ⟨i, hi, hlt, hnot⟩
      rw [hblank i hi hlt fun hin => hpart (by omega)] at hnot
      cases hnot
  · refine ⟨part :: second :: others, rfl, hcut, fun hall => ?_, fun _ => hlength⟩
    have hcount : 0 < (List.range' start (stop - start)).countP (separates text start) := by
      simp only [List.length_cons] at hlength
      omega
    obtain ⟨i, hi, hlt, hcomma⟩ := exists_separates_of_countP_pos hcount
    have hblank := hall i hi hlt
    rw [isAsciiBlank_of_separates hcomma] at hblank
    cases hblank

-- ---------------------------------------------------------------------------
-- Named arguments
-- ---------------------------------------------------------------------------

/-- Reading a part as a named argument never goes wrong, and what is read lies in it. -/
theorem exists_namedArgument {text : List Char} {part : Range}
    (hstop : part.stop ≤ byteLength text) :
    ∃ found, namedArgument text part = .ok found ∧
      ∀ argument ∈ found, argument.LiesIn text part := by
  rw [namedArgument]
  cases hword : wordEnd? text part.start with
  | none => exact ⟨[], rfl, List.forall_mem_nil _⟩
  | some nameEnd =>
    dsimp only
    split
    · exact ⟨[], rfl, List.forall_mem_nil _⟩
    split
    · exact ⟨[], rfl, List.forall_mem_nil _⟩
    · next hequals =>
      have hlt : spacesEnd text nameEnd < part.stop := Nat.lt_of_not_le hequals
      obtain ⟨b, -, hread, htest⟩ := exists_byteAt (Nat.lt_of_lt_of_le hlt hstop)
      rw [hread]
      simp only [bind, Except.bind]
      split
      · exact ⟨[], rfl, List.forall_mem_nil _⟩
      · next hmark =>
        obtain ⟨name, hname, hend⟩ := exists_slice_of_wordEnd? hword
        obtain ⟨value, hvalue, htrimmed⟩ :=
          @exists_trimRange text ⟨spacesEnd text nameEnd + 1, part.stop⟩ hlt hstop
        rw [hvalue, hname]
        refine ⟨_, rfl, List.forall_mem_singleton.mpr ?_⟩
        simp only [Bool.or_eq_true, Bool.not_eq_true', not_or, Bool.not_eq_false] at hmark
        have hplace : Named.equals text ⟨String.ofList name, part.start, value⟩ =
            spacesEnd text nameEnd := by
          rw [Named.equals, String.toList_ofList, hend]
        refine ⟨rfl, ?_, ?_, ?_, htrimmed.le, htrimmed.stop_le⟩
        · rw [String.toList_ofList, ← hend]
          exact hname
        · rw [hplace, htest]
          exact hmark.1.1
        · rw [hplace]
          exact htrimmed.start_le

/-- If every step gives a result and finds only what has a property, so does the collection. -/
theorem exists_collect {α β : Type} {f : α → Checked (List β)} {P : β → Prop} {xs : List α}
    (h : ∀ x ∈ xs, ∃ found, f x = .ok found ∧ ∀ y ∈ found, P y) :
    ∃ found, collect f xs = .ok found ∧ ∀ y ∈ found, P y := by
  induction xs with
  | nil => exact ⟨[], rfl, nofun⟩
  | cons x xs ih =>
    obtain ⟨⟨here, hhere, hp⟩, hxs⟩ := List.forall_mem_cons.mp h
    obtain ⟨later, hlater, hq⟩ := ih hxs
    refine ⟨here ++ later, ?_, List.forall_mem_append.mpr ⟨hp, hq⟩⟩
    rw [collect, hhere, hlater]
    rfl

/-- A slice is a piece of a text. -/
def IsPiece (text : List Char) (s : Slice) : Prop :=
  ∃ behind, Follows text s.offset (s.text ++ behind)

theorem IsPiece.trim {text : List Char} {s : Slice} (h : IsPiece text s) : IsPiece text s.trim := by
  obtain ⟨behind, h⟩ := h
  have hcut : s.text.takeWhile isAsciiBlank ++ s.text.dropWhile isAsciiBlank = s.text :=
    List.takeWhile_append_dropWhile
  obtain ⟨tail, hcore, -, -⟩ := dropEndWhile_spec isAsciiBlank (s.text.dropWhile isAsciiBlank)
  rw [← hcut, hcore, List.append_assoc, List.append_assoc] at h
  exact ⟨tail ++ behind, h.append⟩

/-- A piece that is trimmed as a text is trimmed as a range. -/
theorem IsPiece.trimmed {text : List Char} {s : Slice} (h : IsPiece text s) :
    Trimmed text (Range.of s) (Range.of s.trim) := by
  obtain ⟨behind, h⟩ := h
  have hstop : s.stop ≤ byteLength text := by
    rw [h.length_eq, byteLength_append, Slice.stop]
    omega
  obtain ⟨part, hpart, htrimmed⟩ :=
    @exists_trimRange text (Range.of s) (Nat.le_add_right ..) hstop
  rw [trimRange_eq h] at hpart
  cases hpart
  exact htrimmed

theorem IsPiece.of_mem_splitArguments {text : List Char} {s part : Slice} (h : IsPiece text s)
    (hpart : part ∈ Text.splitArguments s) : IsPiece text part := by
  refine forall_mem_splitArguments (P := IsPiece text) (fun _ => IsPiece.trim) ?_ h part hpart
  rintro i front rest ⟨behind, h⟩
  rw [List.append_assoc] at h
  exact ⟨⟨_, h⟩, behind, h.append.tail (by decide)⟩

/-- Of a part that is a piece of the text, the value is one, too. -/
theorem IsPiece.liesIn {text : List Char} {part : Slice} {argument : Text.NamedArgument}
    (h : IsPiece text part) (hargument : Text.namedArgument? part = some argument) :
    (Named.of argument).LiesIn text (Range.of part) := by
  obtain ⟨behind, hplace⟩ := h
  obtain ⟨name, blanks, value, hword, hblanks, rfl⟩ := namedArgument?_eq_some hargument
  obtain ⟨hpart, -⟩ := word?_eq_some hword
  have hstop : (Range.of part).stop =
      part.offset + (byteLength name + byteLength blanks + 1) + byteLength value := by
    have hone : Char.utf8Size '=' = 1 := rfl
    rw [Range.of, Slice.stop, hpart, byteLength_append, byteLength_append, byteLength_cons, hone]
    dsimp only
    omega
  rw [hpart, List.append_assoc, List.append_assoc] at hplace
  have hbehind := hplace.append.append.tail (by decide)
  rw [Nat.add_assoc, Nat.add_assoc, ← Nat.add_assoc (byteLength name)] at hbehind
  have htrimmed : Trimmed text
      (Range.of ⟨part.offset + (byteLength name + byteLength blanks + 1), value⟩) _ :=
    IsPiece.trimmed ⟨behind, hbehind⟩
  have hequals : spacesEnd text (part.offset + byteLength name) =
      part.offset + byteLength name + byteLength blanks := by
    rw [hplace.append.spacesEnd, List.takeWhile_append_of_pos hblanks, List.cons_append,
      List.takeWhile_cons_of_neg (by decide), List.append_nil]
  have hmark := hplace.append.append.testChar '=' (by decide)
  rw [← hequals] at hmark
  have hstart := htrimmed.start_le
  have hend := htrimmed.stop_le
  simp only [Range.of, Slice.stop] at hstart hend hstop
  refine ⟨rfl, ?_, ?_, ?_, htrimmed.le, ?_⟩
  · simp only [Named.of, String.toList_ofList]
    exact hplace.slice
  · simp only [Named.equals, Named.of, String.toList_ofList]
    exact hmark
  · simp only [Named.equals, Named.of, String.toList_ofList, hequals, Range.of]
    omega
  · simp only [Named.of, Range.of, Slice.stop]
    omega

/-- **The parts of an argument list make up all of it.** This holds of any range of the bytes of
a text, whether or not it starts and ends between characters, and of every piece of the text. -/
theorem splitArguments_partition {text : List Char} (hsize : byteLength text < counterLimit) :
    (∀ range : Range, range.start ≤ range.stop → range.stop ≤ byteLength text →
      ∃ parts named, splitArguments text range = .ok parts ∧
        namedArguments text range = .ok named ∧ Partition text range parts ∧
        ∀ argument ∈ named, ∃ part ∈ parts, argument.LiesIn text part) ∧
    ∀ before behind s, text = before ++ (Slice.text s ++ behind) → byteLength before = s.offset →
      Partition text (Range.of s) ((Text.splitArguments s).map Range.of) ∧
        ∀ argument ∈ Text.namedArguments s, ∃ part ∈ Text.splitArguments s,
          (Named.of argument).LiesIn text (Range.of part) := by
  constructor
  · intro range hle hstop
    obtain ⟨parts, hparts, hpartition⟩ := exists_splitArguments hsize hle hstop
    obtain ⟨named, hnamed, hlies⟩ : ∃ named, collect (namedArgument text) parts = .ok named ∧
        ∀ argument ∈ named, ∃ part ∈ parts, argument.LiesIn text part := by
      refine exists_collect fun part hpart => ?_
      obtain ⟨-, -, hend⟩ := hpartition.cut.inside part hpart
      obtain ⟨found, hfound, hlies⟩ := exists_namedArgument (Nat.le_trans hend hstop)
      exact ⟨found, hfound, fun argument hargument => ⟨part, hpart, hlies argument hargument⟩⟩
    exact ⟨parts, named, hparts, by rw [namedArguments, hparts]; exact hnamed, hpartition, hlies⟩
  · intro before behind s htext hbefore
    have hplace : Follows text s.offset (s.text ++ behind) := ⟨before, htext, hbefore⟩
    have hstop : s.stop ≤ byteLength text := by
      have hlength := hplace.length_eq
      rw [byteLength_append] at hlength
      rw [Slice.stop]
      omega
    obtain ⟨parts, hparts, hpartition⟩ :=
      @exists_splitArguments text hsize (Range.of s) (Nat.le_add_right ..) hstop
    rw [splitArguments_eq hplace hsize] at hparts
    cases hparts
    refine ⟨hpartition, fun argument hargument => ?_⟩
    obtain ⟨part, hpart, hfound⟩ := List.mem_filterMap.mp hargument
    exact ⟨part, hpart, (IsPiece.of_mem_splitArguments ⟨behind, hplace⟩ hpart).liesIn hfound⟩

/-- An argument list with brackets of its own, between its parentheses. -/
def listSample : Slice :=
  ⟨1, "a, b = [1, 2]".toList⟩

/-- The list is cut at its one comma outside of the brackets. -/
theorem splitArguments_partition_sample :
    byteLength ('(' :: (listSample.text ++ [')'])) < counterLimit ∧
      (∃ parts named, splitArguments ('(' :: (listSample.text ++ [')'])) ⟨1, 14⟩ = .ok parts ∧
        namedArguments ('(' :: (listSample.text ++ [')'])) ⟨1, 14⟩ = .ok named ∧
        Partition ('(' :: (listSample.text ++ [')'])) ⟨1, 14⟩ parts ∧
        ∀ argument ∈ named, ∃ part ∈ parts,
          argument.LiesIn ('(' :: (listSample.text ++ [')'])) part) ∧
      Partition ('(' :: (listSample.text ++ [')'])) (Range.of listSample)
        [⟨1, 2⟩, ⟨4, 14⟩] := by
  have hsize : byteLength ('(' :: (listSample.text ++ [')'])) < counterLimit := by decide
  obtain ⟨hranges, hpieces⟩ := splitArguments_partition hsize
  have hparts : (Text.splitArguments listSample).map Range.of = [⟨1, 2⟩, ⟨4, 14⟩] := by decide
  refine ⟨hsize, hranges ⟨1, 14⟩ (by decide) (by decide), ?_⟩
  rw [← hparts]
  exact (hpieces ['('] [')'] listSample rfl rfl).1

end PineCheck.Indexed
