import PineCheck.Proofs.Indexed.CallSites

/-!
# PineCheck — arguments by byte offsets

An argument list is a range of offsets of a text. It is cut into parts at its commas;
the blanks at both ends of a part are taken off by moving the ends of its range, and
the name of an argument is read by going on from the start of its part, with no look
at where the part ends.

A slice is `Delimited` in a text when it is a piece of the text and what follows it
neither goes on with a word nor looks like an operator. Argument lists, their parts
and the values of named arguments are all delimited, so that reading on behind their
ends does no harm.

Main results, each for a delimited slice:

* `splitArguments_eq` — the parts are those of `Text.splitArguments`.
* `namedArguments_eq` — the named arguments are those of `Text.namedArguments`.
* `delimited_of_mem_callSites` — the arguments of every call site are delimited.
-/

namespace PineCheck.Indexed

open Text (Slice isAsciiBlank)

-- ---------------------------------------------------------------------------
-- Definitions
-- ---------------------------------------------------------------------------

/-- Takes blanks off the front of a range. -/
def trimFront (text : List Char) : Nat → Range → Checked Range
  | 0, _ => .error .unfinished
  | fuel + 1, range =>
    if range.start < range.stop then do
      if onByte isAsciiBlank (← byteAt text range.start) then
        trimFront text fuel ⟨range.start + 1, range.stop⟩
      else .ok range
    else .ok range

/-- Takes blanks off the end of a range. -/
def trimBack (text : List Char) : Nat → Range → Checked Range
  | 0, _ => .error .unfinished
  | fuel + 1, range =>
    if range.start < range.stop then do
      let last ← minus range.stop 1
      if onByte isAsciiBlank (← byteAt text last) then trimBack text fuel ⟨range.start, last⟩
      else .ok range
    else .ok range

/-- Takes blanks off both ends of a range. -/
def trimRange (text : List Char) (range : Range) : Checked Range := do
  trimBack text (range.stop + 1) (← trimFront text (range.stop + 1) range)

/-- The parts of an argument list that ends at `stop`, from an offset in the part that
starts at `start`, with `depth` brackets open. -/
def partsFrom (text : List Char) (stop : Nat) :
    Nat → Nat → Int → Nat → Checked (List Range)
  | 0, _, _, start => do .ok [← trimRange text ⟨start, stop⟩]
  | left + 1, i, depth, start => do
    let b ← byteAt text i
    if onByte (fun c => c = '(' || c = '[') b then
      partsFrom text stop left (i + 1) (← counter (depth + 1)) start
    else if onByte (fun c => c = ')' || c = ']') b then
      partsFrom text stop left (i + 1) (← counter (depth - 1)) start
    else if onByte (· = ',') b && depth = 0 then
      let part ← trimRange text ⟨start, i⟩
      let parts ← partsFrom text stop left (i + 1) depth (i + 1)
      .ok (part :: parts)
    else partsFrom text stop left (i + 1) depth start

/-- The parts of an argument list. -/
def splitArguments (text : List Char) (arguments : Range) : Checked (List Range) := do
  let stop := min arguments.stop (byteLength text)
  match ← partsFrom text stop (stop - arguments.start) arguments.start 0 arguments.start with
  | [part] => .ok (if part.start < part.stop then [part] else [])
  | parts => .ok parts

/-- A named argument whose value is a range. -/
structure Named where
  name : String
  offset : Nat
  value : Range

/-- A named argument with a range in place of its value. -/
def Named.of (argument : Text.NamedArgument) : Named :=
  ⟨argument.name, argument.offset, Range.of argument.value⟩

/-- Reads a part as a named argument. -/
def namedArgument (text : List Char) (part : Range) : Checked (List Named) :=
  match wordEnd? text part.start with
  | none => .ok []
  | some nameEnd =>
    if part.stop < nameEnd then .ok []
    else
      let equals := spacesEnd text nameEnd
      if part.stop ≤ equals then .ok []
      else do
        let b ← byteAt text equals
        if !onByte (· = '=') b || testAt (· = '=') text (equals + 1)
            || testAt (· = '>') text (equals + 1) then .ok []
        else
          let value ← trimRange text ⟨equals + 1, part.stop⟩
          let name ← slice text part.start nameEnd
          .ok [⟨String.ofList name, part.start, value⟩]

/-- The named arguments of an argument list. -/
def namedArguments (text : List Char) (arguments : Range) : Checked (List Named) := do
  collect (namedArgument text) (← splitArguments text arguments)

-- ---------------------------------------------------------------------------
-- Trimming
-- ---------------------------------------------------------------------------

/-- The blanks in front are passed over, all of them single bytes. -/
theorem trimFront_eq {text inside behind : List Char} {i : Nat}
    (h : Follows text i (inside ++ behind)) (fuel : Nat) (hfuel : byteLength inside < fuel) :
    trimFront text fuel ⟨i, i + byteLength inside⟩ =
      .ok ⟨i + byteLength (inside.takeWhile isAsciiBlank), i + byteLength inside⟩ := by
  induction inside generalizing i fuel with
  | nil =>
    obtain ⟨fuel, rfl⟩ : ∃ k, fuel = k + 1 := ⟨fuel - 1, by omega⟩
    simp [trimFront]
  | cons c cs ih =>
    have hpos := c.utf8Size_pos
    obtain ⟨fuel, rfl⟩ : ∃ k, fuel = k + 1 := ⟨fuel - 1, by omega⟩
    obtain ⟨b, hb, hbyte⟩ := h.byteAt
    rw [byteLength_cons] at hfuel
    rw [trimFront, if_pos (by simp only [byteLength_cons]; omega), hbyte]
    simp only [bind, Except.bind, onByte_of_mem onlyAscii_isAsciiBlank hb]
    cases hc : isAsciiBlank c with
    -- a blank: one byte on, and the same again
    | true =>
      have hascii := onlyAscii_isAsciiBlank c hc
      have hnext := ih (h.tail hascii) fuel (by omega)
      rw [if_pos rfl, List.takeWhile_cons_of_pos hc, byteLength_cons, byteLength_cons,
        utf8Size_of_lt hascii, ← Nat.add_assoc, hnext, Nat.add_assoc]
    | false => simp [hc]

/-- The blanks at the end are passed over, all of them single bytes. -/
theorem trimBack_eq {text inside behind : List Char} {i : Nat}
    (h : Follows text i (inside ++ behind)) (fuel : Nat) (hfuel : byteLength inside < fuel) :
    trimBack text fuel ⟨i, i + byteLength inside⟩ =
      .ok ⟨i, i + byteLength (Text.dropEndWhile isAsciiBlank inside)⟩ := by
  induction inside using List.reverseRecOn generalizing behind fuel with
  | nil =>
    obtain ⟨fuel, rfl⟩ : ∃ k, fuel = k + 1 := ⟨fuel - 1, by omega⟩
    simp [trimBack, Text.dropEndWhile]
  | append_singleton cs c ih =>
    have hpos := c.utf8Size_pos
    obtain ⟨fuel, rfl⟩ : ∃ k, fuel = k + 1 := ⟨fuel - 1, by omega⟩
    rw [List.append_assoc] at h
    obtain ⟨b, hb, hbyte⟩ := h.byteBefore
    have hlength : byteLength (cs ++ [c]) = byteLength cs + c.utf8Size := by
      rw [byteLength_append]
      rfl
    rw [hlength] at hfuel
    -- the last byte is the last character if it is ASCII
    rw [trimBack, dropEndWhile_append_singleton, hlength, ← Nat.add_assoc,
      if_pos (by dsimp only; omega), minus_eq (by dsimp only; omega)]
    simp only [bind, Except.bind, hbyte, onByte_of_mem onlyAscii_isAsciiBlank hb]
    cases hc : isAsciiBlank c with
    | true =>
      rw [utf8Size_of_lt (onlyAscii_isAsciiBlank c hc)] at hfuel ⊢
      exact ih h fuel (by omega)
    | false => simp [Nat.add_assoc]

/-- Trimming a range trims the slice. -/
theorem trimRange_eq {text behind : List Char} {s : Slice}
    (h : Follows text s.offset (s.text ++ behind)) :
    trimRange text (Range.of s) = .ok (Range.of s.trim) := by
  have hsplit : s.text = s.text.takeWhile isAsciiBlank ++ s.text.dropWhile isAsciiBlank :=
    List.takeWhile_append_dropWhile.symm
  have hlength := congrArg byteLength hsplit
  rw [byteLength_append] at hlength
  have hfront := trimFront_eq h (s.stop + 1) (by rw [Slice.stop]; omega)
  rw [hsplit, List.append_assoc] at h
  have hback := trimBack_eq h.append (s.stop + 1) (by rw [Slice.stop]; omega)
  rw [Nat.add_assoc, ← hlength] at hback
  rw [trimRange, Range.of]
  simp only [bind, Except.bind, Slice.stop] at hfront hback ⊢
  rw [hfront]
  simp only [hback]
  rfl

-- ---------------------------------------------------------------------------
-- Parts
-- ---------------------------------------------------------------------------

/-- Puts a text before the first of some pieces. -/
def joinFirst (front : List Char) : List (List Char) → List (List Char)
  | [] => [front]
  | piece :: pieces => (front ++ piece) :: pieces

/-- Joining nothing changes no pieces. -/
theorem joinFirst_nil {pieces : List (List Char)} (h : pieces ≠ []) :
    joinFirst [] pieces = pieces := by
  cases pieces with
  | nil => exact absurd rfl h
  | cons piece pieces => rfl

/-- Joining twice joins the two texts. -/
theorem joinFirst_joinFirst (a b : List Char) (pieces : List (List Char)) :
    joinFirst a (joinFirst b pieces) = joinFirst (a ++ b) pieces := by
  cases pieces with
  | nil => rfl
  | cons piece pieces => simp [joinFirst]

/-- The depth behind a character. -/
def depthAfter (depth : Int) (c : Char) : Int :=
  if c = '(' || c = '[' then depth + 1 else if c = ')' || c = ']' then depth - 1 else depth

/-- A comma at depth 0 starts a new piece. Any other character joins the first of the later ones. -/
theorem rawArguments_cons (depth : Int) (c : Char) (cs : List Char) :
    Text.rawArguments depth (c :: cs) =
      if c = ',' && depth = 0 then [] :: Text.rawArguments depth cs
      else joinFirst [c] (Text.rawArguments (depthAfter depth c) cs) := by
  rw [Text.rawArguments]
  split
  · rfl
  · show (match Text.rawArguments (depthAfter depth c) cs with
      | [] => [[c]]
      | piece :: pieces => (c :: piece) :: pieces) = _
    cases Text.rawArguments (depthAfter depth c) cs <;> rfl

/-- There is a piece at least. -/
theorem rawArguments_ne_nil (depth : Int) (cs : List Char) : Text.rawArguments depth cs ≠ [] := by
  cases cs with
  | nil => exact List.cons_ne_nil _ _
  | cons c cs =>
    rw [rawArguments_cons]
    split
    · exact List.cons_ne_nil _ _
    · cases Text.rawArguments (depthAfter depth c) cs <;> exact List.cons_ne_nil _ _

/-- What a byte adds to the depth of the brackets. -/
def depthOf (b : UInt8) : Int :=
  if onByte (fun c => c = '(' || c = '[') b then 1
  else if onByte (fun c => c = ')' || c = ']') b then -1 else 0

/-- The depth behind a character can be read from any of its bytes. -/
theorem depthAfter_eq {c : Char} {b : UInt8} (h : b ∈ String.utf8EncodeChar c) (depth : Int) :
    depthAfter depth c = depth + depthOf b := by
  rw [depthAfter, depthOf, onByte_of_mem onlyAscii_opening h, onByte_of_mem onlyAscii_closing h]
  split
  · rfl
  · split
    · rfl
    · exact (Int.add_zero depth).symm

/-- A comma is no bracket. -/
theorem depthOf_comma {b : UInt8} (h : onByte (· = ',') b = true) : depthOf b = 0 := by
  rw [depthOf, onByte, onByte, of_decide_eq_true h]
  rfl

/-- One byte takes one step of room. -/
theorem Room.behind {depth : Int} {left : Nat} (h : Room depth (left + 1)) (b : UInt8) :
    Room (depth + depthOf b) left := by
  rw [Room] at h ⊢
  rw [depthOf]
  split
  · omega
  · split <;> omega

/-- One round of the loop: at a comma on the depth of the list the part ends, at any other
byte it goes on. -/
theorem partsFrom_succ {text : List Char} {stop left i start : Nat} {depth : Int} {b : UInt8}
    (hread : byteAt text i = .ok b) (hroom : Room depth (left + 1)) :
    partsFrom text stop (left + 1) i depth start =
      if onByte (· = ',') b && depth = 0 then do
        let part ← trimRange text ⟨start, i⟩
        let parts ← partsFrom text stop left (i + 1) depth (i + 1)
        .ok (part :: parts)
      else partsFrom text stop left (i + 1) (depth + depthOf b) start := by
  have hbehind := hroom.behind b
  -- a bracket is no comma
  have hcomma {p : Char → Bool} (hp : onByte p b = true) (hnot : p ',' = false) :
      onByte (· = ',') b = false := by
    refine Bool.eq_false_iff.mpr fun heq => ?_
    rw [onByte, of_decide_eq_true heq, hnot] at hp
    cases hp
  rw [Room, depthOf] at hbehind
  rw [partsFrom, hread, depthOf]
  simp only [bind, Except.bind]
  split
  -- an opening counts up, a closing counts down
  · next hopen =>
    rw [if_pos hopen] at hbehind
    rw [counter_eq (by omega) (by omega), hcomma hopen rfl]
    rfl
  · next hopen =>
    rw [if_neg hopen] at hbehind
    split
    · next hclose =>
      rw [if_pos hclose] at hbehind
      rw [counter_eq (by omega) (by omega), hcomma hclose rfl]
      rfl
    · rw [Int.add_zero]

/-- A byte of a longer character is passed over. -/
theorem partsFrom_high {text : List Char} {stop left i start : Nat} {depth : Int} {b : UInt8}
    (hbyte : (utf8 text)[i]? = some b) (hb : IsHigh b) :
    partsFrom text stop (left + 1) i depth start =
      partsFrom text stop left (i + 1) depth start := by
  rw [partsFrom, byteAt, hbyte]
  simp only [bind, Except.bind, onByte_of_isHigh onlyAscii_opening hb,
    onByte_of_isHigh onlyAscii_closing hb,
    onByte_of_isHigh (onlyAscii_eq (c := ',') (by decide)) hb, Bool.false_eq_true,
    Bool.false_and, ↓reduceIte]

/-- The parts from a place on, when `front` stands between it and the start of its part. -/
theorem partsFrom_eq {text front rest behind : List Char} {i j stop : Nat} {depth : Int}
    (h : Follows text i (front ++ (rest ++ behind))) (hj : j = i + byteLength front)
    (hstop : stop = j + byteLength rest) (hroom : Room depth (byteLength rest)) :
    partsFrom text stop (byteLength rest) j depth i =
      .ok ((Text.placePieces i (joinFirst front (Text.rawArguments depth rest))).map
        fun s => Range.of s.trim) := by
  induction rest generalizing front i j depth with
  | nil =>
    have htrim := trimRange_eq (s := ⟨i, front⟩) h
    rw [Range.of, Slice.stop] at htrim
    rw [byteLength_nil, Nat.add_zero, hj] at hstop
    subst hstop
    simp [partsFrom, htrim, bind, Except.bind, Text.rawArguments, joinFirst, Text.placePieces]
  | cons c cs ih =>
    have hrest := h.append
    rw [← hj] at hrest
    rw [Room, byteLength_cons] at hroom
    rw [byteLength_cons] at hstop ⊢
    -- the part goes on
    have hnext (depth : Int) (hroom : Room depth (byteLength cs)) :=
      @ih (front ++ [c]) i (j + c.utf8Size) depth (by simpa using h)
        (by rw [hj, byteLength_append, byteLength_cons, byteLength_nil]; omega) (by omega) hroom
    have hraw := rawArguments_cons depth c cs
    rw [Nat.add_comm]
    -- an ASCII character is one byte, of any other one the bytes are passed over
    rcases utf8EncodeChar_cases c with ⟨hascii, _⟩ | ⟨hhigh, _⟩
    · obtain ⟨b, hb, hbyte⟩ := hrest.byteAt
      rw [utf8Size_of_lt hascii] at *
      rw [partsFrom_succ hbyte ⟨by omega, by omega⟩, hraw,
        onByte_of_mem (onlyAscii_eq (c := ',') (by decide)) hb]
      by_cases hcomma : (c = ',' && depth = 0) = true
      · -- the next part starts
        have hlater := @ih [] (j + 1) (j + 1) depth (hrest.tail hascii) (by simp) (by omega)
          ⟨by omega, by omega⟩
        have htrim := trimRange_eq (s := ⟨i, front⟩) h
        rw [Range.of, Slice.stop, ← hj] at htrim
        rw [joinFirst_nil (rawArguments_ne_nil _ _)] at hlater
        have hc : c = ',' := by
          simp only [Bool.and_eq_true, decide_eq_true_eq] at hcomma
          exact hcomma.1
        simp only [hcomma, htrim, hlater, joinFirst, List.append_nil, Text.placePieces,
          List.map_cons, ← hj, ↓reduceIte, bind, Except.bind]
      · rw [if_neg hcomma, if_neg hcomma, joinFirst_joinFirst, depthAfter_eq hb]
        exact hnext _ (Room.behind ⟨by omega, by omega⟩ b)
    · have hskip := hrest.skip hhigh (fun left j => partsFrom text stop left j depth i)
        partsFrom_high (byteLength cs)
      have hdepth : depthAfter depth c = depth := by
        rw [depthAfter, onlyAscii_opening.eq_false hhigh, onlyAscii_closing.eq_false hhigh]
        rfl
      have hcomma := (onlyAscii_eq (c := ',') (by decide)).eq_false hhigh
      rw [hskip, hraw, if_neg (by rw [hcomma]; exact Bool.false_ne_true), hdepth,
        joinFirst_joinFirst]
      exact hnext depth ⟨by omega, by omega⟩

/-- The arguments of a list are split as on its text. -/
theorem splitArguments_eq {text behind : List Char} {s : Slice}
    (h : Follows text s.offset (s.text ++ behind)) (hsize : byteLength text < counterLimit) :
    splitArguments text (Range.of s) = .ok ((Text.splitArguments s).map Range.of) := by
  have hlength := h.length_eq
  rw [byteLength_append] at hlength
  have hmin : min s.stop (byteLength text) = s.stop := by
    rw [Slice.stop]
    omega
  have hroom : Room 0 (byteLength s.text) := ⟨by omega, by omega⟩
  have hparts := @partsFrom_eq text [] _ _ _ _ _ _ h rfl rfl hroom
  rw [joinFirst_nil (rawArguments_ne_nil _ _), byteLength_nil, Nat.add_zero] at hparts
  rw [splitArguments, Text.splitArguments, Range.of]
  simp only [hmin]
  rw [Slice.stop, Nat.add_sub_cancel_left, hparts]
  have hmap : (fun s : Slice => Range.of s.trim) = Range.of ∘ Slice.trim := rfl
  rw [hmap, ← List.map_map]
  generalize (Text.placePieces s.offset (Text.rawArguments 0 s.text)).map Slice.trim = parts
  -- a single part is dropped if it is empty
  rcases parts with _ | ⟨part, _ | ⟨_, _⟩⟩
  · rfl
  · have hpart : (Range.of part).start < (Range.of part).stop ↔ part.text ≠ [] := by
      rw [← not_iff_not, not_not, ← byteLength_eq_zero_iff, Range.of, Slice.stop]
      dsimp only
      omega
    simp only [bind, Except.bind, List.map_cons, List.map_nil, hpart]
    split <;> simp_all
  · rfl

-- ---------------------------------------------------------------------------
-- Where arguments end
-- ---------------------------------------------------------------------------

/-- Whether an argument can end before a character. -/
def endsArgument (c : Char) : Bool :=
  isAsciiBlank c || c = ',' || c = ')'

/-- A cut that does not go through spaces. -/
def CleanCut (before behind : List Char) : Prop :=
  before.getLast? ≠ some ' ' ∨ behind.head? ≠ some ' '

/-- A slice is a piece of a text, it is not cut out of the middle of spaces, and an
argument can end behind it. -/
def Delimited (text : List Char) (s : Slice) : Prop :=
  ∃ before behind, text = before ++ (s.text ++ behind) ∧ byteLength before = s.offset ∧
    (∀ c ∈ behind.head?, endsArgument c = true) ∧ CleanCut before (s.text ++ behind) ∧
    CleanCut (before ++ s.text) behind

/-- What is dropped at the end is of the class, and what is left does not end in it. -/
theorem dropEndWhile_spec (p : Char → Bool) (cs : List Char) :
    ∃ tail, cs = Text.dropEndWhile p cs ++ tail ∧ (∀ c ∈ tail, p c = true) ∧
      ∀ c ∈ (Text.dropEndWhile p cs).getLast?, p c = false := by
  refine ⟨_, (dropEndWhile_append p cs).symm, fun c hc => ?_, fun c hc => ?_⟩
  · exact List.mem_takeWhile_imp (List.mem_reverse.mp hc)
  · rw [Text.dropEndWhile, List.getLast?_reverse] at hc
    exact not_of_mem_head?_dropWhile hc

namespace Delimited

variable {text : List Char} {s : Slice}

/-- A delimited slice stands in the text, in front of what ends an argument. -/
theorem follows (h : Delimited text s) :
    ∃ behind, Follows text s.offset (s.text ++ behind) ∧
      ∀ c ∈ behind.head?, endsArgument c = true := by
  obtain ⟨before, behind, htext, hbefore, hend, _⟩ := h
  exact ⟨behind, ⟨before, htext, hbefore⟩, hend⟩

/-- A delimited slice stays so when it is trimmed. -/
theorem trim (h : Delimited text s) : Delimited text s.trim := by
  obtain ⟨before, behind, htext, hbefore, hend, hfront, hback⟩ := h
  have hsplit : s.text = s.text.takeWhile isAsciiBlank ++ s.text.dropWhile isAsciiBlank :=
    List.takeWhile_append_dropWhile.symm
  have hhead : ∀ c ∈ (s.text.dropWhile isAsciiBlank).head?, isAsciiBlank c = false :=
    fun c hc => not_of_mem_head?_dropWhile hc
  obtain ⟨tail, hcore, htail, hlast⟩ :=
    dropEndWhile_spec isAsciiBlank (s.text.dropWhile isAsciiBlank)
  rw [Slice.trim, Slice.dropWhile]
  generalize s.text.takeWhile isAsciiBlank = front at *
  generalize s.text.dropWhile isAsciiBlank = rest at *
  generalize Text.dropEndWhile isAsciiBlank rest = core at *
  subst hcore
  refine ⟨before ++ front, tail ++ behind, by rw [htext, hsplit]; simp, by simp [hbefore], ?_⟩
  -- the slice keeps its ends where nothing is trimmed
  cases core with
  | nil =>
    -- nothing is left, and the slice ends where it has ended
    cases tail with
    | cons c cs =>
      have := hhead c rfl
      rw [htail c List.mem_cons_self] at this
      cases this
    | nil =>
      have hall : s.text = front := by simpa using hsplit
      rw [hall] at hback
      exact ⟨hend, hback, by simpa using hback⟩
  | cons d ds =>
    have hblank {c : Char} (hc : isAsciiBlank c = false) : some c ≠ some ' ' := by
      rintro ⟨⟩
      cases hc
    refine ⟨?_, .inr (hblank (hhead d rfl)), .inl ?_⟩
    · cases tail with
      | nil => exact hend
      | cons c cs =>
        rintro _ ⟨⟩
        rw [endsArgument, htail c List.mem_cons_self]
        rfl
    · dsimp only
      rw [List.getLast?_append, List.getLast?_cons, Option.some_or]
      exact hblank (hlast _ List.getLast?_cons)

/-- What stands behind a mark in a delimited slice is delimited. -/
theorem behind {i : Nat} {front rest : List Char} {c : Char}
    (h : Delimited text ⟨i, front ++ c :: rest⟩) (hc : c.toNat < 128) (hspace : c ≠ ' ') :
    Delimited text ⟨i + byteLength front + 1, rest⟩ := by
  obtain ⟨before, behind, htext, hbefore, hend, -, hback⟩ := h
  refine ⟨before ++ (front ++ [c]), behind, by simp [htext], ?_, hend, .inl ?_, ?_⟩
  · dsimp only at hbefore ⊢
    rw [byteLength_append, byteLength_append, byteLength_cons, byteLength_nil, utf8Size_of_lt hc,
      hbefore, Nat.add_assoc]
  · simpa [List.getLast?_append] using hspace
  · simpa using hback

/-- What stands before a comma in a delimited slice is delimited. -/
theorem front {i : Nat} {front rest : List Char} (h : Delimited text ⟨i, front ++ ',' :: rest⟩) :
    Delimited text ⟨i, front⟩ := by
  obtain ⟨before, behind, htext, hbefore, -, hfront, -⟩ := h
  simp only [List.append_assoc, List.cons_append] at htext hfront
  exact ⟨before, _, htext, hbefore, by rintro _ ⟨⟩; rfl, hfront, .inr (by simp)⟩

end Delimited

/-- Joining the first piece joins the whole. -/
theorem intercalate_joinFirst (front : List Char) {pieces : List (List Char)} (h : pieces ≠ []) :
    List.intercalate [','] (joinFirst front pieces) = front ++ List.intercalate [','] pieces := by
  match pieces with
  | [] => exact absurd rfl h
  | [piece] => simp [joinFirst]
  | piece :: next :: pieces => simp [joinFirst, List.intercalate_cons_cons]

/-- Arguments are cut at commas, and nothing else is lost. -/
theorem intercalate_rawArguments (depth : Int) (cs : List Char) :
    List.intercalate [','] (Text.rawArguments depth cs) = cs := by
  induction cs generalizing depth with
  | nil => simp [Text.rawArguments]
  | cons c cs ih =>
    rw [rawArguments_cons]
    split
    · next hcomma =>
      have hc : c = ',' := by
        simp only [Bool.and_eq_true, decide_eq_true_eq] at hcomma
        exact hcomma.1
      obtain ⟨piece, pieces, hpieces⟩ := List.exists_cons_of_ne_nil (rawArguments_ne_nil depth cs)
      have hrest := ih depth
      rw [hpieces] at hrest ⊢
      rw [List.intercalate_cons_cons, hrest, hc]
      rfl
    · rw [intercalate_joinFirst _ (rawArguments_ne_nil _ _), ih]
      rfl

/-- What holds of an argument list, and goes over to what stands before and behind a comma,
holds of all pieces between commas. -/
theorem forall_mem_placePieces {P : Slice → Prop}
    (hcut : ∀ i front rest, P ⟨i, front ++ ',' :: rest⟩ →
      P ⟨i, front⟩ ∧ P ⟨i + byteLength front + 1, rest⟩)
    {pieces : List (List Char)} {i : Nat} (h : P ⟨i, List.intercalate [','] pieces⟩) :
    ∀ part ∈ Text.placePieces i pieces, P part := by
  induction pieces generalizing i with
  | nil => exact nofun
  | cons piece pieces ih =>
    intro part hpart
    cases pieces with
    | nil =>
      rw [List.intercalate_singleton] at h
      rcases List.mem_cons.mp hpart with rfl | hpart
      · exact h
      · cases hpart
    | cons next pieces =>
      rw [List.intercalate_cons_cons, List.append_assoc, List.singleton_append] at h
      obtain ⟨hpiece, hrest⟩ := hcut _ _ _ h
      rcases List.mem_cons.mp hpart with rfl | hpart
      · exact hpiece
      · exact ih hrest part hpart

/-- The parts of an argument list are the pieces between its commas, without blanks at their
ends. -/
theorem exists_piece_of_mem_splitArguments {s part : Slice}
    (h : part ∈ Text.splitArguments s) :
    ∃ piece ∈ Text.placePieces s.offset (Text.rawArguments 0 s.text), part = piece.trim := by
  have hall : ∀ part ∈ (Text.placePieces s.offset (Text.rawArguments 0 s.text)).map Slice.trim,
      ∃ piece ∈ Text.placePieces s.offset (Text.rawArguments 0 s.text), part = piece.trim := by
    intro part hpart
    obtain ⟨piece, hpiece, rfl⟩ := List.mem_map.mp hpart
    exact ⟨piece, hpiece, rfl⟩
  rw [Text.splitArguments] at h
  split at h
  · next only heq =>
    split at h
    · cases h
    · exact hall part (heq ▸ h)
  · exact hall part h

/-- If it goes over to trimmed slices, too, it holds of all parts. -/
theorem forall_mem_splitArguments {P : Slice → Prop} (htrim : ∀ s, P s → P s.trim)
    (hcut : ∀ i front rest, P ⟨i, front ++ ',' :: rest⟩ →
      P ⟨i, front⟩ ∧ P ⟨i + byteLength front + 1, rest⟩)
    {s : Slice} (h : P s) : ∀ part ∈ Text.splitArguments s, P part := by
  intro part hpart
  obtain ⟨piece, hpiece, rfl⟩ := exists_piece_of_mem_splitArguments hpart
  refine htrim piece (forall_mem_placePieces hcut ?_ piece hpiece)
  rwa [intercalate_rawArguments]

/-- The parts of a delimited argument list are delimited. -/
theorem Delimited.of_mem_splitArguments {text : List Char} {s part : Slice} (h : Delimited text s)
    (hpart : part ∈ Text.splitArguments s) : Delimited text part :=
  forall_mem_splitArguments (P := Delimited text) (fun _ => Delimited.trim)
    (fun _ _ _ h => ⟨h.front, h.behind (by decide) (by decide)⟩) h part hpart

-- ---------------------------------------------------------------------------
-- Named arguments
-- ---------------------------------------------------------------------------

/-- The characters that an argument can end before are seven. -/
theorem head?_any_of_endsArgument {behind : List Char}
    (h : ∀ c ∈ behind.head?, endsArgument c = true) {p : Char → Bool}
    (hp : [' ', '\t', '\n', '\x0c', '\r', ',', ')'].any p = false) :
    behind.head?.any p = false := by
  rw [Option.any_eq_false]
  intro c hc
  have hends := h c hc
  simp only [endsArgument, isAsciiBlank, Bool.or_eq_true, decide_eq_true_eq] at hends
  have hmem : c ∈ [' ', '\t', '\n', '\x0c', '\r', ',', ')'] := by
    simp only [List.mem_cons, List.not_mem_nil]
    tauto
  exact Bool.eq_false_iff.mpr (List.any_eq_false.mp hp c hmem)

/-- What is behind a text is not seen by a class that leaves it out. -/
theorem head?_any_append {a b : List Char} {p : Char → Bool} (h : b.head?.any p = false) :
    (a ++ b).head?.any p = a.head?.any p := by
  cases a with
  | nil => exact h
  | cons c cs => rfl

/-- A class that leaves out the text behind stops in front of it. -/
theorem span_append {a b : List Char} {p : Char → Bool} (h : b.head?.any p = false) :
    (a ++ b).takeWhile p = a.takeWhile p ∧ (a ++ b).dropWhile p = a.dropWhile p ++ b := by
  induction a with
  | nil =>
    cases b with
    | nil => exact ⟨rfl, rfl⟩
    | cons c cs =>
      have hc : ¬ p c = true := Bool.eq_false_iff.mp h
      exact ⟨List.takeWhile_cons_of_neg hc, List.dropWhile_cons_of_neg hc⟩
  | cons c cs ih =>
    rw [List.cons_append, List.takeWhile_cons, List.dropWhile_cons, List.takeWhile_cons,
      List.dropWhile_cons, ih.1, ih.2]
    split
    · exact ⟨rfl, rfl⟩
    · exact ⟨rfl, rfl⟩

/-- A word ends with a text that it does not go on behind. -/
theorem word?_append {a b : List Char} (h : b.head?.any Lexer.isWordChar = false) :
    Text.word? (a ++ b) = (Text.word? a).map fun (word, rest) => (word, rest ++ b) := by
  have hstart : b.head?.any Lexer.isWordStart = false := by
    rw [Option.any_eq_false] at h ⊢
    exact fun c hc => Bool.eq_false_iff.mpr fun hstart =>
      Bool.false_ne_true (h c hc ▸ Lexer.isWordChar_of_isWordStart hstart)
  obtain ⟨htake, hdrop⟩ := span_append (a := a) h
  rw [word?_eq_ite, word?_eq_ite, head?_any_append hstart, htake, hdrop]
  split <;> rfl

/-- The spaces at the front of a piece of a text: either they reach up to its end, or
something of the piece follows them. -/
theorem Follows.spaces_inside {text rest behind : List Char} {i : Nat}
    (h : Follows text i (rest ++ behind)) :
    (Text.skipSpaces rest = [] ∧ i + byteLength rest ≤ spacesEnd text i) ∨
      ∃ c cs, Text.skipSpaces rest = c :: cs ∧
        spacesEnd text i = i + byteLength (rest.takeWhile Text.isSpace) ∧
        spacesEnd text i + byteLength (c :: cs) = i + byteLength rest ∧
        Follows text (spacesEnd text i) (c :: (cs ++ behind)) := by
  have hrest : rest.takeWhile Text.isSpace ++ Text.skipSpaces rest = rest :=
    List.takeWhile_append_dropWhile
  cases hskip : Text.skipSpaces rest with
  | nil =>
    rw [hskip, List.append_nil] at hrest
    have hall : ∀ c ∈ rest, Text.isSpace c = true := fun c hc => List.mem_takeWhile_imp (hrest ▸ hc)
    rw [h.spacesEnd, List.takeWhile_append_of_pos hall, byteLength_append]
    exact .inl ⟨rfl, by omega⟩
  | cons c cs =>
    have hbehind := h.skipSpaces
    rw [Text.skipSpaces] at hskip hbehind
    rw [List.dropWhile_append, hskip] at hbehind
    have hlength := congrArg byteLength hrest
    rw [Text.skipSpaces, hskip, byteLength_append] at hlength
    have htotal := hbehind.length_eq
    rw [h.length_eq] at htotal
    simp only [List.isEmpty_cons, Bool.false_eq_true, ↓reduceIte, List.cons_append,
      byteLength_append, byteLength_cons] at hbehind htotal hlength
    refine .inr ⟨c, cs, rfl, by omega, ?_, hbehind⟩
    rw [byteLength_cons]
    omega

/-- Reading a delimited part as a named argument. -/
theorem namedArgument_eq {text : List Char} {part : Slice} (h : Delimited text part) :
    namedArgument text (Range.of part) =
      .ok ((Text.namedArgument? part).toList.map Named.of) := by
  obtain ⟨behind, hplace, hend⟩ := h.follows
  have hword := head?_any_of_endsArgument hend (p := Lexer.isWordChar) (by decide)
  rw [namedArgument, Text.namedArgument?, Range.of]
  dsimp only
  rw [hplace.wordEnd?, word?_append hword]
  cases hfind : Text.word? part.text with
  | none => rfl
  | some found =>
    obtain ⟨name, rest⟩ := found
    obtain ⟨hpart, -⟩ := word?_eq_some hfind
    have hstop : part.stop = part.offset + byteLength name + byteLength rest := by
      rw [Slice.stop, hpart, byteLength_append, Nat.add_assoc]
    rw [hpart, List.append_assoc] at hplace
    simp only [Option.map_some, Option.bind_eq_bind, Option.bind_some,
      if_neg (show ¬ part.stop < part.offset + byteLength name by omega)]
    rcases hplace.append.spaces_inside with ⟨hskip, hle⟩ | ⟨c, value, hskip, hspaces, hle, hequals⟩
    · rw [if_pos (by omega), hskip]
      rfl
    · have hpos := c.utf8Size_pos
      rw [byteLength_cons] at hle
      obtain ⟨b, hb, hbyte⟩ := hequals.byteAt
      rw [if_neg (by omega), hbyte, hskip]
      simp only [bind, Except.bind, onByte_of_mem (onlyAscii_eq (c := '=') (by decide)) hb]
      by_cases hc : c = '='
      · -- what follows the part is neither `=` nor `>`
        subst hc
        have hvalue := hequals.tail (by decide)
        have hnot (d : Char) (hd : endsArgument d = false) :
            decide ((value ++ behind).head? = some d) = decide (value.head? = some d) := by
          cases value with
          | nil =>
            have hne : behind.head? ≠ some d := fun h => Bool.false_ne_true (hd ▸ hend d h)
            simp [hne]
          | cons e es => rfl
        have htrim := trimRange_eq (s := ⟨_, value⟩) hvalue
        have hvalueStop : spacesEnd text (part.offset + byteLength name) + 1 + byteLength value =
            part.stop := by
          rw [show Char.utf8Size '=' = 1 from rfl] at hle
          omega
        have hvalueStart : part.offset +
            (byteLength name + byteLength (rest.takeWhile Text.isSpace) + 1) =
              spacesEnd text (part.offset + byteLength name) + 1 := by omega
        rw [Range.of, Slice.stop, hvalueStop] at htrim
        simp only [htrim, hplace.slice, hvalue.testChar '=' (by decide),
          hvalue.testChar '>' (by decide), hnot '=' (by decide), hnot '>' (by decide), hvalueStart,
          decide_true, Bool.not_true, Bool.false_or]
        split <;> rfl
      · simp [hc]

/-- The named arguments of a list are found as on its text. -/
theorem namedArguments_eq {text : List Char} {s : Slice} (h : Delimited text s)
    (hsize : byteLength text < counterLimit) :
    namedArguments text (Range.of s) = .ok ((Text.namedArguments s).map Named.of) := by
  obtain ⟨behind, hplace, -⟩ := h.follows
  rw [namedArguments, splitArguments_eq hplace hsize, Text.namedArguments,
    List.filterMap_eq_flatMap_toList, List.map_flatMap]
  exact collect_map fun part hpart => namedArgument_eq (h.of_mem_splitArguments hpart)

/-- What a named argument is made of. -/
theorem namedArgument?_eq_some {part : Slice} {argument : Text.NamedArgument}
    (h : Text.namedArgument? part = some argument) :
    ∃ name blanks value, Text.word? part.text = some (name, blanks ++ '=' :: value) ∧
      (∀ c ∈ blanks, Text.isSpace c = true) ∧
      argument = ⟨String.ofList name, part.offset,
        (Slice.mk (part.offset + (byteLength name + byteLength blanks + 1)) value).trim⟩ := by
  rw [Text.namedArgument?] at h
  obtain ⟨⟨name, rest⟩, hfind, h⟩ := Option.bind_eq_some_iff.mp h
  have hrest : rest.takeWhile Text.isSpace ++ Text.skipSpaces rest = rest :=
    List.takeWhile_append_dropWhile
  dsimp only at h
  split at h
  · next value hskip =>
    split at h
    · cases h
    · cases h
      rw [hskip] at hrest
      exact ⟨name, rest.takeWhile Text.isSpace, value, hrest.symm ▸ hfind,
        fun c hc => List.mem_takeWhile_imp hc, rfl⟩
  · cases h

/-- The value of a named argument stands behind an equals sign. -/
theorem exists_equals_of_namedArgument? {part : Slice} {argument : Text.NamedArgument}
    (h : Text.namedArgument? part = some argument) :
    ∃ front value, part.text = front ++ '=' :: value ∧ argument.offset = part.offset ∧
      argument.value = (Slice.mk (part.offset + (byteLength front + 1)) value).trim := by
  obtain ⟨name, blanks, value, hfind, -, rfl⟩ := namedArgument?_eq_some h
  refine ⟨name ++ blanks, value, ?_, rfl, ?_⟩
  · rw [(word?_eq_some hfind).1, List.append_assoc]
  · rw [byteLength_append]

/-- The value of a named argument is delimited if its part is. -/
theorem Delimited.value {text : List Char} {part : Slice} {argument : Text.NamedArgument}
    (h : Delimited text part) (hargument : Text.namedArgument? part = some argument) :
    Delimited text argument.value := by
  obtain ⟨front, value, hpart, -, hvalue⟩ := exists_equals_of_namedArgument? hargument
  have hslice : Delimited text ⟨part.offset, front ++ '=' :: value⟩ := by rwa [← hpart]
  rw [hvalue, ← Nat.add_assoc]
  exact (hslice.behind (by decide) (by decide)).trim

/-- A named argument starts before its value ends. -/
theorem offset_le_value_stop {part : Slice} {argument : Text.NamedArgument}
    (h : Text.namedArgument? part = some argument) : argument.offset ≤ argument.value.stop := by
  obtain ⟨front, value, -, hoffset, hvalue⟩ := exists_equals_of_namedArgument? h
  rw [hoffset, hvalue, Slice.stop, Slice.trim, Slice.dropWhile]
  dsimp only
  omega

-- ---------------------------------------------------------------------------
-- Arguments of call sites
-- ---------------------------------------------------------------------------

/-- The arguments of a call site stand between a parenthesis and another one or the end of
the text. -/
theorem exists_parenthesis_of_callSiteAt? {text cs : List Char} {i : Nat} (h : Follows text i cs)
    {site : Text.CallSite} (hsite : Text.callSiteAt? i cs = some site) :
    ∃ before behind, text = before ++ '(' :: (site.arguments.text ++ behind) ∧
      site.arguments.offset = byteLength before + 1 ∧ ∀ c ∈ behind.head?, c = ')' := by
  obtain ⟨before, rfl, rfl⟩ := h
  obtain ⟨blanks, inner, htail, -, -, hstart, hinside⟩ := exists_of_callSiteAt? hsite
  have hcs := nameTail_append cs
  rw [htail] at hcs
  -- the text up to the parenthesis
  have htext : before ++ cs = (before ++ site.name.toList ++ blanks) ++ '(' :: inner := by
    rw [← hcs]
    simp
  rw [← byteLength_append, ← byteLength_append] at hstart
  rw [htext]
  refine ⟨before ++ site.name.toList ++ blanks, ?_⟩
  rcases hinside with ⟨rest, hup, -⟩ | ⟨-, hinner, -⟩
  · obtain ⟨later, rfl, hcut⟩ := upToClosing?_append hup
    exact ⟨')' :: later, by rw [hcut], hstart, by rintro _ ⟨⟩; rfl⟩
  · refine ⟨[], by rw [hinner, List.append_nil], hstart, fun c hc => ?_⟩
    cases hc

/-- The same of a call site of a text. -/
theorem exists_parenthesis_of_mem_callSites {text : List Char} {site : Text.CallSite}
    (h : site ∈ Text.callSites text) :
    ∃ before behind, text = before ++ '(' :: (site.arguments.text ++ behind) ∧
      site.arguments.offset = byteLength before + 1 ∧ ∀ c ∈ behind.head?, c = ')' := by
  rw [Text.callSites, callSitesFrom_eq_scanNames] at h
  obtain ⟨i, c, cs, hplace, -, -, hsite⟩ := exists_of_mem_scanNames (Follows.start text) h
  exact exists_parenthesis_of_callSiteAt? hplace (Option.mem_toList.mp hsite)

/-- The arguments of every call site are delimited. -/
theorem delimited_of_mem_callSites {text : List Char} {site : Text.CallSite}
    (h : site ∈ Text.callSites text) : Delimited text site.arguments := by
  obtain ⟨before, behind, htext, hoffset, hend⟩ := exists_parenthesis_of_mem_callSites h
  refine ⟨before ++ ['('], behind, by simp [htext], by rw [hoffset]; exact byteLength_append .., ?_,
    .inl ?_, .inr ?_⟩
  · intro c hc
    rw [hend c hc]
    rfl
  · rw [List.getLast?_concat]
    decide
  · intro hspace
    cases hend ' ' hspace

end PineCheck.Indexed
