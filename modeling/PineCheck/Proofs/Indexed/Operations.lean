import Mathlib.Data.List.Basic
import PineCheck.Check
import PineCheck.Proofs.Lexing
import PineCheck.Text.CallSite
import PineCheck.Text.Line

/-!
# PineCheck — reading a text by byte offsets

The checks look at a text through byte offsets: they index it, cut pieces out of it
and count in 32 bits. Each of these operations has inputs that it is not made for.
Here they are partial: an operation `Checked` gives a result or a `Trap`.

A place in a text is given by what stands before it. When the text is
`before ++ rest`, the place has the offset `byteLength before`, and every lemma here
says what an operation does at such a place in terms of `before` and `rest`:

* `byteAt_append`, `byteAt_before` and `testAt_append` for the bytes beside it,
* `slice_append` for the piece between two places,
* `wordEnd?_append` and `spacesEnd_append` for words and spaces behind it.

Where what stands before a place does not matter, `Follows` says what stands behind
it, and moves from one place of a text to a later one.

Bytes of characters outside ASCII are never mistaken for characters of ASCII
(`utf8EncodeChar_cases`), so that a loop over bytes goes over them without stopping
(`Follows.skip`).
-/

namespace PineCheck.Indexed

-- ---------------------------------------------------------------------------
-- Operations
-- ---------------------------------------------------------------------------

/-- What can go wrong when a text is read by offsets. -/
inductive Trap where
  /-- An index is not smaller than the length. -/
  | outOfBounds (index : Nat)
  /-- The ends of a slice are in the wrong order, behind the end of the text or inside
  a character. -/
  | badSlice (start stop : Nat)
  /-- A difference is negative. -/
  | underflow
  /-- A counter does not fit into 32 bits with a sign. -/
  | overflow
  /-- A loop has not come to an end. -/
  | unfinished
  /-- A check has no limits for numbers. -/
  | noLimits (check : Check)
deriving DecidableEq

/-- A result, unless something goes wrong. -/
abbrev Checked := Except Trap

/-- The byte at an offset. -/
def byteAt (text : List Char) (i : Nat) : Checked UInt8 :=
  match (utf8 text)[i]? with
  | some b => .ok b
  | none => .error (.outOfBounds i)

/-- A difference. -/
def minus (a b : Nat) : Checked Nat :=
  if b ≤ a then .ok (a - b) else .error .underflow

/-- A counter of 32 bits with a sign stays below `2 ^ 31`. -/
def counterLimit : Nat := 0x80000000

/-- A counter of 32 bits with a sign. -/
def counter (n : Int) : Checked Int :=
  if -(counterLimit : Int) ≤ n ∧ n < counterLimit then .ok n else .error .overflow

/-- The characters before and behind an offset, if it lies between characters. -/
def splitAt? (text : List Char) (i : Nat) : Option (List Char × List Char) :=
  match text with
  | [] => if i = 0 then some ([], []) else none
  | c :: cs =>
    if i = 0 then some ([], c :: cs)
    else if c.utf8Size ≤ i then
      (splitAt? cs (i - c.utf8Size)).map fun (before, behind) => (c :: before, behind)
    else none

/-- The piece of a text between two offsets. -/
def slice (text : List Char) (start stop : Nat) : Checked (List Char) :=
  if start ≤ stop then
    match (splitAt? text stop).bind fun (before, _) => splitAt? before start with
    | some (_, inside) => .ok inside
    | none => .error (.badSlice start stop)
  else .error (.badSlice start stop)

/-- Whether a byte is a character of ASCII with a property. -/
def onByte (p : Char → Bool) (b : UInt8) : Bool :=
  p (Char.ofUInt8 b)

/-- Whether there is a byte at an offset that is a character with a property. -/
def testAt (p : Char → Bool) (text : List Char) (i : Nat) : Bool :=
  (utf8 text)[i]?.any (onByte p)

/-- The end of the word that starts at an offset. -/
def wordEnd? (text : List Char) (start : Nat) : Option Nat :=
  if testAt Lexer.isWordStart text start then
    some (start + 1 + (((utf8 text).drop (start + 1)).takeWhile (onByte Lexer.isWordChar)).length)
  else none

/-- The end of the spaces and tabs that start at an offset. -/
def spacesEnd (text : List Char) (start : Nat) : Nat :=
  start + (((utf8 text).drop start).takeWhile (onByte Text.isSpace)).length

/-- The offset of the first character with a property. -/
def find? (p : Char → Bool) (text : List Char) : Option Nat :=
  if text.any p then some (byteLength (text.takeWhile (!p ·))) else none

/-- The byte before an offset, or a space at the start of a text. -/
def byteBefore (text : List Char) (i : Nat) : Checked UInt8 :=
  if i = 0 then .ok ' '.toUInt8 else do byteAt text (← minus i 1)

/-- Puts the results for several things together. -/
def collect {α β : Type} (f : α → Checked (List β)) : List α → Checked (List β)
  | [] => .ok []
  | x :: xs => do
    let here ← f x
    let later ← collect f xs
    .ok (here ++ later)

/-- If every single result is right, so are all together. -/
theorem collect_map {α β γ : Type} {f : α → Checked (List β)} {r : γ → α} {g : γ → List β}
    {xs : List γ} (h : ∀ x ∈ xs, f (r x) = .ok (g x)) :
    collect f (xs.map r) = .ok (xs.flatMap g) := by
  induction xs with
  | nil => rfl
  | cons x xs ih =>
    rw [List.map_cons, collect, h x List.mem_cons_self,
      ih fun y hy => h y (List.mem_cons_of_mem x hy)]
    rfl

/-- If nothing goes wrong at any element, everything that is found is collected. -/
theorem collect_eq {α β : Type} {f : α → Checked (List β)} {g : α → List β} {xs : List α}
    (h : ∀ x ∈ xs, f x = .ok (g x)) : collect f xs = .ok (xs.flatMap g) := by
  have hmap := collect_map (r := id) h
  rwa [List.map_id] at hmap

/-- A subtraction does not go wrong where nothing is below zero. -/
theorem minus_eq {a b : Nat} (h : b ≤ a) : minus a b = .ok (a - b) :=
  if_pos h

/-- A count stays in its type as long as it is below the limit on both sides. -/
theorem counter_eq {n : Int} (h : -(counterLimit : Int) ≤ n) (h' : n < counterLimit) :
    counter n = .ok n :=
  if_pos ⟨h, h'⟩

/-- What is left behind the characters with a property starts with none of them. -/
theorem not_of_mem_head?_dropWhile {p : Char → Bool} {cs : List Char} {c : Char}
    (h : c ∈ (cs.dropWhile p).head?) : p c = false := by
  have hnot := List.head?_dropWhile_not p cs
  rw [h] at hnot
  simpa using hnot

/-- What is dropped at the end of a text can be put back. -/
theorem dropEndWhile_append (p : Char → Bool) (cs : List Char) :
    Text.dropEndWhile p cs ++ (cs.reverse.takeWhile p).reverse = cs := by
  rw [Text.dropEndWhile, ← List.reverse_append, List.takeWhile_append_dropWhile,
    List.reverse_reverse]

/-- Whether anything is dropped is decided by the last character. -/
theorem dropEndWhile_append_singleton (p : Char → Bool) (cs : List Char) (c : Char) :
    Text.dropEndWhile p (cs ++ [c]) = if p c then Text.dropEndWhile p cs else cs ++ [c] := by
  rw [Text.dropEndWhile, List.reverse_append, List.reverse_singleton, List.singleton_append,
    List.dropWhile_cons]
  split
  · rfl
  · simp

-- ---------------------------------------------------------------------------
-- Slices
-- ---------------------------------------------------------------------------

/-- A text can be split where two parts of it meet. -/
theorem splitAt?_append (before behind : List Char) :
    splitAt? (before ++ behind) (byteLength before) = some (before, behind) := by
  induction before with
  | nil => cases behind <;> rfl
  | cons c cs ih =>
    have hpos := c.utf8Size_pos
    rw [List.cons_append, splitAt?, byteLength_cons, if_neg (by omega), if_pos (by omega),
      Nat.add_sub_cancel_left, ih]
    rfl

/-- An offset can be split at if and only if it is one of a place of the text. -/
theorem splitAt?_eq_some_iff {text before behind : List Char} {i : Nat} :
    splitAt? text i = some (before, behind) ↔ text = before ++ behind ∧ byteLength before = i := by
  constructor
  -- the offset is counted down along the characters, whole ones only
  · intro h
    induction text generalizing before i with
    | nil =>
      rw [splitAt?] at h
      split at h <;> cases h
      next hi => exact ⟨rfl, hi.symm⟩
    | cons c cs ih =>
      rw [splitAt?] at h
      split at h
      · next hi =>
        cases h
        exact ⟨rfl, hi.symm⟩
      · split at h
        · obtain ⟨⟨before', behind'⟩, hsplit, heq⟩ := Option.map_eq_some_iff.mp h
          cases heq
          obtain ⟨rfl, hlength⟩ := ih hsplit
          exact ⟨rfl, by rw [byteLength_cons]; omega⟩
        · cases h
  · rintro ⟨rfl, rfl⟩
    exact splitAt?_append before behind

/-- The piece between two places. -/
theorem slice_append (before inside behind : List Char) :
    slice (before ++ (inside ++ behind)) (byteLength before)
      (byteLength before + byteLength inside) = .ok inside := by
  have hstop := splitAt?_append (before ++ inside) behind
  rw [byteLength_append, List.append_assoc] at hstop
  rw [slice, if_pos (Nat.le_add_right ..), hstop]
  show (match splitAt? (before ++ inside) (byteLength before) with
    | some (_, inside) => Except.ok inside
    | none => _) = _
  rw [splitAt?_append]

/-- A slice from the start of a text is a front of it. -/
theorem slice_zero (before behind : List Char) :
    slice (before ++ behind) 0 (byteLength before) = .ok before := by
  have h := slice_append [] before behind
  rwa [List.nil_append, byteLength_nil, Nat.zero_add] at h

/-- The piece from a place to the end. -/
theorem slice_end (before behind : List Char) :
    slice (before ++ behind) (byteLength before) (byteLength (before ++ behind)) = .ok behind := by
  have h := slice_append before behind []
  rwa [List.append_nil, ← byteLength_append] at h

-- ---------------------------------------------------------------------------
-- Bytes of characters
-- ---------------------------------------------------------------------------

/-- A property that only characters of ASCII have. -/
def OnlyAscii (p : Char → Bool) : Prop :=
  ∀ c, p c = true → c.toNat < 128

/-- A byte that belongs to a character outside ASCII. -/
def IsHigh (b : UInt8) : Prop :=
  128 ≤ b.toNat

/-- A character of ASCII is one byte, and every byte of another character is high. -/
theorem utf8EncodeChar_cases (c : Char) :
    (c.toNat < 128 ∧ ∃ b, String.utf8EncodeChar c = [b] ∧ Char.ofUInt8 b = c) ∨
      (128 ≤ c.toNat ∧ ∀ b ∈ String.utf8EncodeChar c, IsHigh b) := by
  have hvalue : c.val.toNat = c.toNat := rfl
  -- all bytes of longer encodings are above 127
  have hhigh (n : Nat) (hn : 128 ≤ n ∧ n < 256) : IsHigh (UInt8.ofNat n) := by
    rw [IsHigh, UInt8.toNat_ofNat']
    omega
  fun_cases String.utf8EncodeChar c with
  -- one byte, which is the number of the character
  | case1 v h =>
    refine .inl ⟨by omega, _, rfl, ?_⟩
    apply Char.toNat_inj.mp
    show (UInt8.ofNat c.val.toNat).toUInt32.toNat = c.val.toNat
    rw [UInt8.toNat_toUInt32, UInt8.toNat_ofNat']
    omega
  -- two, three or four bytes
  | case2 | case3 | case4 =>
    refine .inr ⟨by omega, fun b hb => ?_⟩
    simp only [List.mem_cons, List.not_mem_nil, or_false] at hb
    rcases hb with rfl | hb
    · exact hhigh _ (by omega)
    rcases hb with rfl | hb
    · exact hhigh _ (by omega)
    all_goals
      rcases hb with rfl | rfl
      all_goals exact hhigh _ (by omega)

/-- Every character has a first byte. -/
theorem exists_utf8EncodeChar_cons (c : Char) :
    ∃ b ∈ String.utf8EncodeChar c, ∃ bytes, String.utf8EncodeChar c = b :: bytes := by
  have hlength := String.length_utf8EncodeChar c
  have hpos := c.utf8Size_pos
  cases hbytes : String.utf8EncodeChar c with
  | nil =>
    rw [hbytes, List.length_nil] at hlength
    omega
  | cons b bytes => exact ⟨b, List.mem_cons_self, bytes, rfl⟩

-- Words, spaces and marks are made of characters of ASCII.

/-- A character of ASCII is only equal to one of ASCII. -/
theorem onlyAscii_eq {c : Char} (h : c.toNat < 128) : OnlyAscii (· = c) := by
  intro d hd
  rw [of_decide_eq_true hd]
  exact h

theorem onlyAscii_contains {cs : List Char} (h : cs.all (·.toNat < 128) = true) :
    OnlyAscii cs.contains :=
  fun c hc => of_decide_eq_true (List.all_eq_true.mp h c (List.contains_iff_mem.mp hc))

/-- Tests that only characters of ASCII pass can be joined. -/
theorem OnlyAscii.or {p q : Char → Bool} (hp : OnlyAscii p) (hq : OnlyAscii q) :
    OnlyAscii fun c => p c || q c := by
  intro c h
  rcases Bool.or_eq_true_iff.mp h with h | h
  · exact hp c h
  · exact hq c h

/-- Words are written in ASCII, and so are the blanks and brackets below. -/
theorem onlyAscii_isWordChar : OnlyAscii Lexer.isWordChar := by
  intro c h
  rw [Lexer.isWordChar] at h
  delta Char.isAlphanum Char.isAlpha Char.isUpper Char.isLower Char.isDigit at h
  simp only [Bool.or_eq_true, Bool.and_eq_true, decide_eq_true_eq, beq_iff_eq] at h
  rcases h with ((⟨_, h⟩ | ⟨_, h⟩) | ⟨_, h⟩) | rfl
  · exact Nat.lt_of_le_of_lt (UInt32.le_iff_toNat_le.mp h) (by decide)
  · exact Nat.lt_of_le_of_lt (UInt32.le_iff_toNat_le.mp h) (by decide)
  · exact Nat.lt_of_le_of_lt (UInt32.le_iff_toNat_le.mp h) (by decide)
  · decide

theorem onlyAscii_isWordStart : OnlyAscii Lexer.isWordStart :=
  fun c h => onlyAscii_isWordChar c (Lexer.isWordChar_of_isWordStart h)

theorem onlyAscii_isSpace : OnlyAscii Text.isSpace :=
  (onlyAscii_eq (by decide)).or (onlyAscii_eq (by decide))

theorem onlyAscii_opening : OnlyAscii fun c => c = '(' || c = '[' :=
  (onlyAscii_eq (by decide)).or (onlyAscii_eq (by decide))

theorem onlyAscii_closing : OnlyAscii fun c => c = ')' || c = ']' :=
  (onlyAscii_eq (by decide)).or (onlyAscii_eq (by decide))

theorem onlyAscii_isAsciiBlank : OnlyAscii Text.isAsciiBlank :=
  ((((onlyAscii_eq (by decide)).or (onlyAscii_eq (by decide))).or (onlyAscii_eq (by decide))).or
    (onlyAscii_eq (by decide))).or (onlyAscii_eq (by decide))

/-- A character outside ASCII does not pass such a test. -/
theorem OnlyAscii.eq_false {p : Char → Bool} (hp : OnlyAscii p) {c : Char} (hc : 128 ≤ c.toNat) :
    p c = false :=
  Bool.eq_false_iff.mpr fun h => absurd (hp c h) (Nat.not_lt.mpr hc)

/-- Nor does a byte of one. -/
theorem onByte_of_isHigh {p : Char → Bool} (hp : OnlyAscii p) {b : UInt8} (hb : IsHigh b) :
    onByte p b = false := by
  refine hp.eq_false ?_
  have hvalue : (Char.ofUInt8 b).toNat = b.toNat := UInt8.toNat_toUInt32 b
  rwa [hvalue]

/-- What the first and the last byte of a character tell about it. -/
theorem onByte_of_mem {p : Char → Bool} (hp : OnlyAscii p) {c : Char} {b : UInt8}
    (h : b ∈ String.utf8EncodeChar c) : onByte p b = p c := by
  rcases utf8EncodeChar_cases c with ⟨_, b', hbyte, hchar⟩ | ⟨hc, hhigh⟩
  · rw [hbyte, List.mem_singleton] at h
    rw [h, onByte, hchar]
  · rw [onByte_of_isHigh hp (hhigh b h), hp.eq_false hc]

/-- Bytes are taken as long as characters are. -/
theorem takeWhile_utf8 {p : Char → Bool} (hp : OnlyAscii p) (cs : List Char) :
    (utf8 cs).takeWhile (onByte p) = utf8 (cs.takeWhile p) := by
  induction cs with
  | nil => rfl
  | cons c cs ih =>
    rw [utf8_cons, List.takeWhile_cons]
    cases hc : p c with
    | true =>
      rw [List.takeWhile_append_of_pos fun b hb => by rw [onByte_of_mem hp hb, hc], ih]
      rfl
    | false =>
      obtain ⟨b, hb, bytes, hbytes⟩ := exists_utf8EncodeChar_cons c
      rw [hbytes, List.cons_append, List.takeWhile_cons, onByte_of_mem hp hb, hc]
      rfl

-- ---------------------------------------------------------------------------
-- Bytes beside a place
-- ---------------------------------------------------------------------------

/-- The byte at a place of a text is the first byte behind the place. -/
theorem utf8_getElem?_append (before rest : List Char) :
    (utf8 (before ++ rest))[byteLength before]? = (utf8 rest).head? := by
  rw [Lexer.getElem?_utf8_append Nat.le.refl, Nat.sub_self, List.head?_eq_getElem?]

/-- The bytes from a place on are those of the rest of the text. -/
theorem drop_utf8_append (before rest : List Char) :
    (utf8 (before ++ rest)).drop (byteLength before) = utf8 rest := by
  rw [utf8_append, ← length_utf8, List.drop_left]

/-- The byte behind a place is the first one of the next character. -/
theorem byteAt_append (before : List Char) (c : Char) (cs : List Char) :
    ∃ b ∈ String.utf8EncodeChar c, byteAt (before ++ c :: cs) (byteLength before) = .ok b := by
  obtain ⟨b, hb, bytes, hbytes⟩ := exists_utf8EncodeChar_cons c
  refine ⟨b, hb, ?_⟩
  rw [byteAt, utf8_getElem?_append, utf8_cons, hbytes]
  rfl

/-- The byte before a place is the last one of the character there. -/
theorem byteAt_before (before : List Char) (c : Char) (rest : List Char) :
    ∃ b ∈ String.utf8EncodeChar c,
      byteAt (before ++ c :: rest) (byteLength before + c.utf8Size - 1) = .ok b := by
  have hpos := c.utf8Size_pos
  have hlength := String.length_utf8EncodeChar c
  have hlt : c.utf8Size - 1 < (String.utf8EncodeChar c).length := by omega
  refine ⟨(String.utf8EncodeChar c)[c.utf8Size - 1], List.getElem_mem hlt, ?_⟩
  have hbyte : (utf8 (before ++ c :: rest))[byteLength before + c.utf8Size - 1]? =
      some (String.utf8EncodeChar c)[c.utf8Size - 1] := by
    rw [Lexer.getElem?_utf8_append (by omega), utf8_cons,
      show byteLength before + c.utf8Size - 1 - byteLength before = c.utf8Size - 1 by omega,
      List.getElem?_append_left hlt, List.getElem?_eq_getElem hlt]
  rw [byteAt, hbyte]

/-- The byte before a place tells about the character before it. -/
theorem byteBefore_eq (before rest : List Char) :
    ∃ b, byteBefore (before ++ rest) (byteLength before) = .ok b ∧
      ∀ {p : Char → Bool}, OnlyAscii p → onByte p b = p (before.getLast?.getD ' ') := by
  rw [byteBefore]
  rcases List.eq_nil_or_concat before with rfl | ⟨front, last, hbefore⟩
  · exact ⟨_, rfl, fun _ => rfl⟩
  · rw [List.concat_eq_append] at hbefore
    subst hbefore
    have hpos := last.utf8Size_pos
    have hlength : byteLength (front ++ [last]) = byteLength front + last.utf8Size :=
      byteLength_append ..
    obtain ⟨b, hb, hbyte⟩ := byteAt_before front last rest
    refine ⟨b, ?_, fun hp => by rw [onByte_of_mem hp hb, List.getLast?_concat]; rfl⟩
    rw [hlength, if_neg (by omega), minus_eq (by omega), List.append_assoc]
    exact hbyte

/-- A test of the byte behind a place is one of the next character. -/
theorem testAt_append {p : Char → Bool} (hp : OnlyAscii p) (before rest : List Char) :
    testAt p (before ++ rest) (byteLength before) = rest.head?.any p := by
  rw [testAt, utf8_getElem?_append]
  cases rest with
  | nil => rfl
  | cons c cs =>
    obtain ⟨b, hb, bytes, hbytes⟩ := exists_utf8EncodeChar_cons c
    rw [utf8_cons, hbytes]
    exact onByte_of_mem hp hb

/-- The spaces behind a place. -/
theorem spacesEnd_append (before rest : List Char) :
    spacesEnd (before ++ rest) (byteLength before) =
      byteLength before + byteLength (rest.takeWhile Text.isSpace) := by
  rw [spacesEnd, drop_utf8_append, takeWhile_utf8 onlyAscii_isSpace, length_utf8]

/-- A character of ASCII has one byte. -/
theorem utf8Size_of_lt {c : Char} (h : c.toNat < 128) : c.utf8Size = 1 := by
  rw [← String.length_utf8EncodeChar]
  rcases utf8EncodeChar_cases c with ⟨_, b, hbytes, _⟩ | ⟨hge, _⟩
  · rw [hbytes]
    rfl
  · omega

/-- The word behind a place. -/
theorem wordEnd?_append (before rest : List Char) :
    wordEnd? (before ++ rest) (byteLength before) =
      (Text.word? rest).map fun (word, _) => byteLength before + byteLength word := by
  rw [wordEnd?, testAt_append onlyAscii_isWordStart]
  cases rest with
  | nil => rfl
  | cons c cs =>
    cases hc : Lexer.isWordStart c with
    | false => simp [Text.word?, hc]
    | true =>
      -- the bytes of a word are counted from its second character on
      have hsize := utf8Size_of_lt (onlyAscii_isWordStart c hc)
      have hdrop := drop_utf8_append (before ++ [c]) cs
      rw [byteLength_append, byteLength_cons, byteLength_nil, hsize, List.append_assoc] at hdrop
      have hword : List.takeWhile Lexer.isWordChar (c :: cs) =
          c :: cs.takeWhile Lexer.isWordChar :=
        List.takeWhile_cons_of_pos (Lexer.isWordChar_of_isWordStart hc)
      simp only [Text.word?, hc, Option.any_some, List.head?_cons, ↓reduceIte, Option.map_some,
        hword, byteLength_cons, hsize, Nat.add_assoc]
      rw [show before ++ c :: cs = before ++ ([c] ++ cs) from rfl, hdrop,
        takeWhile_utf8 onlyAscii_isWordChar, length_utf8]

-- ---------------------------------------------------------------------------
-- First characters
-- ---------------------------------------------------------------------------

/-- What the offset of the first one of a character tells. -/
theorem find?_cases (d : Char) (text : List Char) :
    (text.dropWhile (· ≠ d) = [] ∧ find? (· = d) text = none) ∨
      ∃ after, text.dropWhile (· ≠ d) = d :: after ∧
        text = text.takeWhile (· ≠ d) ++ d :: after ∧
        find? (· = d) text = some (byteLength (text.takeWhile (· ≠ d))) := by
  have hsplit : text.takeWhile (· ≠ d) ++ text.dropWhile (· ≠ d) = text :=
    List.takeWhile_append_dropWhile
  cases hdrop : text.dropWhile (· ≠ d) with
  | nil =>
    have hne : ∀ c ∈ text, c ≠ d := by
      rw [List.dropWhile_eq_nil_iff] at hdrop
      simpa using hdrop
    have hnone : ¬ text.any (· = d) = true := by
      rw [List.any_eq_true]
      rintro ⟨c, hc, heq⟩
      exact hne c hc (of_decide_eq_true heq)
    exact .inl ⟨rfl, if_neg hnone⟩
  -- the search ends at the character, and what it skipped is the front of the text
  | cons c after =>
    have hc : decide (c ≠ d) = false := not_of_mem_head?_dropWhile (by rw [hdrop]; rfl)
    obtain rfl : c = d := by simpa using hc
    rw [hdrop] at hsplit
    have hmem : text.any (· = c) = true := by
      rw [← hsplit]
      simp
    refine .inr ⟨after, rfl, hsplit.symm, ?_⟩
    rw [find?, hmem]
    simp

/-- The first byte of a kind is the first character of it. -/
theorem findIdx?_utf8 {p : Char → Bool} (hp : OnlyAscii p) (text : List Char) :
    (utf8 text).findIdx? (onByte p) = find? p text := by
  induction text with
  | nil => rfl
  | cons c cs ih =>
    rw [utf8_cons, List.findIdx?_append, ih, String.length_utf8EncodeChar]
    cases hc : p c with
    | true =>
      obtain ⟨b, hb, bytes, hbytes⟩ := exists_utf8EncodeChar_cons c
      rw [hbytes, List.findIdx?_cons, onByte_of_mem hp hb, hc]
      simp [find?, hc]
    | false =>
      have hnone : (String.utf8EncodeChar c).findIdx? (onByte p) = none :=
        List.findIdx?_eq_none_iff.mpr fun b hb => by rw [onByte_of_mem hp hb, hc]
      rw [hnone, Option.none_or, find?, find?, List.any_cons, hc]
      split <;> simp_all [Nat.add_comm]

-- ---------------------------------------------------------------------------
-- Places
-- ---------------------------------------------------------------------------

/-- An offset lies between characters of a text, and `rest` is what stands behind it. -/
def Follows (text : List Char) (i : Nat) (rest : List Char) : Prop :=
  ∃ before, text = before ++ rest ∧ byteLength before = i

namespace Follows

variable {text rest : List Char} {i : Nat}

theorem start (text : List Char) : Follows text 0 text :=
  ⟨[], rfl, rfl⟩

theorem append {a b : List Char} (h : Follows text i (a ++ b)) :
    Follows text (i + byteLength a) b := by
  obtain ⟨before, rfl, rfl⟩ := h
  exact ⟨before ++ a, (List.append_assoc ..).symm, byteLength_append ..⟩

theorem tail {c : Char} (hc : c.toNat < 128) (h : Follows text i (c :: rest)) :
    Follows text (i + 1) rest := by
  have hnext := append (a := [c]) h
  rwa [byteLength_cons, byteLength_nil, utf8Size_of_lt hc] at hnext

theorem length_eq (h : Follows text i rest) : byteLength text = i + byteLength rest := by
  obtain ⟨before, rfl, rfl⟩ := h
  exact byteLength_append ..

protected theorem slice {inside behind : List Char} (h : Follows text i (inside ++ behind)) :
    slice text i (i + byteLength inside) = .ok inside := by
  obtain ⟨before, rfl, rfl⟩ := h
  exact slice_append before inside behind

/-- A slice up to the end of a text is all that follows its start. -/
theorem slice_to_end (h : Follows text i rest) :
    Indexed.slice text i (byteLength text) = .ok rest := by
  obtain ⟨before, rfl, rfl⟩ := h
  exact slice_end before rest

protected theorem byteAt {c : Char} (h : Follows text i (c :: rest)) :
    ∃ b ∈ String.utf8EncodeChar c, byteAt text i = .ok b := by
  obtain ⟨before, rfl, rfl⟩ := h
  exact byteAt_append before c rest

/-- The byte before a place is the last one of the character there. -/
theorem byteBefore {front : List Char} {c : Char} (h : Follows text i (front ++ c :: rest)) :
    ∃ b ∈ String.utf8EncodeChar c,
      Indexed.byteAt text (i + byteLength front + c.utf8Size - 1) = .ok b := by
  obtain ⟨before, rfl, rfl⟩ := h
  have hbyte := byteAt_before (before ++ front) c rest
  rwa [byteLength_append, List.append_assoc] at hbyte

protected theorem testAt {p : Char → Bool} (hp : OnlyAscii p) (h : Follows text i rest) :
    testAt p text i = rest.head?.any p := by
  obtain ⟨before, rfl, rfl⟩ := h
  exact testAt_append hp before rest

theorem testChar (h : Follows text i rest) (c : Char) (hc : c.toNat < 128) :
    Indexed.testAt (· = c) text i = decide (rest.head? = some c) := by
  rw [h.testAt (onlyAscii_eq hc)]
  cases rest <;> simp

protected theorem wordEnd? (h : Follows text i rest) :
    wordEnd? text i = (Text.word? rest).map fun (word, _) => i + byteLength word := by
  obtain ⟨before, rfl, rfl⟩ := h
  exact wordEnd?_append before rest

protected theorem spacesEnd (h : Follows text i rest) :
    spacesEnd text i = i + byteLength (rest.takeWhile Text.isSpace) := by
  obtain ⟨before, rfl, rfl⟩ := h
  exact spacesEnd_append before rest

/-- What stands behind spaces. -/
theorem skipSpaces (h : Follows text i rest) :
    Follows text (spacesEnd text i) (Text.skipSpaces rest) := by
  rw [h.spacesEnd]
  exact append (by rwa [Text.skipSpaces, List.takeWhile_append_dropWhile])

end Follows

-- ---------------------------------------------------------------------------
-- Loops over bytes
-- ---------------------------------------------------------------------------

/-- A loop that does nothing at high bytes goes over a character outside ASCII. -/
theorem Follows.skip {text cs : List Char} {c : Char} {i : Nat} (h : Follows text i (c :: cs))
    (hc : 128 ≤ c.toNat) {α : Type} (f : Nat → Nat → α)
    (hstep : ∀ {fuel i b}, (utf8 text)[i]? = some b → IsHigh b → f (fuel + 1) i = f fuel (i + 1))
    (fuel : Nat) : f (fuel + c.utf8Size) i = f fuel (i + c.utf8Size) := by
  obtain ⟨before, rfl, rfl⟩ := h
  obtain ⟨_, hhigh⟩ := (utf8EncodeChar_cases c).resolve_left fun h => absurd h.1 (by omega)
  have hlength := String.length_utf8EncodeChar c
  -- one byte after the other
  suffices ∀ k ≤ c.utf8Size,
      f (fuel + c.utf8Size) (byteLength before) =
        f (fuel + (c.utf8Size - k)) (byteLength before + k) by
    have h := this c.utf8Size Nat.le.refl
    rwa [Nat.sub_self, Nat.add_zero] at h
  intro k hk
  induction k with
  | zero => rfl
  | succ k ih =>
    have hlt : k < (String.utf8EncodeChar c).length := by omega
    have hbyte : (utf8 (before ++ c :: cs))[byteLength before + k]? =
        some (String.utf8EncodeChar c)[k] := by
      rw [Lexer.getElem?_utf8_append (by omega), Nat.add_sub_cancel_left, utf8_cons,
        List.getElem?_append_left hlt, List.getElem?_eq_getElem hlt]
    -- the loop does nothing at this byte, and has one step less
    have hone := @hstep (fuel + (c.utf8Size - (k + 1))) _ _ hbyte (hhigh _ (List.getElem_mem hlt))
    rw [ih (by omega), ← Nat.add_assoc, ← hone]
    congr 1
    omega

-- ---------------------------------------------------------------------------
-- Lines
-- ---------------------------------------------------------------------------

/-- Without the characters that it is split at, a text is no longer. -/
theorem byteLength_splitAll (p : Char → Bool) (cs : List Char) :
    byteLength (Text.splitAll p cs).flatten ≤ byteLength cs := by
  induction cs with
  | nil => exact Nat.le.refl
  | cons c cs ih =>
    rw [Text.splitAll, byteLength_cons]
    split
    -- a character at which the text is split is lost, all others are kept
    · rw [List.flatten_cons, List.nil_append]
      omega
    · cases hpieces : Text.splitAll p cs with
      | nil => simp
      | cons piece pieces =>
        rw [hpieces, List.flatten_cons] at ih
        rw [List.flatten_cons, List.cons_append, byteLength_cons]
        omega

/-- Nor is it without a carriage return. -/
theorem byteLength_dropReturn (cs : List Char) :
    byteLength (Text.dropReturn cs) ≤ byteLength cs := by
  rw [Text.dropReturn]
  split
  · next hlast =>
    rw [← List.dropLast_append_getLast? _ hlast, List.dropLast_concat, byteLength_append]
    exact Nat.le_add_right ..
  · exact Nat.le.refl

/-- Numbered lines are no longer than the raw ones. -/
theorem byteLength_numberLines (number offset : Nat) (raws : List (List Char)) :
    byteLength ((Text.numberLines number offset raws).flatMap Text.Line.text) ≤
      byteLength raws.flatten := by
  induction raws generalizing number offset with
  | nil => exact Nat.le.refl
  | cons raw raws ih =>
    rw [Text.numberLines, List.flatMap_cons, List.flatten_cons, byteLength_append,
      byteLength_append]
    exact Nat.add_le_add (byteLength_dropReturn raw) (ih ..)

/-- The lines of a text are together no longer than the text. -/
theorem byteLength_lines (cs : List Char) :
    byteLength ((Text.lines cs).flatMap Text.Line.text) ≤ byteLength cs :=
  Nat.le_trans (byteLength_numberLines ..) (byteLength_splitAll ..)

/-- A line is no longer than its text. -/
theorem byteLength_line_le {cs : List Char} {line : Text.Line} (h : line ∈ Text.lines cs) :
    byteLength line.text ≤ byteLength cs := by
  have hlines := byteLength_lines cs
  obtain ⟨before, behind, heq⟩ := List.append_of_mem h
  rw [heq, List.flatMap_append, List.flatMap_cons, byteLength_append, byteLength_append] at hlines
  omega

end PineCheck.Indexed
