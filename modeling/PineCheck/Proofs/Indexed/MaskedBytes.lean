import PineCheck.Proofs.Quotation

/-!
# PineCheck — masking byte by byte

A script is masked by a loop over its bytes. The loop knows nothing of characters: at an
escape and at the marks of a block comment it writes two spaces and passes over a byte,
which may be the first one of a character, and it goes on with the bytes that are left of
it. `maskBytes` is this loop.

Bytes of characters outside ASCII are high, and marks are not, so a character that the
loop enters in the middle is kept or blanked like a whole one. This is why masking bytes
is masking characters (`maskBytes_utf8`), and why what the loop writes is text.

A masked character leaves spaces, and a mark is only kept where it stands for itself, so
masked text has no inside of strings and comments that could be masked once more.

Main results:

* `maskBytes_utf8` — the bytes that are written are those of the masked text.
* `maskFrom_settled` — masked text is masked already, whatever region it starts in.
* `mask_keepsFrame` — masking keeps the length and the line breaks, only writes spaces, and
  does nothing when it is done twice.
-/

namespace PineCheck.Indexed

open Text

-- ---------------------------------------------------------------------------
-- The loop over bytes
-- ---------------------------------------------------------------------------

/-- What the next byte of a script belongs to. -/
inductive ByteRegion where
  | code
  | string (quote : UInt8)
  | lineComment
  | blockComment
deriving DecidableEq

/-- Masks one byte, knowing the next one: the bytes that are written, what the byte behind
them belongs to, and whether the next byte is passed over. -/
def maskByte (region : ByteRegion) (x : UInt8) (next : Option UInt8) :
    List UInt8 × ByteRegion × Bool :=
  match region with
  | .code =>
    if x = '/'.toUInt8 && next = some '/'.toUInt8 then ([' '.toUInt8], .lineComment, false)
    else if x = '/'.toUInt8 && next = some '*'.toUInt8 then
      ([' '.toUInt8, ' '.toUInt8], .blockComment, true)
    else if x = '"'.toUInt8 || x = '\''.toUInt8 then ([x], .string x, false)
    else ([x], .code, false)
  | .string quote =>
    if x = '\n'.toUInt8 then ([x], .code, false)
    else if x = '\\'.toUInt8 && next.any (· ≠ '\n'.toUInt8) then
      ([' '.toUInt8, ' '.toUInt8], .string quote, true)
    else if x = quote then ([x], .code, false)
    else ([' '.toUInt8], .string quote, false)
  | .lineComment =>
    if x = '\n'.toUInt8 then ([x], .code, false) else ([' '.toUInt8], .lineComment, false)
  | .blockComment =>
    if x = '*'.toUInt8 && next = some '/'.toUInt8 then
      ([' '.toUInt8, ' '.toUInt8], .code, true)
    else if x = '\n'.toUInt8 then ([x], .blockComment, false)
    else ([' '.toUInt8], .blockComment, false)

/-- Masks bytes that start inside a region. -/
def maskBytes (region : ByteRegion) : List UInt8 → List UInt8
  | [] => []
  | [x] => (maskByte region x none).1
  | x :: y :: bytes =>
    let (masked, later, passes) := maskByte region x (some y)
    masked ++ if passes then maskBytes later bytes else maskBytes later (y :: bytes)

/-- Masks a text by its bytes. If what is written were no text, `lossy` would make one of
it. -/
def maskText (lossy : ByteArray → String) (source : String) : String :=
  let masked := (maskBytes .code (utf8 source.toList)).toByteArray
  (String.fromUTF8? masked).getD (lossy masked)

/-- One step of the mask takes a byte, or two if it says so. -/
theorem maskBytes_cons (region : ByteRegion) (x : UInt8) (bytes : List UInt8) :
    maskBytes region (x :: bytes) =
      (maskByte region x bytes.head?).1 ++
        maskBytes (maskByte region x bytes.head?).2.1
          (if (maskByte region x bytes.head?).2.2 then bytes.drop 1 else bytes) := by
  cases bytes with
  | nil =>
    rw [maskBytes]
    split <;> simp [maskBytes]
  | cons y bytes =>
    rw [maskBytes, List.head?_cons]
    rcases maskByte region x (some y) with ⟨masked, later, passes⟩
    cases passes <;> rfl

-- ---------------------------------------------------------------------------
-- Bytes of marks
-- ---------------------------------------------------------------------------

/-- An ASCII character is its byte. -/
theorem toNat_toUInt8 {d : Char} (hd : d.toNat < 128) : d.toUInt8.toNat = d.toNat := by
  have hmod : d.toUInt8.toNat = d.toNat % 256 := UInt32.toNat_toUInt8 d.val
  rw [hmod, Nat.mod_eq_of_lt (by omega)]

/-- A byte of a character is a mark of ASCII if the character is. -/
theorem eq_toUInt8_iff {c d : Char} (hd : d.toNat < 128) {b : UInt8}
    (hb : b ∈ String.utf8EncodeChar c) : b = d.toUInt8 ↔ c = d := by
  rcases utf8EncodeChar_cases c with ⟨-, b', hbyte, hchar⟩ | ⟨hc, hhigh⟩
  · rw [hbyte, List.mem_singleton] at hb
    subst hb
    rw [← hchar, ← UInt8.toNat_inj, toNat_toUInt8 hd, ← Char.toNat_inj]
    exact Iff.rfl
  · constructor
    · rintro rfl
      have hlow := hhigh _ hb
      rw [IsHigh, toNat_toUInt8 hd] at hlow
      omega
    · rintro rfl
      omega

/-- A byte outside ASCII is no ASCII character. -/
theorem ne_toUInt8_of_isHigh {b : UInt8} (hb : IsHigh b) {d : Char} (hd : d.toNat < 128) :
    b ≠ d.toUInt8 := by
  rintro rfl
  rw [IsHigh, toNat_toUInt8 hd] at hb
  omega

/-- The first byte is an ASCII character if the first character is. -/
theorem head?_utf8_eq_iff {d : Char} (hd : d.toNat < 128) (cs : List Char) :
    (utf8 cs).head? = some d.toUInt8 ↔ cs.head? = some d := by
  cases cs with
  | nil => exact ⟨nofun, nofun⟩
  | cons c cs =>
    obtain ⟨b, hb, bytes, hbytes⟩ := exists_utf8EncodeChar_cons c
    rw [utf8_cons, hbytes, List.cons_append, List.head?_cons, List.head?_cons, Option.some_inj,
      Option.some_inj, eq_toUInt8_iff hd hb]

/-- The same for the first byte not to be one. -/
theorem any_head?_utf8 {d : Char} (hd : d.toNat < 128) (cs : List Char) :
    (utf8 cs).head?.any (· ≠ d.toUInt8) = cs.head?.any (· ≠ d) := by
  cases cs with
  | nil => rfl
  | cons c cs =>
    obtain ⟨b, hb, bytes, hbytes⟩ := exists_utf8EncodeChar_cons c
    rw [utf8_cons, hbytes, List.cons_append, List.head?_cons, List.head?_cons, Option.any_some,
      Option.any_some, decide_eq_decide, ne_eq, ne_eq, eq_toUInt8_iff hd hb]

-- ---------------------------------------------------------------------------
-- Regions of bytes and of characters
-- ---------------------------------------------------------------------------

/-- The region of the byte behind those that are passed over. -/
def byteRegion : Region → ByteRegion
  | .code | .blockClosing => .code
  | .string quote | .escaped quote => .string quote.toUInt8
  | .lineComment => .lineComment
  | .blockComment | .blockOpening => .blockComment

/-- Whether the first byte of a text in a region has been passed over. -/
def isPassed : Region → Bool
  | .escaped _ | .blockOpening | .blockClosing => true
  | _ => false

/-- What the text behind a region starts with, when a mask is in that region: strings are
opened by quotes, and the second character of a mark stands where it was seen. -/
def Reached (cs : List Char) : Region → Prop
  | .string quote => quote = '"' ∨ quote = '\''
  | .escaped quote => (quote = '"' ∨ quote = '\'') ∧ cs ≠ []
  | .blockOpening => cs.head? = some '*'
  | .blockClosing => cs.head? = some '/'
  | _ => True

/-- A mask reaches the regions that it goes on with. -/
theorem reached_maskChar {region : Region} {c : Char} {cs : List Char}
    (h : Reached (c :: cs) region) : Reached cs (maskChar region c cs.head?).2 := by
  fun_cases maskChar region c cs.head? with
  -- a comment opens: its second character is next
  | case2 _ hopens =>
    show cs.head? = some '*'
    exact of_decide_eq_true (Bool.and_eq_true_iff.mp hopens).2
  | case3 _ _ hquote =>
    rw [Bool.or_eq_true, decide_eq_true_eq, decide_eq_true_eq] at hquote
    exact hquote
  | case6 quote _ hescape =>
    refine ⟨h, ?_⟩
    rintro rfl
    rw [List.head?_nil, Option.any_none, Bool.and_false] at hescape
    cases hescape
  | case8 => exact h
  | case9 => exact h.1
  -- a comment closes: its second character is next
  | case12 hcloses =>
    show cs.head? = some '/'
    exact of_decide_eq_true (Bool.and_eq_true_iff.mp hcloses).2
  | _ => trivial

/-- What is written for a masked character of ASCII, and how it goes on. A byte that is passed
over is written with the one before it. -/
def written (found : List Char × Region) : List UInt8 × ByteRegion × Bool :=
  (utf8 found.1 ++ if isPassed found.2 then [' '.toUInt8] else [], byteRegion found.2,
    isPassed found.2)

/-- What becomes of a character of ASCII becomes of its byte. -/
theorem maskByte_ascii {region : Region} {c : Char} {cs : List Char} {x : UInt8}
    (hc : c.toNat < 128) (hbytes : String.utf8EncodeChar c = [x])
    (hreached : Reached (c :: cs) region) (hpassed : isPassed region = false) :
    maskByte (byteRegion region) x (utf8 cs).head? = written (maskChar region c cs.head?) := by
  have hx {d : Char} (hd : d.toNat < 128) : x = d.toUInt8 ↔ c = d :=
    eq_toUInt8_iff hd (by rw [hbytes]; exact List.mem_singleton_self x)
  have hsize : c.utf8Size = 1 := by
    rw [← String.length_utf8EncodeChar, hbytes]
    rfl
  -- a character is kept, or blanked, or blanked together with the byte behind it
  have hkept (later : Region) (h : isPassed later = false) :
      ([x], byteRegion later, false) = written ([c], later) := by
    rw [written, h, utf8_cons, hbytes]
    rfl
  have hblank (later : Region) (h : isPassed later = false) :
      ([' '.toUInt8], byteRegion later, false) = written (blanked c, later) := by
    rw [written, h, utf8_blanked, hsize]
    rfl
  have hpass (later : Region) (h : isPassed later = true) :
      ([' '.toUInt8, ' '.toUInt8], byteRegion later, true) = written (blanked c, later) := by
    rw [written, h, utf8_blanked, hsize]
    rfl
  -- the tests of the two masks are the same, one region after the other
  cases region with
  | code =>
    have hstring : ([x], ByteRegion.string x, false) = written ([c], .string c) := by
      rw [← hkept _ rfl, (hx hc).mpr rfl]
      rfl
    simp only [maskByte, maskChar, byteRegion, hx (d := '/') (by decide),
      hx (d := '"') (by decide), hx (d := '\'') (by decide),
      head?_utf8_eq_iff (d := '/') (by decide), head?_utf8_eq_iff (d := '*') (by decide)]
    split
    · exact hblank .lineComment rfl
    split
    · exact hpass .blockOpening rfl
    split
    · exact hstring
    · exact hkept .code rfl
  | string quote =>
    have hquote : quote.toNat < 128 := by
      rcases hreached with rfl | rfl <;> decide
    simp only [maskByte, maskChar, byteRegion, hx (d := '\n') (by decide),
      hx (d := '\\') (by decide), hx hquote, any_head?_utf8 (d := '\n') (by decide)]
    split
    · exact hkept .code rfl
    split
    · exact hpass (.escaped quote) rfl
    split
    · exact hkept .code rfl
    · exact hblank (.string quote) rfl
  | lineComment =>
    simp only [maskByte, maskChar, byteRegion, hx (d := '\n') (by decide)]
    split
    · exact hkept .code rfl
    · exact hblank .lineComment rfl
  | blockComment =>
    simp only [maskByte, maskChar, byteRegion, hx (d := '\n') (by decide),
      hx (d := '*') (by decide), head?_utf8_eq_iff (d := '/') (by decide)]
    split
    · exact hpass .blockClosing rfl
    split
    · exact hkept .blockComment rfl
    · exact hblank .blockComment rfl
  | escaped | blockOpening | blockClosing => cases hpassed

-- ---------------------------------------------------------------------------
-- Characters outside ASCII
-- ---------------------------------------------------------------------------

/-- A string is opened by an ASCII character. -/
theorem lt_of_reached_string {quote : Char} {cs : List Char} (h : Reached cs (.string quote)) :
    quote.toNat < 128 := by
  rcases h with rfl | rfl <;> decide

/-- A byte of a character outside ASCII is kept in code and becomes a space elsewhere. -/
theorem maskByte_high {region : Region} (hpassed : isPassed region = false) {cs : List Char}
    (hreached : Reached cs region) {b : UInt8} (hb : IsHigh b) (next : Option UInt8) :
    maskByte (byteRegion region) b next =
      ([if region = .code then b else ' '.toUInt8], byteRegion region, false) := by
  have hne {d : Char} (hd : d.toNat < 128) : b ≠ d.toUInt8 := ne_toUInt8_of_isHigh hb hd
  cases region with
  | code =>
    simp only [maskByte, byteRegion, hne (d := '/') (by decide), hne (d := '"') (by decide),
      hne (d := '\'') (by decide), decide_false, Bool.false_and, Bool.or_self,
      Bool.false_eq_true, if_false, if_true]
  | string quote =>
    simp only [maskByte, byteRegion, hne (d := '\n') (by decide), hne (d := '\\') (by decide),
      hne (lt_of_reached_string hreached), decide_false, Bool.false_and, Bool.false_eq_true,
      if_false, reduceCtorEq]
  | lineComment =>
    simp only [maskByte, byteRegion, hne (d := '\n') (by decide), if_false, reduceCtorEq]
  | blockComment =>
    simp only [maskByte, byteRegion, hne (d := '\n') (by decide), hne (d := '*') (by decide),
      decide_false, Bool.false_and, Bool.false_eq_true, if_false, reduceCtorEq]
  | escaped | blockOpening | blockClosing => cases hpassed

/-- The bytes of a character outside ASCII are kept in code, and become spaces elsewhere. -/
theorem maskBytes_high {region : Region} (hpassed : isPassed region = false) {cs : List Char}
    (hreached : Reached cs region) {bytes : List UInt8} (hhigh : ∀ b ∈ bytes, IsHigh b)
    (rest : List UInt8) :
    maskBytes (byteRegion region) (bytes ++ rest) =
      (if region = .code then bytes else List.replicate bytes.length ' '.toUInt8) ++
        maskBytes (byteRegion region) rest := by
  induction bytes with
  | nil => split <;> rfl
  | cons b bytes ih =>
    obtain ⟨hb, hbytes⟩ := List.forall_mem_cons.mp hhigh
    rw [List.cons_append, maskBytes_cons, maskByte_high hpassed hreached hb]
    show [_] ++ maskBytes (byteRegion region) (bytes ++ rest) = _
    rw [ih hbytes]
    split <;> rfl

/-- A character outside ASCII is kept in code and blanked elsewhere. -/
theorem maskChar_high {region : Region} (hpassed : isPassed region = false) {c : Char}
    (hc : 128 ≤ c.toNat) {cs : List Char} (hreached : Reached (c :: cs) region) :
    maskChar region c cs.head? = (if region = .code then [c] else blanked c, region) := by
  have hne {d : Char} (hd : d.toNat < 128) : c ≠ d := by
    rintro rfl
    omega
  cases region with
  | code =>
    simp only [maskChar, hne (d := '/') (by decide), hne (d := '"') (by decide),
      hne (d := '\'') (by decide), decide_false, Bool.false_and, Bool.or_self,
      Bool.false_eq_true, if_false, if_true]
  | string quote =>
    simp only [maskChar, hne (d := '\n') (by decide), hne (d := '\\') (by decide),
      hne (lt_of_reached_string hreached), decide_false, Bool.false_and, Bool.false_eq_true,
      if_false, reduceCtorEq]
  | lineComment => simp only [maskChar, hne (d := '\n') (by decide), if_false, reduceCtorEq]
  | blockComment =>
    simp only [maskChar, hne (d := '\n') (by decide), hne (d := '*') (by decide), decide_false,
      Bool.false_and, Bool.false_eq_true, if_false, reduceCtorEq]
  | escaped | blockOpening | blockClosing => cases hpassed

-- ---------------------------------------------------------------------------
-- Masking bytes is masking characters
-- ---------------------------------------------------------------------------

/-- A byte that was passed over is written as a space, and the bytes that are left of its
character are blanked with it. -/
theorem maskBytes_passed {region : Region} {c : Char} {cs : List Char}
    (hpassed : isPassed region = true) (hreached : Reached (c :: cs) region)
    (ih : ∀ later, Reached cs later → isPassed later = false →
      maskBytes (byteRegion later) (utf8 cs) = utf8 (maskFrom later cs)) :
    ' '.toUInt8 :: maskBytes (byteRegion region) ((utf8 (c :: cs)).drop 1) =
      utf8 (maskFrom region (c :: cs)) := by
  cases region with
  | escaped quote =>
    obtain ⟨x, -, bytes, hbytes⟩ := exists_utf8EncodeChar_cons c
    -- behind its first byte a character has none in ASCII
    have hhigh : ∀ b ∈ bytes, IsHigh b := by
      rcases utf8EncodeChar_cases c with ⟨-, b, hb, -⟩ | ⟨-, hhigh⟩
      · rw [hbytes] at hb
        obtain rfl := (List.cons.inj hb).2
        exact List.forall_mem_nil _
      · rw [hbytes] at hhigh
        exact (List.forall_mem_cons.mp hhigh).2
    have hsize : c.utf8Size = bytes.length + 1 := by
      rw [← String.length_utf8EncodeChar, hbytes, List.length_cons]
    have hstring : Reached cs (.string quote) := hreached.1
    rw [utf8_cons, hbytes, List.cons_append, List.drop_one, List.tail_cons]
    show _ :: maskBytes (byteRegion (.string quote)) (bytes ++ utf8 cs) = _
    rw [maskBytes_high rfl hstring hhigh, ih _ hstring rfl, maskFrom, if_neg (by simp)]
    show _ = utf8 (blanked c ++ maskFrom (.string quote) cs)
    rw [utf8_append, utf8_blanked, hsize]
    rfl
  | blockOpening =>
    obtain rfl : c = '*' := Option.some.inj hreached
    exact congrArg (_ :: ·) (ih .blockComment trivial rfl)
  | blockClosing =>
    obtain rfl : c = '/' := Option.some.inj hreached
    exact congrArg (_ :: ·) (ih .code trivial rfl)
  | code | string | lineComment | blockComment => cases hpassed

/-- **Masking bytes is masking characters.** -/
theorem maskBytes_utf8 (cs : List Char) : ∀ region, Reached cs region →
    (isPassed region = false →
      maskBytes (byteRegion region) (utf8 cs) = utf8 (maskFrom region cs)) ∧
    (isPassed region = true →
      ' '.toUInt8 :: maskBytes (byteRegion region) ((utf8 cs).drop 1) =
        utf8 (maskFrom region cs)) := by
  induction cs with
  | nil =>
    intro region hreached
    refine ⟨fun _ => rfl, fun hpassed => ?_⟩
    cases region with
    | escaped quote => exact absurd rfl hreached.2
    | blockOpening | blockClosing => cases hreached
    | code | string | lineComment | blockComment => cases hpassed
  | cons c cs ih =>
    intro region hreached
    have hlater := reached_maskChar hreached
    refine ⟨fun hpassed => ?_, fun hpassed =>
      maskBytes_passed hpassed hreached fun later hreached => (ih later hreached).1⟩
    rw [maskFrom]
    dsimp only
    rw [utf8_append, utf8_cons]
    rcases utf8EncodeChar_cases c with ⟨hc, x, hx, -⟩ | ⟨hc, hhigh⟩
    · rw [hx, List.singleton_append, maskBytes_cons, maskByte_ascii hc hx hreached hpassed,
        written]
      -- the mask goes on behind the character, or behind the next one too
      generalize maskChar region c cs.head? = found at hlater ⊢
      obtain ⟨masked, later⟩ := found
      dsimp only
      rw [List.append_assoc]
      congr 1
      split
      · next hpassed => exact (ih later hlater).2 hpassed
      · next hpassed => exact (ih later hlater).1 (Bool.eq_false_iff.mpr hpassed)
    · rw [maskChar_high hpassed hc hreached] at hlater ⊢
      rw [maskBytes_high hpassed hreached hhigh, (ih region hlater).1 hpassed]
      congr 1
      split
      · exact (List.append_nil _).symm
      · rw [utf8_blanked, String.length_utf8EncodeChar]
        rfl

/-- The masked bytes are those of the masked text. -/
theorem toByteArray_maskBytes (source : String) :
    (maskBytes .code (utf8 source.toList)).toByteArray =
      (String.ofList (mask source.toList)).toByteArray := by
  rw [String.toByteArray_ofList]
  exact congrArg List.toByteArray ((maskBytes_utf8 source.toList .code trivial).1 rfl)

/-- What the loop writes is the masked text, so it is never mended. -/
theorem maskText_eq (lossy : ByteArray → String) (source : String) :
    maskText lossy source = String.ofList (mask source.toList) := by
  rw [maskText, toByteArray_maskBytes, String.fromUTF8?, dif_pos (String.isValidUTF8 _)]
  rfl

-- ---------------------------------------------------------------------------
-- What masking keeps
-- ---------------------------------------------------------------------------

/-- What may become of a byte: it is kept, or it is no line break and becomes a space. -/
def BecomesByte (b masked : UInt8) : Prop :=
  masked = b ∨ masked = 0x20 ∧ b ≠ 0x0A

/-- What holds of each member and one value holds along a list of that value. -/
theorem forall₂_replicate {α β : Type} {r : α → β → Prop} {l : List α} {b : β}
    (h : ∀ a ∈ l, r a b) : List.Forall₂ r l (List.replicate l.length b) := by
  induction l with
  | nil => exact .nil
  | cons a l ih =>
    obtain ⟨ha, hl⟩ := List.forall_mem_cons.mp h
    exact .cons ha (ih hl)

/-- A line break is not blanked, if it fits. -/
theorem ne_newline_of_blanked {region : Region} {c : Char} {cs : List Char}
    (hfits : FitsRegion (c :: cs) region) (h : (maskChar region c cs.head?).1 = blanked c) :
    c ≠ '\n' := by
  rintro rfl
  have hcount := count_maskChar hfits
  rw [h, count_blanked] at hcount
  exact absurd hcount (by decide)

/-- Masking goes byte by byte. -/
theorem forall₂_maskFrom {region : Region} {cs : List Char} (hfits : FitsRegion cs region) :
    List.Forall₂ BecomesByte (utf8 cs) (utf8 (maskFrom region cs)) := by
  induction cs generalizing region with
  | nil => exact .nil
  | cons c cs ih =>
    rw [maskFrom]
    dsimp only
    rw [utf8_append, utf8_cons]
    refine List.rel_append ?_ (ih (fitsRegion_maskChar region c cs))
    rcases maskChar_cases region c cs.head? with h | h
    · rw [h, utf8_cons, utf8_nil, List.append_nil, List.forall₂_same]
      exact fun b _ => .inl rfl
    · have hc := ne_newline_of_blanked hfits h
      rw [h, utf8_blanked, ← String.length_utf8EncodeChar]
      refine forall₂_replicate fun b hb => .inr ⟨rfl, ?_⟩
      rintro rfl
      exact hc (eq_newline_of_mem_utf8EncodeChar hb)

/-- What stands at an offset when masking goes byte by byte. -/
theorem getElem?_of_forall₂ {bytes masked : List UInt8}
    (h : List.Forall₂ BecomesByte bytes masked) (i : Nat) :
    masked[i]? = bytes[i]? ∨ masked[i]? = some 0x20 ∧ bytes[i]? ≠ some 0x0A := by
  induction h generalizing i with
  | nil => exact .inl rfl
  | cons hb _ ih =>
    cases i with
    | succ i => exact ih i
    | zero =>
      rcases hb with rfl | ⟨rfl, hb⟩
      · exact .inl rfl
      · exact .inr ⟨rfl, fun h => hb (Option.some.inj h)⟩

-- ---------------------------------------------------------------------------
-- Masking twice
-- ---------------------------------------------------------------------------

/-- Where a mask is in masked text, when it was in a region of the text: there are no comments
and no escapes left. -/
def settled : Region → Region
  | .string quote | .escaped quote => .string quote
  | _ => .code

/-- A mask starts with a space or with what the text starts with. -/
theorem head?_maskFrom (region : Region) (cs : List Char) :
    (maskFrom region cs).head? = some ' ' ∨ (maskFrom region cs).head? = cs.head? := by
  cases cs with
  | nil => exact .inr rfl
  | cons c cs =>
    rw [maskFrom]
    dsimp only
    rcases maskChar_cases region c cs.head? with h | h
    · rw [h]
      exact .inr rfl
    · rw [h, List.head?_append, head?_blanked]
      exact .inl rfl

/-- Spaces stay as they are. -/
theorem maskFrom_space {region : Region} {cs : List Char} (h : Reached cs region)
    (rest : List Char) :
    maskFrom (settled region) (' ' :: rest) = ' ' :: maskFrom (settled region) rest := by
  cases region with
  | string quote => rcases h with rfl | rfl <;> rfl
  | escaped quote => rcases h.1 with rfl | rfl <;> rfl
  | _ => rfl

/-- Blanks stay blank in every region. -/
theorem maskFrom_blanked {region : Region} {cs : List Char} (h : Reached cs region) (c : Char)
    (rest : List Char) :
    maskFrom (settled region) (blanked c ++ rest) =
      blanked c ++ maskFrom (settled region) rest := by
  rw [blanked]
  induction c.utf8Size with
  | zero => rfl
  | succ n ih => rw [List.replicate_succ, List.cons_append, maskFrom_space h, ih, List.cons_append]

/-- What is left of a masked character is masked already, whatever region it was in. -/
theorem maskFrom_settled_append {region : Region} {c : Char} {cs : List Char}
    (hreached : Reached (c :: cs) region) {rest : List Char}
    (hrest : rest.head? = some ' ' ∨ rest.head? = cs.head?) :
    maskFrom (settled region) ((maskChar region c cs.head?).1 ++ rest) =
      (maskChar region c cs.head?).1 ++
        maskFrom (settled (maskChar region c cs.head?).2) rest := by
  -- a character is kept for good if the next one is not a mark, and masking makes no marks
  have hnext {d : Char} (hd : d ≠ ' ') (hno : ¬ (c = '/' && cs.head? = some d) = true) :
      ¬ (c = '/' && rest.head? = some d) = true := by
    simp only [Bool.and_eq_true, decide_eq_true_eq] at hno ⊢
    rcases hrest with h | h
    · rw [h]
      exact fun hpair => hd (Option.some.inj hpair.2).symm
    · rwa [h]
  fun_cases maskChar region c cs.head? with
  | case3 _ _ hquote =>
    rw [Bool.or_eq_true, decide_eq_true_eq, decide_eq_true_eq] at hquote
    rcases hquote with rfl | rfl <;> rfl
  -- a character of code
  | case4 hline hblock hquote =>
    show maskFrom .code (c :: rest) = c :: maskFrom .code rest
    rw [maskFrom, maskChar, if_neg (hnext (by decide) hline), if_neg (hnext (by decide) hblock),
      if_neg hquote]
    rfl
  | case5 quote hc =>
    subst hc
    rfl
  | case7 => rcases hreached with rfl | rfl <;> rfl
  | case10 hc =>
    subst hc
    rfl
  | case13 _ hc =>
    subst hc
    rfl
  | _ => exact maskFrom_blanked hreached c rest

/-- Masked text is masked already. -/
theorem maskFrom_settled {region : Region} {cs : List Char} (hreached : Reached cs region) :
    maskFrom (settled region) (maskFrom region cs) = maskFrom region cs := by
  induction cs generalizing region with
  | nil => rfl
  | cons c cs ih =>
    conv_lhs => rw [maskFrom]
    conv_rhs => rw [maskFrom]
    dsimp only
    rw [maskFrom_settled_append hreached (head?_maskFrom _ cs), ih (reached_maskChar hreached)]

-- ---------------------------------------------------------------------------
-- The frame of a text
-- ---------------------------------------------------------------------------

/-- What it means for a text to have the frame of another one: it is as long, its line breaks
are at the same offsets, and what it does not have in common with the other one is spaces. -/
structure KeepsFrame (source masked : String) : Prop where
  size : masked.utf8ByteSize = source.utf8ByteSize
  newlines : ∀ i : Nat, (utf8 masked.toList)[i]? = some 0x0A ↔ (utf8 source.toList)[i]? = some 0x0A
  bytes : ∀ i : Nat, (utf8 masked.toList)[i]? = (utf8 source.toList)[i]? ∨
    (utf8 masked.toList)[i]? = some 0x20

/-- Masking keeps the frame of the source. -/
theorem keepsFrame_mask (source : String) :
    KeepsFrame source (String.ofList (mask source.toList)) := by
  have hframe : List.Forall₂ BecomesByte (utf8 source.toList) (utf8 (mask source.toList)) :=
    forall₂_maskFrom trivial
  refine ⟨?_, ?_, ?_⟩
  · have hlength := hframe.length_eq
    rw [← byteLength_toList, ← byteLength_toList, String.toList_ofList, ← length_utf8,
      ← length_utf8, hlength]
  · intro i
    rw [String.toList_ofList]
    rcases getElem?_of_forall₂ hframe i with h | ⟨h, hne⟩
    · rw [h]
    · rw [h]
      exact iff_of_false (by decide) hne
  · intro i
    rw [String.toList_ofList]
    exact (getElem?_of_forall₂ hframe i).imp_right And.left

/-- **Masking keeps the frame of a text** and does nothing when it is done twice. What the loop
writes is text, so it is never mended. -/
theorem mask_keepsFrame (lossy : ByteArray → String) (source : String) :
    (maskBytes .code (utf8 source.toList)).toByteArray.IsValidUTF8 ∧
      maskText lossy source = String.ofList (mask source.toList) ∧
      KeepsFrame source (maskText lossy source) ∧
      maskText lossy (maskText lossy source) = maskText lossy source := by
  refine ⟨?_, maskText_eq lossy source, ?_, ?_⟩
  · rw [toByteArray_maskBytes]
    exact String.isValidUTF8 _
  · rw [maskText_eq]
    exact keepsFrame_mask source
  · rw [maskText_eq, maskText_eq, String.toList_ofList]
    have hreached : Reached source.toList .code := trivial
    exact congrArg String.ofList (maskFrom_settled hreached)

end PineCheck.Indexed
