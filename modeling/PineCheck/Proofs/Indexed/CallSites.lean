import PineCheck.Proofs.Indexed.Operations

/-!
# PineCheck — call sites by byte offsets

The search for call sites goes over the bytes of a text. It looks at the byte behind
and before an offset, jumps from the start of a name to its end, cuts the name out,
and counts parentheses up to the closing one.

Main results:

* `matchingDelimiter_eq` — the closing delimiter is found where `upToClosing?` finds it.
* `callSites_eq` — the search never goes wrong, and it finds the sites of
  `Text.callSites`, with their offsets.
-/

namespace PineCheck.Indexed

open Lexer (isWordStart isWordChar)

-- ---------------------------------------------------------------------------
-- Definitions
-- ---------------------------------------------------------------------------

/-- The offset of the delimiter that brings the depth down to zero, among the next
bytes. -/
def closingFrom (text : List Char) (opening closing : Char) :
    Nat → Nat → Int → Checked (Option Nat)
  | 0, _, _ => .ok none
  | left + 1, i, depth => do
    let b ← byteAt text i
    if onByte (· = opening) b then
      closingFrom text opening closing left (i + 1) (← counter (depth + 1))
    else if onByte (· = closing) b then
      let depth ← counter (depth - 1)
      if depth = 0 then .ok (some i) else closingFrom text opening closing left (i + 1) depth
    else closingFrom text opening closing left (i + 1) depth

/-- The offset of the delimiter that closes the one at `start`, or the end of the
text, and whether it is closed. -/
def matchingDelimiter (text : List Char) (opening closing : Char) (start : Nat) :
    Checked (Nat × Bool) := do
  match ← closingFrom text opening closing (byteLength text - start) start 0 with
  | some i => .ok (i, true)
  | none => .ok (byteLength text, false)

/-- Whether neither a word nor a full stop stands before an offset. -/
def isFree (text : List Char) (i : Nat) : Checked Bool := do
  let b ← byteBefore text i
  .ok !(onByte isWordChar b || onByte (· = '.') b)

/-- Whether a name starts at an offset. -/
def startsNameAt (text : List Char) (i : Nat) : Checked Bool := do
  let b ← byteAt text i
  if onByte isWordStart b then isFree text i else .ok false

/-- The end of a name whose words are joined by full stops, from the end of one of
them. -/
def nameEnd (text : List Char) : Nat → Nat → Nat
  | 0, stop => stop
  | fuel + 1, stop =>
    if testAt (· = '.') text stop then
      match wordEnd? text (stop + 1) with
      | some next => nameEnd text fuel next
      | none => stop
    else stop

/-- A range of offsets. -/
structure Range where
  start : Nat
  stop : Nat
deriving DecidableEq

/-- The range of a slice. -/
def Range.of (s : Text.Slice) : Range :=
  ⟨s.offset, s.stop⟩

/-- A call site whose arguments are a range of offsets. -/
structure Site where
  name : String
  offset : Nat
  arguments : Range
  isClosed : Bool
  isDefinition : Bool

/-- A call site with a range in place of its arguments. -/
def Site.of (site : Text.CallSite) : Site :=
  ⟨site.name, site.offset, Range.of site.arguments, site.isClosed, site.isDefinition⟩

/-- The call site of the name between two offsets. -/
def siteAt (text : List Char) (start stop : Nat) : Checked (List Site) := do
  let name ← slice text start stop
  let name := String.ofList name
  let opening := spacesEnd text stop
  if testAt (· = '(') text opening && !(Keyword.ofSpelling? name).isSome then
    let (close, isClosed) ← matchingDelimiter text '(' ')' opening
    let behind := spacesEnd text (close + 1)
    let isDefinition :=
      isClosed && testAt (· = '=') text behind && testAt (· = '>') text (behind + 1)
    .ok [⟨name, start, ⟨opening + 1, close⟩, isClosed, isDefinition⟩]
  else .ok []

/-- The call sites from an offset on. -/
def callSitesFrom (text : List Char) : Nat → Nat → Checked (List Site)
  | 0, _ => .error .unfinished
  | fuel + 1, i =>
    if i < byteLength text then do
      if ← startsNameAt text i then
        let stop := nameEnd text (byteLength text) ((wordEnd? text i).getD (i + 1))
        let here ← siteAt text i stop
        let later ← callSitesFrom text fuel stop
        .ok (here ++ later)
      else callSitesFrom text fuel (i + 1)
    else .ok []

/-- The call sites of a text. -/
def callSites (text : List Char) : Checked (List Site) :=
  callSitesFrom text (byteLength text + 1) 0

-- ---------------------------------------------------------------------------
-- Closing delimiters
-- ---------------------------------------------------------------------------

/-- A counter has room to go up and down by one at every one of so many bytes. -/
def Room (depth : Int) (bytes : Nat) : Prop :=
  -(counterLimit : Int) ≤ depth - bytes ∧ depth + bytes < counterLimit

/-- A byte of a longer character is no delimiter. -/
theorem closingFrom_high {text : List Char} {opening closing : Char}
    (hopening : opening.toNat < 128) (hclosing : closing.toNat < 128) {left i : Nat}
    {depth : Int} {b : UInt8} (hbyte : (utf8 text)[i]? = some b) (hb : IsHigh b) :
    closingFrom text opening closing (left + 1) i depth =
      closingFrom text opening closing left (i + 1) depth := by
  rw [closingFrom, byteAt, hbyte]
  simp only [bind, Except.bind, onByte_of_isHigh (onlyAscii_eq hopening) hb,
    onByte_of_isHigh (onlyAscii_eq hclosing) hb, Bool.false_eq_true, ↓reduceIte]

/-- The closing delimiter is found in the bytes where it is found in the text. -/
theorem closingFrom_eq {opening closing : Char} (hne : opening ≠ closing)
    (hopening : opening.toNat < 128) (hclosing : closing.toNat < 128) (before rest : List Char)
    (depth : Int) (hroom : Room depth (byteLength rest)) :
    closingFrom (before ++ rest) opening closing (byteLength rest) (byteLength before) depth =
      .ok ((Text.upToClosing? opening closing depth rest).map fun (inside, _) =>
        byteLength before + byteLength inside) := by
  induction rest generalizing before depth with
  | nil => rfl
  | cons c cs ih =>
    have hnext (depth : Int) (hroom : Room depth (byteLength cs)) := ih (before ++ [c]) depth hroom
    simp only [List.append_assoc, List.singleton_append, byteLength_append, byteLength_cons,
      byteLength_nil, Nat.add_zero] at hnext
    rw [Room, byteLength_cons] at hroom
    -- the found place, counted from the character or from behind it
    have hshift (found : Option (List Char × List Char)) :
        (found.map fun (inside, _) => byteLength before + c.utf8Size + byteLength inside) =
          (found.map fun (inside, rest) => (c :: inside, rest)).map fun (inside, _) =>
            byteLength before + byteLength inside := by
      rw [Option.map_map]
      congr 1
      funext ⟨inside, _⟩
      simp only [Function.comp_apply, byteLength_cons, Nat.add_assoc]
    rcases utf8EncodeChar_cases c with ⟨hascii, _⟩ | ⟨hhigh, _⟩
    · obtain ⟨b, hb, hbyte⟩ := byteAt_append before c cs
      have hsize := utf8Size_of_lt hascii
      rw [hsize] at hnext hroom hshift
      rw [byteLength_cons, hsize, Nat.add_comm 1, closingFrom, hbyte, Text.upToClosing?]
      simp only [bind, Except.bind, onByte_of_mem (onlyAscii_eq hopening) hb,
        onByte_of_mem (onlyAscii_eq hclosing) hb, decide_eq_true_eq, Bool.and_eq_true]
      by_cases hopens : c = opening
      · rw [if_pos hopens, if_pos hopens, counter_eq (by omega) (by omega),
          if_neg fun h => hne (hopens.symm.trans h.1)]
        exact (hnext _ ⟨by omega, by omega⟩).trans (congrArg _ (hshift _))
      · rw [if_neg hopens, if_neg hopens]
        by_cases hcloses : c = closing
        · rw [if_pos hcloses, if_pos hcloses, counter_eq (by omega) (by omega)]
          -- the closing that brings the depth back to 0 is the one
          by_cases hlast : depth = 1
          · rw [if_pos ⟨hcloses, hlast⟩]
            simp [hlast]
          · rw [if_neg fun h => hlast h.2]
            simp only [show ¬ depth - 1 = 0 by omega, ↓reduceIte]
            exact (hnext _ ⟨by omega, by omega⟩).trans (congrArg _ (hshift _))
        · rw [if_neg hcloses, if_neg hcloses, if_neg fun h => hcloses h.1]
          exact (hnext _ ⟨by omega, by omega⟩).trans (congrArg _ (hshift _))
    · have hplace : Follows (before ++ c :: cs) (byteLength before) (c :: cs) := ⟨before, rfl, rfl⟩
      have hskip := hplace.skip hhigh
        (fun left i => closingFrom (before ++ c :: cs) opening closing left i depth)
        (closingFrom_high hopening hclosing) (byteLength cs)
      have hopens : c ≠ opening := fun h => by subst h; omega
      have hcloses : c ≠ closing := fun h => by subst h; omega
      rw [byteLength_cons, Nat.add_comm, hskip, hnext depth ⟨by omega, by omega⟩, hshift,
        Text.upToClosing?]
      simp [hopens, hcloses]

/-- What is found up to a closing delimiter. -/
theorem upToClosing?_append {opening closing : Char} {depth : Int} {cs inside rest : List Char}
    (h : Text.upToClosing? opening closing depth cs = some (inside, rest)) :
    ∃ behind, rest = closing :: behind ∧ cs = inside ++ closing :: behind := by
  induction cs generalizing depth inside with
  | nil => cases h
  | cons c cs ih =>
    rw [Text.upToClosing?] at h
    split at h
    · next hcloses =>
      cases h
      have hc : c = closing := by
        simp only [Bool.and_eq_true, decide_eq_true_eq] at hcloses
        exact hcloses.1
      exact ⟨cs, by rw [hc], by rw [hc]; rfl⟩
    · obtain ⟨⟨inside', rest'⟩, hfound, heq⟩ := Option.map_eq_some_iff.mp h
      cases heq
      obtain ⟨behind, hrest, hcs⟩ := ih hfound
      exact ⟨behind, hrest, by rw [hcs]; rfl⟩

/-- The delimiter that closes the one at a place. -/
theorem matchingDelimiter_eq {opening closing : Char} (hne : opening ≠ closing)
    (hopening : opening.toNat < 128) (hclosing : closing.toNat < 128)
    {text inner : List Char} {i : Nat} (h : Follows text i (opening :: inner))
    (hsize : byteLength text < counterLimit) :
    matchingDelimiter text opening closing i =
      .ok (match Text.upToClosing? opening closing 1 inner with
        | some (inside, _) => (i + 1 + byteLength inside, true)
        | none => (byteLength text, false)) := by
  have hlength := h.length_eq
  obtain ⟨before, rfl, rfl⟩ := h
  have hone := utf8Size_of_lt hopening
  have hfind := closingFrom_eq hne hopening hclosing before (opening :: inner) 0
    ⟨by omega, by omega⟩
  -- the opening itself counts, so the search starts at depth 1 behind it
  have hup : Text.upToClosing? opening closing 0 (opening :: inner) =
      (Text.upToClosing? opening closing 1 inner).map fun (inside, rest) =>
        (opening :: inside, rest) := by
    rw [Text.upToClosing?]
    simp [hne]
  rw [matchingDelimiter, hlength, Nat.add_sub_cancel_left, hfind, hup]
  cases Text.upToClosing? opening closing 1 inner with
  | none => rfl
  | some found =>
    obtain ⟨inside, rest⟩ := found
    simp only [Option.map_some, byteLength_cons, hone]
    rw [Nat.add_assoc]
    rfl

-- ---------------------------------------------------------------------------
-- Names
-- ---------------------------------------------------------------------------

/-- Whether a name can go on behind a character. -/
def isNameChar (c : Char) : Bool :=
  isWordChar c || c = '.'

/-- A character of a word can stand in a name. -/
theorem isNameChar_of_isWordChar {c : Char} (h : isWordChar c = true) : isNameChar c = true := by
  rw [isNameChar, h]
  rfl

/-- A name starts at the start of a word that no other name runs into. -/
theorem startsName_eq (previous : Option Char) (c : Char) :
    Text.startsName previous c = (isWordStart c && !previous.any isNameChar) := rfl

/-- The byte before a place tells whether a name runs into it. -/
theorem isFree_eq (before rest : List Char) :
    isFree (before ++ rest) (byteLength before) = .ok !before.getLast?.any isNameChar := by
  obtain ⟨b, hbyte, hb⟩ := byteBefore_eq before rest
  rw [isFree, hbyte]
  simp only [bind, Except.bind, hb onlyAscii_isWordChar, hb (onlyAscii_eq (c := '.') (by decide))]
  cases before.getLast? <;> rfl

/-- The bytes at a place tell whether a name starts there. -/
theorem startsNameAt_eq (before : List Char) (c : Char) (cs : List Char) :
    startsNameAt (before ++ c :: cs) (byteLength before) =
      .ok (Text.startsName before.getLast? c) := by
  obtain ⟨b, hb, hbyte⟩ := byteAt_append before c cs
  rw [startsNameAt, hbyte, Text.startsName]
  simp only [bind, Except.bind, onByte_of_mem onlyAscii_isWordStart hb, isFree_eq]
  cases isWordStart c <;> rfl

/-- No name starts with a byte of a longer character. -/
theorem startsNameAt_high {text : List Char} {i : Nat} {b : UInt8}
    (hbyte : (utf8 text)[i]? = some b) (hb : IsHigh b) : startsNameAt text i = .ok false := by
  rw [startsNameAt, byteAt, hbyte]
  simp only [bind, Except.bind, onByte_of_isHigh onlyAscii_isWordStart hb, Bool.false_eq_true,
    ↓reduceIte]

/-- A word is as much as can be taken, if it can start one. -/
theorem word?_eq_ite (cs : List Char) :
    Text.word? cs = if cs.head?.any isWordStart then
      some (cs.takeWhile isWordChar, cs.dropWhile isWordChar) else none := by
  cases cs <;> rfl

/-- A word is as long as can be. -/
theorem word?_eq_some {cs word rest : List Char} (h : Text.word? cs = some (word, rest)) :
    cs = word ++ rest ∧ cs.head?.any isWordStart = true ∧ (∀ c ∈ word, isWordChar c = true) ∧
      rest.head?.any isWordChar = false := by
  rw [word?_eq_ite] at h
  split at h
  · next hstart =>
    cases h
    refine ⟨List.takeWhile_append_dropWhile.symm, hstart, fun d hd => List.mem_takeWhile_imp hd, ?_⟩
    rw [Option.any_eq_false]
    exact fun d hd => not_of_mem_head?_dropWhile hd
  · cases h

/-- A word starts with the first character of the text. -/
theorem exists_cons_of_word? {c : Char} {cs word rest : List Char}
    (h : Text.word? (c :: cs) = some (word, rest)) : ∃ tail, word = c :: tail := by
  rw [word?_eq_ite] at h
  split at h
  · next hstart =>
    cases h
    exact ⟨_, List.takeWhile_cons_of_pos (Lexer.isWordChar_of_isWordStart hstart)⟩
  · cases h

/-- Where there is no word, none can start. -/
theorem word?_eq_none {cs : List Char} (h : Text.word? cs = none) :
    cs.head?.any isWordStart = false := by
  rw [word?_eq_ite] at h
  split at h
  · cases h
  · next hc => exact Bool.eq_false_iff.mpr hc

/-- The rest of a name and what is behind it are the text. -/
theorem nameTail_append (cs : List Char) : (Text.nameTail cs).1 ++ (Text.nameTail cs).2 = cs := by
  fun_induction Text.nameTail cs with
  | case1 => rfl
  | case2 c cs _ taken rest heq ih =>
    rw [heq] at ih
    exact congrArg (c :: ·) ih
  | case3 c cs _ => rfl

/-- Words and dots make up the rest of a name. -/
theorem isNameChar_of_mem_nameTail (cs : List Char) {c : Char} (h : c ∈ (Text.nameTail cs).1) :
    isNameChar c = true := by
  fun_induction Text.nameTail cs with
  | case1 => cases h
  | case2 d cs hd taken rest heq ih =>
    rw [heq] at ih
    rcases List.mem_cons.mp h with rfl | h
    · rw [isNameChar]
      grind
    · exact ih h
  | case3 d cs _ => cases h

/-- A word goes with the name. -/
theorem nameTail_word {word : List Char} (h : ∀ c ∈ word, isWordChar c = true) (rest : List Char) :
    (Text.nameTail (word ++ rest)).1 = word ++ (Text.nameTail rest).1 := by
  induction word with
  | nil => rfl
  | cons c word ih =>
    rw [List.cons_append, Text.nameTail, if_pos (by simp [h c List.mem_cons_self])]
    exact congrArg (c :: ·) (ih fun d hd => h d (List.mem_cons_of_mem c hd))

/-- A name goes on behind a word as far as `Text.nameTail` tells. -/
theorem nameEnd_eq {text rest : List Char} {i fuel : Nat} (h : Follows text i rest)
    (hfuel : byteLength rest ≤ fuel) (hend : rest.head?.any isWordChar = false) :
    nameEnd text fuel i = i + byteLength (Text.nameTail rest).1 := by
  induction fuel generalizing i rest with
  | zero =>
    rw [(byteLength_eq_zero_iff rest).mp (by omega)]
    rfl
  | succ fuel ih =>
    rw [nameEnd, h.testChar '.' (by decide)]
    cases rest with
    | nil => rfl
    | cons c cs =>
      have hc : isWordChar c = false := hend
      -- a dot goes with the name only if a word follows
      by_cases hdot : c = '.'
      · subst hdot
        have hnext := h.tail (by decide)
        rw [if_pos (by simp), hnext.wordEnd?]
        cases hfind : Text.word? cs with
        | none =>
          rw [Text.nameTail, if_neg (by simp [hc, word?_eq_none hfind])]
          rfl
        | some found =>
          obtain ⟨word, rest⟩ := found
          obtain ⟨rfl, hstart, hchars, hrest⟩ := word?_eq_some hfind
          have hone : Char.utf8Size '.' = 1 := rfl
          rw [byteLength_cons, byteLength_append, hone] at hfuel
          rw [Text.nameTail, if_pos (by rw [hstart]; decide)]
          simp only [Option.map_some, byteLength_append, byteLength_cons, nameTail_word hchars,
            hone, ih hnext.append (by omega) hrest]
          omega
      · rw [if_neg (by simpa using hdot), Text.nameTail, if_neg (by simp [hc, hdot])]
        rfl

/-- The end of the name that starts at a place. -/
theorem nameEnd_start {text cs : List Char} {i : Nat} (h : Follows text i cs)
    (hstart : cs.head?.any isWordStart = true) :
    nameEnd text (byteLength text) ((wordEnd? text i).getD (i + 1)) =
      i + byteLength (Text.nameTail cs).1 := by
  have hlength := h.length_eq
  rw [h.wordEnd?]
  cases hfind : Text.word? cs with
  | none =>
    rw [word?_eq_none hfind] at hstart
    cases hstart
  | some found =>
    obtain ⟨word, rest⟩ := found
    obtain ⟨rfl, _, hchars, hrest⟩ := word?_eq_some hfind
    rw [byteLength_append] at hlength
    rw [Option.map_some, Option.getD_some, nameEnd_eq h.append (by omega) hrest,
      nameTail_word hchars, byteLength_append, Nat.add_assoc]

-- ---------------------------------------------------------------------------
-- Call sites
-- ---------------------------------------------------------------------------

/-- The bytes tell whether an arrow follows. -/
theorem arrowFollows_eq {text rest : List Char} {i : Nat} (h : Follows text i rest) :
    (testAt (· = '=') text (spacesEnd text i) && testAt (· = '>') text (spacesEnd text i + 1)) =
      Text.arrowFollows rest := by
  have hbehind := h.skipSpaces
  rw [hbehind.testChar '=' (by decide), Text.arrowFollows]
  generalize spacesEnd text i = k at hbehind
  match hrest : Text.skipSpaces rest, hbehind with
  | [], _ => rfl
  | c :: cs, hbehind =>
    by_cases hc : c = '='
    · subst hc
      rw [(hbehind.tail (by decide)).testChar '>' (by decide)]
      cases cs with
      | nil => rfl
      | cons d ds => by_cases hd : d = '>' <;> simp [hd]
    · simp [hc]

/-- What the call site of a name is made of: its arguments end before the closing parenthesis,
or where the text does. -/
theorem exists_of_callSiteAt? {offset : Nat} {cs : List Char} {site : Text.CallSite}
    (h : Text.callSiteAt? offset cs = some site) :
    ∃ blanks inner, Text.nameTail cs = (site.name.toList, blanks ++ '(' :: inner) ∧
      (∀ c ∈ blanks, Text.isSpace c = true) ∧ site.offset = offset ∧
      site.arguments.offset = offset + byteLength site.name.toList + byteLength blanks + 1 ∧
      ((∃ rest, Text.upToClosing? '(' ')' 1 inner = some (site.arguments.text, rest) ∧
          site.isClosed = true) ∨
        Text.upToClosing? '(' ')' 1 inner = none ∧ site.arguments.text = inner ∧
          site.isClosed = false) := by
  rw [Text.callSiteAt?] at h
  generalize Text.nameTail cs = found at h ⊢
  obtain ⟨name, behind⟩ := found
  have hbehind : behind.takeWhile Text.isSpace ++ Text.skipSpaces behind = behind :=
    List.takeWhile_append_dropWhile
  have hname : (String.ofList name).toList = name := String.toList_ofList
  dsimp only at h
  split at h
  · next inner hinner =>
    rw [hinner] at hbehind
    refine ⟨behind.takeWhile Text.isSpace, inner, ?_⟩
    split at h
    · cases h
    · split at h
      · next inside rest hup =>
        cases h
        exact ⟨by rw [hname, hbehind], fun c hc => List.mem_takeWhile_imp hc, rfl, rfl,
          .inl ⟨rest, hup, rfl⟩⟩
      · next hup =>
        cases h
        exact ⟨by rw [hname, hbehind], fun c hc => List.mem_takeWhile_imp hc, rfl, rfl,
          .inr ⟨hup, rfl, rfl⟩⟩
  · cases h

/-- The call site of a name. -/
theorem siteAt_eq {text cs : List Char} {i : Nat} (h : Follows text i cs)
    (hsize : byteLength text < counterLimit) :
    siteAt text i (i + byteLength (Text.nameTail cs).1) =
      .ok ((Text.callSiteAt? i cs).toList.map Site.of) := by
  have hcs := nameTail_append cs
  rw [Text.callSiteAt?]
  generalize Text.nameTail cs = found at hcs
  obtain ⟨name, behind⟩ := found
  subst hcs
  have hopening := h.append.skipSpaces
  rw [siteAt, h.slice]
  simp only [bind, Except.bind, hopening.testChar '(' (by decide), String.toList_ofList]
  rw [h.append.spacesEnd] at hopening ⊢
  match Text.skipSpaces behind, hopening with
  | [], _ => simp
  | c :: inner, hopening =>
    -- without a parenthesis there is no site
    by_cases hc : c = '('
    · subst hc
      have hinner := hopening.tail (by decide)
      have hlength := hinner.length_eq
      rw [matchingDelimiter_eq (by decide) (by decide) (by decide) hopening hsize]
      cases Keyword.ofSpelling? (String.ofList name) with
      | some keyword => simp
      | none =>
        cases hup : Text.upToClosing? '(' ')' 1 inner with
        -- the parenthesis is not closed: the arguments go to the end of the text
        | none => simp [Site.of, Range.of, Text.Slice.stop, hlength, hup]
        | some pieces =>
          obtain ⟨inside, rest⟩ := pieces
          obtain ⟨later, rfl, rfl⟩ := upToClosing?_append hup
          have harrow := arrowFollows_eq (hinner.append.tail (by decide))
          simp [Site.of, Range.of, Text.Slice.stop, ← harrow, hup]
    · simp [hc]

/-- What is found at the starts of names, seen from a place inside a text. -/
def scanNames {β : Type} (found : Nat → List Char → List β) (previous : Option Char)
    (offset : Nat) : List Char → List β
  | [] => []
  | c :: cs =>
    (if Text.startsName previous c then found offset (c :: cs) else []) ++
      scanNames found (some c) (offset + c.utf8Size) cs

/-- No name starts inside a name. -/
theorem scanNames_inside {β : Type} (found : Nat → List Char → List β) {name : List Char}
    (h : ∀ c ∈ name, isNameChar c = true) {p : Char} (hp : isNameChar p = true) (offset : Nat)
    (rest : List Char) :
    scanNames found (some p) offset (name ++ rest) =
      scanNames found (some (name.getLastD p)) (offset + byteLength name) rest := by
  induction name generalizing p offset with
  | nil => rfl
  | cons c cs ih =>
    have hstarts : Text.startsName (some p) c = false := by
      rw [startsName_eq, Option.any_some, hp, Bool.not_true, Bool.and_false]
    rw [List.cons_append, scanNames, hstarts,
      ih (fun d hd => h d (List.mem_cons_of_mem c hd)) (h c List.mem_cons_self), byteLength_cons,
      Nat.add_assoc, List.getLastD_cons]
    rfl

/-- The search behind a name goes on with nothing found inside of it. -/
theorem scanNames_name {β : Type} (found : Nat → List Char → List β) (before : List Char)
    {c : Char} {name : List Char} (h : ∀ d ∈ c :: name, isNameChar d = true) (offset : Nat)
    (rest : List Char) :
    scanNames found before.getLast? offset (c :: name ++ rest) =
      (if Text.startsName before.getLast? c then found offset (c :: name ++ rest) else []) ++
        scanNames found (before ++ c :: name).getLast? (offset + byteLength (c :: name)) rest := by
  have hlast : (before ++ c :: name).getLast? = some (name.getLastD c) := by
    rw [List.getLast?_append, List.getLast?_cons, List.getLastD_eq_getLast?]
    rfl
  rw [List.cons_append, scanNames, hlast, scanNames_inside found
    (fun d hd => h d (List.mem_cons_of_mem c hd)) (h c List.mem_cons_self), byteLength_cons,
    Nat.add_assoc]

/-- What is found is found at a place of the text where a name can start. -/
theorem exists_of_mem_scanNames {β : Type} {found : Nat → List Char → List β}
    {previous : Option Char} {text cs : List Char} {i : Nat} (h : Follows text i cs) {x : β}
    (hx : x ∈ scanNames found previous i cs) :
    ∃ j c rest, Follows text j (c :: rest) ∧ c :: rest <:+ cs ∧ isWordStart c = true ∧
      x ∈ found j (c :: rest) := by
  induction cs generalizing previous i with
  | nil => cases hx
  | cons c cs ih =>
    rw [scanNames, List.mem_append] at hx
    rcases hx with hx | hx
    · split at hx
      · next hstart =>
        exact ⟨i, c, cs, h, List.suffix_rfl, (Bool.and_eq_true_iff.mp hstart).1, hx⟩
      · cases hx
    · obtain ⟨j, d, rest, hplace, hsuffix, hfound⟩ := ih (h.append (a := [c])) hx
      exact ⟨j, d, rest, hplace, hsuffix.trans (List.suffix_cons c cs), hfound⟩

/-- The search for call sites is a search for names. -/
theorem callSitesFrom_eq_scanNames (previous : Option Char) (offset : Nat) (cs : List Char) :
    Text.callSitesFrom previous offset cs =
      scanNames (fun i cs => (Text.callSiteAt? i cs).toList) previous offset cs := by
  induction cs generalizing previous offset with
  | nil => rfl
  | cons c cs ih => rw [Text.callSitesFrom, scanNames, ih]

/-- A byte of a longer character is passed over. -/
theorem callSitesFrom_high {text : List Char} {fuel i : Nat} {b : UInt8}
    (hbyte : (utf8 text)[i]? = some b) (hb : IsHigh b) :
    callSitesFrom text (fuel + 1) i = callSitesFrom text fuel (i + 1) := by
  obtain ⟨hlt, _⟩ := List.getElem?_eq_some_iff.mp hbyte
  rw [length_utf8] at hlt
  rw [callSitesFrom, if_pos hlt, startsNameAt_high hbyte hb]
  rfl

/-- The search goes on behind a character at which no name starts. -/
theorem callSitesFrom_over {before : List Char} {c : Char} (cs : List Char)
    (hstart : Text.startsName before.getLast? c = false) {fuel : Nat} (hfuel : c.utf8Size ≤ fuel) :
    callSitesFrom (before ++ c :: cs) fuel (byteLength before) =
      callSitesFrom (before ++ c :: cs) (fuel - c.utf8Size) (byteLength before + c.utf8Size) := by
  have hplace : Follows (before ++ c :: cs) (byteLength before) (c :: cs) := ⟨before, rfl, rfl⟩
  have hlength := hplace.length_eq
  have hpos := c.utf8Size_pos
  rw [byteLength_cons] at hlength
  rcases utf8EncodeChar_cases c with ⟨hascii, _⟩ | ⟨hhigh, _⟩
  · obtain ⟨fuel, rfl⟩ : ∃ k, fuel = k + 1 := ⟨fuel - 1, by omega⟩
    rw [callSitesFrom, if_pos (by omega), startsNameAt_eq, hstart, utf8Size_of_lt hascii]
    rfl
  · have hskip := hplace.skip hhigh (callSitesFrom (before ++ c :: cs)) callSitesFrom_high
      (fuel - c.utf8Size)
    rwa [Nat.sub_add_cancel hfuel] at hskip

/-- A name has a first character, and it has nothing but the characters of names. -/
theorem exists_nameTail_cons {c : Char} (hc : isWordStart c = true) (cs : List Char) :
    ∃ name behind, Text.nameTail (c :: cs) = (c :: name, behind) ∧ cs = name ++ behind ∧
      ∀ d ∈ c :: name, isNameChar d = true := by
  have hcs := nameTail_append (c :: cs)
  have hchars := fun d => isNameChar_of_mem_nameTail (c :: cs) (c := d)
  rw [Text.nameTail, if_pos (by simp [Lexer.isWordChar_of_isWordStart hc])] at hcs hchars ⊢
  exact ⟨_, _, rfl, (List.cons_inj_right c).mp hcs.symm, hchars⟩

/-- The call sites are found without a fault, and are those of the text. -/
theorem callSitesFrom_eq (before rest : List Char) {fuel : Nat} (hfuel : byteLength rest < fuel)
    (hsize : byteLength (before ++ rest) < counterLimit) :
    callSitesFrom (before ++ rest) fuel (byteLength before) =
      .ok ((Text.callSitesFrom before.getLast? (byteLength before) rest).map Site.of) := by
  rw [callSitesFrom_eq_scanNames]
  induction hn : rest.length using Nat.strong_induction_on generalizing before rest fuel with
  | _ n ih =>
  obtain ⟨fuel, rfl⟩ : ∃ k, fuel = k + 1 := ⟨fuel - 1, by omega⟩
  cases rest with
  | nil =>
    rw [callSitesFrom, List.append_nil, if_neg (Nat.lt_irrefl _)]
    rfl
  | cons c cs =>
    have hplace : Follows (before ++ c :: cs) (byteLength before) (c :: cs) := ⟨before, rfl, rfl⟩
    have hlength := hplace.length_eq
    have hpos := c.utf8Size_pos
    rw [byteLength_cons] at hlength hfuel
    cases hstart : Text.startsName before.getLast? c with
    | true =>
      -- the search goes on behind the name
      have hword : isWordStart c = true := (Bool.and_eq_true_iff.mp hstart).1
      obtain ⟨name, behind, hname, rfl, hchars⟩ := exists_nameTail_cons hword cs
      have hend := nameEnd_start hplace hword
      have hsite := siteAt_eq hplace hsize
      rw [hname] at hend hsite
      have hbehind : byteLength behind < fuel := by
        rw [byteLength_append] at hfuel
        omega
      have hshorter : behind.length < n := by
        rw [← hn, List.length_cons, List.length_append]
        omega
      have hnext := ih behind.length hshorter (before ++ c :: name) behind hbehind
        (by simpa using hsize) rfl
      rw [List.append_assoc, List.cons_append, byteLength_append] at hnext
      rw [callSitesFrom, if_pos (by omega), startsNameAt_eq, hstart, ← List.cons_append,
        scanNames_name _ _ hchars, hstart, List.map_append]
      simp only [bind, Except.bind, ↓reduceIte, List.cons_append, hend, hsite, hnext]
    -- no name starts here, so one character is passed over
    | false =>
      have hbehind : byteLength cs < fuel + 1 - c.utf8Size := by omega
      have hnext := ih cs.length (by rw [← hn]; exact Nat.lt_succ_self _) (before ++ [c]) cs
        hbehind (by simpa using hsize) rfl
      simp only [List.append_assoc, List.singleton_append, byteLength_append, byteLength_cons,
        byteLength_nil, Nat.add_zero, List.getLast?_concat] at hnext
      rw [callSitesFrom_over cs hstart (by omega), scanNames, hstart]
      exact hnext

/-- **The search for call sites never goes wrong**, and it finds those that are found by
going through the characters. -/
theorem callSites_eq {text : List Char} (hsize : byteLength text < counterLimit) :
    callSites text = .ok ((Text.callSites text).map Site.of) :=
  callSitesFrom_eq [] text (Nat.lt_succ_self _) hsize

end PineCheck.Indexed
