import PineCheck.Check.ObjectState
import PineCheck.Proofs.Indexed.CallSites
import PineCheck.Proofs.Indexed.Location

/-!
# PineCheck — objects by byte offsets

The check of objects goes through the lines of the masked text. It cuts a line at its
first equals sign, cuts the type out of a call of a constructor, and looks for fields
behind the names of objects, jumping from the start of a name to its end or to the end
of the field.

Main result:

* `objectState_eq` — the check never goes wrong, and it finds what
  `ObjectState.check` finds by going through the characters.
-/

namespace PineCheck.Indexed

open Check.ObjectState (Change)
open Check
open Text (Line)

-- ---------------------------------------------------------------------------
-- Definitions
-- ---------------------------------------------------------------------------

/-- The type that a line starts to declare. -/
def typeHeader (text : List Char) : Checked (Option (List Char)) :=
  let text := Text.trim text
  let text := Text.trimStart ((Text.dropWord? "export ".toList text).getD text)
  match Text.dropWord? "type ".toList text with
  | none => .ok none
  | some rest =>
    let rest := Text.trimStart rest
    match wordEnd? rest 0 with
    | none => .ok none
    | some stop => do
      let name ← slice rest 0 stop
      .ok (some name)

/-- Whether a character before an equals sign makes an operator of it. -/
def isOperatorStart (c : Char) : Bool :=
  "=!<>+-*/%".toList.contains c

/-- Both sides of the assignment on a line. -/
def splitAssignment (text : List Char) : Checked (Option (List Char × List Char)) :=
  match (utf8 text).findIdx? (onByte (· = '=')) with
  | none => .ok none
  | some i => do
    let previous ← byteBefore text i
    if testAt (· = '=') text (i + 1) || testAt (· = '>') text (i + 1) then .ok none
    else if onByte isOperatorStart previous then .ok none
    else if onByte (· = ':') previous then
      let left ← slice text 0 (← minus i 1)
      let right ← slice text (i + 1) (byteLength text)
      .ok (some (left, right))
    else
      let left ← slice text 0 i
      let right ← slice text (i + 1) (byteLength text)
      .ok (some (left, right))

/-- The types that are declared by lines. Inside of a type the lines of its fields are
cut as well. -/
def collectTypes (inType : Bool) : List Line → Checked (List (List Char))
  | [] => .ok []
  | line :: lines =>
    if line.isBlank then collectTypes inType lines
    else if line.isIndented then do
      if inType then
        let _ ← splitAssignment line.text
      collectTypes inType lines
    else do
      let header ← typeHeader line.text
      let later ← collectTypes header.isSome lines
      .ok (header.toList ++ later)

/-- The type in a call of a constructor. -/
def constructedType (text : List Char) : Checked (Option (List Char)) :=
  match find? (fun c => c = '(' || c = '<') text with
  | none => .ok none
  | some i => do
    let head := Text.trimEnd (← slice text 0 i)
    match Text.dropWord? "wen.".toList head.reverse with
    | some type => .ok (if ObjectState.isName type.reverse then some type.reverse else none)
    | none => .ok none

/-- The change that a line makes after earlier ones. -/
def changeOn (types : List (List Char)) (earlier : List Change) (line : Line) :
    Checked (Option Change) := do
  match ← splitAssignment line.text with
  | none => .ok none
  | some (left, right) =>
    match ObjectState.target? left with
    | none => .ok none
    | some (isVar, type, object) =>
      if !ObjectState.isWord object then .ok none
      else
        let last := ObjectState.lastOf? earlier object
        let right := Text.trim right
        if right = "na".toList then
          .ok ((ObjectState.naType? types isVar type last).map fun typeName =>
            ⟨object, line.number, true, typeName, isVar⟩)
        else
          match ← constructedType right with
          | none => .ok none
          | some typeName =>
            .ok (if types.contains typeName || last.isSome then
              some ⟨object, line.number, false, typeName, isVar⟩ else none)

/-- Adds the changes of lines to earlier ones. -/
def changesFrom (types : List (List Char)) (earlier : List Change) :
    List Line → Checked (List Change)
  | [] => .ok earlier
  | line :: lines => do
    let change ← changeOn types earlier line
    changesFrom types (earlier ++ change.toList) lines

/-- The range of the field behind an object. -/
def fieldRange? (text : List Char) (i : Nat) : Option Range :=
  if testAt (· = '.') text i then
    match wordEnd? text (i + 1) with
    | none => none
    | some stop => if testAt (· = '(') text (spacesEnd text stop) then none else some ⟨i + 1, stop⟩
  else none

/-- The finding about the object between two offsets of a line, and the offset at which
to go on. -/
def directAt (script : List Char) (all : List Change) (line : Line) (start stop : Nat) :
    Checked (List Finding × Nat) := do
  let object ← slice line.text start stop
  match (ObjectState.stateBefore? all object line.number).filter Change.isNa,
    fieldRange? line.text stop with
  | some change, some field => do
    let name ← slice line.text field.start field.stop
    let length ← minus field.stop start
    let span ← location script (line.offset + start) length
    .ok ([⟨.naAccess (String.ofList object) (String.ofList name) (String.ofList change.typeName)
      change.isVar change.line, span⟩], field.stop)
  | _, _ => .ok ([], stop)

/-- The findings about objects that hold `na` from an offset of a line on. -/
def directFrom (script : List Char) (all : List Change) (line : Line) :
    Nat → Nat → Checked (List Finding)
  | 0, _ => .error .unfinished
  | fuel + 1, i =>
    if i < byteLength line.text then do
      let free ← isFree line.text i
      match wordEnd? line.text i with
      | none => directFrom script all line fuel (i + 1)
      | some stop =>
        if free then
          let (here, next) ← directAt script all line i stop
          let later ← directFrom script all line fuel next
          .ok (here ++ later)
        else directFrom script all line fuel stop
    else .ok []

/-- The offsets of a character. -/
def offsetsOf (c : Char) (offset : Nat) : List Char → List Nat
  | [] => []
  | d :: ds =>
    if d = c then offset :: offsetsOf c (offset + d.utf8Size) ds
    else offsetsOf c (offset + d.utf8Size) ds

/-- The finding about a field behind the parenthesis at `close`, in an expression that
starts at `i` and has an index in brackets. -/
def historyField (script : List Char) (line : Line) (i close : Nat) (object : List Char)
    (index : Range) : Checked (List Finding) :=
  if !testAt (· = ')') line.text close then .ok []
  else
    match fieldRange? line.text (close + 1) with
    | none => .ok []
    | some field => do
      let history ← slice line.text index.start index.stop
      let name ← slice line.text field.start field.stop
      let length ← minus field.stop i
      let span ← location script (line.offset + i) length
      .ok [⟨.naHistoryAccess (String.ofList object) (String.ofList name)
        (String.ofList (Text.trim history)), span⟩]

/-- The finding about `(object[n]).field` at an offset of a line. -/
def historyAt (script : List Char) (all : List Change) (line : Line) (i : Nat) :
    Checked (List Finding) :=
  let start := spacesEnd line.text (i + 1)
  match wordEnd? line.text start with
  | none => .ok []
  | some stop => do
    let object ← slice line.text start stop
    let bracket := spacesEnd line.text stop
    if !all.any (·.object = object) then .ok []
    else if !testAt (· = '[') line.text bracket then .ok []
    else
      match ← matchingDelimiter line.text '[' ']' bracket with
      | (_, false) => .ok []
      | (closing, true) =>
        historyField script line i (spacesEnd line.text (closing + 1)) object ⟨bracket + 1, closing⟩

/-- The findings about objects that may hold `na` in a script. -/
def objectState (script masked : List Char) : Checked (List Finding) := do
  let lines := Text.lines masked
  let types ← collectTypes false lines
  let all ← changesFrom types [] lines
  collect (fun line => do
    let direct ← directFrom script all line (byteLength line.text + 1) 0
    let history ← collect (historyAt script all line) (offsetsOf '(' 0 line.text)
    .ok (direct ++ history)) lines

-- ---------------------------------------------------------------------------
-- Assignments
-- ---------------------------------------------------------------------------

/-- The start of an operator is one byte. -/
theorem onlyAscii_isOperatorStart : OnlyAscii isOperatorStart :=
  onlyAscii_contains (by decide)

/-- A line is split at its assignment without a fault. -/
theorem splitAssignment_eq (text : List Char) :
    splitAssignment text = .ok (ObjectState.splitAssignment? text) := by
  rw [splitAssignment, findIdx?_utf8 (onlyAscii_eq (by decide))]
  rw [ObjectState.splitAssignment?]
  rcases find?_cases '=' text with ⟨hdrop, hfind⟩ | ⟨right, hdrop, htext, hfind⟩
  · rw [hfind, hdrop]
  · have hbefore : ∀ c ∈ text.takeWhile (· ≠ '='), c ≠ '=' := fun c hc => by
      simpa using List.mem_takeWhile_imp hc
    rw [hfind, hdrop]
    generalize text.takeWhile (· ≠ '=') = before at htext hbefore
    subst htext
    have hplace : Follows (before ++ '=' :: right) (byteLength before) ('=' :: right) :=
      ⟨before, rfl, rfl⟩
    have hright := hplace.tail (by decide)
    obtain ⟨b, hbyte, hb⟩ := byteBefore_eq before ('=' :: right)
    simp only [hbyte, bind, Except.bind, hb onlyAscii_isOperatorStart,
      hb (onlyAscii_eq (c := ':') (by decide)), hright.testChar '=' (by decide),
      hright.testChar '>' (by decide), hright.slice_to_end, slice_zero]
    split
    · rfl
    · rcases List.eq_nil_or_concat before with rfl | ⟨front, last, hlast⟩
      · rfl
      · rw [List.concat_eq_append] at hlast
        subst hlast
        simp only [List.getLast?_concat, Option.getD_some]
        -- `:=` is split before its colon, `=` before itself
        by_cases hcolon : last = ':'
        · subst hcolon
          have hslice := slice_zero front (':' :: '=' :: right)
          have hlength : byteLength (front ++ [':']) = byteLength front + 1 := byteLength_append ..
          rw [hlength, minus_eq (by omega), Nat.add_sub_cancel]
          simp [hslice, show isOperatorStart ':' = false by decide]
        · have hlast : last ≠ '=' := hbefore last (by simp)
          -- what stands before is no `=`, which the search would have found first
          have hoperator : isOperatorStart last = "!<>+-*/%".toList.contains last := by
            simp [isOperatorStart, hlast]
          simp only [hoperator, hcolon, decide_false, Bool.false_eq_true, ↓reduceIte]
          split <;> rfl

-- ---------------------------------------------------------------------------
-- Types
-- ---------------------------------------------------------------------------

/-- The name of a declared type is found without a fault. -/
theorem typeHeader_eq (text : List Char) :
    typeHeader text = .ok (ObjectState.typeHeader? text) := by
  rw [typeHeader, ObjectState.typeHeader?]
  dsimp only
  cases Text.dropWord? "type ".toList (Text.trimStart
      ((Text.dropWord? "export ".toList (Text.trim text)).getD (Text.trim text))) with
  | none => rfl
  | some rest =>
    have hplace := Follows.start (Text.trimStart rest)
    simp only [hplace.wordEnd?, Option.bind_eq_bind, Option.bind_some]
    cases hfind : Text.word? (Text.trimStart rest) with
    | none => rfl
    | some found =>
      obtain ⟨name, behind⟩ := found
      obtain ⟨htext, -⟩ := word?_eq_some hfind
      rw [htext] at hplace ⊢
      simp only [Option.map_some, hplace.slice]
      rfl

/-- The declared types are found without a fault. -/
theorem collectTypes_eq (inType : Bool) (lines : List Line) :
    collectTypes inType lines = .ok (ObjectState.declaredTypes lines) := by
  induction lines generalizing inType with
  | nil => rfl
  | cons line lines ih =>
    rw [collectTypes, ObjectState.declaredTypes, List.filterMap_cons, ← ObjectState.declaredTypes]
    cases line.isBlank with
    | true => exact ih inType
    | false =>
      cases line.isIndented with
      | true =>
        cases inType with
        | true =>
          rw [splitAssignment_eq]
          exact ih true
        | false => exact ih false
      | false =>
        rw [typeHeader_eq]
        simp only [bind, Except.bind, ih, Bool.false_eq_true, Bool.or_self, ↓reduceIte]
        cases ObjectState.typeHeader? line.text <;> rfl

-- ---------------------------------------------------------------------------
-- Changes
-- ---------------------------------------------------------------------------

/-- The type that is constructed is found without a fault. -/
theorem constructedType_eq (text : List Char) :
    constructedType text = .ok (ObjectState.constructedType? text) := by
  rw [constructedType, ObjectState.constructedType?, find?]
  dsimp only
  cases text.any fun c => c = '(' || c = '<' with
  | false => rfl
  | true =>
    have hslice := slice_zero (text.takeWhile fun c => !(c = '(' || c = '<'))
      (text.dropWhile fun c => !(c = '(' || c = '<'))
    rw [List.takeWhile_append_dropWhile] at hslice
    simp only [hslice, bind, Except.bind, ↓reduceIte]
    generalize Text.dropWord? "wen.".toList _ = found
    cases found <;> rfl

/-- The change on a line is found without a fault. -/
theorem changeOn_eq (types : List (List Char)) (earlier : List Change) (line : Line) :
    changeOn types earlier line = .ok (ObjectState.change? types earlier line) := by
  rw [changeOn, splitAssignment_eq, ObjectState.change?]
  simp only [bind, Except.bind]
  cases ObjectState.splitAssignment? line.text with
  | none => rfl
  | some sides =>
    obtain ⟨left, right⟩ := sides
    simp only [Option.bind_some]
    cases ObjectState.target? left with
    | none => rfl
    | some target =>
      obtain ⟨isVar, type, object⟩ := target
      simp only [Option.bind_some, constructedType_eq]
      cases ObjectState.isWord object with
      | false => rfl
      | true =>
        simp only [Bool.not_true, Bool.false_eq_true, ↓reduceIte]
        split
        · cases ObjectState.naType? types isVar type (ObjectState.lastOf? earlier object) <;> rfl
        · cases ObjectState.constructedType? (Text.trim right) <;> rfl

/-- The changes on the lines are found without a fault. -/
theorem changesFrom_eq (types : List (List Char)) (earlier : List Change) (lines : List Line) :
    changesFrom types earlier lines = .ok (ObjectState.changesFrom types earlier lines) := by
  induction lines generalizing earlier with
  | nil => rfl
  | cons line lines ih =>
    rw [changesFrom, changeOn_eq, ObjectState.changesFrom]
    exact ih _

-- ---------------------------------------------------------------------------
-- Fields
-- ---------------------------------------------------------------------------

/-- A field is a dot and a word. -/
theorem field?_eq_some {rest field behind : List Char}
    (h : ObjectState.field? rest = some (field, behind)) :
    rest = '.' :: (field ++ behind) ∧ ∀ c ∈ field, Lexer.isWordChar c = true := by
  rw [ObjectState.field?.eq_def] at h
  split at h
  · next cs =>
    obtain ⟨⟨word, later⟩, hfind, hfield⟩ := Option.bind_eq_some_iff.mp h
    obtain ⟨rfl, -, hchars, -⟩ := word?_eq_some hfind
    dsimp only at hfield
    split at hfield
    · cases hfield
    · cases hfield
      exact ⟨rfl, hchars⟩
  · cases h

/-- The range of a field is found in the bytes where it is found in the text. -/
theorem fieldRange?_eq {text rest : List Char} {i : Nat} (h : Follows text i rest) :
    fieldRange? text i = (ObjectState.field? rest).map fun (field, _) =>
      ⟨i + 1, i + 1 + byteLength field⟩ := by
  rw [fieldRange?, h.testChar '.' (by decide)]
  cases rest with
  | nil => rfl
  | cons c cs =>
    by_cases hc : c = '.'
    · subst hc
      have hnext := h.tail (by decide)
      rw [if_pos (by simp), hnext.wordEnd?, ObjectState.field?]
      cases hfind : Text.word? cs with
      | none => rfl
      | some found =>
        obtain ⟨field, rest⟩ := found
        obtain ⟨rfl, -⟩ := word?_eq_some hfind
        simp only [Option.map_some, Option.bind_eq_bind, Option.bind_some,
          hnext.append.skipSpaces.testChar '(' (by decide), decide_eq_true_eq]
        split <;> rfl
    · rw [if_neg (by simpa using hc), ObjectState.field?.eq_def]
      split
      · next heq =>
        cases heq
        exact absurd rfl hc
      · rfl

/-- What is found at an object, and that the search goes on behind a part of a name. -/
theorem directAt_eq (script : List Char) (all : List Change) {line : Line}
    {cs object rest : List Char} {i : Nat} (h : Follows line.text i cs)
    (hfind : Text.word? cs = some (object, rest)) :
    ∃ name behind, cs = name ++ behind ∧ object <+: name ∧ (∀ c ∈ name, isNameChar c = true) ∧
      directAt script all line i (i + byteLength object) =
        .ok ((ObjectState.directAccess? script all line.number (line.offset + i) cs).toList,
          i + byteLength name) := by
  obtain ⟨rfl, -, hchars, -⟩ := word?_eq_some hfind
  have hobject : ∀ c ∈ object, isNameChar c = true := fun c hc =>
    isNameChar_of_isWordChar (hchars c hc)
  rw [directAt, h.slice, fieldRange?_eq h.append, ObjectState.directAccess?, hfind]
  simp only [bind, Except.bind, Option.bind_some]
  cases ObjectState.stateBefore? all object line.number with
  | none => exact ⟨object, rest, rfl, List.prefix_rfl, hobject, rfl⟩
  | some change =>
    -- only an object that is `na` is reported
    cases hna : change.isNa with
    | false =>
      rw [Option.filter_some_neg (by simp [hna])]
      exact ⟨object, rest, rfl, List.prefix_rfl, hobject, by simp [hna]⟩
    | true =>
      rw [Option.filter_some_pos hna]
      cases hfield : ObjectState.field? rest with
      | none => exact ⟨object, rest, rfl, List.prefix_rfl, hobject, by simp⟩
      | some found =>
        obtain ⟨field, behind⟩ := found
        obtain ⟨rfl, hfieldChars⟩ := field?_eq_some hfield
        refine ⟨object ++ '.' :: field, behind, by simp, List.prefix_append .., ?_, ?_⟩
        · intro c hc
          rcases List.mem_append.mp hc with hc | hc
          · exact hobject c hc
          · rcases List.mem_cons.mp hc with rfl | hc
            · rfl
            · exact isNameChar_of_isWordChar (hfieldChars c hc)
        · have hslice := (h.append.tail (by decide)).slice
          -- the finding covers the object, the dot and the field
          have hlength : minus (i + byteLength object + 1 + byteLength field) i =
              .ok (byteLength object + 1 + byteLength field) := by
            rw [minus_eq (by omega)]
            congr 1
            omega
          have hstop : i + byteLength (object ++ '.' :: field) =
              i + byteLength object + 1 + byteLength field := by
            rw [byteLength_append, byteLength_cons, show Char.utf8Size '.' = 1 from rfl]
            omega
          simp only [Option.map_some, hslice, hlength, location_eq, hstop, Option.bind_some, hna,
            Bool.not_true, Bool.false_eq_true, ↓reduceIte]
          rfl

/-- The search for direct accesses is a search for names. -/
theorem directAccesses_eq_scanNames (script : List Char) (all : List Change) (line : Nat)
    (previous : Option Char) (offset : Nat) (cs : List Char) :
    ObjectState.directAccesses script all line previous offset cs =
      scanNames (fun i cs => (ObjectState.directAccess? script all line i cs).toList) previous
        offset cs := by
  induction cs generalizing previous offset with
  | nil => rfl
  | cons c cs ih => rw [ObjectState.directAccesses, scanNames, ih]

/-- Whether a name runs into a place can be read at every place of the text. -/
theorem isFree_ok {text : List Char} {i : Nat} (h : i ≤ byteLength text) :
    ∃ free, isFree text i = .ok free := by
  rw [isFree, byteBefore]
  split
  · exact ⟨_, rfl⟩
  · have hlt : i - 1 < (utf8 text).length := by
      rw [length_utf8]
      omega
    simp only [minus_eq (show 1 ≤ i by omega), bind, Except.bind, byteAt,
      List.getElem?_eq_getElem hlt]
    exact ⟨_, rfl⟩

/-- No word starts with a byte of a longer character. -/
theorem wordEnd?_high {text : List Char} {i : Nat} {b : UInt8} (hbyte : (utf8 text)[i]? = some b)
    (hb : IsHigh b) : wordEnd? text i = none := by
  rw [wordEnd?, testAt, hbyte, Option.any_some, onByte_of_isHigh onlyAscii_isWordStart hb]
  rfl

/-- A byte of a longer character is passed over. -/
theorem directFrom_high {script : List Char} {all : List Change} {line : Line} {fuel i : Nat}
    {b : UInt8} (hbyte : (utf8 line.text)[i]? = some b) (hb : IsHigh b) :
    directFrom script all line (fuel + 1) i = directFrom script all line fuel (i + 1) := by
  obtain ⟨hlt, _⟩ := List.getElem?_eq_some_iff.mp hbyte
  rw [length_utf8] at hlt
  obtain ⟨free, hfree⟩ := isFree_ok (Nat.le_of_lt hlt)
  rw [directFrom, if_pos hlt, hfree, wordEnd?_high hbyte hb]
  rfl

/-- The search goes on behind a character at which no word starts. -/
theorem directFrom_over (script : List Char) (all : List Change) {line : Line} {c : Char}
    {cs : List Char} {i : Nat} (h : Follows line.text i (c :: cs))
    (hword : Lexer.isWordStart c = false) {fuel : Nat} (hfuel : c.utf8Size ≤ fuel) :
    directFrom script all line fuel i =
      directFrom script all line (fuel - c.utf8Size) (i + c.utf8Size) := by
  have hlength := h.length_eq
  have hpos := c.utf8Size_pos
  rw [byteLength_cons] at hlength
  rcases utf8EncodeChar_cases c with ⟨hascii, _⟩ | ⟨hhigh, _⟩
  · obtain ⟨fuel, rfl⟩ : ∃ k, fuel = k + 1 := ⟨fuel - 1, by omega⟩
    obtain ⟨free, hfree⟩ := @isFree_ok line.text i (by omega)
    have hfind : Text.word? (c :: cs) = none := by
      rw [word?_eq_ite, List.head?_cons, Option.any_some, hword]
      rfl
    rw [directFrom, if_pos (by omega), hfree, h.wordEnd?, hfind, utf8Size_of_lt hascii]
    rfl
  · have hskip := h.skip hhigh (directFrom script all line) directFrom_high (fuel - c.utf8Size)
    rwa [Nat.sub_add_cancel hfuel] at hskip

/-- Where a word starts, the search reads a name, or the rest of one that is not read from its
start, and goes on behind it. -/
theorem exists_directFrom_name (script : List Char) (all : List Change) {line : Line}
    {before cs : List Char} {c : Char} (htext : line.text = before ++ c :: cs)
    (hword : Lexer.isWordStart c = true) (fuel : Nat) :
    ∃ name behind, cs = name ++ behind ∧ (∀ d ∈ c :: name, isNameChar d = true) ∧
      directFrom script all line (fuel + 1) (byteLength before) =
        (directFrom script all line fuel (byteLength before + byteLength (c :: name))).map
          ((if Text.startsName before.getLast? c then
            (ObjectState.directAccess? script all line.number (line.offset + byteLength before)
              (c :: cs)).toList else []) ++ ·) := by
  have hplace : Follows line.text (byteLength before) (c :: cs) := ⟨before, htext, rfl⟩
  have hfree := isFree_eq before (c :: cs)
  rw [← htext] at hfree
  have hlt : byteLength before < byteLength line.text := by
    have hlength := hplace.length_eq
    have hpos := c.utf8Size_pos
    rw [byteLength_cons] at hlength
    omega
  cases hfind : Text.word? (c :: cs) with
  | none =>
    have hnot : Lexer.isWordStart c = false := word?_eq_none hfind
    rw [hnot] at hword
    cases hword
  | some found =>
    obtain ⟨object, behind⟩ := found
    obtain ⟨tail, rfl⟩ := exists_cons_of_word? hfind
    obtain ⟨hcs, -, hchars, -⟩ := word?_eq_some hfind
    rw [directFrom, if_pos hlt, hfree, hplace.wordEnd?, hfind, startsName_eq, hword,
      Bool.true_and]
    simp only [bind, Except.bind, Option.map_some]
    -- a name that another one runs into is passed over
    cases before.getLast?.any isNameChar with
    | false =>
      obtain ⟨name, later, hname, ⟨rest, rfl⟩, hnameChars, hat⟩ :=
        directAt_eq script all hplace hfind
      refine ⟨tail ++ rest, later, (List.cons.inj hname).2, hnameChars, ?_⟩
      simp only [Bool.not_false, ↓reduceIte, hat]
      rfl
    | true =>
      refine ⟨tail, behind, (List.cons.inj hcs).2,
        fun d hd => isNameChar_of_isWordChar (hchars d hd), ?_⟩
      simp only [Bool.not_true, Bool.false_eq_true, ↓reduceIte, List.nil_append]
      cases directFrom script all line fuel (byteLength before + byteLength (c :: tail)) <;> rfl

/-- The direct accesses of a line are found without a fault. -/
theorem directFrom_eq (script : List Char) (all : List Change) (line : Line)
    {before rest : List Char} (htext : line.text = before ++ rest) {fuel : Nat}
    (hfuel : byteLength rest < fuel) :
    directFrom script all line fuel (byteLength before) =
      .ok (ObjectState.directAccesses script all line.number before.getLast?
        (line.offset + byteLength before) rest) := by
  rw [directAccesses_eq_scanNames]
  induction hn : rest.length using Nat.strong_induction_on generalizing before rest fuel with
  | _ n ih =>
  obtain ⟨fuel, rfl⟩ : ∃ k, fuel = k + 1 := ⟨fuel - 1, by omega⟩
  cases rest with
  | nil =>
    rw [directFrom, htext, List.append_nil, if_neg (Nat.lt_irrefl _)]
    rfl
  | cons c cs =>
    have hpos := c.utf8Size_pos
    rw [byteLength_cons] at hfuel
    cases hword : Lexer.isWordStart c with
    | true =>
      -- the search goes on behind the name
      obtain ⟨name, behind, rfl, hchars, hname⟩ :=
        exists_directFrom_name script all htext hword fuel
      have hbehind : byteLength behind < fuel := by
        rw [byteLength_append] at hfuel
        omega
      have hshorter : behind.length < n := by
        rw [← hn, List.length_cons, List.length_append]
        omega
      have hnext := @ih behind.length hshorter (before ++ c :: name) behind
        (by rw [htext, List.append_assoc, List.cons_append]) fuel hbehind rfl
      rw [byteLength_append, ← Nat.add_assoc] at hnext
      rw [hname, hnext, ← List.cons_append, scanNames_name _ _ hchars]
      rfl
    -- no word starts here, so one character is passed over
    | false =>
      have hplace : Follows line.text (byteLength before) (c :: cs) := ⟨before, htext, rfl⟩
      have hbehind : byteLength cs < fuel + 1 - c.utf8Size := by omega
      have hnext := @ih cs.length (by rw [← hn]; exact Nat.lt_succ_self _) (before ++ [c]) cs
        (by rw [htext, List.append_assoc, List.singleton_append]) _ hbehind rfl
      simp only [byteLength_append, byteLength_cons, byteLength_nil, Nat.add_zero,
        List.getLast?_concat] at hnext
      rw [directFrom_over script all hplace hword (by omega), scanNames,
        startsName_eq, hword, Nat.add_assoc]
      exact hnext

-- ---------------------------------------------------------------------------
-- Earlier values
-- ---------------------------------------------------------------------------

theorem le_spacesEnd (text : List Char) (i : Nat) : i ≤ spacesEnd text i :=
  Nat.le_add_right ..

/-- The finding about a field behind a closing parenthesis. -/
theorem historyField_eq (script : List Char) {line : Line} {i close : Nat}
    (object : List Char) {index : Range} {cs rest history : List Char}
    (h : Follows line.text i cs) (hclose : Follows line.text close rest) (hle : i ≤ close)
    (hhistory : slice line.text index.start index.stop = .ok history) :
    historyField script line i close object index =
      .ok (match rest with
        | ')' :: rest => do
          let (field, behind) ← ObjectState.field? rest
          some (⟨.naHistoryAccess (String.ofList object) (String.ofList field)
            (String.ofList (Text.trim history)),
            locate script (line.offset + i) (byteLength cs - byteLength behind)⟩ : Finding)
        | _ => none).toList := by
  rw [historyField, hclose.testChar ')' (by decide)]
  cases rest with
  | nil => rfl
  | cons c rest =>
    by_cases hc : c = ')'
    · subst hc
      have hfield := hclose.tail (by decide)
      rw [if_neg (by simp), fieldRange?_eq hfield]
      cases hfind : ObjectState.field? rest with
      | none => simp [hfind]
      | some found =>
        obtain ⟨field, behind⟩ := found
        obtain ⟨rfl, -⟩ := field?_eq_some hfind
        have hname := hfield.tail (by decide)
        -- the finding goes from the parenthesis to the end of the field
        have hlength : minus (close + 1 + 1 + byteLength field) i =
            .ok (byteLength cs - byteLength behind) := by
          have hcs := h.length_eq
          rw [hname.append.length_eq] at hcs
          rw [minus_eq (by omega)]
          congr 1
          omega
        simp only [Option.map_some, bind, Except.bind, hhistory, hname.slice, hlength, location_eq,
          hfind, Option.bind_some]
        rfl
    · simp [hc]

/-- The finding at an opening parenthesis. -/
theorem historyAt_eq (script : List Char) (all : List Change) {line : Line} {inner : List Char}
    {i : Nat} (h : Follows line.text i ('(' :: inner))
    (hsize : byteLength line.text < counterLimit) :
    historyAt script all line i =
      .ok (ObjectState.historyAccess? script all (line.offset + i) ('(' :: inner)).toList := by
  have hstart := (h.tail (by decide)).skipSpaces
  rw [historyAt, ObjectState.historyAccess?]
  simp only [hstart.wordEnd?, Option.bind_eq_bind]
  cases hfind : Text.word? (Text.skipSpaces inner) with
  | none => rfl
  | some found =>
    obtain ⟨object, rest⟩ := found
    obtain ⟨hinner, -⟩ := word?_eq_some hfind
    rw [hinner] at hstart
    have hbracket := hstart.append.skipSpaces
    simp only [Option.map_some, Option.bind_some, hstart.slice, bind, Except.bind]
    cases all.any (·.object = object) with
    | false => rfl
    | true =>
      have hle₁ := le_spacesEnd line.text (i + 1)
      have hle₂ := le_spacesEnd line.text (spacesEnd line.text (i + 1) + byteLength object)
      simp only [hbracket.testChar '[' (by decide)]
      generalize
        spacesEnd line.text (spacesEnd line.text (i + 1) + byteLength object) = bracket at *
      match hskip : Text.skipSpaces rest, hbracket with
      | [], _ => simp
      | c :: behind, hbracket =>
        -- behind the object a bracket has to open
        by_cases hc : c = '['
        · subst hc
          rw [matchingDelimiter_eq (by decide) (by decide) (by decide) hbracket hsize]
          cases hup : Text.upToClosing? '[' ']' 1 behind with
          | none => simp [hup]
          | some pieces =>
            obtain ⟨history, later⟩ := pieces
            obtain ⟨after, rfl, rfl⟩ := upToClosing?_append hup
            have hhistory := hbracket.tail (by decide)
            have hclose := (hhistory.append.tail (by decide)).skipSpaces
            have hle₃ := le_spacesEnd line.text (bracket + 1 + byteLength history + 1)
            have hfield := historyField_eq script object h hclose (by omega)
              (show slice _ (Range.mk _ _).start (Range.mk _ _).stop = _ from hhistory.slice)
            simp only [hup, Option.bind_some, List.head?_cons, decide_true, Bool.not_true,
              Bool.false_eq_true, ↓reduceIte, List.drop_succ_cons, List.drop_zero]
            exact hfield
        · simp [hc]

/-- The accesses behind history references are found without a fault. -/
theorem historyAccesses_eq (script : List Char) (all : List Change) {line : Line}
    (hsize : byteLength line.text < counterLimit) {cs : List Char} {i : Nat}
    (h : Follows line.text i cs) :
    collect (historyAt script all line) (offsetsOf '(' i cs) =
      .ok (ObjectState.historyAccesses script all (line.offset + i) cs) := by
  induction cs generalizing i with
  | nil => rfl
  | cons c cs ih =>
    have hnext := ih (h.append (a := [c]))
    rw [byteLength_cons, byteLength_nil, Nat.add_zero] at hnext
    rw [offsetsOf, ObjectState.historyAccesses, Nat.add_assoc]
    split
    · next hc =>
      subst hc
      rw [collect, historyAt_eq script all h hsize, hnext]
      rfl
    · next hc =>
      -- without a parenthesis there is no access
      have hnone : ObjectState.historyAccess? script all (line.offset + i) (c :: cs) = none := by
        rw [ObjectState.historyAccess?.eq_def]
        split
        · next heq =>
          cases heq
          exact absurd rfl hc
        · rfl
      rw [hnext, hnone]
      rfl

/-- **The check of objects never goes wrong**, and it finds what is found by going through
the characters. -/
theorem objectState_eq (script : List Char) {masked : List Char}
    (hsize : byteLength masked < counterLimit) :
    objectState script masked = .ok (ObjectState.check script masked) := by
  rw [objectState, collectTypes_eq, ObjectState.check, ObjectState.changes]
  simp only [bind, Except.bind, changesFrom_eq]
  generalize
    ObjectState.changesFrom (ObjectState.declaredTypes (Text.lines masked)) [] _ = all
  refine collect_eq fun line hline => ?_
  have hline := Nat.lt_of_le_of_lt (byteLength_line_le hline) hsize
  have htext : line.text = [] ++ line.text := rfl
  have hdirect := directFrom_eq script all line htext (Nat.lt_succ_self _)
  have hhistory := historyAccesses_eq script all hline (Follows.start line.text)
  rw [byteLength_nil, Nat.add_zero] at hdirect
  rw [hdirect, hhistory]
  rfl

end PineCheck.Indexed
