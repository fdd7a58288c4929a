import Mathlib
import PineCheck.Proofs.SortedFields

/-!
# PineCheck — rulebooks that are written as trees

A rulebook may be a flat object with one field for every code, or a tree whose objects name
their codes themselves. An object of a tree may both define a code and hold other objects
that do. This module says that a tree means the list of its coded objects, each before those
inside it, read as if it were the flat object:

* `readTree_eq_readFlat` — the induction over the tree.
* `exists_readFlat_iff`, `mem_codes_readFlat`, `setting?_readFlat` — what a list of definitions
  comes to: it is read exactly if every definition in it can be, and the last one for a code
  counts.
* `readFlat_of_perm` — the order of definitions makes no difference if the codes are distinct.
* `read_tree` — which trees are read, and what the rulebook holds then.
-/

namespace PineCheck

-- ---------------------------------------------------------------------------
-- Coded objects
-- ---------------------------------------------------------------------------

namespace Json

/-- The code that an object names for itself. -/
def code? (json : Json) : Option String :=
  match json.field? "errorCode" with
  | some (.string code) => some code
  | _ => none

/-- An object with its code, if it names one. -/
def coded? (json : Json) : Option (String × Json) :=
  json.code?.map (·, json)

/-- The objects of a value at any depth that name a code, each with its code. -/
def codedObjects (json : Json) : List (String × Json) :=
  json.objects.filterMap coded?

/-- An object has a code if its field for it is a string. -/
theorem code?_eq_some_iff {json : Json} {code : String} :
    json.code? = some code ↔ json.field? "errorCode" = some (.string code) := by
  unfold code?
  split
  · next value heq => simp [heq]
  · next hno =>
    refine iff_of_false nofun fun heq => hno code heq

/-- The objects of a tree that have a code. -/
theorem mem_codedObjects {tree json : Json} {code : String} :
    (code, json) ∈ tree.codedObjects ↔
      json ∈ tree.objects ∧ json.field? "errorCode" = some (.string code) := by
  unfold codedObjects
  rw [List.mem_filterMap]
  constructor
  · rintro ⟨other, hother, hcoded⟩
    obtain ⟨found, hfound, heq⟩ := Option.map_eq_some_iff.mp hcoded
    cases heq
    exact ⟨hother, code?_eq_some_iff.mp hfound⟩
  · rintro ⟨hjson, hfield⟩
    refine ⟨json, hjson, ?_⟩
    rw [coded?, code?_eq_some_iff.mpr hfield]
    rfl

/-- What has a code is an object. -/
theorem isObject_of_code? {json : Json} {code : String}
    (h : json.field? "errorCode" = some (.string code)) : ∃ fields, json = .object fields := by
  cases json with
  | object fields => exact ⟨fields, rfl⟩
  | _ => cases h

-- ---------------------------------------------------------------------------
-- Well-typed settings
-- ---------------------------------------------------------------------------

/-- Whether a value is a number. -/
def IsNumber (json : Json) : Prop :=
  (∃ n, json = .int n) ∨ ∃ x, json = .float x

/-- Whether a value is a natural number that fits a machine word. -/
def IsWord (json : Json) : Prop :=
  ∃ n : Nat, json = .int n ∧ n ≤ Numeral.maxWord

/-- Whether the settings that an object holds are well typed. The switch must be a truth
value if it is there, and each of the others may be `null`. -/
structure IsSetting (json : Json) : Prop where
  isEnabled : ∀ value, json.field? "enabled" = some value → ∃ b, value = .bool b
  maxLength : ∀ value, json.field? "maxLength" = some value → value = .null ∨ value.IsWord
  min : ∀ value, json.field? "min" = some value → value = .null ∨ value.IsNumber
  max : ∀ value, json.field? "max" = some value → value = .null ∨ value.IsNumber

/-- A word is read from a number that fits it. -/
theorem isSome_asWord?_iff (json : Json) : json.asWord?.isSome ↔ json.IsWord := by
  unfold asWord? IsWord
  split
  · next n =>
    split
    · next hle => exact iff_of_true rfl ⟨n, rfl, hle⟩
    · next hgt =>
      refine iff_of_false nofun ?_
      rintro ⟨m, heq, hle⟩
      cases heq
      exact hgt hle
  · next hno =>
    refine iff_of_false nofun ?_
    rintro ⟨n, rfl, -⟩
    exact hno n rfl

/-- A float is read from a number. -/
theorem isSome_asFloat?_iff (json : Json) : json.asFloat?.isSome ↔ json.IsNumber := by
  unfold asFloat? IsNumber
  split
  · next n => exact iff_of_true rfl (.inl ⟨.ofNat n, rfl⟩)
  · next n => exact iff_of_true rfl (.inl ⟨.negSucc n, rfl⟩)
  · next x => exact iff_of_true rfl (.inr ⟨x, rfl⟩)
  · next hnat hneg hfloat =>
    refine iff_of_false nofun ?_
    rintro (⟨n, rfl⟩ | ⟨x, rfl⟩)
    · cases n with
      | ofNat n => exact hnat n rfl
      | negSucc n => exact hneg n rfl
    · exact hfloat x rfl

/-- The objects of a field are among those of the object. -/
theorem mem_objects_of_field? {root tree json : Json} {name : String}
    (h : root.field? name = some tree) (hjson : json ∈ tree.objects) : json ∈ root.objects := by
  cases root with
  | object fields =>
    obtain ⟨field, hfind, rfl⟩ := Option.map_eq_some_iff.mp h
    rw [objects]
    refine List.mem_cons_of_mem _ (mem_objectsOfFields.mpr ⟨field, ?_, hjson⟩)
    exact List.mem_of_find?_eq_some hfind
  | _ => cases h

end Json

namespace Rulebook

-- ---------------------------------------------------------------------------
-- Trees as lists
-- ---------------------------------------------------------------------------

/-- Two lists of definitions are read one behind the other. -/
theorem readFlat_append (book : Rulebook) (entries others : List (String × Json)) :
    readFlat book (entries ++ others) =
      (readFlat book entries >>= fun book => readFlat book others) := by
  induction entries generalizing book with
  | nil => rfl
  | cons entry entries ih =>
    obtain ⟨code, json⟩ := entry
    simp only [List.cons_append, readFlat, ih, bind_assoc]

/-- An object defines a rule if it has a code. -/
theorem defineOwn_eq (book : Rulebook) (json : Json) :
    book.defineOwn json = readFlat book json.coded?.toList := by
  unfold defineOwn Json.coded?
  cases hcode : json.code? with
  | some code =>
    rw [Json.code?_eq_some_iff.mp hcode]
    exact (bind_pure (book.defineJson code json)).symm
  | none =>
    split
    · next code heq =>
      rw [Json.code?_eq_some_iff.mpr heq] at hcode
      cases hcode
    · rfl

mutual

/-- Reading a tree is reading the list of its coded objects. -/
theorem readTree_eq_readFlat (book : Rulebook) (tree : Json) :
    readTree book tree = readFlat book tree.codedObjects := by
  match tree with
  | .object fields =>
    have hobjects : (Json.object fields).codedObjects =
        (Json.object fields).coded?.toList ++
          (Json.objectsOfFields fields).filterMap Json.coded? := by
      rw [Json.codedObjects, Json.objects, List.filterMap_cons]
      cases (Json.object fields).coded? <;> rfl
    rw [hobjects, readFlat_append, ← defineOwn_eq, readTree]
    exact bind_congr fun book => readTreeFields_eq_readFlat book fields
  | .array elements =>
    rw [readTree, Json.codedObjects, Json.objects]
    exact readTreeElements_eq_readFlat book elements
  | .null | .bool _ | .int _ | .float _ | .string _ => rfl

/-- The fields of an object are read as the objects below them, in order. -/
theorem readTreeFields_eq_readFlat (book : Rulebook) (fields : List (String × Json)) :
    readTreeFields book fields =
      readFlat book ((Json.objectsOfFields fields).filterMap Json.coded?) := by
  match fields with
  | [] => rfl
  | (_, json) :: fields =>
    rw [readTreeFields, Json.objectsOfFields, List.filterMap_append, readFlat_append,
      readTree_eq_readFlat book json]
    exact bind_congr fun book => readTreeFields_eq_readFlat book fields

/-- The elements of an array are read as the objects below them, in order. -/
theorem readTreeElements_eq_readFlat (book : Rulebook) (elements : List Json) :
    readTreeElements book elements =
      readFlat book ((Json.objectsOfElements elements).filterMap Json.coded?) := by
  match elements with
  | [] => rfl
  | json :: elements =>
    rw [readTreeElements, Json.objectsOfElements, List.filterMap_append, readFlat_append,
      readTree_eq_readFlat book json]
    exact bind_congr fun book => readTreeElements_eq_readFlat book elements

end

-- ---------------------------------------------------------------------------
-- Lists of definitions
-- ---------------------------------------------------------------------------

/-- Whether a rule is enabled is a truth value, or is not said. -/
theorem isSome_readEnabled?_iff (json : Json) : (readEnabled? json).isSome ↔
    ∀ value, json.field? "enabled" = some value → ∃ b, value = .bool b := by
  unfold readEnabled?
  split
  · next hnone => exact iff_of_true rfl fun value heq => absurd (hnone.symm.trans heq) nofun
  · next b hbool =>
    refine iff_of_true rfl fun value heq => ⟨b, ?_⟩
    rw [hbool, Option.some_inj] at heq
    exact heq.symm
  · next other hno hother =>
    refine iff_of_false nofun fun h => ?_
    obtain ⟨b, hb⟩ := h other hother
    exact hno b hb

/-- An optional field may be missing or `null`. -/
theorem isSome_readOptional?_iff {α : Type} (json : Json) (name : String)
    (decode? : Json → Option α) : (readOptional? json name decode?).isSome ↔
      ∀ value, json.field? name = some value → value = .null ∨ (decode? value).isSome := by
  unfold readOptional?
  split
  · next hnone => exact iff_of_true rfl fun value heq => absurd (hnone.symm.trans heq) nofun
  · next hnull =>
    refine iff_of_true rfl fun value heq => .inl ?_
    rw [hnull, Option.some_inj] at heq
    exact heq.symm
  · next other hno hother =>
    rw [Option.isSome_map]
    constructor
    · intro hsome value heq
      rw [hother, Option.some_inj] at heq
      subst heq
      exact .inr hsome
    · intro h
      exact (h other hother).resolve_left hno

/-- An object can be read as the settings of a code exactly if they are well typed. -/
theorem isSome_readSetting?_iff (fields : List (String × Json)) :
    (readSetting? (.object fields)).isSome ↔ (Json.object fields).IsSetting := by
  have hparts : (readSetting? (.object fields)).isSome ↔
      (readEnabled? (.object fields)).isSome ∧
      (readOptional? (.object fields) "maxLength" Json.asWord?).isSome ∧
      (readOptional? (.object fields) "min" Json.asFloat?).isSome ∧
      (readOptional? (.object fields) "max" Json.asFloat?).isSome := by
    unfold readSetting?
    cases readEnabled? (.object fields) <;>
      cases readOptional? (.object fields) "maxLength" Json.asWord? <;>
      cases readOptional? (.object fields) "min" Json.asFloat? <;>
      cases readOptional? (.object fields) "max" Json.asFloat? <;> simp
  rw [hparts, isSome_readEnabled?_iff]
  simp only [isSome_readOptional?_iff, Json.isSome_asWord?_iff, Json.isSome_asFloat?_iff]
  constructor
  · rintro ⟨henabled, hlength, hmin, hmax⟩
    exact ⟨henabled, hlength, hmin, hmax⟩
  · rintro ⟨henabled, hlength, hmin, hmax⟩
    exact ⟨henabled, hlength, hmin, hmax⟩

/-- What a definition does: it fails, or it is put in place. -/
theorem defineJson_eq_ok_iff {book result : Rulebook} {code : String} {json : Json} :
    book.defineJson code json = .ok result ↔
      ∃ setting, readSetting? json = some setting ∧
        result.settings = insertByName code setting book.settings := by
  unfold defineJson
  cases hread : readSetting? json with
  | none => exact iff_of_false nofun fun ⟨_, heq, _⟩ => nomatch heq
  | some setting =>
    constructor
    · intro h
      cases h
      exact ⟨setting, rfl, insertSorted_eq code setting book.settings⟩
    · rintro ⟨other, heq, hsettings⟩
      cases heq
      obtain ⟨settings⟩ := result
      show Except.ok (book.define code setting) = .ok ⟨settings⟩
      rw [define, insertSorted_eq, ← hsettings]

/-- One definition of a list, and the others. -/
theorem readFlat_cons_eq_ok_iff {book result : Rulebook} {code : String} {json : Json}
    {entries : List (String × Json)} :
    readFlat book ((code, json) :: entries) = .ok result ↔
      ∃ next, book.defineJson code json = .ok next ∧ readFlat next entries = .ok result := by
  rw [readFlat]
  cases book.defineJson code json with
  | error error => exact iff_of_false nofun fun ⟨_, heq, _⟩ => nomatch heq
  | ok next =>
    constructor
    · intro h
      exact ⟨next, rfl, h⟩
    · rintro ⟨other, heq, h⟩
      cases heq
      exact h

/-- A list of definitions is read exactly if each of them can be. -/
theorem exists_readFlat_iff (book : Rulebook) (entries : List (String × Json)) :
    (∃ result, readFlat book entries = .ok result) ↔
      ∀ entry ∈ entries, (readSetting? entry.2).isSome := by
  induction entries generalizing book with
  | nil => exact iff_of_true ⟨book, rfl⟩ (List.forall_mem_nil _)
  | cons entry entries ih =>
    obtain ⟨code, json⟩ := entry
    rw [List.forall_mem_cons]
    simp only [readFlat_cons_eq_ok_iff]
    constructor
    · rintro ⟨result, next, hdefine, hread⟩
      obtain ⟨setting, hsetting, -⟩ := defineJson_eq_ok_iff.mp hdefine
      exact ⟨Option.isSome_of_eq_some hsetting, (ih next).mp ⟨result, hread⟩⟩
    · rintro ⟨hsome, hothers⟩
      obtain ⟨setting, hsetting⟩ := Option.isSome_iff_exists.mp hsome
      obtain ⟨result, hread⟩ := (ih ⟨insertByName code setting book.settings⟩).mpr hothers
      exact ⟨result, _, defineJson_eq_ok_iff.mpr ⟨setting, hsetting, rfl⟩, hread⟩

/-- The codes of a rulebook stay in order. -/
theorem ascending_readFlat {book result : Rulebook} {entries : List (String × Json)}
    (hbook : Ascending book.settings) (h : readFlat book entries = .ok result) :
    Ascending result.settings := by
  induction entries generalizing book with
  | nil =>
    cases h
    exact hbook
  | cons entry entries ih =>
    obtain ⟨next, hdefine, hread⟩ := readFlat_cons_eq_ok_iff.mp h
    obtain ⟨setting, -, hsettings⟩ := defineJson_eq_ok_iff.mp hdefine
    exact ih (hsettings ▸ hbook.insert) hread

/-- A list of definitions adds its codes to those of the rulebook. -/
theorem mem_codes_readFlat {book result : Rulebook} {entries : List (String × Json)}
    (h : readFlat book entries = .ok result) (code : String) :
    code ∈ result.settings.map Prod.fst ↔
      code ∈ entries.map Prod.fst ∨ code ∈ book.settings.map Prod.fst := by
  induction entries generalizing book with
  | nil =>
    cases h
    simp
  | cons entry entries ih =>
    obtain ⟨next, hdefine, hread⟩ := readFlat_cons_eq_ok_iff.mp h
    obtain ⟨setting, -, hsettings⟩ := defineJson_eq_ok_iff.mp hdefine
    rw [ih hread, hsettings, mem_names_insertByName, List.map_cons, List.mem_cons, or_assoc]
    exact or_left_comm

/-- The last definition of a code counts, and without one the rulebook says what it did. -/
theorem setting?_readFlat {book result : Rulebook} {entries : List (String × Json)}
    (h : readFlat book entries = .ok result) (code : String) :
    result.setting? code =
      match entries.reverse.lookup code with
      | some json => readSetting? json
      | none => book.setting? code := by
  induction entries generalizing book with
  | nil =>
    cases h
    rfl
  | cons entry entries ih =>
    obtain ⟨next, hdefine, hread⟩ := readFlat_cons_eq_ok_iff.mp h
    obtain ⟨setting, hsetting, hsettings⟩ := defineJson_eq_ok_iff.mp hdefine
    have hnext : next.setting? code =
        if entry.1 = code then some setting else book.setting? code := by
      rw [setting?, hsettings]
      exact find?_insertByName entry.1 setting book.settings code
    rw [ih hread, hnext, List.reverse_cons, List.lookup_append]
    -- a later definition counts, or else this one if it is for the code
    cases entries.reverse.lookup code with
    | some json => rfl
    | none =>
      by_cases heq : entry.1 = code
      · simp [List.lookup, heq, hsetting]
      · have hbeq : (code == entry.1) = false := beq_false_of_ne (Ne.symm heq)
        simp [List.lookup, heq, hbeq]

-- ---------------------------------------------------------------------------
-- The order of definitions
-- ---------------------------------------------------------------------------

/-- The setting that a definition gives to its code. -/
def defined? (entry : String × Json) : Option (String × RuleSetting) :=
  (readSetting? entry.2).map (entry.1, ·)

/-- Definitions of new and distinct codes are added to the rulebook, one setting for each. -/
theorem perm_readFlat {book result : Rulebook} {entries : List (String × Json)}
    (hnodup : (entries.map Prod.fst).Nodup)
    (hnew : ∀ entry ∈ entries, entry.1 ∉ book.settings.map Prod.fst)
    (h : readFlat book entries = .ok result) :
    result.settings.Perm (entries.filterMap defined? ++ book.settings) := by
  induction entries generalizing book with
  | nil =>
    cases h
    exact .refl _
  | cons entry entries ih =>
    obtain ⟨next, hdefine, hread⟩ := readFlat_cons_eq_ok_iff.mp h
    obtain ⟨setting, hsetting, hsettings⟩ := defineJson_eq_ok_iff.mp hdefine
    rw [List.map_cons, List.nodup_cons] at hnodup
    have hnext : next.settings.Perm ((entry.1, setting) :: book.settings) := by
      rw [hsettings]
      exact perm_insertByName (hnew entry List.mem_cons_self)
    -- the codes further on are new and distinct in the longer rulebook too
    have hlater : ∀ other ∈ entries, other.1 ∉ next.settings.map Prod.fst := by
      intro other hother
      rw [(hnext.map Prod.fst).mem_iff, List.map_cons, List.mem_cons, not_or]
      refine ⟨fun heq => ?_, hnew other (List.mem_cons_of_mem entry hother)⟩
      exact hnodup.1 (heq ▸ List.mem_map_of_mem hother)
    have hown : defined? entry = some (entry.1, setting) := by
      rw [defined?, hsetting, Option.map_some]
    rw [List.filterMap_cons, hown]
    exact (ih hnodup.2 hlater hread).trans ((hnext.append_left _).trans List.perm_middle)

/-- A rulebook that is read is read without an error. -/
theorem toOption_eq_some_iff {result : Except RulebookError Rulebook} {book : Rulebook} :
    result.toOption = some book ↔ result = .ok book := by
  cases result with
  | error error => exact iff_of_false nofun nofun
  | ok other =>
    constructor
    · intro h
      cases h
      rfl
    · intro h
      cases h
      rfl

/-- The order in which distinct codes are defined makes no difference. -/
theorem readFlat_of_perm {entries others : List (String × Json)} {result : Rulebook}
    (hnodup : (entries.map Prod.fst).Nodup) (hperm : entries.Perm others)
    (h : readFlat empty entries = .ok result) : readFlat empty others = .ok result := by
  have hsome := (exists_readFlat_iff empty entries).mp ⟨result, h⟩
  obtain ⟨other, hother⟩ := (exists_readFlat_iff empty others).mpr fun entry hentry =>
    hsome entry (hperm.mem_iff.mpr hentry)
  have hnodup' : (others.map Prod.fst).Nodup := (hperm.map Prod.fst).nodup_iff.mp hnodup
  have hsettings : other.settings.Perm result.settings := calc
    List.Perm other.settings (others.filterMap defined? ++ []) :=
      perm_readFlat hnodup' (fun _ _ => List.not_mem_nil) hother
    List.Perm _ (entries.filterMap defined? ++ []) :=
      (hperm.symm.filterMap defined?).append_right []
    List.Perm _ result.settings :=
      (perm_readFlat hnodup (fun _ _ => List.not_mem_nil) h).symm
  have heq := (ascending_readFlat .nil hother).eq_of_perm (ascending_readFlat .nil h) hsettings
  obtain ⟨settings⟩ := other
  obtain ⟨settings'⟩ := result
  rw [hother, show settings = settings' from heq]

-- ---------------------------------------------------------------------------
-- Results
-- ---------------------------------------------------------------------------

/-- **Reading a tree.** Take a text whose value holds a tree of rules and no flat definitions.

* It is read exactly if the settings of every object of the tree that names a code are well
  typed, however deep the object is.
* The objects are visited with every object before those inside it and with fields in the
  order of the bytes of their names. The rulebook has the codes that are named and no
  others, each once, and of several objects with one code the last one counts.
* If no code is named twice, flat definitions that give every code its object are read as
  the same rulebook, and are not read if the tree is not. -/
theorem read_tree {text : String} {root tree : Json} (hroot : Json.parse? text = some root)
    (hflat : root.field? "errorCodeDefinitions" = none)
    (htree : root.field? "functionValidationRules" = some tree) :
    ((∃ book, read text = .ok book) ↔
      ∀ json ∈ tree.objects, ∀ code, json.field? "errorCode" = some (.string code) →
        json.IsSetting) ∧
    (∀ fields, Json.object fields ∈ tree.objects →
      (fields.map fun field => utf8 field.1.toList).Pairwise (· < ·)) ∧
    (∀ book, read text = .ok book →
      Ascending book.settings ∧
      ∀ code,
        (code ∈ book.settings.map Prod.fst ↔ code ∈ tree.codedObjects.map Prod.fst) ∧
        book.setting? code = (tree.codedObjects.reverse.lookup code).bind readSetting?) ∧
    ((tree.codedObjects.map Prod.fst).Nodup →
      ∀ flat fields, flat.field? "errorCodeDefinitions" = some (.object fields) →
        fields.Perm tree.codedObjects → (ofJson flat).toOption = (read text).toOption) := by
  have hread : read text = readFlat empty tree.codedObjects := by
    simp only [read, hroot, ofJson, hflat, htree]
    exact readTree_eq_readFlat empty tree
  rw [hread]
  refine ⟨?_, ?_, ?_, ?_⟩
  -- read if and only if every coded object is a setting
  · rw [exists_readFlat_iff]
    constructor
    · intro h json hjson code hcode
      obtain ⟨fields, rfl⟩ := Json.isObject_of_code? hcode
      exact (isSome_readSetting?_iff fields).mp
        (h (code, _) (Json.mem_codedObjects.mpr ⟨hjson, hcode⟩))
    · rintro h ⟨code, json⟩ hentry
      obtain ⟨hjson, hcode⟩ := Json.mem_codedObjects.mp hentry
      obtain ⟨fields, rfl⟩ := Json.isObject_of_code? hcode
      exact (isSome_readSetting?_iff fields).mpr (h _ hjson code hcode)
  -- the fields of every object are sorted by their bytes
  · intro fields hmem
    exact (Json.isOrdered_of_parse? hroot).2 fields (Json.mem_objects_of_field? htree hmem)
  -- what the rulebook says
  · intro book hbook
    refine ⟨ascending_readFlat .nil hbook, fun code => ⟨?_, ?_⟩⟩
    · rw [mem_codes_readFlat hbook code]
      exact or_iff_left List.not_mem_nil
    · rw [setting?_readFlat hbook code]
      cases tree.codedObjects.reverse.lookup code <;> rfl
  -- flat definitions of the same objects
  · intro hnodup flat fields hfields hperm
    have hofJson : ofJson flat = readFlat empty fields := by simp only [ofJson, hfields]
    have hnodup' := (hperm.map Prod.fst).nodup_iff.mpr hnodup
    rw [hofJson]
    refine Option.ext fun book => ?_
    rw [toOption_eq_some_iff, toOption_eq_some_iff]
    exact ⟨readFlat_of_perm hnodup' hperm, readFlat_of_perm hnodup hperm.symm⟩

/-- An object that turns a code off. -/
def quietRule : Json :=
  .object [("enabled", .bool false), ("errorCode", .string "A")]

/-- An object that both defines a code and holds another object that does. -/
def outerRule : Json :=
  .object [("errorCode", .string "B"), ("inner", quietRule), ("maxLength", .int 12)]

/-- A text with both objects in a tree. -/
def nestedText : String :=
  "\x7b\"functionValidationRules\":\x7b\"f\":[\x7b\"maxLength\":12,\"errorCode\":\"B\"," ++
    "\"inner\":\x7b\"errorCode\":\"A\",\"enabled\":false\x7d\x7d]\x7d\x7d"

/-- Both objects of the text are read, and flat definitions with the two give the same. -/
theorem read_tree_nested :
    ∃ book, read nestedText = .ok book ∧
      (∀ code, code ∈ book.settings.map Prod.fst ↔ code ∈ ["B", "A"]) ∧
      book.setting? "A" = some { isEnabled := false } ∧
      book.setting? "B" = some { maxLength := some 12 } ∧
      ofJson (.object [("errorCodeDefinitions", .object [("A", quietRule), ("B", outerRule)])]) =
        .ok book := by
  have hroot : Json.parse? nestedText =
      some (.object [("functionValidationRules", .object [("f", .array [outerRule])])]) := by
    cbv
  obtain ⟨hread, -, hbook, hsame⟩ := read_tree hroot rfl rfl
  have htyped : ∀ json ∈ [.object [("f", .array [outerRule])], outerRule, quietRule],
      json.IsSetting :=
    List.forall_mem_cons.mpr ⟨(isSome_readSetting?_iff _).mp rfl,
      List.forall_mem_cons.mpr ⟨(isSome_readSetting?_iff _).mp rfl,
        List.forall_mem_singleton.mpr ((isSome_readSetting?_iff _).mp rfl)⟩⟩
  obtain ⟨book, hok⟩ := hread.mpr fun json hjson _ _ => htyped json hjson
  have hflat := hsame (by decide) (.object [("errorCodeDefinitions",
    .object [("A", quietRule), ("B", outerRule)])]) _ rfl (.swap _ _ _)
  rw [hok] at hflat
  have hcodes := (hbook book hok).2
  exact ⟨book, hok, fun code => (hcodes code).1, (hcodes "A").2, (hcodes "B").2,
    toOption_eq_some_iff.mp hflat⟩

end Rulebook
end PineCheck
