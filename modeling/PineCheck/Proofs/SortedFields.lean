import PineCheck.Proofs.Place
import PineCheck.Rulebook

/-!
# PineCheck — fields in the order of their names

The fields of a JSON object are kept in the order of their names, and so are the codes of a
rulebook. Both are put in place one by one, and both lists say the same of a name that is
given twice: the last one counts.

* `utf8_lt_utf8` — the order of texts is the order of their bytes.
* `insertByName` — how both lists are filled, with what it does to the order, to the search
  for a name, and to the entries.
* `Json.objects` — the objects of a value at any depth, each before those inside it.
* `Json.isOrdered_of_parse?` — the fields of every object that is read from a text stand in
  the order of the bytes of their names.
-/

namespace PineCheck

-- ---------------------------------------------------------------------------
-- Texts and their bytes
-- ---------------------------------------------------------------------------

/-- The bytes of two characters differ at a place where the smaller one has the smaller
byte, so that it makes no difference what stands behind them. -/
theorem utf8EncodeChar_append_lt {c d : Char} (h : c < d) (a b : List UInt8) :
    String.utf8EncodeChar c ++ a < String.utf8EncodeChar d ++ b := by
  have hlt : c.val.toNat < d.val.toNat := h
  have hvalid := d.valid
  unfold UInt32.isValidChar Nat.isValidChar at hvalid
  -- encodings of different lengths have first bytes in different ranges
  fun_cases String.utf8EncodeChar c <;> fun_cases String.utf8EncodeChar d <;>
    simp (disch := omega) only [List.cons_append, List.nil_append, List.cons_lt_cons_iff,
      UInt8.lt_iff_toNat_lt, ← UInt8.toNat_inj, UInt8.toNat_ofNat', Nat.mod_eq_of_lt] <;> omega

/-- Texts are ordered as their bytes are. -/
theorem utf8_lt_utf8 {a b : List Char} (h : a < b) : utf8 a < utf8 b := by
  induction a generalizing b with
  | nil =>
    cases b with
    | nil => cases h
    | cons d ds =>
      have hne : String.utf8EncodeChar d ≠ [] := by
        rw [Ne, ← List.length_eq_zero_iff, String.length_utf8EncodeChar]
        have := d.utf8Size_pos
        omega
      obtain ⟨byte, bytes, hbytes⟩ := List.exists_cons_of_ne_nil hne
      rw [utf8_cons, hbytes]
      exact .nil
  | cons c cs ih =>
    cases b with
    | nil => cases h
    | cons d ds =>
      rw [utf8_cons, utf8_cons]
      rcases List.cons_lt_cons_iff.mp h with hlt | ⟨rfl, hlt⟩
      -- the first characters that differ decide, and so do their bytes
      · exact utf8EncodeChar_append_lt hlt _ _
      · exact List.append_left_lt (ih hlt)

-- ---------------------------------------------------------------------------
-- Entries in the order of their names
-- ---------------------------------------------------------------------------

section
variable {α : Type}

/-- Puts an entry into a list that is sorted by name, in place of an earlier one of this name. -/
def insertByName (name : String) (a : α) : List (String × α) → List (String × α)
  | [] => [(name, a)]
  | entry :: entries =>
    if name < entry.1 then (name, a) :: entry :: entries
    else if name = entry.1 then (name, a) :: entries
    else entry :: insertByName name a entries

/-- The fields of an object are inserted by name. -/
theorem insertField_eq (name : String) (value : Json) (fields : List (String × Json)) :
    JsonText.insertField name value fields = insertByName name value fields := by
  induction fields with
  | nil => rfl
  | cons field fields ih => rw [JsonText.insertField, insertByName, ih]

/-- The rules of a rulebook are inserted by code. -/
theorem insertSorted_eq (code : String) (setting : RuleSetting)
    (entries : List (String × RuleSetting)) :
    Rulebook.insertSorted code setting entries = insertByName code setting entries := by
  induction entries with
  | nil => rfl
  | cons entry entries ih => rw [Rulebook.insertSorted, insertByName, ih]

variable {name : String} {a : α} {entries : List (String × α)}

/-- Whether entries are in the order of their names, each name once. -/
def Ascending (entries : List (String × α)) : Prop :=
  entries.Pairwise fun entry other => entry.1 < other.1

/-- An inserted entry is the new one or an old one. -/
theorem mem_of_mem_insertByName {entry : String × α} (h : entry ∈ insertByName name a entries) :
    entry = (name, a) ∨ entry ∈ entries := by
  fun_induction insertByName name a entries with
  | case1 => exact .inl (List.mem_singleton.mp h)
  | case2 other entries _ => exact List.mem_cons.mp h
  | case3 other entries _ _ =>
    exact (List.mem_cons.mp h).imp_right (List.mem_cons_of_mem other)
  | case4 other entries _ _ ih =>
    rcases List.mem_cons.mp h with rfl | h
    · exact .inr List.mem_cons_self
    · exact (ih h).imp_right (List.mem_cons_of_mem other)

/-- The inserted names are the new one and the old ones. -/
theorem mem_names_insertByName {wanted : String} :
    wanted ∈ (insertByName name a entries).map Prod.fst ↔
      wanted = name ∨ wanted ∈ entries.map Prod.fst := by
  fun_induction insertByName name a entries with
  | case1 => simp
  | case2 => simp
  | case3 other entries _ heq => simp [heq]
  | case4 other entries _ _ ih =>
    rw [List.map_cons, List.map_cons, List.mem_cons, List.mem_cons, ih]
    exact or_left_comm

/-- Inserting keeps the order. -/
theorem Ascending.insert (h : Ascending entries) : Ascending (insertByName name a entries) := by
  fun_induction insertByName name a entries with
  | case1 => exact List.pairwise_singleton _ _
  | case2 other entries hlt =>
    refine List.pairwise_cons.mpr ⟨fun entry hentry => ?_, h⟩
    rcases List.mem_cons.mp hentry with rfl | hentry
    · exact hlt
    · exact String.lt_trans hlt (List.rel_of_pairwise_cons h hentry)
  -- an old entry of this name is replaced
  | case3 other entries hlt heq =>
    refine List.pairwise_cons.mpr ⟨fun entry hentry => ?_, h.of_cons⟩
    show name < entry.1
    rw [heq]
    exact List.rel_of_pairwise_cons h hentry
  | case4 other entries hlt hne ih =>
    refine List.pairwise_cons.mpr ⟨fun entry hentry => ?_, ih h.of_cons⟩
    rcases mem_of_mem_insertByName hentry with rfl | hentry
    · by_contra hnot
      exact hne (String.le_antisymm (String.not_lt.mp hnot) (String.not_lt.mp hlt))
    · exact List.rel_of_pairwise_cons h hentry

/-- A name finds what was put in place for it last, and every other name finds what it did. -/
theorem find?_insertByName (name : String) (a : α) (entries : List (String × α))
    (wanted : String) :
    ((insertByName name a entries).find? fun entry => entry.1 = wanted).map Prod.snd =
      if name = wanted then some a
      else (entries.find? fun entry => entry.1 = wanted).map Prod.snd := by
  fun_induction insertByName name a entries with
  | case1 => by_cases h : name = wanted <;> simp [h]
  | case2 other entries _ => by_cases h : name = wanted <;> simp [h]
  | case3 other entries _ heq => by_cases h : name = wanted <;> simp [h, ← heq]
  | case4 other entries _ hne ih =>
    by_cases h : other.1 = wanted
    · have hname : ¬ name = wanted := fun heq => hne (heq.trans h.symm)
      simp [h, hname]
    · simpa [h] using ih

/-- A name that is new is put between the others. -/
theorem perm_insertByName (h : name ∉ entries.map Prod.fst) :
    (insertByName name a entries).Perm ((name, a) :: entries) := by
  fun_induction insertByName name a entries with
  | case1 => exact .refl _
  | case2 => exact .refl _
  | case3 other entries _ heq => exact absurd (heq ▸ List.mem_cons_self) h
  | case4 other entries _ _ ih =>
    rw [List.map_cons, List.mem_cons, not_or] at h
    exact ((ih h.2).cons other).trans (.swap _ _ _)

/-- There is one way to put entries in order. -/
theorem Ascending.eq_of_perm {others : List (String × α)} (h : Ascending entries)
    (hothers : Ascending others) (hperm : entries.Perm others) : entries = others :=
  hperm.eq_of_pairwise (fun _ _ _ _ hlt hgt => absurd hgt (String.lt_asymm hlt)) h hothers

end

-- ---------------------------------------------------------------------------
-- Objects
-- ---------------------------------------------------------------------------

namespace Json

mutual

/-- The objects of a value at any depth, each before those inside it. -/
def objects : Json → List Json
  | object fields => object fields :: objectsOfFields fields
  | array elements => objectsOfElements elements
  | _ => []

/-- The objects of the fields of an object. -/
def objectsOfFields : List (String × Json) → List Json
  | [] => []
  | (_, value) :: fields => objects value ++ objectsOfFields fields

/-- The objects of the elements of an array. -/
def objectsOfElements : List Json → List Json
  | [] => []
  | element :: elements => objects element ++ objectsOfElements elements

end

/-- An object below some fields is below one of them. -/
theorem mem_objectsOfFields {json : Json} {fields : List (String × Json)} :
    json ∈ objectsOfFields fields ↔ ∃ field ∈ fields, json ∈ field.2.objects := by
  induction fields with
  | nil => simp [objectsOfFields]
  | cons field fields ih => simp [objectsOfFields, ih]

/-- An object below some elements is below one of them. -/
theorem mem_objectsOfElements {json : Json} {elements : List Json} :
    json ∈ objectsOfElements elements ↔ ∃ element ∈ elements, json ∈ element.objects := by
  induction elements with
  | nil => simp [objectsOfElements]
  | cons element elements ih => simp [objectsOfElements, ih]

/-- Whether the fields of every object of a value are in order. -/
def IsOrdered (json : Json) : Prop :=
  ∀ fields, object fields ∈ json.objects → Ascending fields

/-- An object is ordered if its fields are in order and their values ordered. -/
theorem isOrdered_object {fields : List (String × Json)} (h : Ascending fields)
    (hfields : ∀ field ∈ fields, field.2.IsOrdered) : (object fields).IsOrdered := by
  intro others hmem
  rw [objects, List.mem_cons] at hmem
  rcases hmem with heq | hmem
  · cases heq
    exact h
  · obtain ⟨field, hfield, hmem⟩ := mem_objectsOfFields.mp hmem
    exact hfields field hfield others hmem

/-- An array is ordered if its elements are. -/
theorem isOrdered_array {elements : List Json} (h : ∀ element ∈ elements, element.IsOrdered) :
    (array elements).IsOrdered := by
  intro fields hmem
  rw [objects] at hmem
  obtain ⟨element, helement, hmem⟩ := mem_objectsOfElements.mp hmem
  exact h element helement fields hmem

/-- What is neither an object nor an array has no objects. -/
theorem isOrdered_of_objects_eq_nil {json : Json} (h : json.objects = []) : json.IsOrdered := by
  intro fields hmem
  rw [h] at hmem
  cases hmem

end Json

namespace JsonText

/-- There is no object in a number. -/
theorem objects_of_numeral {numeral : Numeral} {json : Json} (h : numeral.value? = some json) :
    json.objects = [] := by
  unfold Numeral.value? at h
  dsimp only at h
  split at h
  · split at h
    · cases h
      rfl
    · split at h
      · cases h
        rfl
      · cases h
        rfl
  · obtain ⟨x, -, rfl⟩ := Option.map_eq_some_iff.mp h
    rfl

mutual

/-- A value that is read is ordered. -/
theorem isOrdered_of_valueWithin? (text : JsonText) {depth : Nat} {json : Json}
    (h : valueWithin? depth text = some json) : json.IsOrdered := by
  cases text with
  | null | bool => cases h; exact Json.isOrdered_of_objects_eq_nil rfl
  | number numeral => exact Json.isOrdered_of_objects_eq_nil (objects_of_numeral h)
  | string pieces =>
    obtain ⟨value, -, rfl⟩ := Option.map_eq_some_iff.mp h
    exact Json.isOrdered_of_objects_eq_nil rfl
  | array elements =>
    rw [valueWithin?] at h
    split at h
    · cases h
    · obtain ⟨values, hvalues, rfl⟩ := Option.map_eq_some_iff.mp h
      exact Json.isOrdered_array (isOrdered_of_elementsWithin? elements hvalues)
  | object fields =>
    rw [valueWithin?] at h
    split at h
    · cases h
    · obtain ⟨values, hvalues, rfl⟩ := Option.map_eq_some_iff.mp h
      obtain ⟨hascending, hordered⟩ :=
        isOrdered_of_fieldsWithin? fields .nil (List.forall_mem_nil _) hvalues
      exact Json.isOrdered_object hascending hordered

/-- The elements that are read are ordered. -/
theorem isOrdered_of_elementsWithin? (elements : List JsonText) {depth : Nat}
    {values : List Json} (h : elementsWithin? depth elements = some values) :
    ∀ value ∈ values, value.IsOrdered := by
  cases elements with
  | nil =>
    cases h
    exact List.forall_mem_nil _
  | cons element elements =>
    rw [elementsWithin?] at h
    obtain ⟨value, hvalue, h⟩ := Option.bind_eq_some_iff.mp h
    obtain ⟨others, hothers, h⟩ := Option.bind_eq_some_iff.mp h
    cases h
    exact List.forall_mem_cons.mpr ⟨isOrdered_of_valueWithin? element hvalue,
      isOrdered_of_elementsWithin? elements hothers⟩

/-- Putting the fields of an object in place one by one keeps them in order. -/
theorem isOrdered_of_fieldsWithin? (fields : List (List StringPiece × JsonText)) {depth : Nat}
    {known values : List (String × Json)} (hknown : Ascending known)
    (hordered : ∀ field ∈ known, field.2.IsOrdered)
    (h : fieldsWithin? depth fields known = some values) :
    Ascending values ∧ ∀ field ∈ values, field.2.IsOrdered := by
  match fields with
  | [] =>
    cases h
    exact ⟨hknown, hordered⟩
  | (name, text) :: fields =>
    rw [fieldsWithin?] at h
    obtain ⟨name, -, h⟩ := Option.bind_eq_some_iff.mp h
    obtain ⟨value, hvalue, h⟩ := Option.bind_eq_some_iff.mp h
    rw [insertField_eq] at h
    refine isOrdered_of_fieldsWithin? fields hknown.insert (fun field hfield => ?_) h
    rcases mem_of_mem_insertByName hfield with rfl | hfield
    · exact isOrdered_of_valueWithin? text hvalue
    · exact hordered field hfield

end

end JsonText

/-- **The order of fields.** In every object of a value that is read from a text the names of
the fields are in ascending order, and so are the bytes of the names. -/
theorem Json.isOrdered_of_parse? {text : String} {json : Json} (h : Json.parse? text = some json) :
    json.IsOrdered ∧ ∀ fields, Json.object fields ∈ json.objects →
      (fields.map fun field => utf8 field.1.toList).Pairwise (· < ·) := by
  obtain ⟨written, -, hvalue⟩ := Option.bind_eq_some_iff.mp h
  have hordered := JsonText.isOrdered_of_valueWithin? written hvalue
  refine ⟨hordered, fun fields hmem => List.pairwise_map.mpr ?_⟩
  exact (hordered fields hmem).imp fun hlt => utf8_lt_utf8 hlt

end PineCheck
