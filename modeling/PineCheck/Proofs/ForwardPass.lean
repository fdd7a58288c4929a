import PineCheck.Proofs.Quotation

/-!
# PineCheck — objects that hold nothing, in one pass

The check of objects goes through a script twice. First it lists all changes of all
objects; then it asks, for every field that is read, for the last change of the object
above the line. Which changes are listed depends on those that are listed already.

Here is the same check as one pass over the lines that keeps what every object holds
now (`Store`): on each line it first reports the fields that are read of objects that
hold `na`, and then lets the line change one object. What carries the proof is that
the store, between two lines, is the last change of every object among those listed so
far (`Store.Reflects`), and that a line only adds a change with its own number, so that
the changes above a line are those that were listed before it.

Main result:

* `objectState_refines_pass` — the check reports of objects what the pass reports, each
  time about a change above the line, and lists the changes of an object in order of
  their lines.
-/

namespace PineCheck.Check.ObjectState

open Text (Line word? startsName)

-- ---------------------------------------------------------------------------
-- The pass
-- ---------------------------------------------------------------------------

/-- What an object holds since a line. -/
structure Held where
  line : Nat
  isNa : Bool
  typeName : List Char
  isVar : Bool

/-- What every object holds that is followed. -/
def Store :=
  List Char → Option Held

namespace Store

/-- No object is followed. -/
def empty : Store :=
  fun _ => none

/-- One object holds something else. -/
def set (store : Store) (object : List Char) (held : Held) : Store :=
  fun other => if other = object then some held else store other

/-- The type of an object that is given `na`, if it is followed from there on: an object that
is declared with `var`, of a declared type or of a type from a library. Without a type, it
has to be followed already and keeps its type. -/
def naType? (types : List (List Char)) (store : Store) (isVar : Bool) (object : List Char) :
    Option (List Char) → Option (List Char)
  | some type =>
    if (isVar && !isPrimitive type) || types.contains type || isQualified type then some type
    else none
  | none => (store object).map Held.typeName

/-- What a line gives an object: `na`, or a value by the constructor of a declared type, or
of any type if the object is followed already. -/
def given? (types : List (List Char)) (store : Store) (line : Line) :
    Option (List Char × Held) := do
  let (left, right) ← splitAssignment? line.text
  let (isVar, type, object) ← target? left
  if !isWord object then none
  else if Text.trim right = "na".toList then
    (store.naType? types isVar object type).map fun typeName =>
      (object, ⟨line.number, true, typeName, isVar⟩)
  else
    let typeName ← constructedType? (Text.trim right)
    if types.contains typeName || (store object).isSome then
      some (object, ⟨line.number, false, typeName, isVar⟩)
    else none

/-- What objects hold behind a line. -/
def behind (types : List (List Char)) (store : Store) (line : Line) : Store :=
  match store.given? types line with
  | some (object, held) => store.set object held
  | none => store

end Store

/-- A field that is read. -/
structure Access where
  object : List Char
  field : List Char
  offset : Nat

/-- The field that is read at the front of a text. A call of a method reads no field. -/
def access? (offset : Nat) (cs : List Char) : Option Access := do
  let (object, rest) ← word? cs
  let (field, _) ← field? rest
  some ⟨object, field, offset⟩

/-- The fields that are read on the rest of a line, wherever a name can start. -/
def accesses (previous : Option Char) (offset : Nat) : List Char → List Access
  | [] => []
  | c :: cs =>
    (if startsName previous c then (access? offset (c :: cs)).toList else []) ++
      accesses (some c) (offset + c.utf8Size) cs

/-- The finding about a field that is read of an object that holds `na`. -/
def report? (script : List Char) (store : Store) (access : Access) : Option Finding :=
  match store access.object with
  | some ⟨line, true, typeName, isVar⟩ =>
    some ⟨.naAccess (String.ofList access.object) (String.ofList access.field)
        (String.ofList typeName) isVar line,
      locate script access.offset (byteLength access.object + 1 + byteLength access.field)⟩
  | _ => none

/-- The findings on lines, starting with what objects hold in front of them. -/
def pass (script : List Char) (types : List (List Char)) (store : Store) :
    List Line → List Finding
  | [] => []
  | line :: lines =>
    (accesses none line.offset line.text).filterMap (report? script store) ++
      pass script types (store.behind types line) lines

-- ---------------------------------------------------------------------------
-- The store and the changes
-- ---------------------------------------------------------------------------

/-- What an object holds behind a change. -/
def Change.held (change : Change) : Held :=
  ⟨change.line, change.isNa, change.typeName, change.isVar⟩

/-- A store reflects changes when every object holds what its last change gives it. -/
def Store.Reflects (store : Store) (changes : List Change) : Prop :=
  ∀ object, store object = (lastOf? changes object).map Change.held

theorem lastOf?_concat (changes : List Change) (change : Change) (object : List Char) :
    lastOf? (changes ++ [change]) object =
      if object = change.object then some change else lastOf? changes object := by
  rw [lastOf?, List.filter_append, List.filter_singleton]
  by_cases h : change.object = object
  · simp [h]
  · simp [h, Ne.symm h, lastOf?]

theorem Store.reflects_empty : empty.Reflects [] :=
  fun _ => rfl

/-- What a line gives an object is the change that it makes. -/
theorem Store.Reflects.given?_eq {store : Store} {changes : List Change}
    (h : store.Reflects changes) (types : List (List Char)) (line : Line) :
    store.given? types line =
      (change? types changes line).map fun change => (change.object, change.held) := by
  rw [Store.given?, change?]
  simp only [Option.bind_eq_bind, Option.map_bind]
  refine Option.bind_congr fun sides _ => ?_
  rw [Function.comp_apply, Option.map_bind]
  refine Option.bind_congr fun target _ => ?_
  obtain ⟨isVar, type, object⟩ := target
  have hobject := h object
  rw [Function.comp_apply]
  cases isWord object with
  | false => rfl
  | true =>
    have htype : store.naType? types isVar object type =
        ObjectState.naType? types isVar type (lastOf? changes object) := by
      cases type with
      | some type => rfl
      | none =>
        rw [Store.naType?, hobject, Option.map_map]
        rfl
    rw [htype, hobject, Option.isSome_map]
    simp only [Bool.not_true, Bool.false_eq_true, ↓reduceIte]
    split
    · cases ObjectState.naType? types isVar type (lastOf? changes object) <;> rfl
    · cases constructedType? (Text.trim sides.2) with
      | none => rfl
      | some typeName =>
        simp only [Option.bind_some]
        split <;> rfl

/-- Behind a line, a store reflects the changes with that of the line. -/
theorem Store.Reflects.behind {store : Store} {changes : List Change}
    (h : store.Reflects changes) (types : List (List Char)) (line : Line) :
    (store.behind types line).Reflects (changes ++ (change? types changes line).toList) := by
  intro object
  rw [Store.behind, h.given?_eq]
  cases change? types changes line with
  | none =>
    rw [Option.toList_none, List.append_nil]
    exact h object
  | some change =>
    rw [Option.toList_some, lastOf?_concat]
    simp only [Option.map_some, Store.set]
    split
    · rfl
    · exact h object

-- ---------------------------------------------------------------------------
-- Changes and the numbers of lines
-- ---------------------------------------------------------------------------

/-- A change has the number of its line. -/
theorem line_of_change? {types : List (List Char)} {changes : List Change} {line : Line}
    {change : Change} (h : change? types changes line = some change) :
    change.line = line.number := by
  rw [change?] at h
  obtain ⟨⟨left, right⟩, -, h⟩ := Option.bind_eq_some_iff.mp h
  obtain ⟨⟨isVar, type, object⟩, -, h⟩ := Option.bind_eq_some_iff.mp h
  dsimp only at h
  split at h
  · cases h
  · split at h
    · obtain ⟨typeName, -, h⟩ := Option.bind_eq_some_iff.mp h
      cases h
      rfl
    · obtain ⟨typeName, -, h⟩ := Option.bind_eq_some_iff.mp h
      split at h
      · cases h
        rfl
      · cases h

/-- Lines only add changes that have their numbers. -/
theorem exists_changesFrom_eq (types : List (List Char)) (earlier : List Change)
    (lines : List Line) :
    ∃ added, changesFrom types earlier lines = earlier ++ added ∧
      ∀ change ∈ added, ∃ line ∈ lines, change.line = line.number := by
  induction lines generalizing earlier with
  | nil => exact ⟨[], (List.append_nil _).symm, nofun⟩
  | cons line lines ih =>
    obtain ⟨added, hadded, hnumbers⟩ := ih (earlier ++ (change? types earlier line).toList)
    refine ⟨(change? types earlier line).toList ++ added, ?_, fun change hchange => ?_⟩
    · rw [changesFrom, hadded, List.append_assoc]
    · rcases List.mem_append.mp hchange with hhere | hlater
      · exact ⟨line, List.mem_cons_self, line_of_change? (Option.mem_toList.mp hhere)⟩
      · obtain ⟨other, hother, heq⟩ := hnumbers change hlater
        exact ⟨other, List.mem_cons_of_mem line hother, heq⟩

/-- The changes listed so far are in order of their lines, and the lines that are left come
behind them in order of their numbers. -/
structure Ordered (earlier : List Change) (lines : List Line) : Prop where
  listed : earlier.Pairwise (·.line < ·.line)
  left : lines.Pairwise (·.number < ·.number)
  below : ∀ change ∈ earlier, ∀ line ∈ lines, change.line < line.number

theorem le_number_of_mem {number offset : Nat} {raws : List (List Char)} {line : Line}
    (h : line ∈ Text.numberLines number offset raws) : number ≤ line.number := by
  induction raws generalizing number offset with
  | nil => cases h
  | cons raw raws ih =>
    rcases List.mem_cons.mp h with rfl | h
    · exact Nat.le_refl _
    · exact Nat.le_of_succ_le (ih h)

/-- Lines are numbered in order. -/
theorem pairwise_numberLines (number offset : Nat) (raws : List (List Char)) :
    (Text.numberLines number offset raws).Pairwise (·.number < ·.number) := by
  induction raws generalizing number offset with
  | nil => exact .nil
  | cons raw raws ih => exact .cons (fun _ h => le_number_of_mem h) (ih _ _)

theorem ordered_start (cs : List Char) : Ordered [] (Text.lines cs) where
  listed := .nil
  left := pairwise_numberLines ..
  below := nofun

/-- Going on by a line keeps the order. -/
theorem Ordered.next {earlier : List Change} {line : Line} {lines : List Line}
    (h : Ordered earlier (line :: lines)) (types : List (List Char)) :
    Ordered (earlier ++ (change? types earlier line).toList) lines := by
  obtain ⟨hline, hlines⟩ := List.pairwise_cons.mp h.left
  have hhere : ∀ change ∈ (change? types earlier line).toList, change.line = line.number :=
    fun change hchange => line_of_change? (Option.mem_toList.mp hchange)
  refine ⟨?_, hlines, fun change hchange other hother => ?_⟩
  · rw [List.pairwise_append]
    refine ⟨h.listed, Option.pairwise_toList .., fun change hchange last hlast => ?_⟩
    rw [hhere last hlast]
    exact h.below change hchange line List.mem_cons_self
  · rcases List.mem_append.mp hchange with hchange | hchange
    · exact h.below change hchange other (List.mem_cons_of_mem line hother)
    · rw [hhere change hchange]
      exact hline other hother

/-- Lines in order list changes in order. -/
theorem Ordered.pairwise_changesFrom {earlier : List Change} {lines : List Line}
    (h : Ordered earlier lines) (types : List (List Char)) :
    (changesFrom types earlier lines).Pairwise (·.line < ·.line) := by
  induction lines generalizing earlier with
  | nil => exact h.listed
  | cons line lines ih => exact ih (h.next types)

/-- The last change above a line is the last one of those listed before it. -/
theorem Ordered.stateBefore?_eq {earlier : List Change} {line : Line} {lines : List Line}
    (h : Ordered earlier (line :: lines)) (types : List (List Char)) (object : List Char) :
    stateBefore? (changesFrom types earlier (line :: lines)) object line.number =
      lastOf? earlier object := by
  obtain ⟨added, hadded, hnumbers⟩ := exists_changesFrom_eq types earlier (line :: lines)
  have hearlier : earlier.filter (·.line < line.number) = earlier :=
    List.filter_eq_self.mpr fun change hchange =>
      decide_eq_true (h.below change hchange line List.mem_cons_self)
  have hlater : added.filter (·.line < line.number) = [] := by
    refine List.filter_eq_nil_iff.mpr fun change hchange => ?_
    obtain ⟨other, hother, heq⟩ := hnumbers change hchange
    rw [decide_eq_true_eq, heq, Nat.not_lt]
    rcases List.mem_cons.mp hother with rfl | hother
    · exact Nat.le_refl _
    · exact Nat.le_of_lt (List.rel_of_pairwise_cons h.left hother)
  rw [stateBefore?, hadded, List.filter_append, hearlier, hlater, List.append_nil]

-- ---------------------------------------------------------------------------
-- Reports
-- ---------------------------------------------------------------------------

section Reports

variable {script : List Char} {all : List Change} {store : Store} {number : Nat}
  (h : ∀ object, store object = (stateBefore? all object number).map Change.held)

include h

/-- What the check reports at a place is what is reported of a store that holds what the
check asks for. -/
theorem directAccess?_eq_bind (offset : Nat) (cs : List Char) :
    directAccess? script all number offset cs =
      (access? offset cs).bind (report? script store) := by
  rw [directAccess?, access?]
  cases word? cs with
  | none => rfl
  | some found =>
    obtain ⟨object, rest⟩ := found
    have hobject := h object
    simp only [Option.bind_eq_bind, Option.bind_some]
    generalize stateBefore? all object number = last at hobject
    cases field? rest with
    | none => cases last <;> simp
    | some found =>
      simp only [Option.bind_some, report?, hobject]
      cases last with
      | none => rfl
      | some change =>
        obtain ⟨_, _, isNa, _, _⟩ := change
        cases isNa <;> rfl

/-- The scan of a line reports some of its accesses, each by what the store says about the object.
-/
theorem directAccesses_eq_filterMap (previous : Option Char) (offset : Nat) (cs : List Char) :
    directAccesses script all number previous offset cs =
      (accesses previous offset cs).filterMap (report? script store) := by
  induction cs generalizing previous offset with
  | nil => rfl
  | cons c cs ih =>
    rw [directAccesses, accesses, List.filterMap_append, ih, directAccess?_eq_bind h]
    congr 1
    split
    · cases access? offset (c :: cs) with
      | none => rfl
      | some access => cases hreport : report? script store access <;> simp [hreport]
    · rfl

end Reports

/-- **The pass reports what the check reports.** -/
theorem Ordered.flatMap_directAccesses {script : List Char} {store : Store}
    {earlier : List Change} {lines : List Line} (h : Ordered earlier lines)
    (hstore : store.Reflects earlier) (types : List (List Char)) :
    (lines.flatMap fun line => directAccesses script (changesFrom types earlier lines) line.number
      none line.offset line.text) = pass script types store lines := by
  induction lines generalizing store earlier with
  | nil => rfl
  | cons line lines ih =>
    have hhere : ∀ object, store object =
        (stateBefore? (changesFrom types earlier (line :: lines)) object line.number).map
          Change.held := fun object => by
      rw [h.stateBefore?_eq types object]
      exact hstore object
    rw [List.flatMap_cons, pass, directAccesses_eq_filterMap hhere,
      ← ih (h.next types) (hstore.behind types line)]
    rfl

end PineCheck.Check.ObjectState

namespace PineCheck

open Check.ObjectState
open Check (directAccesses_rule historyAccesses_rule)

theorem line_locate_word {script before word rest : List Char}
    (h : Text.mask script = before ++ (word ++ rest)) (hne : word ≠ []) (hword : ' ' ∉ word) :
    (locate script (byteLength before) (byteLength word)).line = before.count '\n' + 1 := by
  obtain ⟨front, behind, rfl, hlength, hcount⟩ := Text.mask_word h hne hword
  rw [← hlength, locate_stretch, ← hcount, Nat.add_comm]
  exact Position.after_line {} front

/-- A finding about an object that holds `na` is below the line since which it does. -/
theorem lt_line_of_mem_directAccesses {script : List Char} {all : List Change} {line : Text.Line}
    (hline : line ∈ Text.lines (Text.mask script)) {finding : Finding}
    (h : finding ∈ directAccesses script all line.number none line.offset line.text) :
    ∃ number, finding.cause.facts.lookup "declarationLine" = some (.nat number) ∧
      number < finding.span.line := by
  obtain ⟨before, rest, behind, hmask, hnumber, h⟩ := exists_of_mem_directAccesses hline h
  obtain ⟨object, field, later, change, rfl, hchars, hchange, rfl⟩ := directAccess?_eq_some h
  refine ⟨change.line, rfl, ?_⟩
  have hlt : change.line < line.number := by
    have hmem := (List.mem_filter.mp (List.mem_of_getLast? hchange)).1
    exact of_decide_eq_true (List.mem_filter.mp hmem).2
  have hword : Text.mask script = before ++ ((object ++ '.' :: field) ++ (later ++ behind)) := by
    rw [hmask]
    simp
  rw [line_locate_word hword (by simp) (space_notMem_name hchars), hnumber]
  exact hlt

/-- **The check of objects refines one pass over the lines.** -/
theorem objectState_refines_pass (source : String) :
    let masked := Text.mask source.toList
    let lines := Text.lines masked
    (check source.toList masked).filter (·.rule = .naObjectAccess) =
        pass source.toList (declaredTypes lines) .empty lines ∧
      (∀ finding ∈ check source.toList masked, finding.rule = .naObjectAccess →
        ∃ number, finding.cause.facts.lookup "declarationLine" = some (.nat number) ∧
          number < finding.span.line) ∧
      ∀ object, ((changes lines).filter (·.object = object)).Pairwise (·.line < ·.line) := by
  intro masked lines
  have hordered := ordered_start masked
  refine ⟨?_, fun finding hfinding hrule => ?_, fun object => ?_⟩
  · rw [← hordered.flatMap_directAccesses Store.reflects_empty, check, List.filter_flatMap]
    refine List.flatMap_congr fun line _ => ?_
    -- what is found of earlier values has another rule
    have hdirect : (directAccesses source.toList (changes lines) line.number none line.offset
        line.text).filter (·.rule = .naObjectAccess) =
          directAccesses source.toList (changes lines) line.number none line.offset line.text :=
      List.filter_eq_self.mpr fun finding hfinding =>
        decide_eq_true (directAccesses_rule hfinding)
    have hhistory : (historyAccesses source.toList (changes lines) line.offset line.text).filter
        (·.rule = .naObjectAccess) = [] := by
      refine List.filter_eq_nil_iff.mpr fun finding hfinding => ?_
      rw [historyAccesses_rule hfinding]
      decide
    rw [List.filter_append, hdirect, hhistory, List.append_nil]
    rfl
  · obtain ⟨line, hline, hfinding⟩ := List.mem_flatMap.mp hfinding
    rcases List.mem_append.mp hfinding with hdirect | hhistory
    · exact lt_line_of_mem_directAccesses hline hdirect
    · rw [historyAccesses_rule hhistory] at hrule
      cases hrule
  · exact (hordered.pairwise_changesFrom (declaredTypes lines)).filter _

/-- An object is given `na`, then a value, and then `na` again without a type. -/
theorem objectState_refines_pass_twice :
    let source := "type Foo\n    int bar = 0\nFoo o = na\nx = o.bar\no := Foo.new()\n" ++
      "y = o.bar\no := na\nz = o.bar + o.baz()\n"
    ((check source.toList (Text.mask source.toList)).filter (·.rule = .naObjectAccess)).map
      (fun finding => (finding.cause.message, finding.span.line)) =
        [("Accessing field 'bar' of 'o', which was assigned na on line 3", 4),
          ("Accessing field 'bar' of 'o', which was assigned na on line 7", 8)] := by
  intro source
  rw [(objectState_refines_pass source).1]
  decide +kernel

end PineCheck
