import PineCheck.Check.Naming
import PineCheck.Proofs.TextSites

/-!
# PineCheck — the names of arguments

A *label* is the name of an argument, with the function that is called and the place of the
name. This module says what becomes of the labels of an argument list when one word in it is
changed for another: labels before the word stay where they are, labels behind it move with
the text, and the word itself may be a label. Nothing else depends on what the word is.

`Uniform` says this of labels that are found around a word: they are given by *entries* which
do not know the word.

* `labelsFrom_moved` — the labels of a text that stands further on have moved with it.
* `uniform_labelsIn` — the labels of an argument list around a word are uniform.
-/

namespace PineCheck

open Lexer (isWordStart isWordChar)
open Text (Slice CallSite isAsciiBlank isSpace skipSpaces)
open Indexed (isNameChar depthAfter joinFirst)

-- ---------------------------------------------------------------------------
-- Labels
-- ---------------------------------------------------------------------------

/-- The name of an argument, with the function that is called and the offset of the name. -/
structure Label where
  function : String
  name : String
  offset : Nat
deriving DecidableEq, Inhabited

namespace Label

/-- A label further on in a text. -/
def moved (distance : Nat) (label : Label) : Label :=
  { label with offset := distance + label.offset }

/-- The offset behind the name. -/
def stop (label : Label) : Nat :=
  label.offset + byteLength label.name.toList

end Label

/-- Whether what stands behind a word makes it the name of an argument: an equals sign that
is not part of a longer operator. -/
def namesArgument (behind : List Char) : Bool :=
  match skipSpaces behind with
  | '=' :: value => value.head? ≠ some '=' && value.head? ≠ some '>'
  | _ => false

/-- The label of an argument, if it has a name. -/
def label? (function : String) (part : Slice) : Option Label :=
  (Text.word? part.text).bind fun (word, behind) =>
    if namesArgument behind then some ⟨function, String.ofList word, part.offset⟩ else none

/-- The labels of an argument list. -/
def labelsIn (function : String) (arguments : Slice) : List Label :=
  (Text.splitArguments arguments).filterMap (label? function)

/-- The labels of a call site. The head of a definition has none. -/
def labelsOf (site : CallSite) : List Label :=
  if site.isDefinition then [] else labelsIn site.name site.arguments

/-- The labels of a text, seen from a place inside it. -/
def labelsFrom (previous : Option Char) (offset : Nat) (cs : List Char) : List Label :=
  (Text.callSitesFrom previous offset cs).flatMap labelsOf

/-- A name is the name of an argument where a single `=` follows it, which starts neither `==` nor
`=>`. -/
theorem namesArgument_iff {behind : List Char} :
    namesArgument behind = true ↔ ∃ value, skipSpaces behind = '=' :: value ∧
      value.head? ≠ some '=' ∧ value.head? ≠ some '>' := by
  rw [namesArgument]
  constructor
  · intro h
    split at h
    · next value heq => exact ⟨value, heq, by simpa using h⟩
    · cases h
  · rintro ⟨value, heq, h⟩
    simp [heq, h]

/-- The labels are the names and places of the named arguments. -/
theorem label?_eq (function : String) (part : Slice) :
    label? function part =
      (Text.namedArgument? part).map fun argument =>
        ⟨function, argument.name, argument.offset⟩ := by
  rw [label?, Text.namedArgument?]
  rcases Text.word? part.text with _ | ⟨word, behind⟩
  · rfl
  dsimp only [Option.bind_some, Option.bind_eq_bind]
  split
  · next hnames =>
    obtain ⟨value, heq, hequals, harrow⟩ := namesArgument_iff.mp hnames
    simp [heq, hequals, harrow]
  · next hnames =>
    split
    · next value heq =>
      split
      · rfl
      · next hvalue =>
        refine absurd (namesArgument_iff.mpr ⟨value, heq, ?_⟩) hnames
        simpa using hvalue
    · rfl

/-- The labels of an argument list are the names and places of its named arguments. -/
theorem labelsIn_eq (function : String) (arguments : Slice) :
    labelsIn function arguments =
      (Text.namedArguments arguments).map fun argument =>
        ⟨function, argument.name, argument.offset⟩ := by
  rw [labelsIn, Text.namedArguments, List.map_filterMap]
  exact List.filterMap_congr fun part _ => label?_eq function part

/-- The labels of pieces of an argument list. -/
def pieceLabels (function : String) (offset : Nat) (pieces : List (List Char)) : List Label :=
  (Text.placePieces offset pieces).filterMap fun piece => label? function piece.trim

/-- An argument list that is only an empty part has no labels, as if it had this part. -/
theorem labelsIn_eq_pieceLabels (function : String) (arguments : Slice) :
    labelsIn function arguments =
      pieceLabels function arguments.offset (Text.rawArguments 0 arguments.text) := by
  show _ = (Text.placePieces arguments.offset (Text.rawArguments 0 arguments.text)).filterMap
    (label? function ∘ Slice.trim)
  rw [labelsIn, Text.splitArguments, ← List.filterMap_map]
  split
  · next part heq =>
    rw [heq]
    split
    · next hnil => simp [label?, hnil, Text.word?]
    · rfl
  · rfl

-- ---------------------------------------------------------------------------
-- Moved texts
-- ---------------------------------------------------------------------------

/-- The label of a part moves with the part. -/
theorem label?_moved (function : String) (distance offset : Nat) (cs : List Char) :
    label? function (Slice.mk (distance + offset) cs).trim =
      (label? function (Slice.mk offset cs).trim).map (Label.moved distance) := by
  simp only [label?, Slice.trim, Slice.dropWhile, Nat.add_assoc]
  rcases Text.word? _ with _ | ⟨word, behind⟩
  · rfl
  · dsimp only [Option.bind_some]
    split <;> rfl

/-- The labels of the parts move with the parts. -/
theorem pieceLabels_moved (function : String) (distance offset : Nat) (pieces : List (List Char)) :
    pieceLabels function (distance + offset) pieces =
      (pieceLabels function offset pieces).map (Label.moved distance) := by
  induction pieces generalizing offset with
  | nil => rfl
  | cons piece pieces ih =>
    have hrest := ih (offset + byteLength piece + 1)
    rw [pieceLabels, pieceLabels, List.map_filterMap] at hrest
    simp only [pieceLabels, Text.placePieces, List.filterMap_cons, label?_moved]
    rw [Nat.add_assoc distance, Nat.add_assoc distance, hrest]
    cases label? function (Slice.mk offset piece).trim <;> simp [List.map_filterMap]

/-- The labels of an argument list move with the list. -/
theorem labelsIn_moved (function : String) (distance offset : Nat) (cs : List Char) :
    labelsIn function ⟨distance + offset, cs⟩ =
      (labelsIn function ⟨offset, cs⟩).map (Label.moved distance) := by
  rw [labelsIn_eq_pieceLabels, labelsIn_eq_pieceLabels, pieceLabels_moved]

/-- The labels of the call site that starts at the front of a text. -/
def labelsAt (offset : Nat) (cs : List Char) : List Label :=
  (Text.callSiteAt? offset cs).toList.flatMap labelsOf

/-- The labels of a call site move with the site. -/
theorem labelsAt_moved (distance offset : Nat) (cs : List Char) :
    labelsAt (distance + offset) cs = (labelsAt offset cs).map (Label.moved distance) := by
  have hsite (name : String) (start : Nat) (inside : List Char) (isClosed isDefinition : Bool) :
      labelsOf ⟨name, distance + offset, ⟨distance + start, inside⟩, isClosed, isDefinition⟩ =
        (labelsOf ⟨name, offset, ⟨start, inside⟩, isClosed, isDefinition⟩).map
          (Label.moved distance) := by
    simp only [labelsOf, labelsIn_moved]
    split <;> rfl
  rw [labelsAt, labelsAt, Text.callSiteAt?, Text.callSiteAt?]
  simp only [Nat.add_assoc]
  split
  · split
    · rfl
    · split <;> simp [hsite]
  · rfl

/-- The labels of a text are those of the site at its front and those behind it. -/
theorem labelsFrom_cons (previous : Option Char) (offset : Nat) (c : Char) (cs : List Char) :
    labelsFrom previous offset (c :: cs) =
      (if Text.startsName previous c then labelsAt offset (c :: cs) else []) ++
        labelsFrom (some c) (offset + c.utf8Size) cs := by
  rw [labelsFrom, Text.callSitesFrom, List.flatMap_append, labelsFrom, labelsAt]
  split <;> rfl

/-- The labels of a text move with the text. -/
theorem labelsFrom_moved (previous : Option Char) (distance offset : Nat) (cs : List Char) :
    labelsFrom previous (distance + offset) cs =
      (labelsFrom previous offset cs).map (Label.moved distance) := by
  induction cs generalizing previous offset with
  | nil => rfl
  | cons c cs ih =>
    rw [labelsFrom_cons, labelsFrom_cons, Nat.add_assoc, ih, labelsAt_moved, List.map_append]
    split <;> rfl

-- ---------------------------------------------------------------------------
-- Words
-- ---------------------------------------------------------------------------

/-- Characters that are in no word. -/
theorem ne_of_isWordChar {c d : Char} (hc : isWordChar c = true) (hd : isWordChar d = false) :
    c ≠ d := by
  rintro rfl
  exact Bool.false_ne_true (hd ▸ hc)

/-- A text that is a word. -/
structure IsWord (word : List Char) : Prop where
  start : word.head?.any isWordStart = true
  chars : ∀ c ∈ word, isWordChar c = true

namespace IsWord

variable {word : List Char}

/-- A word has a first character, which may start one. -/
theorem exists_cons (h : IsWord word) :
    ∃ c cs, word = c :: cs ∧ isWordStart c = true ∧ ∀ d ∈ c :: cs, isWordChar d = true := by
  cases word with
  | nil => cases h.start
  | cons c cs => exact ⟨c, cs, rfl, h.start, h.chars⟩

theorem ne_nil (h : IsWord word) : word ≠ [] := by
  obtain ⟨c, cs, rfl, -⟩ := h.exists_cons
  exact List.cons_ne_nil c cs

/-- No character that cannot stand in a word is at the front of one. -/
theorem head?_ne (h : IsWord word) {d : Char} (hd : isWordChar d = false) (rest : List Char) :
    (word ++ rest).head? ≠ some d := by
  obtain ⟨c, cs, rfl, -, hchars⟩ := h.exists_cons
  exact fun heq => ne_of_isWordChar (hchars c List.mem_cons_self) hd (Option.some.inj heq)

theorem byteLength_pos (h : IsWord word) : 0 < byteLength word := by
  obtain ⟨c, cs, rfl, -⟩ := h.exists_cons
  rw [byteLength_cons]
  exact Nat.add_pos_left c.utf8Size_pos _

/-- What is read as a word is one. -/
theorem of_word? {cs rest : List Char} (h : Text.word? cs = some (word, rest)) : IsWord word := by
  obtain ⟨-, hstart, hchars, -⟩ := Indexed.word?_eq_some h
  cases cs with
  | nil => cases hstart
  | cons c cs =>
    obtain ⟨tail, rfl⟩ := Indexed.exists_cons_of_word? h
    exact ⟨hstart, hchars⟩

end IsWord

/-- No blank stands in a word. -/
theorem isAsciiBlank_of_isWordChar {c : Char} (h : isWordChar c = true) :
    isAsciiBlank c = false := by
  rw [Bool.eq_false_iff]
  intro hblank
  simp only [isAsciiBlank, Bool.or_eq_true, decide_eq_true_eq] at hblank
  rcases hblank with (((rfl | rfl) | rfl) | rfl) | rfl <;> exact absurd h (by decide)

/-- What stands before a word that is a whole name. -/
def EndsName (cs : List Char) : Prop :=
  cs.getLast?.any isNameChar = false

/-- What stands behind a word that is a whole one. -/
def EndsWord (cs : List Char) : Prop :=
  cs.head?.any isWordChar = false

-- ---------------------------------------------------------------------------
-- Entries
-- ---------------------------------------------------------------------------

/-- A label of a text with a word in it: it stands before the word, or it is the word, or
it stands behind the word and is told by the distance from there. -/
inductive Entry where
  | before (label : Label)
  | here (function : String)
  | behind (label : Label)

namespace Entry

/-- The label, if the word stands at an offset. -/
def fill (place : Nat) (word : List Char) : Entry → Label
  | before label => label
  | here function => ⟨function, String.ofList word, place⟩
  | behind label => label.moved (place + byteLength word)

/-- A label before the word is a word that ends there. -/
def Fits (place : Nat) : Entry → Prop
  | before label => label.offset < label.stop ∧ label.stop ≤ place
  | _ => True

end Entry

/-- Labels that are found around a word are given by entries. -/
def Uniform (place : Nat) (found : List Char → List Label) : Prop :=
  ∃ entries : List Entry, (∀ entry ∈ entries, entry.Fits place) ∧
    ∀ word, IsWord word → found word = entries.map (Entry.fill place word)

namespace Uniform

variable {place : Nat} {found later : List Char → List Label}

theorem nil : Uniform place fun _ => [] :=
  ⟨[], nofun, fun _ _ => rfl⟩

/-- Labels that do not depend on the word stay so together. -/
theorem append (h : Uniform place found) (h' : Uniform place later) :
    Uniform place fun word => found word ++ later word := by
  obtain ⟨entries, hfits, hfound⟩ := h
  obtain ⟨others, hothers, hlater⟩ := h'
  refine ⟨entries ++ others, fun entry hentry => ?_, fun word hword => ?_⟩
  · exact (List.mem_append.mp hentry).elim (hfits entry) (hothers entry)
  · simp only [hfound word hword, hlater word hword, List.map_append]

/-- Only what is found around words matters. -/
theorem congr (h : Uniform place found) (heq : ∀ word, IsWord word → later word = found word) :
    Uniform place later := by
  obtain ⟨entries, hfits, hfound⟩ := h
  exact ⟨entries, hfits, fun word hword => (heq word hword).trans (hfound word hword)⟩

/-- Labels before the word. -/
theorem before {labels : List Label}
    (h : ∀ label ∈ labels, label.offset < label.stop ∧ label.stop ≤ place) :
    Uniform place fun _ => labels := by
  refine ⟨labels.map .before, ?_, fun word _ => ?_⟩
  · intro entry hentry
    obtain ⟨label, hlabel, rfl⟩ := List.mem_map.mp hentry
    exact h label hlabel
  · rw [List.map_map]
    exact (List.map_id labels).symm

/-- The word itself. -/
theorem here (function : String) :
    Uniform place fun word => [⟨function, String.ofList word, place⟩] :=
  ⟨[.here function], by simp [Entry.Fits], fun _ _ => rfl⟩

/-- Labels behind the word, which move with the text. -/
theorem behind (labels : List Label) :
    Uniform place fun word => labels.map (Label.moved (place + byteLength word)) := by
  refine ⟨labels.map .behind, ?_, fun word _ => ?_⟩
  · intro entry hentry
    obtain ⟨label, -, rfl⟩ := List.mem_map.mp hentry
    trivial
  · rw [List.map_map]
    rfl

end Uniform

-- ---------------------------------------------------------------------------
-- Parts
-- ---------------------------------------------------------------------------

/-- What ends a text ends its rest. -/
theorem EndsName.of_suffix {cs front : List Char} (h : EndsName (front ++ cs)) : EndsName cs := by
  cases cs with
  | nil => rfl
  | cons c cs =>
    rw [EndsName, List.getLast?_append_of_ne_nil _ (List.cons_ne_nil c cs)] at h
    exact h

/-- What ends a word ends it in a shorter text too. -/
theorem EndsWord.of_prefix {cs rest : List Char} (h : EndsWord (cs ++ rest)) : EndsWord cs := by
  cases cs with
  | nil => rfl
  | cons c cs => exact h

/-- A word is read in full up to a text that ends it. -/
theorem IsWord.word?_append {word : List Char} (hword : IsWord word) {behind : List Char}
    (hbehind : EndsWord behind) : Text.word? (word ++ behind) = some (word, behind) := by
  rw [Indexed.word?_append hbehind, Indexed.word?_eq_ite, if_pos hword.start,
    List.takeWhile_eq_self_iff.mpr hword.chars, List.dropWhile_eq_nil_iff.mpr hword.chars]
  rfl

/-- The word at the front of a text that does not end a name ends inside of the text. -/
theorem word?_append_of_endsName {cs : List Char} (h : EndsName cs) (hne : cs ≠ [])
    (rest : List Char) :
    Text.word? (cs ++ rest) = (Text.word? cs).map fun (word, behind) => (word, behind ++ rest) := by
  have hdrop : cs.dropWhile isWordChar ≠ [] := by
    intro hnil
    have hlast := List.dropWhile_eq_nil_iff.mp hnil _ (List.getLast_mem hne)
    rw [EndsName, List.getLast?_eq_some_getLast hne, Option.any_some, isNameChar, hlast] at h
    cases h
  have htake : (cs.takeWhile isWordChar).length ≠ cs.length := by
    have hlength := congrArg List.length (@List.takeWhile_append_dropWhile _ isWordChar cs)
    have hpos := List.length_pos_iff.mpr hdrop
    rw [List.length_append] at hlength
    omega
  have hempty : ¬ (cs.dropWhile isWordChar).isEmpty = true := by rwa [List.isEmpty_iff]
  rw [Indexed.word?_eq_ite, Indexed.word?_eq_ite, List.head?_append_of_ne_nil _ hne,
    List.takeWhile_append, if_neg htake, List.dropWhile_append, if_neg hempty]
  split <;> rfl

/-- Spaces end before a word. -/
theorem spaces_append_word (front : List Char) {word : List Char} (hword : IsWord word)
    (behind : List Char) :
    (front ++ (word ++ behind)).takeWhile isSpace = front.takeWhile isSpace ∧
      skipSpaces (front ++ (word ++ behind)) = skipSpaces front ++ (word ++ behind) := by
  obtain ⟨c, cs, rfl, -, hchars⟩ := hword.exists_cons
  refine Indexed.span_append ?_
  have hc := hchars c List.mem_cons_self
  have hspace : isSpace c = false := by
    simp [isSpace, ne_of_isWordChar (d := ' ') hc (by decide),
      ne_of_isWordChar (d := '\t') hc (by decide)]
  exact hspace

/-- Whether a name before a word is the name of an argument does not depend on the word. -/
theorem namesArgument_append (front : List Char) {word other : List Char} (hword : IsWord word)
    (hother : IsWord other) (behind : List Char) :
    namesArgument (front ++ (word ++ behind)) = namesArgument (front ++ (other ++ behind)) := by
  -- one direction is enough, since the two words can be swapped
  have himp {a b : List Char} (ha : IsWord a) (hb : IsWord b)
      (h : namesArgument (front ++ (a ++ behind)) = true) :
      namesArgument (front ++ (b ++ behind)) = true := by
    obtain ⟨value, heq, hvalue⟩ := namesArgument_iff.mp h
    rw [(spaces_append_word front ha behind).2] at heq
    rw [namesArgument_iff, (spaces_append_word front hb behind).2]
    cases hskip : skipSpaces front with
    -- a word follows the name at once, and no word starts with `=`
    | nil =>
      rw [hskip, List.nil_append] at heq
      exact absurd (congrArg List.head? heq) (ha.head?_ne (by decide) behind)
    | cons c cs =>
      rw [hskip, List.cons_append] at heq
      obtain ⟨rfl, rfl⟩ := List.cons.inj heq
      refine ⟨cs ++ (b ++ behind), rfl, ?_⟩
      cases cs with
      | nil => exact ⟨hb.head?_ne (by decide) behind, hb.head?_ne (by decide) behind⟩
      | cons d ds => exact hvalue
  exact Bool.eq_iff_iff.mpr ⟨himp hword hother, himp hother hword⟩

/-- The end of a text behind a character that is kept. -/
theorem dropEndWhile_append {p : Char → Bool} {cs : List Char} (h : cs.getLast?.any p = false)
    (rest : List Char) :
    Text.dropEndWhile p (cs ++ rest) = cs ++ Text.dropEndWhile p rest := by
  rw [Text.dropEndWhile, List.reverse_append,
    (Indexed.span_append (by rwa [List.head?_reverse])).2, List.reverse_append,
    List.reverse_reverse, Text.dropEndWhile]

/-- Blanks are trimmed off before and behind a word, whatever the word is. -/
theorem trim_around {word : List Char} (hword : IsWord word) (offset : Nat)
    (front behind : List Char) :
    (Slice.mk offset (front ++ (word ++ behind))).trim =
      ⟨offset + byteLength (front.takeWhile isAsciiBlank),
        front.dropWhile isAsciiBlank ++ (word ++ Text.dropEndWhile isAsciiBlank behind)⟩ := by
  have hhead : (word ++ behind).head?.any isAsciiBlank = false := by
    obtain ⟨c, cs, rfl, -, hchars⟩ := hword.exists_cons
    exact isAsciiBlank_of_isWordChar (hchars c List.mem_cons_self)
  have hlast : (front.dropWhile isAsciiBlank ++ word).getLast?.any isAsciiBlank = false := by
    rw [List.getLast?_append_of_ne_nil _ hword.ne_nil, List.getLast?_eq_some_getLast hword.ne_nil]
    exact isAsciiBlank_of_isWordChar (hword.chars _ (List.getLast_mem _))
  obtain ⟨htake, hdrop⟩ := @Indexed.span_append front _ _ hhead
  rw [Slice.trim, Slice.dropWhile]
  dsimp only
  rw [htake, hdrop, ← List.append_assoc, dropEndWhile_append hlast, List.append_assoc]

/-- A part that begins with the word may have it as its label. -/
theorem uniform_label?_word (function : String) (offset : Nat) {behind : List Char}
    (hbehind : EndsWord behind) :
    Uniform offset fun word => (label? function ⟨offset, word ++ behind⟩).toList := by
  have hlabel (word : List Char) (hword : IsWord word) :
      (label? function ⟨offset, word ++ behind⟩).toList =
        if namesArgument behind then [⟨function, String.ofList word, offset⟩] else [] := by
    rw [label?, hword.word?_append hbehind, Option.bind_some]
    show Option.toList (if namesArgument behind then some _ else none) = _
    split <;> rfl
  refine Uniform.congr ?_ hlabel
  split
  · exact .here function
  · exact .nil

/-- A part that begins before the word has a label that does not depend on it. -/
theorem uniform_label?_cons (function : String) (offset : Nat) {c : Char} {cs behind : List Char}
    (hends : EndsName (c :: cs)) :
    Uniform (offset + byteLength (c :: cs)) fun word =>
      (label? function ⟨offset, c :: cs ++ (word ++ behind)⟩).toList := by
  have hread := word?_append_of_endsName hends (List.cons_ne_nil c cs)
  rcases hname : Text.word? (c :: cs) with _ | ⟨name, rest⟩
  · refine Uniform.nil.congr fun word _ => ?_
    rw [label?, hread, hname]
    rfl
  -- the part has a name of its own, which ends before the word
  · obtain ⟨hcs, -⟩ := Indexed.word?_eq_some hname
    have hpos := (IsWord.of_word? hname).byteLength_pos
    -- any word serves to say whether that name is the name of an argument
    have hother : IsWord ['_'] := ⟨by decide, List.forall_mem_singleton.mpr (by decide)⟩
    have hlabel (word : List Char) (hword : IsWord word) :
        (label? function ⟨offset, c :: cs ++ (word ++ behind)⟩).toList =
          if namesArgument (rest ++ (['_'] ++ behind)) then
            [⟨function, String.ofList name, offset⟩] else [] := by
      rw [label?, hread, hname, ← namesArgument_append rest hword hother]
      show Option.toList (if namesArgument (rest ++ (word ++ behind)) then some _ else none) = _
      split <;> rfl
    refine Uniform.congr ?_ hlabel
    split
    · refine .before fun label hlabel => ?_
      rw [List.mem_singleton.mp hlabel, Label.stop, String.toList_ofList, hcs, byteLength_append]
      dsimp only
      omega
    · exact .nil

/-- A part with a word in it has at most one label. -/
theorem uniform_label?_trim (function : String) (offset : Nat) {front behind : List Char}
    (hfront : EndsName front) (hbehind : EndsWord behind) :
    Uniform (offset + byteLength front) fun word =>
      (label? function (Slice.mk offset (front ++ (word ++ behind))).trim).toList := by
  have hsplit : front.takeWhile isAsciiBlank ++ front.dropWhile isAsciiBlank = front :=
    List.takeWhile_append_dropWhile
  have hends : EndsName (front.dropWhile isAsciiBlank) := by
    rw [← hsplit] at hfront
    exact hfront.of_suffix
  have hkept : EndsWord (Text.dropEndWhile isAsciiBlank behind) := by
    obtain ⟨tail, htail, -⟩ := Indexed.dropEndWhile_spec isAsciiBlank behind
    rw [htail] at hbehind
    exact hbehind.of_prefix
  have htrim (word : List Char) (hword : IsWord word) :=
    congrArg (fun part => (label? function part).toList) (trim_around hword offset front behind)
  refine Uniform.congr ?_ htrim
  rw [← congrArg byteLength hsplit, byteLength_append, ← Nat.add_assoc]
  cases hdrop : front.dropWhile isAsciiBlank with
  -- the part begins with the word, or with something before it
  | nil => exact uniform_label?_word function _ hkept
  | cons c cs => exact uniform_label?_cons function _ (hdrop ▸ hends)

-- ---------------------------------------------------------------------------
-- Argument lists
-- ---------------------------------------------------------------------------

/-- There is always a last piece. -/
theorem exists_rawArguments_eq_append (depth : Int) (cs : List Char) :
    ∃ pieces last, Text.rawArguments depth cs = pieces ++ [last] :=
  (List.eq_nil_or_concat' _).resolve_left (Indexed.rawArguments_ne_nil depth cs)

/-- The pieces of two texts together: the last piece of the first goes on in the second. -/
theorem rawArguments_append {depth : Int} {cs last : List Char} {pieces : List (List Char)}
    (h : Text.rawArguments depth cs = pieces ++ [last]) (rest : List Char) :
    Text.rawArguments depth (cs ++ rest) =
      pieces ++ joinFirst last (Text.rawArguments (cs.foldl depthAfter depth) rest) := by
  induction cs generalizing depth pieces last with
  | nil =>
    obtain ⟨rfl, hlast⟩ := List.append_inj' (show [] ++ [[]] = pieces ++ [last] from h) rfl
    obtain rfl := (List.cons.inj hlast).1
    exact (Indexed.joinFirst_nil (Indexed.rawArguments_ne_nil depth rest)).symm
  | cons c cs ih =>
    obtain ⟨front, tail, hcs⟩ := exists_rawArguments_eq_append (depthAfter depth c) cs
    rw [Indexed.rawArguments_cons] at h
    rw [List.cons_append, Indexed.rawArguments_cons, List.foldl_cons]
    split
    -- a comma that splits closes a piece, which the second text does not reach
    · next hcomma =>
      have hdepth : depthAfter depth c = depth := by
        simp only [Bool.and_eq_true, decide_eq_true_eq] at hcomma
        rw [hcomma.1]
        rfl
      rw [if_pos hcomma, ← hdepth, hcs] at h
      obtain ⟨rfl, hlast⟩ := List.append_inj' (show ([] :: front) ++ [tail] = _ from h) rfl
      obtain rfl := (List.cons.inj hlast).1
      rw [hdepth, ih (hdepth ▸ hcs)]
      rfl
    -- any other character joins the first of the pieces behind it
    · next hcomma =>
      rw [if_neg hcomma, hcs] at h
      rw [ih hcs]
      cases front with
      | nil =>
        obtain ⟨rfl, hlast⟩ := List.append_inj' (show [] ++ [c :: tail] = _ from h) rfl
        obtain rfl := (List.cons.inj hlast).1
        exact Indexed.joinFirst_joinFirst [c] tail _
      | cons piece front =>
        obtain ⟨rfl, hlast⟩ :=
          List.append_inj' (show ((c :: piece) :: front) ++ [tail] = _ from h) rfl
        obtain rfl := (List.cons.inj hlast).1
        rfl

/-- A word is not cut, and opens and closes nothing. -/
theorem IsWord.rawArguments_append {word : List Char} (hword : IsWord word) (depth : Int)
    (rest : List Char) :
    Text.rawArguments depth (word ++ rest) = joinFirst word (Text.rawArguments depth rest) := by
  have hchars := hword.chars
  clear hword
  induction word with
  | nil => exact (Indexed.joinFirst_nil (Indexed.rawArguments_ne_nil depth rest)).symm
  | cons c word ih =>
    obtain ⟨hc, hchars⟩ := List.forall_mem_cons.mp hchars
    have hne {d : Char} (hd : isWordChar d = false) : c ≠ d := ne_of_isWordChar hc hd
    have hdepth : depthAfter depth c = depth := by
      simp [depthAfter, hne (d := '(') (by decide), hne (d := ')') (by decide),
        hne (d := '[') (by decide), hne (d := ']') (by decide)]
    rw [List.cons_append, Indexed.rawArguments_cons, hdepth, ih hchars,
      Indexed.joinFirst_joinFirst, if_neg (by simp [hne (d := ',') (by decide)])]
    rfl

/-- Joined pieces are all but the last with a comma behind each, and the last. -/
theorem intercalate_append_singleton (pieces : List (List Char)) (last : List Char) :
    List.intercalate [','] (pieces ++ [last]) = pieces.flatMap (· ++ [',']) ++ last := by
  induction pieces with
  | nil => exact List.intercalate_singleton
  | cons piece pieces ih =>
    obtain ⟨next, others, hnext⟩ := List.exists_cons_of_ne_nil
      (List.append_ne_nil_of_right_ne_nil pieces (List.cons_ne_nil last []))
    rw [List.cons_append, hnext, List.intercalate_cons_cons, ← hnext, ih]
    simp

/-- Joined pieces start with the first one. -/
theorem exists_intercalate_cons (piece : List Char) (pieces : List (List Char)) :
    ∃ rest, List.intercalate [','] (piece :: pieces) = piece ++ rest := by
  cases pieces with
  | nil => exact ⟨[], by simp⟩
  | cons next pieces => exact ⟨_, List.intercalate_cons_cons.trans (List.append_assoc ..)⟩

/-- The labels of the pieces are those of the first and those of the others behind its comma. -/
theorem pieceLabels_cons (function : String) (offset : Nat) (piece : List Char)
    (pieces : List (List Char)) :
    pieceLabels function offset (piece :: pieces) =
      (label? function (Slice.mk offset piece).trim).toList ++
        pieceLabels function (offset + byteLength piece + 1) pieces := by
  rw [pieceLabels, Text.placePieces, List.filterMap_cons, pieceLabels]
  cases label? function (Slice.mk offset piece).trim <;> rfl

/-- The labels of two lists of pieces, the second behind the first. -/
theorem pieceLabels_append (function : String) (offset : Nat) (pieces others : List (List Char)) :
    pieceLabels function offset (pieces ++ others) =
      pieceLabels function offset pieces ++
        pieceLabels function (offset + byteLength (pieces.flatMap (· ++ [',']))) others := by
  induction pieces generalizing offset with
  | nil => rfl
  | cons piece pieces ih =>
    rw [List.cons_append, pieceLabels_cons, pieceLabels_cons, ih, List.append_assoc,
      List.flatMap_cons, byteLength_append, byteLength_append]
    simp only [Nat.add_assoc]
    rfl

/-- The label of a part is a word inside of it. -/
theorem label?_inside {function : String} {part : Slice} {label : Label}
    (h : label? function part = some label) :
    label.offset < label.stop ∧ label.stop ≤ part.stop := by
  obtain ⟨⟨word, behind⟩, hword, hlabel⟩ := Option.bind_eq_some_iff.mp h
  have hpos := (IsWord.of_word? hword).byteLength_pos
  have hlength := congrArg byteLength (Indexed.word?_eq_some hword).1
  rw [byteLength_append] at hlength
  dsimp only at hlabel
  split at hlabel
  · cases hlabel
    rw [Label.stop, String.toList_ofList, Slice.stop]
    dsimp only
    omega
  · cases hlabel

/-- Trimming does not move the end of a slice to the right. -/
theorem trim_stop_le (s : Slice) : s.trim.stop ≤ s.stop := by
  obtain ⟨tail, htail, -⟩ :=
    Indexed.dropEndWhile_spec isAsciiBlank (s.text.dropWhile isAsciiBlank)
  have hsplit := congrArg byteLength
    (@List.takeWhile_append_dropWhile _ isAsciiBlank s.text)
  have hdrop := congrArg byteLength htail
  rw [byteLength_append] at hsplit hdrop
  rw [Slice.trim, Slice.dropWhile, Slice.stop, Slice.stop]
  dsimp only
  omega

/-- The labels of pieces are words inside of them. -/
theorem pieceLabels_inside {function : String} {offset : Nat} {pieces : List (List Char)}
    {label : Label} (h : label ∈ pieceLabels function offset pieces) :
    label.offset < label.stop ∧
      label.stop ≤ offset + byteLength (List.intercalate [','] pieces) := by
  obtain ⟨piece, hpiece, hlabel⟩ := List.mem_filterMap.mp h
  obtain ⟨hlt, hstop⟩ := label?_inside hlabel
  have hinside := Indexed.forall_mem_placePieces
    (P := fun s => s.stop ≤ offset + byteLength (List.intercalate [','] pieces))
    (fun i front rest hcut => ?_) (Nat.le_refl _) piece hpiece
  · exact ⟨hlt, hstop.trans ((trim_stop_le piece).trans hinside)⟩
  · simp only [Slice.stop, byteLength_append, byteLength_cons] at hcut ⊢
    have hcomma : Char.utf8Size ',' = 1 := rfl
    omega

/-- A label takes up room within the argument list. -/
theorem labelsIn_inside {function : String} {arguments : Slice} {label : Label}
    (h : label ∈ labelsIn function arguments) :
    label.offset < label.stop ∧ label.stop ≤ arguments.stop := by
  rw [labelsIn_eq_pieceLabels] at h
  have hinside := pieceLabels_inside h
  rwa [Indexed.intercalate_rawArguments] at hinside

/-- The labels of an argument list with a word in it: those of the pieces before the word,
perhaps one of its own piece, and those of the pieces behind it. -/
theorem uniform_labelsIn (function : String) (offset : Nat) {front behind : List Char}
    (hfront : EndsName front) (hbehind : EndsWord behind) :
    Uniform (offset + byteLength front) fun word =>
      labelsIn function ⟨offset, front ++ (word ++ behind)⟩ := by
  obtain ⟨pieces, last, hpieces⟩ := exists_rawArguments_eq_append 0 front
  obtain ⟨next, later, hnext⟩ := List.exists_cons_of_ne_nil
    (Indexed.rawArguments_ne_nil (front.foldl depthAfter 0) behind)
  have hcut : front = pieces.flatMap (· ++ [',']) ++ last := by
    rw [← intercalate_append_singleton, ← hpieces, Indexed.intercalate_rawArguments]
  -- the piece behind the word starts as the text behind it does
  have hnextEnds : EndsWord next := by
    have hjoined := Indexed.intercalate_rawArguments (front.foldl depthAfter 0) behind
    obtain ⟨rest, hrest⟩ := exists_intercalate_cons next later
    rw [hnext, hrest] at hjoined
    rw [← hjoined] at hbehind
    exact hbehind.of_prefix
  have hlabels (word : List Char) (hword : IsWord word) :
      labelsIn function ⟨offset, front ++ (word ++ behind)⟩ =
        pieceLabels function offset pieces ++
        ((label? function (Slice.mk (offset + byteLength (pieces.flatMap (· ++ [','])))
          (last ++ (word ++ next))).trim).toList ++
        (pieceLabels function (byteLength next + 1) later).map
          (Label.moved (offset + byteLength front + byteLength word))) := by
    rw [labelsIn_eq_pieceLabels, rawArguments_append hpieces, hword.rawArguments_append, hnext]
    show pieceLabels function offset (pieces ++ (last ++ (word ++ next)) :: later) = _
    rw [pieceLabels_append, pieceLabels_cons, ← pieceLabels_moved]
    congr 3
    rw [hcut]
    simp only [byteLength_append]
    omega
  refine Uniform.congr ?_ hlabels
  -- pieces before the word, the piece with the word, and pieces behind it
  refine (Uniform.before fun label hlabel => ?_).append (.append ?_ (.behind _))
  · have hinside := @pieceLabels_inside function offset (pieces ++ [last]) label
      (by rw [pieceLabels_append]; exact List.mem_append_left _ hlabel)
    rwa [intercalate_append_singleton, ← hcut] at hinside
  · rw [hcut] at hfront ⊢
    rw [byteLength_append, ← Nat.add_assoc]
    exact uniform_label?_trim function _ hfront.of_suffix hnextEnds

end PineCheck
