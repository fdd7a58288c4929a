import PineCheck.Proofs.Surroundings

/-!
# PineCheck — renamed arguments

The check of names offers new names for arguments. This module says what comes of it when
one is taken: the complaints about the old name are gone, and all others are the same, at
places that have moved with the text.

Main result:

* `check_renamed` — the findings about the names of arguments, after a name has been changed
  for an offered one that is written in the usual way.
-/

namespace PineCheck

open Check
open Lexer (isWordStart isWordChar)
open Text (mask)

-- ---------------------------------------------------------------------------
-- Offered names
-- ---------------------------------------------------------------------------

/-- Whether a cause offers a new name. -/
def Cause.Offers (cause : Cause) (name : String) : Prop :=
  cause.text? "replacement" = some name ∨ cause.text? "suggestion" = some name

/-- A renamed parameter offers its new name. -/
theorem offers_renamedParameter {function parameter replacement name : String} :
    (Cause.renamedParameter function parameter replacement).Offers name ↔ replacement = name := by
  simp [Cause.Offers, Cause.text?, Cause.facts, List.lookup]

/-- An unusual name offers the suggested one, if there is one. -/
theorem offers_unusualName {function parameter name : String} {convention : Convention}
    {suggestion : Option String} :
    (Cause.unusualName function parameter convention suggestion).Offers name ↔
      suggestion = some name := by
  cases suggestion <;> simp [Cause.Offers, Cause.text?, Cause.facts, List.lookup]

/-- What starts a word does so in lower case. -/
theorem isWordStart_toLower {c : Char} (h : isWordStart c = true) :
    isWordStart c.toLower = true := by
  rw [isWordStart, Bool.or_eq_true] at h
  rcases h with h | h
  · rw [isWordStart, Char.isAlpha_toLower_eq_isAlpha, h]
    rfl
  · rw [eq_of_beq h]
    rfl

/-- What stands in a word does so in lower case. -/
theorem isWordChar_toLower {c : Char} (h : isWordChar c = true) :
    isWordChar c.toLower = true := by
  by_cases hupper : c.isUpper = true
  · have halpha : isWordStart c.toLower = true :=
      isWordStart_toLower (by simp [isWordStart, Char.isAlpha, hupper])
    exact Lexer.isWordChar_of_isWordStart halpha
  · rwa [Char.toLower_eq_of_not_isUpper hupper]

/-- The snake case of a word is made of characters of words. -/
theorem isWordChar_of_mem_snakeFrom {last : Option Char} {cs : List Char}
    (h : ∀ c ∈ cs, isWordChar c = true) :
    ∀ c ∈ Naming.snakeFrom last cs, isWordChar c = true := by
  have hunderscore : isWordChar '_' = true := rfl
  fun_induction Naming.snakeFrom last cs with
  | case1 => exact nofun
  | case2 last c cs _ lower _ ih =>
    obtain ⟨hc, hcs⟩ := List.forall_mem_cons.mp h
    simp only [List.forall_mem_cons]
    exact ⟨hunderscore, isWordChar_toLower hc, ih hcs⟩
  | case3 last c cs _ lower _ ih =>
    obtain ⟨hc, hcs⟩ := List.forall_mem_cons.mp h
    exact List.forall_mem_cons.mpr ⟨isWordChar_toLower hc, ih hcs⟩
  | case4 last c cs _ ih =>
    obtain ⟨hc, hcs⟩ := List.forall_mem_cons.mp h
    exact List.forall_mem_cons.mpr ⟨hc, ih hcs⟩

/-- The usual way to write a word is a word. -/
theorem IsWord.suggest {word : List Char} (hword : IsWord word) (convention : Convention) :
    IsWord (Naming.suggest convention word) := by
  obtain ⟨c, cs, rfl, hc, hchars⟩ := hword.exists_cons
  have hsnake : IsWord (Naming.toSnakeCase (c :: cs)) := by
    refine ⟨?_, isWordChar_of_mem_snakeFrom hchars⟩
    rw [Naming.toSnakeCase, Naming.snakeFrom]
    split
    · exact isWordStart_toLower hc
    · exact hc
  cases convention with
  | allCaps =>
    refine ⟨isWordStart_toLower hc, fun d hd => ?_⟩
    obtain ⟨e, he, rfl⟩ := List.mem_map.mp hd
    exact isWordChar_toLower (hchars e he)
  | singleCharacter | camelCase | pascalCase => exact hsnake

/-- Old names of parameters are not written in the usual way, and new ones are words. -/
theorem renamedParameters_spec : ∀ row ∈ Language.renamedParameters,
    (Naming.classify row.2.1.toList).isSome = true ∧
      row.2.2.toList.head?.any isWordStart = true ∧ row.2.2.toList.all isWordChar = true := by
  decide +kernel

/-- A renamed parameter is a row of the table. -/
theorem exists_of_renamedParameter? {function parameter replacement : String}
    (h : Language.renamedParameter? function parameter = some replacement) :
    ∃ row ∈ Language.renamedParameters, row.2.1 = parameter ∧ row.2.2 = replacement := by
  obtain ⟨row, hrow, hnew⟩ := Option.map_eq_some_iff.mp h
  have hold := List.find?_some hrow
  simp only [Bool.and_eq_true, decide_eq_true_eq] at hold
  exact ⟨row, List.mem_of_find?_eq_some hrow, hold.2, hnew⟩

/-- Nothing is wrong with a name that is written in the usual way. -/
theorem Check.Naming.cause?_eq_none {name : String} (h : Naming.classify name.toList = none)
    (docs : Option Documentation) (function : String) :
    Naming.cause? docs function name = none := by
  rw [Naming.cause?]
  split
  · next replacement hrenamed =>
    obtain ⟨row, hrow, hold, -⟩ := exists_of_renamedParameter? hrenamed
    have hflagged := (renamedParameters_spec row hrow).1
    rw [hold, h] at hflagged
    cases hflagged
  · split
    · rfl
    · rw [h]
      rfl

/-- The names that are offered for a word are words. -/
theorem isWord_of_offers {docs : Option Documentation} {function parameter name : String}
    {cause : Cause} (hcause : Naming.cause? docs function parameter = some cause)
    (hparameter : IsWord parameter.toList) (h : cause.Offers name) : IsWord name.toList := by
  obtain ⟨replacement, hrenamed, rfl⟩ | ⟨convention, -, rfl⟩ := Check.Naming.cause?_eq_some hcause
  · obtain ⟨row, hrow, -, hnew⟩ := exists_of_renamedParameter? hrenamed
    obtain ⟨-, hstart, hchars⟩ := renamedParameters_spec row hrow
    rw [hnew, offers_renamedParameter.mp h] at hstart hchars
    exact ⟨hstart, List.all_eq_true.mp hchars⟩
  · have hoffer := offers_unusualName.mp h
    split at hoffer
    · cases hoffer
    · rw [← Option.some.inj hoffer, String.toList_ofList]
      exact hparameter.suggest convention

-- ---------------------------------------------------------------------------
-- Places around a changed word
-- ---------------------------------------------------------------------------

/-- A script with another text in place of a span. -/
def Span.replaceIn (script : List Char) (span : Span) (text : List Char) : List Char :=
  Text.between script 0 span.start ++ (text ++ Text.between script span.stop (byteLength script))

/-- Replacing a stretch of a text. -/
theorem replaceIn_stretch (before inside behind text : List Char) :
    (stretch before inside).replaceIn (before ++ (inside ++ behind)) text =
      before ++ (text ++ behind) := by
  have hfront := Text.between_stretch [] before (inside ++ behind)
  have hback := Text.between_stretch (before ++ inside) behind []
  rw [byteLength_nil, Nat.zero_add, List.nil_append] at hfront
  rw [List.append_nil, ← byteLength_append, List.append_assoc] at hback
  rw [Span.replaceIn, stretch_start, stretch_stop, hfront, ← byteLength_append, hback]

/-- Where a place behind an edited span has moved to, when the new text has this width. -/
def Position.shifted (p : Position) (edit : Span) (width : Nat) : Position where
  offset := p.offset + width - edit.length
  line := p.line
  column := if p.line = edit.line then p.column + width - edit.length else p.column

/-- Where a span has moved to, when another span has been edited. -/
def Span.shifted (span edit : Span) (width : Nat) : Span :=
  if span.start < edit.stop then span
  else
    { start := span.start + width - edit.length
      stop := span.stop + width - edit.length
      line := span.line
      column := if span.line = edit.line then span.column + width - edit.length else span.column }

/-- A place is behind an edited span, which lies in one line. -/
structure Position.Behind (edit : Span) (p : Position) : Prop where
  offset : edit.length ≤ p.offset
  line : edit.line ≤ p.line
  column : p.line = edit.line → edit.length ≤ p.column

namespace Position.Behind

variable {edit : Span} {p : Position}

/-- A position behind an edit stays behind it. -/
theorem advance (h : p.Behind edit) (c : Char) : (p.advance c).Behind edit := by
  obtain ⟨hoffset, hline, hcolumn⟩ := h
  rw [Position.advance]
  split
  · exact ⟨by dsimp only; omega, by dsimp only; omega, fun heq => by dsimp only at heq; omega⟩
  · exact ⟨by dsimp only; omega, hline, fun heq => Nat.le_succ_of_le (hcolumn heq)⟩

/-- Advancing and shifting commute behind an edit. -/
theorem shifted_advance (h : p.Behind edit) (width : Nat) (c : Char) :
    (p.shifted edit width).advance c = (p.advance c).shifted edit width := by
  obtain ⟨hoffset, hline, hcolumn⟩ := h
  by_cases hc : c = '\n'
  -- behind a line break the column starts again, and is not shifted
  · have hnext : p.line + 1 ≠ edit.line := by omega
    simp only [Position.advance, Position.shifted, if_pos hc, if_neg hnext, Position.mk.injEq,
      and_true]
    omega
  · simp only [Position.advance, Position.shifted, if_neg hc, Position.mk.injEq, true_and]
    refine ⟨by omega, ?_⟩
    split
    · next heq =>
      have := hcolumn heq
      omega
    · rfl

/-- A text moves a shifted place as it moves the place. -/
theorem shifted_after (h : p.Behind edit) (width : Nat) (cs : List Char) :
    (p.shifted edit width).after cs = (p.after cs).shifted edit width := by
  induction cs generalizing p with
  | nil => rfl
  | cons c cs ih => rw [after_cons, after_cons, h.shifted_advance, ih (h.advance c)]

end Position.Behind

namespace Position

/-- Seeking looks at nothing behind the limit. -/
theorem seek_append_of_le {p : Position} {limit : Nat} {a : List Char}
    (h : limit ≤ p.offset + byteLength a) (b : List Char) :
    p.seek limit (a ++ b) = p.seek limit a := by
  induction a generalizing p with
  | nil =>
    cases b with
    | nil => rfl
    | cons c cs =>
      have := c.utf8Size_pos
      rw [byteLength_nil] at h
      exact if_neg (by omega)
  | cons c cs ih =>
    rw [byteLength_cons] at h
    rw [List.cons_append, seek, seek, ih (by rw [advance_offset]; omega)]

/-- Seeking goes equally far from two places, if the limits are equally far. -/
theorem exists_seek_add (p q : Position) (distance : Nat) (cs : List Char) :
    ∃ front, p.seek (p.offset + distance) cs = p.after front ∧
      q.seek (q.offset + distance) cs = q.after front := by
  induction cs generalizing p q distance with
  | nil => exact ⟨[], rfl, rfl⟩
  | cons c cs ih =>
    rw [seek, seek]
    by_cases hle : c.utf8Size ≤ distance
    · obtain ⟨front, hp, hq⟩ := ih (p.advance c) (q.advance c) (distance - c.utf8Size)
      rw [advance_offset, Nat.add_assoc, Nat.add_sub_cancel' hle] at hp hq
      rw [if_pos (by omega), if_pos (by omega), hp, hq]
      exact ⟨c :: front, rfl, rfl⟩
    · rw [if_neg (by omega), if_neg (by omega)]
      exact ⟨[], rfl, rfl⟩

end Position

/-- What is located before an edited place stays there. -/
theorem locate_append_of_le {a : List Char} {offset length : Nat}
    (h : offset + length ≤ byteLength a) (b : List Char) :
    locate (a ++ b) offset length = locate a offset length ∧
      (locate a offset length).start ≤ offset := by
  obtain ⟨before, rest, -, hseek, hle, -⟩ := Indexed.seek_spec {} offset a (Nat.zero_le _)
  have hstart := @Position.seek_append_of_le {} offset a (by dsimp only; omega) b
  rw [hseek] at hstart
  rw [locate, locate, hstart, hseek]
  refine ⟨?_, ?_⟩
  · rw [Position.seek_append_of_le]
    rw [Position.after_offset]
    dsimp only at hle ⊢
    omega
  · show (Position.after {} before).offset ≤ offset
    rwa [Position.after_offset]

/-- Locating behind a text is seeking from there. -/
theorem locate_after {a b front back : List Char} {distance length : Nat}
    (hfront : (Position.after {} a).seek ((Position.after {} a).offset + distance) b =
      (Position.after {} a).after front)
    (hback : (Position.after {} a).seek
        ((Position.after {} a).offset + (byteLength front + length)) b =
      (Position.after {} a).after back) :
    locate (a ++ b) (byteLength a + distance) length =
      Span.between ((Position.after {} a).after front) ((Position.after {} a).after back) := by
  have hoffset : (Position.after {} a).offset = byteLength a :=
    (Position.after_offset {} a).trans (Nat.zero_add _)
  have hseek (more : Nat) := @Position.seek_append {} (byteLength a + more) a b (by simp)
  rw [hoffset] at hfront hback
  rw [locate, hseek, hfront, Position.after_offset, hoffset, Nat.add_assoc, hseek, hback]

/-- The characters of words are single bytes. -/
theorem byteLength_eq_length {cs : List Char} (h : ∀ c ∈ cs, isWordChar c = true) :
    byteLength cs = cs.length := by
  induction cs with
  | nil => rfl
  | cons c cs ih =>
    obtain ⟨hc, hcs⟩ := List.forall_mem_cons.mp h
    rw [byteLength_cons, ih hcs, Indexed.utf8Size_of_lt (Indexed.onlyAscii_isWordChar c hc),
      List.length_cons, Nat.add_comm]

/-- The letters, digits and underscores of a word are one byte and one column each. -/
theorem IsWord.after {word : List Char} (hword : IsWord word) (p : Position) :
    p.after word = ⟨p.offset + byteLength word, p.line, p.column + byteLength word⟩ := by
  have hlength : byteLength word = word.length := byteLength_eq_length hword.chars
  rw [Position.after_of_notMem p, hlength]
  exact fun hmem => ne_of_isWordChar (hword.chars _ hmem) (by decide) rfl

/-- A span behind an edit is shifted as its ends are. -/
theorem between_shifted {p q : Position} {edit : Span} (h : edit.stop ≤ p.offset) (width : Nat) :
    Span.between (p.shifted edit width) (q.shifted edit width) =
      (Span.between p q).shifted edit width := by
  have hbehind : ¬ (Span.between p q).start < edit.stop := Nat.not_lt.mpr h
  rw [Span.shifted, if_neg hbehind]
  rfl

/-- What is located behind an edited word moves with the text. -/
theorem locate_behind {word other : List Char} (hword : IsWord word) (hother : IsWord other)
    (before rest : List Char) (distance length : Nat) :
    locate (before ++ (other ++ rest)) (byteLength (before ++ other) + distance) length =
      (locate (before ++ (word ++ rest)) (byteLength (before ++ word) + distance) length).shifted
        (stretch before word) (byteLength other) ∧
    byteLength (before ++ word) ≤ (locate (before ++ (word ++ rest))
      (byteLength (before ++ word) + distance) length).start := by
  obtain ⟨front, hp, hq⟩ := Position.exists_seek_add (Position.after {} (before ++ word))
    (Position.after {} (before ++ other)) distance rest
  obtain ⟨back, hp', hq'⟩ := Position.exists_seek_add (Position.after {} (before ++ word))
    (Position.after {} (before ++ other)) (byteLength front + length) rest
  have hlength : (stretch before word).length = byteLength word := by
    rw [Span.length, stretch_start, stretch_stop, Nat.add_sub_cancel_left]
  have hline : (stretch before word).line = (Position.after {} before).line := rfl
  have hbehind : (Position.after {} (before ++ word)).Behind (stretch before word) := by
    rw [Position.after_append, hword.after]
    exact ⟨by rw [hlength]; exact Nat.le_add_left .., Nat.le_refl _,
      fun _ => by rw [hlength]; exact Nat.le_add_left ..⟩
  -- behind the word the two texts differ by its width alone
  have hshifted : Position.after {} (before ++ other) =
      (Position.after {} (before ++ word)).shifted (stretch before word) (byteLength other) := by
    rw [Position.after_append, Position.after_append, hword.after, hother.after]
    simp only [Position.shifted, hlength, hline, if_true, Nat.add_right_comm _ (byteLength word),
      Nat.add_sub_cancel]
  have hoffset : byteLength (before ++ word) ≤
      ((Position.after {} (before ++ word)).after front).offset := by
    rw [Position.after_offset, Position.after_offset]
    omega
  rw [← List.append_assoc, ← List.append_assoc, locate_after hp hp', locate_after hq hq', hshifted,
    hbehind.shifted_after, hbehind.shifted_after, between_shifted]
  · exact ⟨rfl, hoffset⟩
  · rwa [stretch_stop, ← byteLength_append]

-- ---------------------------------------------------------------------------
-- Findings of labels
-- ---------------------------------------------------------------------------

/-- What is found about a label. -/
def Label.finding? (docs : Option Documentation) (script : List Char) (label : Label) :
    Option Finding :=
  (Naming.cause? docs label.function label.name).map fun cause =>
    ⟨cause, locate script label.offset (byteLength label.name.toList)⟩

/-- The naming check of a site goes over its labels. -/
theorem Check.Naming.checkSite_eq (docs : Option Documentation) (script : List Char)
    (site : Text.CallSite) :
    Naming.checkSite docs script site =
      (labelsOf site).filterMap (Label.finding? docs script) := by
  rw [Naming.checkSite, labelsOf]
  split
  · rfl
  · rw [labelsIn_eq, List.filterMap_map]
    rfl

/-- The naming check of a script goes over its labels. -/
theorem Check.Naming.check_eq (docs : Option Documentation) (script masked : List Char) :
    Naming.check docs script masked =
      (labelsFrom none 0 masked).filterMap (Label.finding? docs script) := by
  rw [Naming.check, labelsFrom, List.filterMap_flatMap]
  exact List.flatMap_congr fun site _ => Naming.checkSite_eq docs script site

/-- A finding that has moved with an edited span. -/
def Finding.shifted (finding : Finding) (edit : Span) (width : Nat) : Finding :=
  { finding with span := finding.span.shifted edit width }

/-- What is found at a span that has moved, when the edited word is somewhere else. -/
theorem map_moved (cause : Option Cause) {span moved edit : Span} {place width : Nat}
    (hne : span.start ≠ place) (hmoved : moved = span.shifted edit width) :
    cause.map (fun cause => Finding.mk cause moved) =
      ((cause.map fun cause => Finding.mk cause span).filter
        fun finding => finding.span.start ≠ place).map
          fun finding => finding.shifted edit width := by
  cases cause with
  | none => rfl
  | some cause =>
    rw [hmoved, Option.map_some, Option.map_some, Option.filter_some, if_pos (by simpa using hne)]
    rfl

/-- What is found about a label after a word has been changed is what has been found before,
unless the label is the word. -/
theorem finding?_fill (docs : Option Documentation) {word other before : List Char}
    (rest : List Char) (hword : IsWord word) (hother : IsWord other)
    (husual : Naming.classify other = none) {entry : Entry}
    (hfits : entry.Fits (byteLength before)) :
    (entry.fill (byteLength before) other).finding? docs (before ++ (other ++ rest)) =
      (((entry.fill (byteLength before) word).finding? docs (before ++ (word ++ rest))).filter
        fun finding => finding.span.start ≠ byteLength before).map
          fun finding => finding.shifted (stretch before word) (byteLength other) := by
  have hpos := hword.byteLength_pos
  cases entry with
  -- found before the word: nothing moves
  | before label =>
    obtain ⟨hlt, hstop⟩ := hfits
    obtain ⟨hold, hstart⟩ := locate_append_of_le hstop (word ++ rest)
    obtain ⟨hnew, -⟩ := locate_append_of_le hstop (other ++ rest)
    simp only [Entry.fill, Label.finding?, hold, hnew]
    refine map_moved _ (by omega) ?_
    rw [Span.shifted, if_pos (by rw [stretch_stop]; omega)]
  | here function =>
    -- the only label that is another one in the new script
    have hnone : Naming.cause? docs function (String.ofList other) = none :=
      Naming.cause?_eq_none (by rwa [String.toList_ofList]) docs function
    have hspan := locate_stretch before word rest
    simp only [Entry.fill, Label.finding?, hnone, String.toList_ofList, hspan]
    cases Naming.cause? docs function (String.ofList word) with
    | none => rfl
    | some cause => simp
  -- found behind the word: it moves with the text
  | behind label =>
    obtain ⟨hmoved, hstart⟩ := locate_behind hword hother before rest label.offset
      (byteLength label.name.toList)
    rw [byteLength_append, byteLength_append] at hmoved
    rw [byteLength_append] at hstart
    exact map_moved _ (by dsimp only [Entry.fill, Label.moved]; omega) hmoved

/-- A finding is about a word of the script, and the labels around the word do not depend on
it. -/
theorem exists_word_of_mem_check {docs : Option Documentation} {script : List Char}
    {finding : Finding} (h : finding ∈ Naming.check docs script (mask script)) :
    ∃ function word before rest,
      Naming.cause? docs function (String.ofList word) = some finding.cause ∧ IsWord word ∧
      script = before ++ (word ++ rest) ∧ finding.span = stretch before word ∧
      Uniform (byteLength before) fun other =>
        labelsFrom none 0 (mask (before ++ (other ++ rest))) := by
  rw [Naming.check_eq] at h
  obtain ⟨label, hlabel, hfinding⟩ := List.mem_filterMap.mp h
  obtain ⟨cause, hcause, rfl⟩ := Option.map_eq_some_iff.mp hfinding
  -- the label is that of a part of a site
  obtain ⟨site, hsite, hlabel⟩ := List.mem_flatMap.mp hlabel
  rw [labelsOf] at hlabel
  split at hlabel
  · cases hlabel
  obtain ⟨part, hpart, hlabel⟩ := List.mem_filterMap.mp hlabel
  obtain ⟨⟨word, behind⟩, hword, hlabel⟩ := Option.bind_eq_some_iff.mp hlabel
  dsimp only at hlabel
  split at hlabel
  · next hnames =>
    cases hlabel
    obtain ⟨before, rest, rfl, hbefore, huniform⟩ := exists_uniform_labels hsite hpart hword hnames
    refine ⟨site.name, word, before, rest, hcause, .of_word? hword, rfl, ?_, huniform⟩
    rw [← hbefore, String.toList_ofList]
    exact locate_stretch before word rest
  · cases hlabel

/-- **A new name settles the complaints about a name, and nothing else.** When the name of an
argument is changed for an offered one that is written in the usual way, the findings that
start at the name are gone. All others are the same, and have moved with the text. -/
theorem check_renamed (docs : Option Documentation) (source : String) {finding : Finding}
    {name : String}
    (hfinding : finding ∈ Naming.check docs source.toList (mask source.toList))
    (hoffers : finding.cause.Offers name) (husual : Naming.classify name.toList = none) :
    Naming.check docs (finding.span.replaceIn source.toList name.toList)
        (mask (finding.span.replaceIn source.toList name.toList)) =
      ((Naming.check docs source.toList (mask source.toList)).filter
        fun other => other.span.start ≠ finding.span.start).map
          fun other => other.shifted finding.span (byteLength name.toList) := by
  obtain ⟨function, word, before, rest, hcause, hword, hscript, hspan, entries, hfits, hlabels⟩ :=
    exists_word_of_mem_check hfinding
  have hname : IsWord name.toList :=
    isWord_of_offers hcause (by rwa [String.toList_ofList]) hoffers
  -- the two runs go over the same entries
  dsimp only at hlabels
  rw [hscript, hspan, replaceIn_stretch, stretch_start, Naming.check_eq, Naming.check_eq,
    hlabels word hword, hlabels name.toList hname, List.filterMap_map, List.filterMap_map,
    List.filter_filterMap, List.map_filterMap]
  exact List.filterMap_congr fun entry hentry =>
    finding?_fill docs rest hword hname husual (hfits entry hentry)

/-- A call with a name that has another length now, before other names on its line, one of
them in a call of its own, and on the next line. -/
def outdatedCell : String :=
  "table.cell(t, 0, 0, textColor = f(Len = 2), bgColor = g,\n  textSize = s)"

/-- The complaint about that name. -/
def outdatedName : Finding :=
  ⟨.renamedParameter "table.cell" "textColor" "text_color", ⟨20, 29, 1, 20⟩⟩

/-- The first of four findings, two of them behind it on the same line and one on the next. -/
theorem check_renamed_outdatedCell :
    outdatedName ∈ Naming.check none outdatedCell.toList (mask outdatedCell.toList) ∧
    outdatedName.cause.Offers "text_color" ∧ Naming.classify "text_color".toList = none ∧
    Naming.check none
        (outdatedName.span.replaceIn outdatedCell.toList "text_color".toList)
        (mask (outdatedName.span.replaceIn outdatedCell.toList "text_color".toList)) =
      [⟨.renamedParameter "table.cell" "bgColor" "bgcolor", ⟨45, 52, 1, 45⟩⟩,
       ⟨.renamedParameter "table.cell" "textSize" "text_size", ⟨60, 68, 2, 2⟩⟩,
       ⟨.unusualName "f" "Len" .pascalCase (some "len"), ⟨35, 38, 1, 35⟩⟩] := by
  have hcheck : Naming.check none outdatedCell.toList (mask outdatedCell.toList) =
      [outdatedName,
       ⟨.renamedParameter "table.cell" "bgColor" "bgcolor", ⟨44, 51, 1, 44⟩⟩,
       ⟨.renamedParameter "table.cell" "textSize" "text_size", ⟨59, 67, 2, 2⟩⟩,
       ⟨.unusualName "f" "Len" .pascalCase (some "len"), ⟨34, 37, 1, 34⟩⟩] :=
    rfl
  have hfinding : outdatedName ∈ Naming.check none outdatedCell.toList
      (mask outdatedCell.toList) := by
    rw [hcheck]
    exact List.mem_cons_self
  have hoffers : outdatedName.cause.Offers "text_color" := offers_renamedParameter.mpr rfl
  have husual : Naming.classify "text_color".toList = none := by decide
  refine ⟨hfinding, hoffers, husual, ?_⟩
  have hrenamed := check_renamed none outdatedCell hfinding hoffers husual
  rw [hcheck] at hrenamed
  exact hrenamed

end PineCheck
