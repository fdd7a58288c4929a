import PineCheck.Analysis
import PineCheck.Proofs.Indexed.Arguments
import PineCheck.Proofs.Indexed.Location
import PineCheck.Proofs.Masking

/-!
# PineCheck — checks of calls by byte offsets

Four checks look at the call sites of the masked text: the names of arguments, the
numbers and the short title of a declaration, and the names of functions. They cut the
values of arguments out of the masked text and the short title out of the script, and
they take differences of offsets.

The short title is found in the masked text and cut out of the script. The cut lies
between characters of the script, because masking never puts a place that does not
stand between two spaces inside of a character (`maskFrom_cut`).

Main results, one for each check: `naming_eq`, `numbers_eq`, `shortTitles_eq` and
`compatibility_eq`. The checks never go wrong, and they find what the checks find that
go through the characters.
-/

namespace PineCheck.Indexed

open Text (Slice)
open Check

-- ---------------------------------------------------------------------------
-- Definitions
-- ---------------------------------------------------------------------------

/-- The finding about the name of an argument. -/
def namingOf (docs : Option Documentation) (script : List Char) (function : String)
    (argument : Named) : Checked (List Finding) := do
  let span ← location script argument.offset (byteLength argument.name.toList)
  .ok ((Naming.cause? docs function argument.name).map fun cause => ⟨cause, span⟩).toList

/-- The findings about the names of arguments at a call site. -/
def namingAt (docs : Option Documentation) (script masked : List Char) (site : Site) :
    Checked (List Finding) :=
  if site.isDefinition then .ok []
  else do collect (namingOf docs script site.name) (← namedArguments masked site.arguments)

/-- The findings about the names of arguments in a script. -/
def naming (docs : Option Documentation) (script masked : List Char) : Checked (List Finding) := do
  collect (namingAt docs script masked) (← callSites masked)

/-- Whether a call site declares a script. -/
def Site.declaresScript (site : Site) : Bool :=
  ["indicator", "strategy", "study"].contains site.name && !site.isDefinition

/-- The finding about the number that a named argument of a declaration gives. -/
def numberOf (rules : Option Rulebook) (script masked : List Char)
    (limits : List Declaration.Limit) (argument : Named) : Checked (List Finding) :=
  match limits.find? fun limit => limit.parameter = argument.name with
  | none => .ok []
  | some limit => do
    let raw ← slice masked argument.value.start argument.value.stop
    match Declaration.measure? rules limit (String.ofList raw) with
    | none => .ok []
    | some m =>
      if m.isFractional || m.isOutOfRange then
        let length ← minus argument.value.stop argument.offset
        let span ← location script argument.offset length
        .ok [⟨.badNumber limit.rule m, span⟩]
      else .ok []

/-- The findings about numbers in the declarations of a script. -/
def numbers (check : Check) (rules : Option Rulebook) (script masked : List Char) :
    Checked (List Finding) :=
  match Declaration.limits? check with
  | none => .error (.noLimits check)
  | some limits => do
    collect (fun site => do
      collect (numberOf rules script masked limits) (← namedArguments masked site.arguments))
      ((← callSites masked).filter Site.declaresScript)

/-- The range of the short title of a declaration. -/
def titleRange (masked : List Char) (site : Site) : Checked (Option Range) := do
  let named ← namedArguments masked site.arguments
  match named.find? fun argument => argument.name = "shorttitle" with
  | some argument => .ok (some argument.value)
  | none =>
    let isPositional (part : Range) : Bool :=
      !named.any fun argument => argument.offset = part.start
    match ← splitArguments masked site.arguments with
    | first :: second :: _ =>
      .ok (if isPositional first && isPositional second then some second else none)
    | _ => .ok none

/-- The contents of a string literal. -/
def unquote (text : List Char) : Checked (Option (List Char)) :=
  let text := Text.trim text
  match text.head? with
  | none => .ok none
  | some quote =>
    if (quote = '"' || quote = '\'') && 2 ≤ byteLength text && text.getLast? = some quote then do
      let stop ← minus (byteLength text) 1
      let inside ← slice text 1 stop
      .ok (some inside)
    else .ok none

/-- The finding about the short title of a declaration. -/
def shortTitleAt (limit : Nat) (script masked : List Char) (site : Site) :
    Checked (List Finding) := do
  match ← titleRange masked site with
  | none => .ok []
  | some range =>
    -- a range that cannot be cut out is no title
    match slice script range.start range.stop with
    | .error _ => .ok []
    | .ok literal =>
      match ← unquote literal with
      | none => .ok []
      | some title =>
        if title.length ≤ limit then .ok []
        else
          let length ← minus range.stop range.start
          let span ← location script range.start length
          .ok [⟨.longShortTitle (String.ofList title) title.length limit, span⟩]

/-- The findings about short titles in the declarations of a script. -/
def shortTitles (rules : Option Rulebook) (script masked : List Char) : Checked (List Finding) := do
  let setting := Declaration.settingOf? rules .shortTitleTooLong
  let limit := (setting.bind RuleSetting.maxLength).getD Declaration.shortTitleLimit
  collect (shortTitleAt limit script masked) ((← callSites masked).filter Site.declaresScript)

/-- The findings about the version that a script states. -/
def version (script : List Char) : Checked (List Finding) :=
  match Compatibility.versionLine? script with
  | none => do
    let span ← location script 0 0
    .ok [⟨.noVersion, span⟩]
  | some (line, stated) =>
    match Compatibility.readVersion? stated with
    | none => .ok []
    | some version =>
      if version < Language.currentVersion then do
        let span ← location script line.offset (byteLength line.text)
        .ok [⟨.outdatedVersion version, span⟩]
      else .ok []

/-- The finding about a function that a script calls and does not define. -/
def functionAt (script : List Char) (defined : List String) (site : Site) :
    Checked (List Finding) :=
  if site.isDefinition || defined.contains site.name then .ok []
  else do
    let span ← location script site.offset (byteLength site.name.toList)
    .ok ((Compatibility.cause? site.name).map fun cause => ⟨cause, span⟩).toList

/-- The findings about the version of a script. -/
def compatibility (script masked : List Char) : Checked (List Finding) := do
  let stated ← version script
  let sites ← callSites masked
  let defined := (sites.filter Site.isDefinition).map Site.name
  let calls ← collect (functionAt script defined) sites
  .ok (stated ++ calls)

-- ---------------------------------------------------------------------------
-- Names and numbers
-- ---------------------------------------------------------------------------

section Sites

variable {masked : List Char} {site : Text.CallSite}

/-- The named arguments of a call site are found without a fault. -/
theorem namedArguments_site (hsite : site ∈ Text.callSites masked)
    (hsize : byteLength masked < counterLimit) :
    namedArguments masked (Site.of site).arguments =
      .ok ((Text.namedArguments site.arguments).map Named.of) :=
  namedArguments_eq (delimited_of_mem_callSites hsite) hsize

/-- A named argument stands in a delimited part of its site. -/
theorem exists_part_of_mem_namedArguments {argument : Text.NamedArgument}
    (hsite : site ∈ Text.callSites masked)
    (h : argument ∈ Text.namedArguments site.arguments) :
    ∃ part, Delimited masked part ∧ Text.namedArgument? part = some argument := by
  obtain ⟨part, hpart, hargument⟩ := List.mem_filterMap.mp h
  exact ⟨part, (delimited_of_mem_callSites hsite).of_mem_splitArguments hpart, hargument⟩

end Sites

/-- The naming check runs on a named argument without a fault. -/
theorem namingOf_eq (docs : Option Documentation) (script : List Char) (function : String)
    (argument : Text.NamedArgument) :
    namingOf docs script function (Named.of argument) =
      .ok ((Naming.cause? docs function argument.name).map fun cause =>
        Finding.mk cause
          (locate script argument.offset (byteLength argument.name.toList))).toList := by
  rw [namingOf, location_eq]
  rfl

/-- The naming check runs without a fault. -/
theorem naming_eq (docs : Option Documentation) (script : List Char) {masked : List Char}
    (hsize : byteLength masked < counterLimit) :
    naming docs script masked = .ok (Naming.check docs script masked) := by
  rw [naming, callSites_eq hsize]
  refine collect_map fun site hsite => ?_
  rw [namingAt, Naming.checkSite]
  cases hdefinition : site.isDefinition with
  | true => simp [Site.of, hdefinition]
  | false =>
    rw [if_neg (by simp [Site.of, hdefinition]), if_neg Bool.false_ne_true,
      List.filterMap_eq_flatMap_toList, namedArguments_site hsite hsize]
    exact collect_map fun argument _ => namingOf_eq docs script site.name argument

/-- The check of a number runs without a fault. -/
theorem numberOf_eq (rules : Option Rulebook) (script : List Char) {masked : List Char}
    (limits : List Declaration.Limit) {argument : Text.NamedArgument}
    (hvalue : Delimited masked argument.value) (hstop : argument.offset ≤ argument.value.stop) :
    numberOf rules script masked limits (Named.of argument) =
      .ok (Declaration.checkNumber? rules script limits argument).toList := by
  obtain ⟨behind, hplace, -⟩ := hvalue.follows
  have hslice : slice masked (Named.of argument).value.start (Named.of argument).value.stop =
      .ok argument.value.text := hplace.slice
  have hlength : minus (Named.of argument).value.stop (Named.of argument).offset =
      .ok (argument.value.stop - argument.offset) := minus_eq hstop
  have hname : (Named.of argument).name = argument.name := rfl
  rw [numberOf, Declaration.checkNumber?, hname]
  cases limits.find? fun limit => limit.parameter = argument.name with
  | none => rfl
  | some limit =>
    simp only [bind, Except.bind, Option.bind_some, hslice]
    cases Declaration.measure? rules limit (String.ofList argument.value.text) with
    | none => rfl
    | some m =>
      simp only [Option.bind_some, hlength, location_eq]
      split <;> rfl

/-- The call sites that declare a script, by offsets. -/
theorem filter_declaresScript (masked : List Char) :
    ((Text.callSites masked).map Site.of).filter Site.declaresScript =
      (Declaration.declarations masked).map Site.of := by
  rw [List.filter_map]
  rfl

/-- The call that declares the script is a call site. -/
theorem mem_callSites_of_mem_declarations {masked : List Char} {site : Text.CallSite}
    (h : site ∈ Declaration.declarations masked) : site ∈ Text.callSites masked :=
  List.mem_of_mem_filter h

/-- The checks of numbers run without a fault. -/
theorem numbers_eq (rules : Option Rulebook) (script : List Char) {masked : List Char}
    {check : Check} {limits : List Declaration.Limit}
    (hlimits : Declaration.limits? check = some limits) (hsize : byteLength masked < counterLimit) :
    numbers check rules script masked =
      .ok (Declaration.checkNumbers rules script masked limits) := by
  rw [numbers, hlimits, callSites_eq hsize]
  simp only [bind, Except.bind, filter_declaresScript]
  refine collect_map fun site hsite => ?_
  have hsite := mem_callSites_of_mem_declarations hsite
  rw [namedArguments_site hsite hsize, List.filterMap_eq_flatMap_toList]
  refine collect_map fun argument hargument => ?_
  obtain ⟨part, hpart, hpart'⟩ := exists_part_of_mem_namedArguments hsite hargument
  exact numberOf_eq rules script limits (hpart.value hpart') (offset_le_value_stop hpart')

-- ---------------------------------------------------------------------------
-- Cuts in masked text
-- ---------------------------------------------------------------------------

/-- Masking keeps a character or blanks it. -/
theorem maskChar_cases (region : Text.Region) (c : Char) (next : Option Char) :
    (Text.maskChar region c next).1 = [c] ∨ (Text.maskChar region c next).1 = Text.blanked c := by
  cases region <;> simp only [Text.maskChar] <;> grind

/-- Blanking a character keeps its bytes. -/
theorem byteLength_blanked (c : Char) : byteLength (Text.blanked c) = c.utf8Size := by
  rw [← length_utf8, utf8_blanked, List.length_replicate]

/-- Masking a character keeps its bytes. -/
theorem byteLength_maskChar (region : Text.Region) (c : Char) (next : Option Char) :
    byteLength (Text.maskChar region c next).1 = c.utf8Size := by
  rcases maskChar_cases region c next with h | h
  · rw [h]
    rfl
  · rw [h, byteLength_blanked]

/-- Masking keeps the length. -/
theorem byteLength_maskFrom (region : Text.Region) (cs : List Char) :
    byteLength (Text.maskFrom region cs) = byteLength cs := by
  induction cs generalizing region with
  | nil => rfl
  | cons c cs ih =>
    rw [Text.maskFrom, byteLength_append, byteLength_maskChar, ih, byteLength_cons]

/-- A cut through a masked character goes through spaces. -/
theorem not_cleanCut_inside {c : Char} {a b : List Char}
    (h : a ++ b = [c] ∨ a ++ b = Text.blanked c) (ha : a ≠ []) (hb : b ≠ [])
    (rest : List Char) : ¬ CleanCut a (b ++ rest) := by
  rcases h with h | h
  · have hlength := congrArg List.length h
    rw [List.length_append, List.length_singleton] at hlength
    have := List.length_pos_iff.mpr ha
    have := List.length_pos_iff.mpr hb
    omega
  · have hall : ∀ d ∈ a ++ b, d = ' ' := fun d hd => List.eq_of_mem_replicate (h ▸ hd)
    obtain ⟨d, ds, rfl⟩ := List.exists_cons_of_ne_nil hb
    rintro (hlast | hhead)
    · rw [List.getLast?_eq_some_getLast ha] at hlast
      exact hlast (congrArg some (hall _ (List.mem_append_left _ (List.getLast_mem ha))))
    · exact hhead (congrArg some (hall d (by simp)))

/-- Whether a text can stand in a region: a line break is neither escaped nor part of the
mark of a comment. -/
def FitsRegion (cs : List Char) : Text.Region → Prop
  | .escaped _ | .blockOpening | .blockClosing => cs.head? ≠ some '\n'
  | _ => True

/-- Masking a character looks at the next one, so the text behind it always fits. -/
theorem fitsRegion_maskChar (region : Text.Region) (c : Char) (cs : List Char) :
    FitsRegion cs (Text.maskChar region c cs.head?).2 := by
  have mark {d : Char} {p : Bool} (h : (p && decide (cs.head? = some d)) = true) (hd : d ≠ '\n') :
      cs.head? ≠ some '\n' := by
    rw [of_decide_eq_true (Bool.and_eq_true_iff.mp h).2]
    exact fun heq => hd (Option.some.inj heq)
  fun_cases Text.maskChar region c cs.head? with
  | case2 _ h => exact mark h (by decide)
  | case6 _ _ h =>
    intro hhead
    rw [hhead] at h
    simp at h
  | case12 h => exact mark h (by decide)
  | _ => trivial

/-- A clean cut of masked text is a cut of the text, and what stands behind the one is the
masked text behind the other. -/
theorem maskFrom_cut {region : Text.Region} {cs a b : List Char}
    (h : Text.maskFrom region cs = a ++ b) (hfits : FitsRegion cs region) (hcut : CleanCut a b) :
    ∃ before behind later, cs = before ++ behind ∧ byteLength before = byteLength a ∧
      Text.maskFrom later behind = b ∧ FitsRegion behind later := by
  induction cs generalizing region a with
  | nil =>
    obtain ⟨ha, hb⟩ := List.append_eq_nil_iff.mp h.symm
    exact ⟨[], [], region, rfl, by rw [ha], hb.symm, hfits⟩
  | cons c cs ih =>
    have hwhole := h
    rw [Text.maskFrom] at h
    have hcases := maskChar_cases region c cs.head?
    have hlength := byteLength_maskChar region c cs.head?
    have hnext := fitsRegion_maskChar region c cs
    generalize Text.maskChar region c cs.head? = found at h hcases hlength hnext
    obtain ⟨masked, next⟩ := found
    rcases List.append_eq_append_iff.mp h with ⟨rest, rfl, hrest⟩ | ⟨rest, rfl, rfl⟩
    · -- the cut lies behind the character
      have hlater : CleanCut rest b := by
        rcases hcut with hlast | hhead
        · cases rest with
          | nil => exact .inl (by simp)
          | cons d ds =>
            rw [List.getLast?_append, List.getLast?_cons, Option.some_or,
              ← List.getLast?_cons] at hlast
            exact .inl hlast
        · exact .inr hhead
      obtain ⟨before, behind, later, rfl, hbefore, hmask, hfits⟩ := ih hrest hnext hlater
      refine ⟨c :: before, behind, later, rfl, ?_, hmask, hfits⟩
      rw [byteLength_cons, byteLength_append, hlength, hbefore]
    -- the cut lies before the character, behind it, or inside its blanks
    · rcases List.eq_nil_or_concat a with rfl | ⟨_, _, ha⟩
      · exact ⟨[], c :: cs, region, rfl, rfl, hwhole, hfits⟩
      · cases rest with
        | nil =>
          rw [List.append_nil] at hlength
          exact ⟨[c], cs, next, rfl, hlength.symm, rfl, hnext⟩
        | cons d ds =>
          exact absurd hcut (not_cleanCut_inside hcases (by simp [ha]) (List.cons_ne_nil d ds) _)

/-- A delimited slice of a masked script is as long as a piece of the script. -/
theorem Delimited.exists_piece {script : List Char} {s : Slice}
    (h : Delimited (Text.mask script) s) :
    ∃ before inside behind, script = before ++ (inside ++ behind) ∧
      byteLength before = s.offset ∧ byteLength before + byteLength inside = s.stop := by
  obtain ⟨before, behind, htext, hbefore, -, hfront, hback⟩ := h
  have hfits : FitsRegion script .code := trivial
  obtain ⟨a, b, -, hscript, ha, -⟩ := maskFrom_cut htext hfits hfront
  obtain ⟨c, d, -, hscript', hc, -⟩ :=
    maskFrom_cut (by rw [List.append_assoc]; exact htext) hfits hback
  rw [byteLength_append] at hc
  obtain ⟨inside, rfl⟩ := exists_append_of_byteLength_le hscript hscript' (by omega)
  rw [byteLength_append] at hc
  refine ⟨a, inside, d, ?_, by omega, by rw [Slice.stop]; omega⟩
  rw [hscript', List.append_assoc]

-- ---------------------------------------------------------------------------
-- Short titles
-- ---------------------------------------------------------------------------

/-- The contents of a string literal lie between characters. -/
theorem unquote_eq (text : List Char) : unquote text = .ok (Text.unquote? text) := by
  rw [unquote, Text.unquote?]
  cases Text.trim text with
  | nil => rfl
  | cons quote rest =>
    by_cases hquote : quote = '"' ∨ quote = '\''
    · have hone : quote.utf8Size = 1 := by rcases hquote with rfl | rfl <;> rfl
      rcases List.eq_nil_or_concat rest with rfl | ⟨inside, last, hrest⟩
      · simp [hone]
      · rw [List.concat_eq_append] at hrest
        subst hrest
        -- the quote at the end has to be the one at the front
        by_cases hlast : last = quote
        · subst hlast
          have hslice := slice_append [last] inside [last]
          have hlength : byteLength (last :: (inside ++ [last])) = 1 + byteLength inside + 1 := by
            simp [hone, Nat.add_assoc]
          simp only [byteLength_cons, byteLength_nil, hone, Nat.add_zero, List.singleton_append]
            at hslice
          rw [hlength, minus_eq (by omega), Nat.add_sub_cancel]
          simp only [bind, Except.bind, hslice]
          simp [List.getLast?_cons, hquote, show 2 ≤ 1 + byteLength inside + 1 by omega]
        · simp [List.getLast?_cons, hlast]
    · simp [not_or.mp hquote]

/-- The title is found among the named arguments. -/
theorem find?_named (named : List Text.NamedArgument) :
    ((named.map Named.of).find? fun argument => argument.name = "shorttitle") =
      (named.find? fun argument => argument.name = "shorttitle").map Named.of :=
  List.find?_map ..

/-- The range of the title is found without a fault. -/
theorem titleRange_eq {masked : List Char} {site : Text.CallSite}
    (hsite : site ∈ Text.callSites masked) (hsize : byteLength masked < counterLimit) :
    titleRange masked (Site.of site) = .ok ((Declaration.shortTitle? site).map Range.of) := by
  obtain ⟨behind, hplace, -⟩ := (delimited_of_mem_callSites hsite).follows
  have hparts : splitArguments masked (Site.of site).arguments =
      .ok ((Text.splitArguments site.arguments).map Range.of) := splitArguments_eq hplace hsize
  rw [titleRange, Declaration.shortTitle?, namedArguments_site hsite hsize]
  simp only [bind, Except.bind, hparts, find?_named]
  cases (Text.namedArguments site.arguments).find? fun argument => argument.name = "shorttitle" with
  | some argument => rfl
  -- without a name the title is the second argument
  | none =>
    match Text.splitArguments site.arguments with
    | [] => rfl
    | [_] => rfl
    | first :: second :: _ =>
      simp only [List.map_cons, List.any_map, Option.map_none, apply_ite (Option.map Range.of)]
      rfl

/-- The short title of a call site is the value of a named argument, or an argument. -/
theorem exists_of_shortTitle? {site : Text.CallSite} {part : Slice}
    (h : Declaration.shortTitle? site = some part) :
    (∃ argument ∈ Text.namedArguments site.arguments, argument.value = part) ∨
      part ∈ Text.splitArguments site.arguments := by
  rw [Declaration.shortTitle?] at h
  dsimp only at h
  split at h
  · next argument hfind =>
    exact .inl ⟨argument, List.mem_of_find?_eq_some hfind, Option.some.inj h⟩
  · split at h
    · next first second later hparts =>
      split at h
      · cases h
        exact .inr (by simp [hparts])
      · cases h
    · cases h

/-- The short title of a call site is delimited. -/
theorem delimited_of_shortTitle? {masked : List Char} {site : Text.CallSite} {part : Slice}
    (hsite : site ∈ Text.callSites masked) (h : Declaration.shortTitle? site = some part) :
    Delimited masked part := by
  obtain ⟨argument, hnamed, rfl⟩ | hmem := exists_of_shortTitle? h
  · obtain ⟨_, hpart, hargument⟩ := exists_part_of_mem_namedArguments hsite hnamed
    exact hpart.value hargument
  · exact (delimited_of_mem_callSites hsite).of_mem_splitArguments hmem

/-- The check of a short title runs on a site without a fault. -/
theorem shortTitleAt_eq (limit : Nat) {script : List Char} {site : Text.CallSite}
    (hsite : site ∈ Text.callSites (Text.mask script))
    (hsize : byteLength (Text.mask script) < counterLimit) :
    shortTitleAt limit script (Text.mask script) (Site.of site) =
      .ok (Declaration.checkShortTitle? limit script site).toList := by
  rw [shortTitleAt, titleRange_eq hsite hsize, Declaration.checkShortTitle?]
  cases htitle : Declaration.shortTitle? site with
  | none => rfl
  | some part =>
    -- the title stands between characters of the masked text
    obtain ⟨before, inside, behind, rfl, hstart, hstop⟩ :=
      (delimited_of_shortTitle? hsite htitle).exists_piece
    have hslice := slice_append before inside behind
    have hbetween := Text.between_stretch before inside behind
    rw [hstop, hstart] at hslice hbetween
    have hlength : minus (Range.of part).stop (Range.of part).start =
        .ok (part.stop - part.offset) := minus_eq (Nat.le_add_right ..)
    simp only [bind, Except.bind, Option.map_some, Option.bind_some, hbetween]
    rw [show slice _ (Range.of part).start (Range.of part).stop = .ok inside from hslice]
    simp only [unquote_eq, hlength, location_eq]
    cases Text.unquote? inside with
    | none => rfl
    | some title =>
      simp only [Option.bind_some]
      split <;> rfl

/-- The check of short titles runs without a fault. -/
theorem shortTitles_eq (rules : Option Rulebook) {script : List Char}
    (hsize : byteLength (Text.mask script) < counterLimit) :
    shortTitles rules script (Text.mask script) =
      .ok (Declaration.checkShortTitles rules script (Text.mask script)) := by
  rw [shortTitles, callSites_eq hsize, Declaration.checkShortTitles,
    List.filterMap_eq_flatMap_toList]
  simp only [bind, Except.bind, filter_declaresScript]
  exact collect_map fun site hsite =>
    shortTitleAt_eq _ (mem_callSites_of_mem_declarations hsite) hsize

-- ---------------------------------------------------------------------------
-- Versions and functions
-- ---------------------------------------------------------------------------

/-- The check of the version runs without a fault. -/
theorem version_eq (script : List Char) :
    version script = .ok (Compatibility.checkVersion script) := by
  rw [version, Compatibility.checkVersion]
  cases Compatibility.versionLine? script with
  | none =>
    rw [location_eq]
    rfl
  | some found =>
    obtain ⟨line, stated⟩ := found
    dsimp only
    cases Compatibility.readVersion? stated with
    | none => rfl
    | some version =>
      simp only [bind, Except.bind, location_eq]
      split <;> rfl

/-- The check of a function runs without a fault. -/
theorem functionAt_eq (script : List Char) (defined : List String) (site : Text.CallSite) :
    functionAt script defined (Site.of site) =
      .ok (if site.isDefinition || defined.contains site.name then none
        else (Compatibility.cause? site.name).map fun cause =>
          (⟨cause, locate script site.offset (byteLength site.name.toList)⟩ : Finding)).toList := by
  have hskip : ((Site.of site).isDefinition || defined.contains (Site.of site).name) =
      (site.isDefinition || defined.contains site.name) := rfl
  rw [functionAt, location_eq, hskip]
  split <;> rfl

/-- The compatibility check runs without a fault. -/
theorem compatibility_eq (script : List Char) {masked : List Char}
    (hsize : byteLength masked < counterLimit) :
    compatibility script masked = .ok (Compatibility.check script masked) := by
  have hdefined : (((Text.callSites masked).map Site.of).filter Site.isDefinition).map Site.name =
      ((Text.callSites masked).filter Text.CallSite.isDefinition).map Text.CallSite.name := by
    rw [List.filter_map, List.map_map]
    rfl
  rw [compatibility, version_eq, callSites_eq hsize, Compatibility.check, Compatibility.checkCalls,
    List.filterMap_eq_flatMap_toList]
  simp only [bind, Except.bind, hdefined]
  rw [collect_map fun site _ => functionAt_eq script _ site]

end PineCheck.Indexed
