import PineCheck.Proofs.Coordinates
import PineCheck.Proofs.Decomposition
import PineCheck.Proofs.Indexed.Calls
import PineCheck.Proofs.Indexed.Lines
import PineCheck.Proofs.Indexed.Objects

/-!
# PineCheck — findings quote the script

Four checks find names in the masked script and report them at places of the script
itself: the name of an argument, an object with its field, a function, a variable. This
module says that the text at the reported place is the name that is reported.

The names come to their places in four ways, by the cuts of an argument list, by the
scan for names, by the words before an assignment and by the number of a line. What is
common to all is said once: a text without spaces that stands in the masked script
stands at the same place of the script (`mask_word`), because whatever masking changes
becomes spaces. As masking keeps every line break, the place is on the same line, too.

Main result:

* `analyze_quotes` — every finding of an analysis, and of a check alone, is at a place
  that reads the names among its facts.
-/

namespace PineCheck

open Indexed (Follows FitsRegion CleanCut)

-- ---------------------------------------------------------------------------
-- Words in masked text
-- ---------------------------------------------------------------------------

namespace Text

/-- A blanked character starts with a space. -/
theorem head?_blanked (c : Char) : (blanked c).head? = some ' ' := by
  rw [blanked, List.head?_replicate, if_neg c.utf8Size_pos.ne']

/-- Masking invents no text: what it leaves without spaces stands in the script. -/
theorem maskFrom_word {region : Region} {cs word rest : List Char}
    (h : maskFrom region cs = word ++ rest) (hword : ' ' ∉ word) :
    ∃ behind, cs = word ++ behind := by
  induction word generalizing region cs with
  | nil => exact ⟨cs, rfl⟩
  | cons w word ih =>
    obtain ⟨hw, hrest⟩ := List.ne_and_not_mem_of_not_mem_cons hword
    cases cs with
    | nil => cases h
    | cons c cs =>
      have hcases := Indexed.maskChar_cases region c cs.head?
      rw [maskFrom] at h
      generalize maskChar region c cs.head? = found at h hcases
      obtain ⟨masked, next⟩ := found
      rcases hcases with rfl | rfl
      · obtain ⟨rfl, hnext⟩ := List.cons.inj h
        obtain ⟨behind, rfl⟩ := ih hnext hrest
        exact ⟨behind, rfl⟩
      -- a blanked character would start with a space, which is not in the word
      · have hhead := congrArg List.head? h
        rw [List.head?_append, head?_blanked] at hhead
        exact absurd (Option.some.inj hhead) hw

/-- There is no line break in a blanked character. -/
theorem count_blanked {c : Char} : (blanked c).count '\n' = 0 := by
  rw [blanked, List.count_replicate, if_neg (by decide)]

/-- Masking keeps a character that is a line break, if it fits. -/
theorem count_maskChar {region : Region} {c : Char} {cs : List Char}
    (hfits : FitsRegion (c :: cs) region) :
    (maskChar region c cs.head?).1.count '\n' = [c].count '\n' := by
  by_cases hc : c = '\n'
  · subst hc
    cases region with
    | escaped _ | blockOpening | blockClosing => exact absurd rfl hfits
    | _ => rfl
  · rw [List.count_singleton, if_neg (by simpa using hc)]
    rcases Indexed.maskChar_cases region c cs.head? with h | h
    · rw [h, List.count_singleton, if_neg (by simpa using hc)]
    · rw [h, count_blanked]

/-- Masking keeps the line breaks. -/
theorem count_maskFrom {region : Region} {cs : List Char} (hfits : FitsRegion cs region) :
    (maskFrom region cs).count '\n' = cs.count '\n' := by
  induction cs generalizing region with
  | nil => rfl
  | cons c cs ih =>
    rw [maskFrom, List.count_append, count_maskChar hfits,
      ih (Indexed.fitsRegion_maskChar region c cs), ← List.count_append, List.singleton_append]

/-- A text without spaces in the masked script stands at the same place of the script. -/
theorem mask_word {script before word rest : List Char}
    (h : mask script = before ++ (word ++ rest)) (hne : word ≠ []) (hword : ' ' ∉ word) :
    ∃ front behind, script = front ++ (word ++ behind) ∧ byteLength front = byteLength before ∧
      front.count '\n' = before.count '\n' := by
  have hcut : CleanCut before (word ++ rest) := by
    refine .inr fun hhead => hword ?_
    rw [List.head?_append_of_ne_nil _ hne] at hhead
    exact List.mem_of_mem_head? hhead
  have hcode : FitsRegion script .code := trivial
  obtain ⟨front, left, region, hscript, hlength, hleft, hfits⟩ :=
    Indexed.maskFrom_cut h hcode hcut
  obtain ⟨behind, rfl⟩ := maskFrom_word hleft hword
  -- the line breaks in front are all but those behind
  have hall : (before ++ (word ++ rest)).count '\n' = (front ++ (word ++ behind)).count '\n' := by
    rw [← h, ← hscript]
    exact count_maskFrom hcode
  have hbehind : (word ++ rest).count '\n' = (word ++ behind).count '\n' := by
    rw [← hleft]
    exact count_maskFrom hfits
  simp only [List.count_append] at hall hbehind
  exact ⟨front, behind, hscript, hlength, by omega⟩

end Text

-- ---------------------------------------------------------------------------
-- Quotations
-- ---------------------------------------------------------------------------

/-- What a span of a script reads: the span is the stretch of this text. -/
def Span.Reads (script text : List Char) (span : Span) : Prop :=
  ∃ before behind, script = before ++ (text ++ behind) ∧ span = stretch before text

/-- A text without spaces that follows an offset in the masked script is read there in the
script. -/
theorem locate_reads {script word rest : List Char} {offset : Nat}
    (h : Follows (Text.mask script) offset (word ++ rest)) (hne : word ≠ [])
    (hword : ' ' ∉ word) : (locate script offset (byteLength word)).Reads script word := by
  obtain ⟨before, hmask, rfl⟩ := h
  obtain ⟨front, behind, rfl, hlength, -⟩ := Text.mask_word hmask hne hword
  exact ⟨front, behind, rfl, by rw [← hlength, locate_stretch]⟩

/-- The facts that are names in the script: joined by full stops, they stand at the place of
a finding. -/
def Rule.quoted : Rule → List String
  | .deprecatedParameterName | .invalidParameterNamingConvention => ["parameter"]
  | .naObjectAccess => ["object", "field"]
  | .deprecatedFunction | .missingNamespace => ["function"]
  | .namespaceShadowing => ["namespace"]
  | _ => []

/-- The text that a fact behind a cause is. -/
def Cause.text? (cause : Cause) (fact : String) : Option String :=
  match cause.facts.lookup fact with
  | some (.string text) => some text
  | _ => none

/-- A finding quotes the script when its names, if it has any, stand at its place. -/
def Finding.Quotes (script : List Char) (finding : Finding) : Prop :=
  finding.rule.quoted ≠ [] → ∃ names, finding.rule.quoted.map finding.cause.text? = names.map some ∧
    finding.span.Reads script (".".intercalate names).toList

/-- A finding without names has nothing to quote. -/
theorem Finding.quotes_of_quoted_eq_nil {script : List Char} {finding : Finding}
    (h : finding.rule.quoted = []) : finding.Quotes script :=
  fun hne => absurd h hne

/-- A finding with one name quotes the script when it reads the name. -/
theorem Finding.quotes_of_name {script : List Char} {finding : Finding} {fact name : String}
    (hquoted : finding.rule.quoted = [fact]) (hname : finding.cause.text? fact = some name)
    (hreads : finding.span.Reads script name.toList) : finding.Quotes script := by
  refine fun _ => ⟨[name], ?_, ?_⟩
  · rw [hquoted, List.map_singleton, hname, List.map_singleton]
  · exact hreads

-- ---------------------------------------------------------------------------
-- Names at their places
-- ---------------------------------------------------------------------------

section Names

open Lexer (isWordStart isWordChar)

theorem space_notMem_word {word : List Char} (h : ∀ c ∈ word, isWordChar c = true) :
    ' ' ∉ word :=
  fun hmem => absurd (h _ hmem) (by decide)

theorem space_notMem_name {name : List Char} (h : ∀ c ∈ name, Indexed.isNameChar c = true) :
    ' ' ∉ name :=
  fun hmem => absurd (h _ hmem) (by decide)

/-- A word is not empty. -/
theorem word?_ne_nil {cs word rest : List Char} (h : Text.word? cs = some (word, rest)) :
    word ≠ [] := by
  cases cs with
  | nil => cases h
  | cons c cs =>
    obtain ⟨tail, rfl⟩ := Indexed.exists_cons_of_word? h
    exact List.cons_ne_nil c tail

variable {script : List Char}

/-- A named argument stands where it is found. -/
theorem namedArgument_reads {site : Text.CallSite} {argument : Text.NamedArgument}
    (hsite : site ∈ Text.callSites (Text.mask script))
    (h : argument ∈ Text.namedArguments site.arguments) :
    (locate script argument.offset (byteLength argument.name.toList)).Reads script
      argument.name.toList := by
  obtain ⟨part, hpart, hargument⟩ := Indexed.exists_part_of_mem_namedArguments hsite h
  obtain ⟨behind, hplace, -⟩ := hpart.follows
  obtain ⟨name, blanks, value, hword, -, rfl⟩ := Indexed.namedArgument?_eq_some hargument
  obtain ⟨htext, -, hchars, -⟩ := Indexed.word?_eq_some hword
  rw [htext, List.append_assoc] at hplace
  rw [String.toList_ofList]
  exact locate_reads hplace (word?_ne_nil hword) (space_notMem_word hchars)

/-- The name of a call stands where it is found. -/
theorem callSite_reads {site : Text.CallSite} (h : site ∈ Text.callSites (Text.mask script)) :
    (locate script site.offset (byteLength site.name.toList)).Reads script site.name.toList := by
  rw [Text.callSites, Indexed.callSitesFrom_eq_scanNames] at h
  obtain ⟨offset, c, rest, hplace, -, hstart, hsite⟩ :=
    Indexed.exists_of_mem_scanNames (Follows.start _) h
  obtain ⟨name, behind, htail, rfl, hchars⟩ := Indexed.exists_nameTail_cons hstart rest
  obtain ⟨_, _, htail', -, hoffset, -⟩ :=
    Indexed.exists_of_callSiteAt? (Option.mem_toList.mp hsite)
  have hname : c :: name = site.name.toList := congrArg Prod.fst (htail.symm.trans htail')
  rw [hoffset, ← hname]
  exact locate_reads hplace (List.cons_ne_nil c name) (space_notMem_name hchars)

/-- Every line stands in the text, behind as many line breaks as there are lines before
it. -/
theorem exists_front_of_line {cs : List Char} {line : Text.Line} (hline : line ∈ Text.lines cs) :
    ∃ front behind, cs = front ++ line.text ++ behind ∧ byteLength front = line.offset ∧
      front.count '\n' + 1 = line.number ∧ '\n' ∉ line.text := by
  have hstart : Position.after {} [] = ⟨0, 1, 0⟩ := rfl
  obtain ⟨hwhole, front, behind, hcut, hfront⟩ :=
    (Text.lines_lined cs).standsAt hstart line hline
  have hoffset := Position.after_offset {} front
  have hnumber := Position.after_line {} front
  rw [hfront] at hoffset hnumber
  refine ⟨front, behind, ?_, ?_, ?_, hwhole⟩
  · rw [List.append_assoc]
    exact hcut
  · exact (hoffset.trans (Nat.zero_add _)).symm
  · rw [Nat.add_comm]
    exact hnumber.symm

/-- What is found at a place of a line stands at a place of the text, behind as many line
breaks as there are lines before the line. -/
theorem exists_of_mem_directAccesses {all : List Check.ObjectState.Change} {masked : List Char}
    {line : Text.Line} (hline : line ∈ Text.lines masked) {finding : Finding}
    (h : finding ∈ Check.ObjectState.directAccesses script all line.number none line.offset
      line.text) :
    ∃ before rest behind, masked = before ++ (rest ++ behind) ∧
      before.count '\n' + 1 = line.number ∧
      Check.ObjectState.directAccess? script all line.number (byteLength before) rest =
        some finding := by
  obtain ⟨front, behind, rfl, hoffset, hnumber, hwhole⟩ := exists_front_of_line hline
  rw [Indexed.directAccesses_eq_scanNames] at h
  have hplace : Follows (front ++ line.text) line.offset line.text := ⟨front, rfl, hoffset⟩
  obtain ⟨offset, c, rest, ⟨before, hbefore, rfl⟩, hsuffix, -, hfound⟩ :=
    Indexed.exists_of_mem_scanNames hplace h
  -- there are no line breaks between the front and the place
  have hcount := congrArg (List.count '\n') hbefore
  rw [List.count_append, List.count_append, List.count_eq_zero_of_not_mem hwhole,
    List.count_eq_zero_of_not_mem fun hmem => hwhole (hsuffix.subset hmem)] at hcount
  refine ⟨before, c :: rest, behind, ?_, by omega, Option.mem_toList.mp hfound⟩
  rw [hbefore, List.append_assoc]

/-- What an access is that is reported. -/
theorem directAccess?_eq_some {all : List Check.ObjectState.Change} {number offset : Nat}
    {cs : List Char} {finding : Finding}
    (h : Check.ObjectState.directAccess? script all number offset cs = some finding) :
    ∃ object field behind change, cs = (object ++ '.' :: field) ++ behind ∧
      (∀ c ∈ object ++ '.' :: field, Indexed.isNameChar c = true) ∧
      Check.ObjectState.stateBefore? all object number = some change ∧
      finding = ⟨.naAccess (String.ofList object) (String.ofList field)
          (String.ofList change.typeName) change.isVar change.line,
        locate script offset (byteLength (object ++ '.' :: field))⟩ := by
  obtain ⟨object, later, change, field, last, hobject, hchange, hfield, rfl⟩ :=
    Check.ObjectState.exists_of_directAccess? h
  obtain ⟨rfl, -, hobjectChars, -⟩ := Indexed.word?_eq_some hobject
  obtain ⟨rfl, hfieldChars⟩ := Indexed.field?_eq_some hfield
  have hlength : byteLength (object ++ '.' :: field) =
      byteLength object + 1 + byteLength field := by
    rw [byteLength_append, byteLength_cons, ← Nat.add_assoc]
    rfl
  refine ⟨object, field, last, change, by simp, fun c hc => ?_, hchange, by rw [hlength]⟩
  rcases List.mem_append.mp hc with hc | hc
  · exact Indexed.isNameChar_of_isWordChar (hobjectChars c hc)
  · rcases List.mem_cons.mp hc with rfl | hc
    · rfl
    · exact Indexed.isNameChar_of_isWordChar (hfieldChars c hc)

/-- The variable that a line gives a value stands where it is found. -/
theorem assignedName?_follows {masked name : List Char} {line : Text.Line} {offset : Nat}
    (hline : line ∈ Text.lines masked)
    (h : Check.Shadowing.assignedName? line.text = some (name, offset)) :
    ∃ behind, Follows masked (line.offset + offset) (name ++ behind) := by
  obtain ⟨⟨word, rest⟩, hword, h⟩ := Option.bind_eq_some_iff.mp h
  dsimp only at h
  split at h
  · cases h
  · cases h
    obtain ⟨-, hstands⟩ := @Indexed.assignedFrom_eq line.text line.text 0 _
      (Follows.start line.text) (Nat.lt_succ_self _) none (by rintro _ ⟨⟩)
    obtain ⟨i, behind, hplace, hrest⟩ := hstands _ hword
    obtain ⟨front, later, rfl, hoffset, -⟩ := exists_front_of_line hline
    -- the place in the line is a place behind the front
    obtain ⟨before, htext, rfl⟩ := hplace
    refine ⟨behind ++ later, front ++ before, ?_, ?_⟩
    · rw [htext, show rest = name ++ behind from hrest]
      simp
    · rw [htext, byteLength_append, byteLength_append, hoffset, Nat.add_sub_cancel]

/-- A namespace is a name without spaces. -/
theorem word_of_isNamespace {name : List Char}
    (h : Language.isNamespace (String.ofList name) = true) : name ≠ [] ∧ ' ' ∉ name := by
  have hall : ∀ namespaced ∈ Language.namespaces,
      namespaced.toList ≠ [] ∧ ' ' ∉ namespaced.toList := by
    decide +kernel
  have hname := hall _ (List.contains_iff_mem.mp h)
  rwa [String.toList_ofList] at hname

end Names

-- ---------------------------------------------------------------------------
-- The checks
-- ---------------------------------------------------------------------------

namespace Check

variable {script : List Char} {finding : Finding}

/-- The naming check quotes the arguments that it reports. -/
theorem naming_quotes {docs : Option Documentation}
    (h : finding ∈ Naming.check docs script (Text.mask script)) : finding.Quotes script := by
  obtain ⟨site, hsite, argument, hargument, cause, hcause, rfl⟩ := Naming.mem_check h
  have hreads := namedArgument_reads hsite hargument
  obtain ⟨replacement, -, rfl⟩ | ⟨convention, -, rfl⟩ := Naming.cause?_eq_some hcause
  · exact Finding.quotes_of_name rfl rfl hreads
  · exact Finding.quotes_of_name rfl rfl hreads

/-- The compatibility check quotes the functions that it reports. -/
theorem compatibility_quotes (h : finding ∈ Compatibility.check script (Text.mask script)) :
    finding.Quotes script := by
  rcases List.mem_append.mp h with h | h
  · -- what is found out about the version has no names
    refine Finding.quotes_of_quoted_eq_nil ?_
    revert h
    fun_cases Compatibility.checkVersion script with
    | case1 | case3 =>
      intro h
      rw [List.mem_singleton.mp h]
      rfl
    | case2 | case4 => exact fun h => absurd h List.not_mem_nil
  · obtain ⟨site, hsite, cause, hcause, rfl⟩ := Compatibility.mem_checkCalls h
    have hreads := callSite_reads hsite
    obtain ⟨replacement, rfl⟩ | ⟨namespaced, rfl⟩ := Compatibility.cause?_eq_some hcause
    · exact Finding.quotes_of_name rfl rfl hreads
    · exact Finding.quotes_of_name rfl rfl hreads

/-- The object state check quotes the accesses that it reports. -/
theorem objectState_quotes (h : finding ∈ ObjectState.check script (Text.mask script)) :
    finding.Quotes script := by
  obtain ⟨line, hline, h⟩ := List.mem_flatMap.mp h
  rcases List.mem_append.mp h with h | h
  · obtain ⟨before, rest, behind, hmask, -, h⟩ := exists_of_mem_directAccesses hline h
    obtain ⟨object, field, later, change, rfl, hchars, -, rfl⟩ := directAccess?_eq_some h
    have hnames : (".".intercalate [String.ofList object, String.ofList field]).toList =
        object ++ '.' :: field := by
      rw [String.toList_intercalate]
      simp [List.intercalate]
    have hplace : Follows (Text.mask script) (byteLength before)
        ((object ++ '.' :: field) ++ (later ++ behind)) := ⟨before, by simp [hmask], rfl⟩
    refine fun _ => ⟨[String.ofList object, String.ofList field], rfl, ?_⟩
    rw [hnames]
    exact locate_reads hplace (by simp) (space_notMem_name hchars)
  -- an access behind a history reference is reported without names
  · exact Finding.quotes_of_quoted_eq_nil (by rw [historyAccesses_rule h]; rfl)

/-- The shadowing check quotes the variables that it reports. -/
theorem shadowing_quotes (h : finding ∈ Shadowing.check script (Text.mask script)) :
    finding.Quotes script := by
  obtain ⟨line, hline, h⟩ := List.mem_filterMap.mp h
  obtain ⟨-, name, offset, hname, hnamespace, rfl⟩ := Shadowing.checkLine?_eq_some h
  obtain ⟨behind, hplace⟩ := assignedName?_follows hline hname
  obtain ⟨hne, hchars⟩ := word_of_isNamespace hnamespace
  refine Finding.quotes_of_name rfl rfl ?_
  rw [String.toList_ofList]
  exact locate_reads hplace hne hchars

/-- Whatever a check finds in a script, it quotes. -/
theorem run_quotes (check : Check) {source : String} {program : Program} {settings : Settings}
    {findings : List Finding}
    (hrun : check.run (.ofSource source program settings) = .ok findings)
    (h : finding ∈ findings) : finding.Quotes source.toList := by
  cases check with
  | naming =>
    cases hrun
    exact naming_quotes h
  | objectState =>
    cases hrun
    exact objectState_quotes h
  | namespaceShadowing =>
    cases hrun
    exact shadowing_quotes h
  | compatibility =>
    cases hrun
    exact compatibility_quotes h
  | _ =>
    -- all other rules are without names
    refine Finding.quotes_of_quoted_eq_nil ?_
    have hmem := run_rule_mem _ hrun h
    revert hmem
    generalize finding.rule = rule
    revert rule
    decide

end Check

-- ---------------------------------------------------------------------------
-- The analysis
-- ---------------------------------------------------------------------------

/-- **Reported names are the text at the reported place.** Whatever the rules, the
documentation and the number of errors that the parse may go on behind, every finding of
an analysis and of a check alone quotes the script: the name of an argument, an object
with its field, a function or a namespace is what its span reads. -/
theorem analyze_quotes (source : String) (settings : Settings) :
    (∀ finding ∈ (analyze source settings).findings, finding.Quotes source.toList) ∧
    ∀ check, ∀ finding ∈ (runSingle check source settings).findings,
      finding.Quotes source.toList := by
  have hsingle : ∀ check, ∀ finding ∈ (runSingle check source settings).findings,
      finding.Quotes source.toList := by
    intro check finding hfinding
    obtain ⟨findings, hrun⟩ := check.exists_run_eq_ok
      (.ofSource source (parse source settings.allowed).program settings)
    rw [check.runSingle_findings source settings hrun] at hfinding
    exact check.run_quotes hrun hfinding
  refine ⟨fun finding hfinding => ?_, hsingle⟩
  rw [analyze_findings] at hfinding
  obtain ⟨check, -, hreported⟩ := List.mem_flatMap.mp hfinding
  exact hsingle check finding (List.mem_filter.mp hreported).1

/-- A script in which every rule with names is broken behind a comment that is not in
ASCII. -/
theorem analyze_quotes_every_rule :
    let script := "// é\nta = sma(security(\"é\"), 5)\nvar Foo o = na\n" ++
      "table.cell(o.bar, Title = 1, textColor = 0)"
    ∀ rule ∈ [Rule.deprecatedParameterName, .invalidParameterNamingConvention, .naObjectAccess,
        .deprecatedFunction, .missingNamespace, .namespaceShadowing],
      ∃ check, ∃ finding ∈ (runSingle check script {}).findings,
        finding.rule = rule ∧ finding.Quotes script.toList := by
  intro script rule hrule
  have hall : ∀ rule ∈ [Rule.deprecatedParameterName, .invalidParameterNamingConvention,
      .naObjectAccess, .deprecatedFunction, .missingNamespace, .namespaceShadowing],
      ∃ check ∈ [Check.naming, .objectState, .compatibility, .namespaceShadowing],
        ((runSingle check script {}).findings.any fun finding => finding.rule = rule) = true := by
    decide +kernel
  obtain ⟨check, -, hany⟩ := hall rule hrule
  obtain ⟨finding, hfinding, hfound⟩ := List.any_eq_true.mp hany
  exact ⟨check, finding, hfinding, of_decide_eq_true hfound,
    (analyze_quotes script {}).2 check finding hfinding⟩

end PineCheck
