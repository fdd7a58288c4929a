import Mathlib.Data.List.Basic
import PineCheck.Proofs.Decomposition

/-!
# PineCheck — what documentation changes

Documentation is asked by two checks, in opposite directions. The check of names asks it
whether a function has a parameter, and is silent about a name that it lists. The check of
calls asks it for the signature of a function that is not built in, and then has something
to say about calls that are not checked otherwise. So documentation takes findings away
from the one check, and gives findings to the other.

* `analyze_findingsOf` — the rules of the findings of an analysis tell which check they
  come from.
* `Check.Naming.check_documented` — the check of names with documentation and without.
* `Check.Signatures.check_documented` — the check of calls with documentation and without.
* `analyze_documented` — a whole analysis with documentation and without.
-/

namespace PineCheck

-- ---------------------------------------------------------------------------
-- Which check a finding comes from
-- ---------------------------------------------------------------------------

/-- The findings of an analysis that break a rule of a check. -/
def Analysis.findingsOf (analysis : Analysis) (check : Check) : List Finding :=
  analysis.findings.filter fun finding => finding.rule ∈ check.ownRules

/-- No two checks have a rule in common. -/
theorem Check.eq_of_mem_ownRules {check other : Check} {rule : Rule} (h : rule ∈ check.ownRules)
    (hother : rule ∈ other.ownRules) : other = check := by
  have hall : ∀ rule ∈ check.ownRules, rule ∈ other.ownRules → other = check := by
    cases check <;> cases other <;> decide
  exact hall rule h hother

section Reported

variable (source : String) (settings : Settings)

/-- What is reported of a check breaks one of its rules. -/
theorem Check.rule_mem_of_mem_reported {check : Check} {finding : Finding}
    (h : finding ∈ check.reported source settings) : finding.rule ∈ check.ownRules := by
  obtain ⟨findings, hrun⟩ := check.exists_run_eq_ok
    (.ofSource source (parse source settings.allowed).program settings)
  rw [reported, check.runSingle_findings source settings hrun] at h
  exact check.run_rule_mem hrun (List.mem_of_mem_filter h)

/-- Among the findings of an analysis, those that break a rule of a check are what is
reported of the check. -/
theorem analyze_findingsOf (check : Check) :
    (analyze source settings).findingsOf check = check.reported source settings := by
  have hfilter (other : Check) :
      (other.reported source settings).filter (fun finding => finding.rule ∈ check.ownRules) =
        if other = check then check.reported source settings else [] := by
    split
    · next heq =>
      rw [heq, List.filter_eq_self]
      exact fun finding h => decide_eq_true (Check.rule_mem_of_mem_reported source settings h)
    · next hne =>
      rw [List.filter_eq_nil_iff]
      intro finding h hrule
      have hown := Check.rule_mem_of_mem_reported source settings h
      exact hne (Check.eq_of_mem_ownRules (of_decide_eq_true hrule) hown)
  rw [Analysis.findingsOf, analyze_findings_all, List.filter_flatMap]
  simp only [hfilter]
  cases check <;> simp [Check.all]

/-- All that the check of names finds is reported of it. -/
theorem Check.reported_naming :
    Check.naming.reported source settings =
      Naming.check settings.documentation source.toList (Text.mask source.toList) := by
  rw [reported, Check.naming.runSingle_findings source settings rfl]
  exact List.filter_true _

/-- All that the check of calls finds is reported of it. -/
theorem Check.reported_signatures :
    Check.signatures.reported source settings =
      Signatures.check settings.documentation (parse source settings.allowed).program := by
  rw [reported, Check.signatures.runSingle_findings source settings rfl]
  exact List.filter_true _

/-- All other checks do not look at documentation. -/
theorem Check.reported_of_documentation {check : Check} (hnaming : check ≠ .naming)
    (hsignatures : check ≠ .signatures) (documentation : Option Documentation) :
    check.reported source { settings with documentation := documentation } =
      check.reported source settings := by
  cases check with
  | naming => exact absurd rfl hnaming
  | signatures => exact absurd rfl hsignatures
  | _ => rfl

end Reported

-- ---------------------------------------------------------------------------
-- Names of arguments
-- ---------------------------------------------------------------------------

/-- Whether a cause is the unusual name of a parameter that is documented. -/
def Cause.isDocumented (docs : Documentation) : Cause → Bool
  | .unusualName function parameter _ _ => docs.hasParameter function parameter
  | _ => false

namespace Check.Naming

variable {docs : Documentation} (hloaded : docs.isLoaded = true)
include hloaded

/-- What is wrong with a name, for those who have read the documentation. -/
theorem cause?_documented (function parameter : String) :
    cause? (some docs) function parameter =
      (cause? none function parameter).filter fun cause => !cause.isDocumented docs := by
  unfold cause?
  cases Language.renamedParameter? function parameter with
  | some replacement => rfl
  | none =>
    have hknown : isKnown (some docs) function parameter =
        (isKnown none function parameter || docs.hasParameter function parameter) := by
      simp [isKnown, hloaded]
    simp only [hknown]
    cases isKnown none function parameter with
    | true => rfl
    | false =>
      cases classify parameter.toList with
      | none => cases docs.hasParameter function parameter <;> rfl
      | some convention =>
        cases h : docs.hasParameter function parameter <;>
          simp [Cause.isDocumented, Option.filter, h]

/-- **Documentation only relaxes the check of names.** The names that are complained about
are those without documentation, unless they are unusual and documented. -/
theorem check_documented (script masked : List Char) :
    check (some docs) script masked =
      (check none script masked).filter fun finding => !finding.cause.isDocumented docs := by
  rw [check, check, List.filter_flatMap]
  apply List.flatMap_congr
  intro site _
  rw [checkSite, checkSite]
  cases site.isDefinition with
  | true => rfl
  | false =>
    simp only [Bool.false_eq_true, ↓reduceIte, List.filter_filterMap]
    apply List.filterMap_congr
    intro argument _
    rw [cause?_documented hloaded]
    cases cause? none site.name argument.name with
    | none => rfl
    | some cause => cases h : cause.isDocumented docs <;> simp [Option.filter, h]

end Check.Naming

-- ---------------------------------------------------------------------------
-- Calls against signatures
-- ---------------------------------------------------------------------------

/-- The function whose call a cause is about, if it is about a call. -/
def Cause.calledFunction? : Cause → Option String
  | .missingArguments function .. | .tooManyArguments function ..
  | .wrongType function .. => some function
  | _ => none

/-- Whether a cause is about a call of a function that has a built-in signature. -/
def Cause.isAboutBuiltin (cause : Cause) : Bool :=
  cause.calledFunction?.any fun function => (Language.signature? function).isSome

namespace Check.Signatures

/-- What is found about a call is about the function that is called. -/
theorem calledFunction?_of_mem_checkCall {call : Call} {signature : Signature}
    {finding : Finding} (h : finding ∈ checkCall call signature) :
    finding.cause.calledFunction? = some call.name := by
  obtain rfl | rfl | ⟨argument, -, h⟩ := mem_checkCall h
  · rfl
  · rfl
  · obtain ⟨parameter, -, rfl⟩ := checkArgument?_eq_some h
    rfl

theorem isAboutBuiltin_of_mem_checkCall {call : Call} {signature : Signature}
    {finding : Finding} (h : finding ∈ checkCall call signature) :
    finding.cause.isAboutBuiltin = (Language.signature? call.name).isSome := by
  rw [Cause.isAboutBuiltin, calledFunction?_of_mem_checkCall h, Option.any_some]

/-- **Documentation only extends the check of calls.** What is found without documentation
is what is found with it about functions with a built-in signature. -/
theorem check_documented (docs : Documentation) (program : Program) :
    check none program =
      (check (some docs) program).filter fun finding => finding.cause.isAboutBuiltin := by
  rw [check, check, checkCalls, checkCalls, List.filter_flatMap]
  apply List.flatMap_congr
  intro call _
  cases hbuiltin : Language.signature? call.name with
  | some signature =>
    -- the built-in signature comes first
    have hsignature (docs : Option Documentation) :
        signature? docs call.name = some signature := by
      rw [signature?, hbuiltin, Option.some_or]
    simp only [hsignature]
    symm
    rw [List.filter_eq_self]
    intro finding h
    rw [isAboutBuiltin_of_mem_checkCall h, hbuiltin, Option.isSome_some]
  | none =>
    have hnone : signature? none call.name = none := by
      rw [signature?, hbuiltin]
      rfl
    simp only [hnone]
    symm
    cases signature? (some docs) call.name with
    | none => rfl
    | some signature =>
      rw [List.filter_eq_nil_iff]
      intro finding h
      rw [isAboutBuiltin_of_mem_checkCall h, hbuiltin]
      exact Bool.false_ne_true

end Check.Signatures

-- ---------------------------------------------------------------------------
-- A whole analysis
-- ---------------------------------------------------------------------------

/-- Whether a finding breaks a rule of neither of the two checks that look at
documentation. -/
def Finding.isUndocumentable (finding : Finding) : Bool :=
  finding.rule ∉ Check.naming.ownRules ++ Check.signatures.ownRules

/-- What neither of the two checks has found does not depend on documentation. -/
theorem filter_isUndocumentable (source : String) (settings : Settings)
    (documentation : Option Documentation) :
    (analyze source { settings with documentation := documentation }).findings.filter
        Finding.isUndocumentable =
      (analyze source settings).findings.filter Finding.isUndocumentable := by
  have hnone {check : Check} (h : check = .naming ∨ check = .signatures) (settings : Settings) :
      (check.reported source settings).filter Finding.isUndocumentable = [] := by
    rw [List.filter_eq_nil_iff]
    intro finding hmem
    have hrule := Check.rule_mem_of_mem_reported source settings hmem
    rw [Finding.isUndocumentable, decide_eq_true_eq, not_not, List.mem_append]
    rcases h with rfl | rfl
    · exact .inl hrule
    · exact .inr hrule
  rw [analyze_findings_all, analyze_findings_all, List.filter_flatMap, List.filter_flatMap]
  apply List.flatMap_congr
  intro check _
  by_cases h : check = .naming ∨ check = .signatures
  · rw [hnone h, hnone h]
  · rw [not_or] at h
    rw [Check.reported_of_documentation source settings h.1 h.2]

/-- **Documentation relaxes the check of names and extends the check of calls.** With
documentation that has been read, an analysis complains about the same names as without,
unless they are unusual and documented. What it finds without documentation about calls is
what it finds with it about calls of functions with a built-in signature. All other findings
are the same, and so are the errors, the warnings and the calls of the script. -/
theorem analyze_documented (source : String) (settings : Settings) (docs : Documentation)
    (hloaded : docs.isLoaded = true) :
    let plain := analyze source { settings with documentation := none }
    let documented := analyze source { settings with documentation := some docs }
    documented.findingsOf .naming =
        (plain.findingsOf .naming).filter (fun finding => !finding.cause.isDocumented docs) ∧
      plain.findingsOf .signatures =
        (documented.findingsOf .signatures).filter (fun finding => finding.cause.isAboutBuiltin) ∧
      documented.findings.filter Finding.isUndocumentable =
        plain.findings.filter Finding.isUndocumentable ∧
      documented.errors = plain.errors ∧ documented.warnings = plain.warnings ∧
      documented.calls = plain.calls := by
  refine ⟨?_, ?_, ?_, rfl, rfl, rfl⟩
  · rw [analyze_findingsOf, analyze_findingsOf, Check.reported_naming, Check.reported_naming]
    exact Check.Naming.check_documented hloaded ..
  · rw [analyze_findingsOf, analyze_findingsOf, Check.reported_signatures,
      Check.reported_signatures]
    exact Check.Signatures.check_documented ..
  · exact (filter_isUndocumentable source settings (some docs)).trans
      (filter_isUndocumentable source settings none).symm

/-- A script that is told of an unusual name and of a built-in function. With documentation
it is told of a documented function instead of the name. -/
theorem analyze_documented_library :
    let source := "lib.f(myOption = 1)\nx = lib.f(\"a\")\ny = ta.rsi(close)\n"
    let docs := Documentation.ofFunctions [⟨"lib.f", none, [⟨"myOption", some "int", true⟩]⟩]
    let plain := analyze source { ({} : Settings) with documentation := none }
    let documented := analyze source { ({} : Settings) with documentation := some docs }
    docs.isLoaded = true ∧
      plain.findings.map Finding.code =
        ["missing_required_parameters", "INVALID_PARAMETER_NAMING_CONVENTION"] ∧
      documented.findings.map Finding.code = ["type_mismatch", "missing_required_parameters"] ∧
      documented.findingsOf .naming =
        (plain.findingsOf .naming).filter (fun finding => !finding.cause.isDocumented docs) ∧
      plain.findingsOf .signatures =
        (documented.findingsOf .signatures).filter (fun finding => finding.cause.isAboutBuiltin) ∧
      documented.findings.filter Finding.isUndocumentable =
        plain.findings.filter Finding.isUndocumentable ∧
      documented.errors = plain.errors ∧ documented.warnings = plain.warnings ∧
      documented.calls = plain.calls := by
  intro source docs plain documented
  have hloaded : docs.isLoaded = true := rfl
  exact ⟨hloaded, by decide +kernel, by decide +kernel,
    analyze_documented source {} docs hloaded⟩

end PineCheck
