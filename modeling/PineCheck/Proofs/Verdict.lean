import PineCheck.Proofs.Budget
import PineCheck.Run

/-!
# PineCheck — the verdict on a run

Whether a script passes is decided apart from the line of counts that is written about
it: for a full analysis by its findings and by the lists of errors and warnings of the
parser, for a check alone by its findings. The line counts severities, whatever list
they come from. This module says that both agree, and that a run fails exactly when the
counts of one of its scripts tell so.

They agree because the parser keeps to its two lists: along every parse, what is
recorded as an error has the severity of an error or, where the parse halts, of a
critical one, and what is recorded as a warning has that of a warning.

Main results:

* `Plan.fails_examine_iff` — the verdict on a script is that of its counts.
* `Plan.failure_resultFrom` — a run tells how many scripts do not pass.
* `exitStatus_agrees_with_tally` — the exit status and the counts agree.
-/

namespace PineCheck

open PineCheck.Parser

-- ---------------------------------------------------------------------------
-- Severities along a parse
-- ---------------------------------------------------------------------------

theorem ParseProblem.severity_of_lexicalError {problem : ParseProblem}
    (h : problem.code = .lexicalError) : problem.severity = .error := by
  cases problem with
  | lexical fault => rfl
  | _ => cases h

section Parse

variable {source : String} {allowed : Nat} {error : ParseError}

/-- Whatever a parse records as an error makes the script fail. -/
theorem isError_of_mem_errors (h : error ∈ (parse source allowed).errors) :
    error.problem.severity.isError = true := by
  rw [errors_parse] at h
  obtain ⟨recorded, closing, herrors, -, hrecorded, hlast, hnone⟩ :=
    (finalState_accounted (lex source) allowed).errors
  rw [herrors, List.append_assoc, List.mem_append, List.mem_append] at h
  rcases h with hlexical | hattempt | hclosing
  · rw [ParseProblem.severity_of_lexicalError (code_lexicalErrors hlexical)]
    rfl
  · rw [(hrecorded error hattempt).1]
    rfl
  · cases hhalted : (finalState (lex source) allowed).isHalted with
    | false =>
      rw [hnone hhalted] at hclosing
      cases hclosing
    | true =>
      obtain ⟨span, rfl⟩ := hlast hhalted
      rw [List.mem_singleton.mp hclosing]
      rfl

theorem severity_of_mem_warnings (h : error ∈ (parse source allowed).warnings) :
    error.problem.severity = .warning := by
  rw [warnings_parse] at h
  exact (finalState_accounted (lex source) allowed).warnings error h

/-- A halted parse has an error. -/
theorem exists_error_of_isHalted (h : (parse source allowed).isHalted = true) :
    ∃ error, error ∈ (parse source allowed).errors := by
  rw [isHalted_parse] at h
  obtain ⟨recorded, span, herrors⟩ := (finalState_accounted (lex source) allowed).last h
  rw [errors_parse, herrors]
  exact ⟨_, List.mem_append_right _ (List.mem_singleton_self _)⟩

end Parse

-- ---------------------------------------------------------------------------
-- Counts
-- ---------------------------------------------------------------------------

namespace Report.Tally

/-- Errors are counted exactly if something is at least an error. -/
theorem errors_pos_iff (severities : List Severity) :
    0 < (ofSeverities severities).errors ↔ ∃ severity ∈ severities, severity.isError = true := by
  have hadd : 0 < (ofSeverities severities).errors ↔
      .error ∈ severities ∨ .critical ∈ severities := by
    rw [ofSeverities, ← List.count_pos_iff, ← List.count_pos_iff]
    dsimp only
    omega
  rw [hadd]
  constructor
  · rintro (h | h) <;> exact ⟨_, h, rfl⟩
  · rintro ⟨severity, h, herror⟩
    cases severity with
    | info | warning => cases herror
    | error => exact .inl h
    | critical => exact .inr h

theorem warnings_pos_iff (severities : List Severity) :
    0 < (ofSeverities severities).warnings ↔ .warning ∈ severities :=
  List.count_pos_iff

end Report.Tally

-- ---------------------------------------------------------------------------
-- One script
-- ---------------------------------------------------------------------------

/-- What the counts of a script say about it. -/
def Report.Tally.Fails (tally : Report.Tally) (denyWarnings : Bool) : Prop :=
  0 < tally.errors ∨ denyWarnings = true ∧ 0 < tally.warnings

/-- What the counts say, in terms of findings and parse errors. -/
theorem Examination.tally_fails_iff (examination : Examination) (denyWarnings : Bool) :
    examination.tally.Fails denyWarnings ↔
      (∃ finding ∈ examination.findings, finding.isError = true) ∨
      (∃ error ∈ examination.parseErrors, error.problem.severity.isError = true) ∨
      denyWarnings = true ∧ ((∃ finding ∈ examination.findings, finding.severity = .warning) ∨
        ∃ error ∈ examination.parseErrors, error.problem.severity = .warning) := by
  rw [Report.Tally.Fails, tally, Report.Tally.errors_pos_iff, Report.Tally.warnings_pos_iff]
  simp only [List.mem_append, List.mem_map, Finding.isError]
  grind

/-- The verdict on a check alone is that of its counts. -/
theorem Examination.fails_single_iff (check : Check) (outcome : Outcome) (denyWarnings : Bool) :
    (single check outcome).fails denyWarnings = true ↔
      (single check outcome).tally.Fails denyWarnings := by
  rw [tally_fails_iff]
  simp only [fails, findings, parseErrors, List.any_eq_true, Bool.or_eq_true, Bool.and_eq_true,
    decide_eq_true_eq]
  grind

/-- The verdict on an analysis is that of its counts. -/
theorem Examination.fails_analyze_iff (source : String) (settings : Settings)
    (denyWarnings : Bool) :
    (full (analyze source settings)).fails denyWarnings = true ↔
      (full (analyze source settings)).tally.Fails denyWarnings := by
  have herrors : ∀ error ∈ (analyze source settings).errors,
      error.problem.severity.isError = true := fun _ => isError_of_mem_errors
  have hwarnings : ∀ error ∈ (analyze source settings).warnings,
      error.problem.severity = .warning := fun _ => severity_of_mem_warnings
  generalize analyze source settings = analysis at herrors hwarnings
  -- an error of the parser makes the script fail, be it critical or not
  have hall : (!analysis.isComplete || analysis.hasErrors) = true ↔
      (∃ finding ∈ analysis.findings, finding.isError = true) ∨
        ∃ error, error ∈ analysis.errors := by
    simp only [Analysis.isComplete, Analysis.hasErrors, Bool.not_not, Bool.or_eq_true,
      List.any_eq_true, decide_eq_true_eq]
    grind
  -- what the parser warns of is a warning, so that any of it counts
  have hwarned : analysis.hasWarnings = true ↔
      (∃ finding ∈ analysis.findings, finding.severity = .warning) ∨
        ∃ warning, warning ∈ analysis.warnings := by
    simp only [Analysis.hasWarnings, Bool.or_eq_true, List.any_eq_true, decide_eq_true_eq,
      Bool.not_eq_true', List.isEmpty_eq_false_iff_exists_mem]
  rw [tally_fails_iff, fails, Bool.or_eq_true, Bool.and_eq_true, hall, hwarned]
  simp only [findings, parseErrors, List.mem_append]
  have hnotError {severity : Severity} (h : severity = .warning) : severity.isError = false := by
    rw [h]
    rfl
  grind

/-- **The verdict on a script is that of its counts**, whatever a run is asked to do. -/
theorem Plan.fails_examine_iff (plan : Plan) (source : String) :
    (plan.examine source).fails plan.denyWarnings = true ↔
      (plan.examine source).tally.Fails plan.denyWarnings := by
  rw [examine]
  split
  · exact Examination.fails_single_iff ..
  · exact Examination.fails_analyze_iff ..

-- ---------------------------------------------------------------------------
-- All scripts
-- ---------------------------------------------------------------------------

namespace Plan

/-- Whether there is a script at a path and it does not pass. -/
def failsAt (plan : Plan) (files : Files) (file : String) : Bool :=
  (files file).any fun source => (plan.examine source).fails plan.denyWarnings

/-- A run over readable scripts tells how many of them do not pass. -/
theorem failure_resultFrom (plan : Plan) {files : Files} {paths : List String} (count : Nat)
    (hreadable : ∀ file ∈ paths, (files file).isSome = true) :
    (plan.resultFrom files count paths).failure =
      if count + paths.countP (plan.failsAt files) = 0 then none
      else some (.notPassed (count + paths.countP (plan.failsAt files))) := by
  induction paths generalizing count with
  | nil => rfl
  | cons file rest ih =>
    obtain ⟨hfile, hrest⟩ := List.forall_mem_cons.mp hreadable
    obtain ⟨source, hsource⟩ := Option.isSome_iff_exists.mp hfile
    have hfails : plan.failsAt files file = (plan.examine source).fails plan.denyWarnings := by
      rw [failsAt, hsource, Option.any_some]
    rw [resultFrom, hsource]
    dsimp only
    rw [ih _ hrest, List.countP_cons, hfails]
    cases (plan.examine source).fails plan.denyWarnings with
    | true => simp only [↓reduceIte, Nat.add_assoc, Nat.add_comm 1]
    | false => simp

/-- How results are given does not decide about a run. -/
theorem failure_resultFrom_look (plan : Plan) (files : Files) (paths : List String)
    (format : Format) (isVerbose hasColors : Bool) (count : Nat) :
    (resultFrom { plan with format, isVerbose, hasColors } files count paths).failure =
      (plan.resultFrom files count paths).failure := by
  induction paths generalizing count with
  | nil => rfl
  | cons file rest ih =>
    rw [resultFrom, resultFrom]
    cases files file with
    | none => rfl
    | some source => exact ih _

/-- Whether the parse of a script halts in a run. For a check alone, the script is only
parsed if the check looks at its tree. -/
def haltsIn (plan : Plan) (source : String) : Bool :=
  plan.only.all Check.readsTree && (parse source plan.allowed).isHalted

/-- A script in which the parse halts does not pass, as no check that can be asked for
alone looks at the tree. -/
theorem fails_of_haltsIn {plan : Plan} {source : String}
    (hchoice : ∀ check ∈ plan.only, check ∈ Check.choices.map Prod.snd)
    (h : plan.haltsIn source = true) :
    (plan.examine source).fails plan.denyWarnings = true := by
  obtain ⟨hparses, hhalted⟩ := Bool.and_eq_true_iff.mp h
  cases honly : plan.only with
  | some check =>
    have hreads : ∀ check ∈ Check.choices.map Prod.snd, check.readsTree = false := by decide
    rw [honly, Option.all_some, hreads check (hchoice check honly)] at hparses
    cases hparses
  | none =>
    obtain ⟨error, herror⟩ := exists_error_of_isHalted hhalted
    have hallowed : plan.settings.allowed = plan.allowed := rfl
    have herrors : (analyze source plan.settings).errors =
        (parse source plan.settings.allowed).errors := rfl
    have hany : ((analyze source plan.settings).errors.any
        fun error => error.problem.severity.isError) = true := by
      rw [herrors, hallowed, List.any_eq_true]
      exact ⟨error, herror, isError_of_mem_errors herror⟩
    rw [examine, honly]
    dsimp only
    rw [Examination.fails, Analysis.hasErrors, hany, Bool.or_true, Bool.or_true, Bool.true_or]

end Plan

section Run

variable {files : Files} {inv : Invocation} {plan : Plan}

/-- What is settled when an invocation can be followed. -/
theorem Plan.ofInvocation_eq_ok (h : Plan.ofInvocation files inv = .ok plan) :
    ∃ second rules documentation, Plan.settingsOf files inv = .ok second ∧
      Plan.rulesOf files (inv.preferences.orElse second) = .ok rules ∧
      Plan.documentationOf files (inv.preferences.orElse second) = .ok documentation ∧
      plan =
        { files := inv.files
          rules
          documentation
          only := (inv.preferences.orElse second).only
          format := (inv.preferences.orElse second).format.getD .human
          denyWarnings := (inv.preferences.orElse second).denyWarnings.getD false
          allowed := (inv.preferences.orElse second).allowed.getD Parser.defaultAllowed
          isVerbose := inv.isVerbose
          hasColors := inv.color = some .always } := by
  simp only [ofInvocation, bind, Except.bind, pure, Except.pure] at h
  split at h
  · cases h
  · next second hsecond =>
    split at h
    · cases h
    · next rules hrules =>
      split at h
      · cases h
      · next documentation hdocumentation =>
        cases h
        exact ⟨second, rules, documentation, hsecond, hrules, hdocumentation, rfl⟩

/-- What is settled does not depend on how results are given, but for just that. -/
theorem Plan.ofInvocation_look (format : Option Format) (isVerbose : Bool)
    (h : Plan.ofInvocation files inv = .ok plan) :
    ∃ format', Plan.ofInvocation files
      { inv with isVerbose, preferences := { inv.preferences with format } } =
        .ok { plan with format := format', isVerbose } := by
  obtain ⟨second, rules, documentation, hsecond, hrules, hdocumentation, rfl⟩ :=
    Plan.ofInvocation_eq_ok h
  have hsecond' : Plan.settingsOf files
      { inv with isVerbose, preferences := { inv.preferences with format } } = .ok second :=
    hsecond
  have hrules' : Plan.rulesOf files
      (Preferences.orElse { inv.preferences with format } second) = .ok rules := hrules
  have hdocumentation' : Plan.documentationOf files
      (Preferences.orElse { inv.preferences with format } second) = .ok documentation :=
    hdocumentation
  refine ⟨(format <|> second.format).getD .human, ?_⟩
  simp only [ofInvocation, hsecond', hrules', hdocumentation', bind, Except.bind, pure,
    Except.pure]
  rfl

theorem exitStatus_eq_ite (hplan : Plan.ofInvocation files inv = .ok plan) :
    (run files inv).exitStatus = if (plan.result files).failure.isSome then 1 else 0 := by
  rw [run, hplan]

/-- **The exit status and the counts agree.** A run over readable scripts fails exactly when
the counts of one of them have an error, or a warning while warnings are denied, be it a
run of all checks or of one that can be asked for alone. So it fails when a parse halts,
and how its results are given makes no difference. -/
theorem exitStatus_agrees_with_tally (hplan : Plan.ofInvocation files inv = .ok plan)
    (hchoice : ∀ check ∈ plan.only, check ∈ Check.choices.map Prod.snd)
    (hreadable : ∀ file ∈ inv.files, (files file).isSome = true) :
    ((run files inv).exitStatus ≠ 0 ↔ ∃ file ∈ inv.files, ∃ source, files file = some source ∧
      (plan.examine source).tally.Fails plan.denyWarnings) ∧
    (∀ file ∈ inv.files, ∀ source, files file = some source → plan.haltsIn source = true →
      (run files inv).exitStatus ≠ 0) ∧
    ∀ (format : Option Format) (isVerbose : Bool),
      (run files
        { inv with isVerbose, preferences := { inv.preferences with format } }).exitStatus =
        (run files inv).exitStatus := by
  have hfiles : plan.files = inv.files := by
    obtain ⟨_, _, _, -, -, -, rfl⟩ := Plan.ofInvocation_eq_ok hplan
    rfl
  have hstatus : (run files inv).exitStatus ≠ 0 ↔
      ∃ file ∈ inv.files, plan.failsAt files file = true := by
    rw [exitStatus_eq_ite hplan, Plan.result, hfiles, plan.failure_resultFrom 0 hreadable,
      ← List.countP_pos_iff, Nat.zero_add]
    cases inv.files.countP (plan.failsAt files) <;> simp
  refine ⟨?_, ?_, ?_⟩
  · rw [hstatus]
    refine exists_congr fun file => and_congr_right fun _ => ?_
    rw [Plan.failsAt, Option.any_eq_true]
    simp only [Plan.fails_examine_iff]
  · intro file hfile source hsource hhalts
    refine hstatus.mpr ⟨file, hfile, ?_⟩
    rw [Plan.failsAt, hsource, Option.any_some]
    exact Plan.fails_of_haltsIn hchoice hhalts
  · intro format isVerbose
    obtain ⟨format', hplan'⟩ := Plan.ofInvocation_look format isVerbose hplan
    rw [exitStatus_eq_ite hplan, exitStatus_eq_ite hplan', Plan.result, Plan.result]
    have hlook := plan.failure_resultFrom_look files plan.files format' isVerbose plan.hasColors 0
    rw [hlook]

end Run

/-- A run over two scripts that are parsed to the end, of which the second has a warning
that is denied. -/
theorem exitStatus_agrees_with_tally_denied :
    let docs := "\x7b\"functions\": []\x7d"
    let files : Files := fun path => [("docs.json", docs), ("a.pine", "x = 1\n"),
      ("b.pine", "f(a,)\n")].lookup path
    let preferences : Preferences :=
      { noRules := some true, docs := some "docs.json", denyWarnings := some true }
    let inv : Invocation := { files := ["a.pine", "b.pine"], preferences }
    ∃ plan, Plan.ofInvocation files inv = .ok plan ∧
      (∀ check ∈ plan.only, check ∈ Check.choices.map Prod.snd) ∧
      (∀ file ∈ inv.files, (files file).isSome = true) ∧
      (plan.examine "f(a,)\n").tally = ⟨0, 1, 0⟩ ∧ (run files inv).exitStatus ≠ 0 := by
  intro docs files preferences inv
  have hsettled : (Plan.ofInvocation files inv).toOption.map
      (fun plan => (plan.only, plan.denyWarnings, (plan.examine "f(a,)\n").tally)) =
        some (none, true, ⟨0, 1, 0⟩) := by
    decide +kernel
  cases hplan : Plan.ofInvocation files inv with
  | error failure =>
    rw [hplan] at hsettled
    cases hsettled
  | ok plan =>
    rw [hplan] at hsettled
    obtain ⟨honly, hdeny, htally⟩ : plan.only = none ∧ plan.denyWarnings = true ∧
        (plan.examine "f(a,)\n").tally = ⟨0, 1, 0⟩ := by
      simpa [Except.toOption] using hsettled
    have hchoice : ∀ check ∈ plan.only, check ∈ Check.choices.map Prod.snd := by
      rw [honly]
      exact nofun
    have hreadable : ∀ file ∈ inv.files, (files file).isSome = true := by decide
    refine ⟨plan, rfl, hchoice, hreadable, htally, ?_⟩
    refine (exitStatus_agrees_with_tally hplan hchoice hreadable).1.mpr
      ⟨"b.pine", by decide, "f(a,)\n", rfl, ?_⟩
    rw [htally]
    exact .inr ⟨hdeny, Nat.one_pos⟩

end PineCheck
