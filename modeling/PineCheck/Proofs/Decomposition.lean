import Mathlib.Data.List.Basic
import PineCheck.Proofs.Reporting

/-!
# PineCheck — an analysis, check by check and code by code

A full analysis parses the script once and runs every check that is turned on; a check
that is run alone only parses the script if it looks at the tree. Both find the same,
since no other check looks at the tree. So an analysis is what its checks find alone, one
behind the other, where an optional check reports the codes that are turned on.

A rulebook both turns on codes and sets limits. The settings of a code only matter for
the findings with this code. So turning off one code of an optional check deletes its
findings and changes nothing else.

Main results:

* `Check.filter_run_of_turnsOff` — what a check finds under another code does not depend
  on the settings of a code.
* `analyze_findings` — an analysis, check by check.
* `analyze_decomposes` — and code by code.
-/

namespace PineCheck

-- ---------------------------------------------------------------------------
-- Turning off a code
-- ---------------------------------------------------------------------------

namespace Rulebook

/-- A rulebook without a code. -/
def erase (book : Rulebook) (code : String) : Rulebook :=
  ⟨book.settings.filter fun entry => entry.1 ≠ code⟩

/-- A rulebook with a code turned off, which keeps the other settings of the code. -/
def disable (book : Rulebook) (code : String) : Rulebook :=
  ⟨book.settings.map fun entry =>
    if entry.1 = code then (code, { entry.2 with isEnabled := false }) else entry⟩

/-- One rulebook is another one with a code turned off, whatever it says of the code
beside that. -/
structure TurnsOff (code : String) (book book' : Rulebook) : Prop where
  off : book'.defines code = false
  others : ∀ other, other ≠ code → book'.setting? other = book.setting? other

/-- Without an entry a code is not defined, and the entries of the other codes are found as before.
-/
theorem erase_turnsOff (book : Rulebook) (code : String) :
    TurnsOff code book (book.erase code) := by
  constructor
  · have hnone : (book.erase code).setting? code = none := by
      unfold erase setting?
      rw [Option.map_eq_none_iff, List.find?_eq_none]
      intro entry hentry
      simpa using (List.mem_filter.mp hentry).2
    rw [defines, hnone]
    rfl
  · intro other hother
    unfold erase setting?
    rw [List.find?_filter]
    congr 2
    funext entry
    by_cases h : entry.1 = other
    · simp [h, hother]
    · simp [h]

/-- An entry that is not enabled does the same: it is found, but it defines nothing. -/
theorem disable_turnsOff (book : Rulebook) (code : String) :
    TurnsOff code book (book.disable code) := by
  constructor
  · unfold disable defines setting?
    rw [Option.any_map, List.find?_map, Option.any_map, Option.any_eq_false]
    intro entry hentry
    have hcode := List.find?_some hentry
    by_cases h : entry.1 = code
    · simp [h]
    · simp [h] at hcode
  · intro other hother
    unfold disable setting?
    induction book.settings with
    | nil => rfl
    | cons entry entries ih =>
      rw [List.map_cons, List.find?_cons, List.find?_cons]
      by_cases h : entry.1 = code
      · have hne : ¬ code = other := fun heq => hother heq.symm
        simp only [h, hne, decide_false, ↓reduceIte]
        exact ih
      · simp only [h, ↓reduceIte]
        split
        · rfl
        · exact ih

variable {code : String} {book book' : Rulebook}

/-- Of the other codes, the same are turned on. -/
theorem TurnsOff.defines_eq (h : TurnsOff code book book') (other : String) :
    book'.defines other = (decide (other ≠ code) && book.defines other) := by
  by_cases hother : other = code
  · subst hother
    simp [h.off]
  · simp [defines, h.others other hother, hother]

/-- The settings of rules with other codes are the same. -/
theorem TurnsOff.settingOf?_eq (h : TurnsOff code book book') {rule : Rule}
    (hrule : rule.code ≠ code) :
    Check.Declaration.settingOf? (some book') rule =
      Check.Declaration.settingOf? (some book) rule :=
  h.others rule.code hrule

end Rulebook

namespace Check

-- ---------------------------------------------------------------------------
-- What a check depends on
-- ---------------------------------------------------------------------------

/-- Every check comes to an end. -/
theorem exists_run_eq_ok (check : Check) (subject : Subject) :
    ∃ findings, check.run subject = .ok findings := by
  cases check <;> exact ⟨_, rfl⟩

/-- A check that does not look at the tree finds the same with any tree. -/
theorem run_of_not_readsTree {check : Check} (h : check.readsTree = false)
    (script masked : List Char) (program program' : Program) (settings : Settings) :
    check.run ⟨script, masked, program, settings⟩ =
      check.run ⟨script, masked, program', settings⟩ := by
  cases check with
  | signatures => cases h
  | _ => rfl

/-- Checks that always run have codes of their own. -/
theorem code_ne_of_isAlwaysOn {check optional : Check} (h : check.isAlwaysOn = true)
    {rule own : Rule} (hrule : rule ∈ optional.rules) (hown : own ∈ check.ownRules) :
    own.code ≠ rule.code := by
  have hall : ∀ rule ∈ optional.rules, ∀ own ∈ check.ownRules, own.code ≠ rule.code := by
    cases check with
    | signatures | objectState | naming => cases optional <;> decide
    | _ => cases h
  exact hall rule hrule own hown

/-- The rules of an optional check are those that turn it on. -/
theorem ownRules_eq_rules {check : Check} (h : check.isAlwaysOn = false) :
    check.ownRules = check.rules := by
  cases check with
  | signatures | objectState | naming => cases h
  | _ => rfl

section TurnsOff

variable {code : String} {book book' : Rulebook} (h : Rulebook.TurnsOff code book book')
include h

/-- What is found about an argument under another code than the one that is turned off. -/
theorem filter_checkNumber?_of_turnsOff (script : List Char) (limits : List Declaration.Limit)
    (argument : Text.NamedArgument) :
    (Declaration.checkNumber? (some book') script limits argument).filter (·.code ≠ code) =
      (Declaration.checkNumber? (some book) script limits argument).filter
        (·.code ≠ code) := by
  unfold Declaration.checkNumber?
  cases limits.find? fun limit => limit.parameter = argument.name with
  | none => rfl
  | some limit =>
    by_cases hrule : limit.rule.code = code
    · -- the limits may differ, but whatever breaks them is told under the code
      have hnone (m : Option Measurement) : (m.bind fun m =>
          if m.isFractional || m.isOutOfRange then
            some (⟨.badNumber limit.rule m,
              locate script argument.offset (argument.value.stop - argument.offset)⟩ : Finding)
          else none).filter (·.code ≠ code) = none := by
        rw [Option.filter_eq_none_iff]
        intro finding hfinding
        obtain ⟨m, -, hm⟩ := Option.bind_eq_some_iff.mp hfinding
        split at hm
        · cases hm
          show ¬ decide (limit.rule.code ≠ code) = true
          simpa using hrule
        · cases hm
      exact (hnone _).trans (hnone _).symm
    · have hsetting := h.settingOf?_eq hrule
      show Option.filter _ (Option.bind (Declaration.measure? (some book') limit _) _) = _
      unfold Declaration.measure?
      rw [hsetting]
      rfl

/-- Turning a code off changes no number finding of another code, since each limit only reads the
settings of its own rule. -/
theorem filter_checkNumbers_of_turnsOff (script masked : List Char)
    (limits : List Declaration.Limit) :
    (Declaration.checkNumbers (some book') script masked limits).filter (·.code ≠ code) =
      (Declaration.checkNumbers (some book) script masked limits).filter (·.code ≠ code) := by
  unfold Declaration.checkNumbers
  rw [List.filter_flatMap, List.filter_flatMap]
  apply List.flatMap_congr
  intro site _
  rw [List.filter_filterMap, List.filter_filterMap]
  apply List.filterMap_congr
  intro argument _
  exact filter_checkNumber?_of_turnsOff h script limits argument

/-- Nor does it change what is found about short titles, unless that is the code. -/
theorem filter_checkShortTitles_of_turnsOff (script masked : List Char) :
    (Declaration.checkShortTitles (some book') script masked).filter (·.code ≠ code) =
      (Declaration.checkShortTitles (some book) script masked).filter (·.code ≠ code) := by
  by_cases hrule : Rule.shortTitleTooLong.code = code
  · have hnil (rules : Option Rulebook) :
        (Declaration.checkShortTitles rules script masked).filter (·.code ≠ code) = [] := by
      rw [List.filter_eq_nil_iff]
      intro finding hfinding
      have hmem := shortTitles_rule_mem hfinding
      have hcode : finding.code = code := by
        rw [Finding.code, List.mem_singleton.mp hmem, hrule]
      simpa using hcode
    rw [hnil, hnil]
  · unfold Declaration.checkShortTitles
    rw [h.settingOf?_eq hrule]

/-- What a check finds under another code does not depend on the settings of a code. -/
theorem filter_run_of_turnsOff (check : Check) (script masked : List Char) (program : Program)
    (settings : Settings) {findings findings' : List Finding}
    (hrun : check.run ⟨script, masked, program, { settings with rules := some book }⟩ =
      .ok findings)
    (hrun' : check.run ⟨script, masked, program, { settings with rules := some book' }⟩ =
      .ok findings') :
    findings'.filter (·.code ≠ code) = findings.filter (·.code ≠ code) := by
  cases check with
  | shortTitle =>
    cases hrun
    cases hrun'
    exact filter_checkShortTitles_of_turnsOff h script masked
  | precision | maxBarsBack | drawingLimits =>
    cases hrun
    cases hrun'
    exact filter_checkNumbers_of_turnsOff h script masked _
  | _ =>
    cases hrun
    cases hrun'
    rfl

end TurnsOff

end Check

-- ---------------------------------------------------------------------------
-- An analysis, check by check
-- ---------------------------------------------------------------------------

theorem Outcome.findings_of_run {check : Check} {subject : Subject} {findings : List Finding}
    (hrun : check.run subject = .ok findings) (keep : Finding → Bool) :
    (ofCheck check subject keep).findings = findings.filter keep := by
  rw [ofCheck, hrun]

/-- What an analysis reports of a check: all that it finds alone, if it always runs, and
else what it finds under codes that are turned on. -/
def Check.reported (check : Check) (source : String) (settings : Settings) : List Finding :=
  (runSingle check source settings).findings.filter (check.reports settings)

section Analysis

variable (source : String) (settings : Settings)

/-- A check finds the same alone as in an analysis. -/
theorem Check.runSingle_findings (check : Check) {findings : List Finding}
    (hrun : check.run (.ofSource source (parse source settings.allowed).program settings) =
      .ok findings) :
    (runSingle check source settings).findings = findings := by
  have hsingle : check.run (.ofSource source
      (if check.readsTree then (parse source settings.allowed).program else ⟨[], none⟩)
      settings) = .ok findings := by
    cases hreads : check.readsTree with
    | true => exact hrun
    | false =>
      rw [← hrun]
      exact Check.run_of_not_readsTree hreads ..
  show (Outcome.ofCheck check _ fun _ => true).findings = findings
  rw [Outcome.findings_of_run hsingle]
  exact List.filter_true findings

/-- A check in an analysis reports what is reported of it. -/
theorem Check.ofCheck_findings (check : Check) :
    (Outcome.ofCheck check
      (.ofSource source (parse source settings.allowed).program settings)
      (check.reports settings)).findings = check.reported source settings := by
  obtain ⟨findings, hrun⟩ := check.exists_run_eq_ok
    (.ofSource source (parse source settings.allowed).program settings)
  rw [reported, check.runSingle_findings source settings hrun, Outcome.findings_of_run hrun]

theorem Outcome.ofChecks_findings (checks : List Check) (subject : Subject) :
    (ofChecks checks subject).findings =
      checks.flatMap fun check =>
        (ofCheck check subject (check.reports subject.settings)).findings := by
  induction checks with
  | nil => rfl
  | cons check checks ih =>
    rw [ofChecks, append, List.flatMap_cons, ih]

/-- An analysis, check by check. -/
theorem analyze_findings :
    (analyze source settings).findings =
      settings.enabledChecks.flatMap fun check => check.reported source settings := by
  show (Outcome.ofChecks settings.enabledChecks _).findings = _
  rw [Outcome.ofChecks_findings]
  apply List.flatMap_congr
  intro check _
  exact check.ofCheck_findings source settings

/-- Nothing is reported of a check that is not turned on. -/
theorem Check.reported_of_not_enables {check : Check} (h : settings.enables check = false) :
    check.reported source settings = [] := by
  obtain ⟨findings, hrun⟩ := check.exists_run_eq_ok
    (.ofSource source (parse source settings.allowed).program settings)
  rw [Settings.enables, Bool.or_eq_false_iff, List.any_eq_false] at h
  rw [reported, check.runSingle_findings source settings hrun, List.filter_eq_nil_iff]
  intro finding hfinding
  have hmem := check.run_rule_mem hrun hfinding
  rw [ownRules_eq_rules h.1] at hmem
  rw [reports, h.1, Bool.false_or]
  exact h.2 finding.rule hmem

/-- An analysis as if all checks had run. -/
theorem analyze_findings_all :
    (analyze source settings).findings =
      Check.all.flatMap fun check => check.reported source settings := by
  rw [analyze_findings, Settings.enabledChecks]
  induction Check.all with
  | nil => rfl
  | cons check checks ih =>
    rw [List.filter_cons, List.flatMap_cons, ← ih]
    cases henables : settings.enables check with
    | true => rfl
    | false =>
      rw [check.reported_of_not_enables source settings henables]
      rfl

/-- With a code of an optional check turned off, all but the findings with this code are
reported of each check. -/
theorem Check.reported_of_turnsOff (check : Check) {optional : Check} {rule : Rule}
    (hrule : rule ∈ optional.rules) {book book' : Rulebook}
    (h : Rulebook.TurnsOff rule.code book book') :
    check.reported source { settings with rules := some book' } =
      (check.reported source { settings with rules := some book }).filter
        (·.code ≠ rule.code) := by
  obtain ⟨findings, hrun⟩ := check.exists_run_eq_ok
    (.ofSource source (parse source settings.allowed).program
      { settings with rules := some book })
  obtain ⟨findings', hrun'⟩ := check.exists_run_eq_ok
    (.ofSource source (parse source settings.allowed).program
      { settings with rules := some book' })
  have hsame := check.filter_run_of_turnsOff h _ _ _ _ hrun hrun'
  rw [reported, reported, check.runSingle_findings _ _ hrun, check.runSingle_findings _ _ hrun']
  cases halways : check.isAlwaysOn with
  | true =>
    -- such a check has no finding with the code, and reports all that it finds
    have hother {findings : List Finding} {settings : Settings}
        (hrun : check.run (.ofSource source (parse source settings.allowed).program settings) =
          .ok findings) : findings.filter (·.code ≠ rule.code) = findings := by
      rw [List.filter_eq_self]
      intro finding hfinding
      have hne := code_ne_of_isAlwaysOn halways hrule (check.run_rule_mem hrun hfinding)
      exact decide_eq_true hne
    have hreports (settings : Settings) : check.reports settings = fun _ => true := by
      funext finding
      rw [reports, halways, Bool.true_or]
    rw [hreports, hreports, List.filter_true, List.filter_true, ← hsame, hother hrun']
  | false =>
    have hreports (finding : Finding) :
        check.reports { settings with rules := some book' } finding =
          (check.reports { settings with rules := some book } finding &&
            decide (finding.code ≠ rule.code)) := by
      unfold reports
      rw [halways, Bool.false_or, Bool.false_or, Bool.and_comm]
      exact h.defines_eq finding.code
    rw [List.filter_congr fun finding _ => hreports finding, ← List.filter_filter,
      hsame, List.filter_filter, List.filter_filter]
    apply List.filter_congr
    intro finding _
    rw [Bool.and_comm]

end Analysis

/-- **An analysis decomposes.** It reports what each of its checks finds alone, one check
behind the other, and of an optional check only the findings under codes that are turned
on. If a code of an optional check is taken out of the rulebook or turned off in it, then
the findings with this code are no longer reported, all others are the same in the same
order, and so are the errors and warnings of the parse. -/
theorem analyze_decomposes (source : String) (settings : Settings) :
    (analyze source settings).findings =
      settings.enabledChecks.flatMap (fun check =>
        (runSingle check source settings).findings.filter (check.reports settings)) ∧
    ∀ (book : Rulebook) (check : Check) (rule : Rule), rule ∈ check.rules →
      ∀ book' ∈ [book.erase rule.code, book.disable rule.code],
        let before := analyze source { settings with rules := some book }
        let behind := analyze source { settings with rules := some book' }
        behind.findings = before.findings.filter (·.code ≠ rule.code) ∧
          behind.errors = before.errors ∧ behind.warnings = before.warnings := by
  refine ⟨analyze_findings source settings, ?_⟩
  intro book check rule hrule book' hbook'
  have hoff : Rulebook.TurnsOff rule.code book book' := by
    rcases List.mem_pair.mp hbook' with rfl | rfl
    · exact book.erase_turnsOff rule.code
    · exact book.disable_turnsOff rule.code
  refine ⟨?_, rfl, rfl⟩
  rw [analyze_findings_all, analyze_findings_all, List.filter_flatMap]
  apply List.flatMap_congr
  intro other _
  exact other.reported_of_turnsOff source settings hrule hoff

/-- A script that is told to state its version and not to call `study`, and is then no
longer told the second. -/
theorem analyze_decomposes_deprecated_function :
    let book := Rulebook.ofCodes ["DEPRECATED_FUNCTION", "MISSING_VERSION_DIRECTIVE"]
    let before := analyze "study(\"a\")\n" { rules := some book }
    let behind := analyze "study(\"a\")\n" { rules := some (book.disable "DEPRECATED_FUNCTION") }
    Rule.deprecatedFunction ∈ Check.compatibility.rules ∧
      before.findings.map Finding.code = ["MISSING_VERSION_DIRECTIVE", "DEPRECATED_FUNCTION"] ∧
      behind.findings = before.findings.filter (·.code ≠ "DEPRECATED_FUNCTION") ∧
      behind.errors = before.errors ∧ behind.warnings = before.warnings := by
  intro book before behind
  have hrule : Rule.deprecatedFunction ∈ Check.compatibility.rules := by decide
  have hbook : book.disable "DEPRECATED_FUNCTION" ∈
      [book.erase "DEPRECATED_FUNCTION", book.disable "DEPRECATED_FUNCTION"] :=
    .tail _ (.head _)
  exact ⟨hrule, by decide +kernel,
    (analyze_decomposes "study(\"a\")\n" {}).2 book _ _ hrule _ hbook⟩

end PineCheck
