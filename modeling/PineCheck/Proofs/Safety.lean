import PineCheck.Proofs.Indexed.Calls
import PineCheck.Proofs.Indexed.Lines
import PineCheck.Proofs.Indexed.Objects
import PineCheck.Proofs.Reporting

/-!
# PineCheck — no check ever fails

`Indexed.run` runs a check that reads the script by byte offsets, where an index, a slice,
a difference or a counter can go wrong. In a script of fewer than `2 ^ 31` bytes none of
them does, and what is found is what `Check.run` finds. So a check is always completed,
and no finding of an analysis is about one that was not.

Main results:

* `Indexed.run_eq` — running a check by byte offsets gives what `Check.run` gives.
* `checks_never_fail` — no check fails, alone or in an analysis.
-/

namespace PineCheck

-- ---------------------------------------------------------------------------
-- Running a check
-- ---------------------------------------------------------------------------

namespace Indexed

/-- Runs a check that reads the script by byte offsets. The check of signatures only
looks at the tree. -/
def run (check : Check) (subject : Subject) : Checked (List Finding) :=
  let settings := subject.settings
  match check with
  | .signatures => .ok (Check.Signatures.check settings.documentation subject.program)
  | .objectState => objectState subject.script subject.masked
  | .naming => naming settings.documentation subject.script subject.masked
  | .shortTitle => shortTitles settings.rules subject.script subject.masked
  | .precision | .maxBarsBack | .drawingLimits =>
    numbers check settings.rules subject.script subject.masked
  | .namespaceShadowing => shadowing subject.script subject.masked
  | .lineContinuation => continuation subject.script subject.masked
  | .compatibility => compatibility subject.script subject.masked

theorem byteLength_mask_toList (source : String) :
    byteLength (Text.mask source.toList) = source.utf8ByteSize := by
  rw [Text.mask, byteLength_maskFrom, byteLength_toList]

/-- Running a check by byte offsets never goes wrong, and it gives what the check finds. -/
theorem run_eq (check : Check) {source : String} (program : Program) (settings : Settings)
    (hsize : source.utf8ByteSize < counterLimit) :
    ∃ findings, run check (Subject.ofSource source program settings) = .ok findings ∧
      check.run (Subject.ofSource source program settings) = .ok findings := by
  rw [← byteLength_mask_toList] at hsize
  cases check with
  | signatures => exact ⟨_, rfl, rfl⟩
  | objectState => exact ⟨_, objectState_eq _ hsize, rfl⟩
  | naming => exact ⟨_, naming_eq _ _ hsize, rfl⟩
  | shortTitle => exact ⟨_, shortTitles_eq _ hsize, rfl⟩
  | precision => exact ⟨_, @numbers_eq _ _ _ .precision _ rfl hsize, rfl⟩
  | maxBarsBack => exact ⟨_, @numbers_eq _ _ _ .maxBarsBack _ rfl hsize, rfl⟩
  | drawingLimits => exact ⟨_, @numbers_eq _ _ _ .drawingLimits _ rfl hsize, rfl⟩
  | namespaceShadowing => exact ⟨_, shadowing_eq _ _, rfl⟩
  | lineContinuation => exact ⟨_, continuation_eq _ hsize, rfl⟩
  | compatibility => exact ⟨_, compatibility_eq _ hsize, rfl⟩

end Indexed

-- ---------------------------------------------------------------------------
-- The analysis
-- ---------------------------------------------------------------------------

/-- A check that is completed counts no failure and reports none. -/
theorem Outcome.ofCheck_of_run {check : Check} {subject : Subject} {findings : List Finding}
    (hrun : check.run subject = .ok findings) (keep : Finding → Bool) :
    (ofCheck check subject keep).failed = 0 ∧
      ∀ finding ∈ (ofCheck check subject keep).findings, finding.rule.isFailure = false := by
  rw [ofCheck, hrun]
  refine ⟨rfl, fun finding hfinding => ?_⟩
  have hmem : finding ∈ findings := (List.mem_filter.mp hfinding).1
  exact Check.isFailure_of_mem_ownRules (check.run_rule_mem hrun hmem)

/-- If every check runs through, none has failed and no finding is about a failure. -/
theorem Outcome.ofChecks_of_run {subject : Subject} {checks : List Check}
    (hrun : ∀ check ∈ checks, ∃ findings, check.run subject = .ok findings) :
    (ofChecks checks subject).failed = 0 ∧
      ∀ finding ∈ (ofChecks checks subject).findings, finding.rule.isFailure = false := by
  induction checks with
  | nil => exact ⟨rfl, fun _ h => absurd h List.not_mem_nil⟩
  | cons check checks ih =>
    obtain ⟨findings, hfindings⟩ := hrun check List.mem_cons_self
    obtain ⟨hhere, hfirst⟩ := ofCheck_of_run hfindings (check.reports subject.settings)
    obtain ⟨hlater, hrest⟩ := ih fun check h => hrun check (List.mem_cons_of_mem _ h)
    rw [ofChecks, append]
    refine ⟨by rw [hhere, hlater], fun finding hfinding => ?_⟩
    exact (List.mem_append.mp hfinding).elim (hfirst finding) (hrest finding)

/-- **No check ever fails.** In a script of fewer than `2 ^ 31` bytes, whatever the tree,
the rules, the documentation and the number of errors that the parse may go on behind:
every check is completed, also when it reads the script by byte offsets; an analysis
counts no failed check, and no code that it reports is about one. -/
theorem checks_never_fail (source : String) (settings : Settings)
    (hsize : source.utf8ByteSize < 0x80000000) :
    (∀ (check : Check) (program : Program), ∃ findings,
      Indexed.run check (Subject.ofSource source program settings) = .ok findings ∧
      check.run (Subject.ofSource source program settings) = .ok findings) ∧
    (analyze source settings).failed = 0 ∧
    ∀ finding ∈ (analyze source settings).findings,
      ¬ "_VALIDATION_ERROR".toList <:+ finding.code.toList := by
  have hrun := fun check program => Indexed.run_eq check program settings hsize
  obtain ⟨hfailed, hfindings⟩ := Outcome.ofChecks_of_run fun check _ =>
    (hrun check (parse source settings.allowed).program).imp fun _ h => h.2
  refine ⟨hrun, hfailed, fun finding hfinding hcode => ?_⟩
  have hfailure : finding.rule.isFailure = true := finding.rule.isFailure_iff_code.mpr hcode
  rw [hfindings finding hfinding] at hfailure
  cases hfailure

/-- A script with a string that is not closed, behind a character of two bytes. -/
theorem checks_never_fail_unclosed :
    "é = na\nplot(é.x, \"é".utf8ByteSize < 0x80000000 ∧
      (∀ (check : Check) (program : Program), ∃ findings,
        Indexed.run check (Subject.ofSource "é = na\nplot(é.x, \"é" program {}) = .ok findings ∧
        check.run (Subject.ofSource "é = na\nplot(é.x, \"é" program {}) = .ok findings) ∧
      (analyze "é = na\nplot(é.x, \"é" {}).failed = 0 ∧
      ∀ finding ∈ (analyze "é = na\nplot(é.x, \"é" {}).findings,
        ¬ "_VALIDATION_ERROR".toList <:+ finding.code.toList :=
  ⟨by decide, checks_never_fail "é = na\nplot(é.x, \"é" {} (by decide)⟩

end PineCheck
