import PineCheck.Run

/-!
# PineCheck — the command line before the settings file

A preference that is given on the command line makes the entry of a settings file for it
idle: the run is settled as if the file had no such entry. This holds of every preference
that has one entry. Which rulebook to use has two, `rules` and `no_rules`, and whether they
contradict each other is asked when both sources have been put together. So an entry still
counts against the command line if it is the opposite one.

* `Plan.settle` — what `Plan.ofInvocation` does when the settings file has been read.
* `Preferences.orElse_docs`, `Preferences.orElse_rulebook` — what the command line hides.
* `ofInvocation_prefers_commandLine` — for every setting, when the command line wins.
* `ofInvocation_refuses_commandLine` — a rulebook that is named on the command line is refused
  because of the settings file, and so is the wish to do without one.
-/

namespace PineCheck

-- ---------------------------------------------------------------------------
-- Preferences of two sources
-- ---------------------------------------------------------------------------

namespace Preferences

/-- Whether preferences name a rulebook or do without one. -/
def choosesRulebook (p : Preferences) : Bool :=
  p.rules.isSome || p.noRules.getD false

/-- Whether one source names a rulebook and the other one does without. -/
def contradicts (first second : Preferences) : Bool :=
  (first.rules.isSome && second.noRules.getD false) ||
    (first.noRules.getD false && second.rules.isSome)

/-- Preferences that leave the choice of a rulebook open. -/
def withoutRulebook (p : Preferences) : Preferences :=
  { p with rules := none, noRules := none }

variable {first : Preferences} (second : Preferences)

theorem orElse_of_isSome {α : Type} {a : Option α} (h : a.isSome = true) (b c : Option α) :
    (a <|> b) = (a <|> c) := by
  obtain ⟨x, rfl⟩ := Option.isSome_iff_exists.mp h
  rfl

theorem orElse_docs (h : first.docs.isSome = true) :
    first.orElse second = first.orElse { second with docs := none } := by
  unfold orElse
  rw [orElse_of_isSome h second.docs none]

theorem orElse_only (h : first.only.isSome = true) :
    first.orElse second = first.orElse { second with only := none } := by
  unfold orElse
  rw [orElse_of_isSome h second.only none]

theorem orElse_format (h : first.format.isSome = true) :
    first.orElse second = first.orElse { second with format := none } := by
  unfold orElse
  rw [orElse_of_isSome h second.format none]

theorem orElse_allowed (h : first.allowed.isSome = true) :
    first.orElse second = first.orElse { second with allowed := none } := by
  unfold orElse
  rw [orElse_of_isSome h second.allowed none]

theorem either_of_getD_eq_false {a b : Option Bool} (h : b.getD false = false) :
    either a b = either a none := by
  unfold either
  rw [h]
  rfl

theorem either_of_getD {a : Option Bool} (h : a.getD false = true) (b : Option Bool) :
    either a b = some true := by
  unfold either
  rw [h]
  rfl

/-- A choice of a rulebook hides the one of the other source, unless they contradict each
other. -/
theorem orElse_rulebook (h : first.choosesRulebook = true)
    (hagree : first.contradicts second = false) :
    first.orElse second = first.orElse second.withoutRulebook := by
  unfold choosesRulebook at h
  unfold contradicts at hagree
  rw [Bool.or_eq_false_iff, Bool.and_eq_false_iff, Bool.and_eq_false_iff] at hagree
  obtain ⟨hnamed, hwithout⟩ := hagree
  have hrules : (first.rules <|> second.rules) = (first.rules <|> none) := by
    cases hfirst : first.rules with
    | some path => rfl
    | none =>
      rw [hfirst] at h
      have hnone := hwithout.resolve_left (by simpa using h)
      rw [Option.not_isSome_iff_eq_none.mp (Bool.eq_false_iff.mp hnone)]
  have hnoRules : either first.noRules second.noRules = either first.noRules none := by
    by_cases hfirst : first.noRules.getD false = true
    · rw [either_of_getD hfirst, either_of_getD hfirst]
    · have hpath : first.rules.isSome = true := by simpa [hfirst] using h
      exact either_of_getD_eq_false (hnamed.resolve_left (by simp [hpath]))
  unfold orElse
  rw [hrules, hnoRules]
  rfl

/-- Together two sources that contradict each other name a rulebook and do without one. -/
theorem orElse_contradicts (h : first.contradicts second = true) :
    (first.orElse second).rules.isSome = true ∧
      (first.orElse second).noRules.getD false = true := by
  unfold contradicts at h
  rw [Bool.or_eq_true, Bool.and_eq_true, Bool.and_eq_true] at h
  unfold orElse either
  rcases h with ⟨hrules, hnoRules⟩ | ⟨hnoRules, hrules⟩
  · obtain ⟨path, hpath⟩ := Option.isSome_iff_exists.mp hrules
    simp [hpath, hnoRules]
  · obtain ⟨path, hpath⟩ := Option.isSome_iff_exists.mp hrules
    cases first.rules <;> simp [hpath, hnoRules]

end Preferences

-- ---------------------------------------------------------------------------
-- Settling a run
-- ---------------------------------------------------------------------------

namespace Plan

/-- Settles what an invocation asks for, when `preferences` come of its own ones and those in
the settings file. -/
def settle (files : Files) (inv : Invocation) (preferences : Preferences) :
    Except Failure Plan := do
  let rules ← rulesOf files preferences
  let documentation ← documentationOf files preferences
  pure
    { files := inv.files
      rules
      documentation
      only := preferences.only
      format := preferences.format.getD .human
      denyWarnings := preferences.denyWarnings.getD false
      allowed := preferences.allowed.getD Parser.defaultAllowed
      isVerbose := inv.isVerbose
      hasColors := inv.color = some .always }

variable {files : Files} {inv : Invocation} {second : Preferences}

theorem ofInvocation_eq_settle (h : settingsOf files inv = .ok second) :
    ofInvocation files inv = settle files inv (inv.preferences.orElse second) := by
  unfold ofInvocation
  rw [h]
  rfl

/-- A run that both names a rulebook and does without one is not settled. -/
theorem settle_contradictory {preferences : Preferences} (hrules : preferences.rules.isSome = true)
    (hnoRules : preferences.noRules.getD false = true) :
    settle files inv preferences = .error .contradictoryRules := by
  obtain ⟨path, hpath⟩ := Option.isSome_iff_exists.mp hrules
  have herror : rulesOf files preferences = .error .contradictoryRules := by
    unfold rulesOf
    rw [hpath, hnoRules]
  unfold settle
  rw [herror]
  rfl

/-- **The command line comes before the settings file.** When documentation, the only check, the
format or the number of errors is given on the command line, a run is settled as if the
settings file had no entry for it. When the command line names a rulebook or does without one,
then so it is with both entries about rulebooks, unless one of them says the opposite: in that
case the run is refused. -/
theorem ofInvocation_prefers_commandLine (hsecond : settingsOf files inv = .ok second) :
    let first := inv.preferences
    (first.docs.isSome = true →
      ofInvocation files inv = settle files inv (first.orElse { second with docs := none })) ∧
    (first.only.isSome = true →
      ofInvocation files inv = settle files inv (first.orElse { second with only := none })) ∧
    (first.format.isSome = true →
      ofInvocation files inv = settle files inv (first.orElse { second with format := none })) ∧
    (first.allowed.isSome = true →
      ofInvocation files inv = settle files inv (first.orElse { second with allowed := none })) ∧
    (first.choosesRulebook = true →
      ofInvocation files inv =
        if first.contradicts second then .error .contradictoryRules
        else settle files inv (first.orElse second.withoutRulebook)) := by
  intro first
  have hsettle : ofInvocation files inv = settle files inv (first.orElse second) :=
    ofInvocation_eq_settle hsecond
  refine ⟨fun h => ?_, fun h => ?_, fun h => ?_, fun h => ?_, fun h => ?_⟩
  · rw [hsettle, Preferences.orElse_docs second h]
  · rw [hsettle, Preferences.orElse_only second h]
  · rw [hsettle, Preferences.orElse_format second h]
  · rw [hsettle, Preferences.orElse_allowed second h]
  · rw [hsettle]
    split
    · next hcontradicts =>
      obtain ⟨hrules, hnoRules⟩ := Preferences.orElse_contradicts second hcontradicts
      exact settle_contradictory hrules hnoRules
    · next hagree => rw [Preferences.orElse_rulebook second h (Bool.eq_false_iff.mpr hagree)]

/-- All settings on the command line, and other ones in the settings file, of which two paths
lead nowhere. -/
theorem ofInvocation_prefers_commandLine_sample :
    let files : Files := fun path => [
      ("set.toml", "rules = \"gone.json\"\ndocs = \"gone.json\"\n" ++
        "only = \"naming\"\nformat = \"json\"\nmax_recovery_attempts = 3\n"),
      ("rules.json", "\x7b\"errorCodeDefinitions\": \x7b\x7d\x7d"),
      ("docs.json", "\x7b\"functions\": []\x7d")].lookup path
    let first : Preferences :=
      { rules := some "rules.json", docs := some "docs.json"
        only := some .precision, format := some .human, allowed := some 5 }
    let second : Preferences :=
      { rules := some "gone.json", docs := some "gone.json"
        only := some .naming, format := some .json, allowed := some 3 }
    let inv : Invocation :=
      { files := ["a.pine"], preferences := first, settingsFile := some "set.toml" }
    settingsOf files inv = .ok second ∧
      ofInvocation files inv = settle files inv (first.orElse { second with docs := none }) ∧
      ofInvocation files inv = settle files inv (first.orElse { second with only := none }) ∧
      ofInvocation files inv = settle files inv (first.orElse { second with format := none }) ∧
      ofInvocation files inv = settle files inv (first.orElse { second with allowed := none }) ∧
      ofInvocation files inv = settle files inv (first.orElse second.withoutRulebook) ∧
      (ofInvocation files inv).toOption.map (fun plan =>
          (plan.rules.map Rulebook.size, plan.only, plan.format, plan.allowed)) =
        some (some 0, some .precision, .human, 5) := by
  intro files first second inv
  have hsecond : settingsOf files inv = .ok second := by
    have hread : (settingsOf files inv).toOption = some second := by decide +kernel
    cases hsettings : settingsOf files inv with
    | error failure =>
      rw [hsettings] at hread
      cases hread
    | ok found =>
      rw [hsettings] at hread
      exact congrArg Except.ok (Option.some.inj hread)
  obtain ⟨hdocs, honly, hformat, hallowed, hrulebook⟩ := ofInvocation_prefers_commandLine hsecond
  exact ⟨hsecond, hdocs rfl, honly rfl, hformat rfl, hallowed rfl, hrulebook rfl,
    by decide +kernel⟩

/-- **The settings file may come before the command line.** A rulebook that the command line
names is refused because the settings file does without one, and to do without is refused
because the settings file names one. Without the entry both runs are settled. -/
theorem ofInvocation_refuses_commandLine :
    let files : Files := fun path => [("without.toml", "no_rules = true\n"),
      ("named.toml", "rules = \"rules.json\"\n"), ("empty.toml", ""),
      ("rules.json", "\x7b\"errorCodeDefinitions\": \x7b\x7d\x7d"),
      ("docs.json", "\x7b\"functions\": []\x7d"), ("a.pine", "x = 1\n")].lookup path
    let message (options : List String) (settings : String) : Option String :=
      (execute files (options ++ ["--docs", "docs.json", "--config", settings, "a.pine"])).message
    message ["--rules", "rules.json"] "without.toml" =
        some "--rules cannot be used with --no-rules" ∧
      message ["--no-rules"] "named.toml" = some "--rules cannot be used with --no-rules" ∧
      message ["--rules", "rules.json"] "empty.toml" = none ∧
      message ["--no-rules"] "empty.toml" = none := by
  decide +kernel

end Plan

end PineCheck
