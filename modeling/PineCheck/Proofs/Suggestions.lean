import PineCheck.Proofs.Renaming

/-!
# PineCheck — suggested names

For a name that is not written in the usual way the check of names works out another
one, and offers it if it differs. This module says what the check thinks of it in turn.

* `isUpper_of_mem_snakeFrom`, `snakeFrom_eq_self` — writing a name in lower case words
  leaves no capitals, and changes nothing where there are none.
* `classify_of_lowerCase` — of the names without capitals, only those with a single
  character are unusual.
* `suggest_settles` — a suggestion is a word in lower case, and is not changed again. It is
  written in the usual way, unless it stands for a single letter.
-/

namespace PineCheck.Check.Naming

-- ---------------------------------------------------------------------------
-- Lower case words
-- ---------------------------------------------------------------------------

/-- Upper case letters are written in lower case, and nothing else is added but underscores. -/
theorem isUpper_of_mem_snakeFrom (last : Option Char) (cs : List Char) :
    ∀ c ∈ snakeFrom last cs, c.isUpper = false := by
  have hunderscore : '_'.isUpper = false := rfl
  fun_induction snakeFrom last cs with
  | case1 => exact List.forall_mem_nil _
  | case2 last c cs _ lower _ ih =>
    simp only [List.forall_mem_cons]
    exact ⟨hunderscore, c.isUpper_toLower_eq_false, ih⟩
  | case3 last c cs _ lower _ ih =>
    exact List.forall_mem_cons.mpr ⟨c.isUpper_toLower_eq_false, ih⟩
  | case4 last c cs hc ih =>
    exact List.forall_mem_cons.mpr ⟨Bool.eq_false_iff.mpr hc, ih⟩

/-- What has no capitals is left as it is. -/
theorem snakeFrom_eq_self {cs : List Char} (h : ∀ c ∈ cs, c.isUpper = false)
    (last : Option Char) : snakeFrom last cs = cs := by
  induction cs generalizing last with
  | nil => rfl
  | cons c cs ih =>
    obtain ⟨hc, hcs⟩ := List.forall_mem_cons.mp h
    have hnot : ¬ c.isUpper = true := Bool.eq_false_iff.mp hc
    rw [snakeFrom, if_neg hnot, ih hcs]

/-- Every character of the name is still there, in lower case perhaps. -/
theorem length_le_length_snakeFrom (last : Option Char) (cs : List Char) :
    cs.length ≤ (snakeFrom last cs).length := by
  fun_induction snakeFrom last cs with
  | case1 => exact Nat.le_refl _
  | case2 last c cs _ lower _ ih =>
    simp only [List.length_cons]
    omega
  | case3 last c cs _ lower _ ih => exact Nat.succ_le_succ ih
  | case4 last c cs _ ih => exact Nat.succ_le_succ ih

-- ---------------------------------------------------------------------------
-- Conventions
-- ---------------------------------------------------------------------------

theorem classify_singleton (c : Char) : classify [c] = some .singleCharacter :=
  rfl

/-- A name with two characters or more is unusual only if it has a capital. -/
theorem classify_of_lowerCase {name : List Char} (hlower : ∀ c ∈ name, c.isUpper = false)
    (hlength : 2 ≤ name.length) : classify name = none := by
  match name, hlength with
  | c :: d :: cs, _ =>
    have hfirst : c.isUpper = false := hlower c List.mem_cons_self
    have hany : (c :: d :: cs).any Char.isUpper = false := by
      rw [List.any_eq_false]
      intro e he
      exact Bool.eq_false_iff.mp (hlower e he)
    unfold classify
    simp [hany, hfirst]

-- ---------------------------------------------------------------------------
-- Suggestions
-- ---------------------------------------------------------------------------

theorem isUpper_of_mem_suggest (convention : Convention) (name : List Char) :
    ∀ c ∈ suggest convention name, c.isUpper = false := by
  cases convention with
  | allCaps =>
    intro c hc
    obtain ⟨d, -, rfl⟩ := List.mem_map.mp hc
    exact d.isUpper_toLower_eq_false
  | singleCharacter | camelCase | pascalCase => exact isUpper_of_mem_snakeFrom none name

theorem length_le_length_suggest (convention : Convention) (name : List Char) :
    name.length ≤ (suggest convention name).length := by
  cases convention with
  | allCaps => exact (List.length_map _).ge
  | singleCharacter | camelCase | pascalCase => exact length_le_length_snakeFrom none name

/-- The suggestion for a single character is a single character. -/
theorem exists_suggest_singleton (convention : Convention) (c : Char) :
    ∃ d, suggest convention [c] = [d] := by
  by_cases hc : c.isUpper = true <;>
    cases convention <;> simp [suggest, toSnakeCase, snakeFrom, hc]

/-- **What becomes of a suggestion.** What is suggested for a word that is not written in the
usual way is a word without capitals, and writing it in lower case words does not change it.
It is written in the usual way, unless the word is a single character: then so is the
suggestion, which is as unusual as the word. -/
theorem suggest_settles {name : List Char} {convention : Convention} (hword : IsWord name)
    (hunusual : classify name = some convention) :
    classify (suggest convention name) =
        (if name.length = 1 then some .singleCharacter else none) ∧
      IsWord (suggest convention name) ∧
      (∀ c ∈ suggest convention name, c.isUpper = false) ∧
      toSnakeCase (suggest convention name) = suggest convention name := by
  have hlower := isUpper_of_mem_suggest convention name
  refine ⟨?_, hword.suggest convention, hlower, snakeFrom_eq_self hlower none⟩
  match name with
  | [] => cases hunusual
  | [c] =>
    obtain ⟨d, hd⟩ := exists_suggest_singleton convention c
    rw [hd, classify_singleton]
    rfl
  | c :: d :: cs =>
    have hlength := length_le_length_suggest convention (c :: d :: cs)
    rw [List.length_cons, List.length_cons] at hlength
    rw [classify_of_lowerCase hlower (by omega), if_neg (by simp)]

/-- A name with capitals in a row, a digit and an underscore before a capital. -/
theorem suggest_settles_capitals :
    let name := "fastEMA2_Len".toList
    let suggestion := "fast_e_m_a2_len".toList
    IsWord name ∧ classify name = some .camelCase ∧ suggest .camelCase name = suggestion ∧
      classify suggestion = none ∧ IsWord suggestion ∧
      (∀ c ∈ suggestion, c.isUpper = false) ∧ toSnakeCase suggestion = suggestion := by
  intro name suggestion
  have hword : IsWord name := ⟨rfl, List.all_eq_true.mp rfl⟩
  have hunusual : classify name = some .camelCase := by decide +kernel
  have hsuggest : suggest .camelCase name = suggestion := by decide +kernel
  have hlength : ¬ name.length = 1 := by decide
  have h := suggest_settles hword hunusual
  rw [hsuggest, if_neg hlength] at h
  exact ⟨hword, hunusual, hsuggest, h⟩

/-- **A suggestion may be unusual itself.** For the parameter `A` the name `a` is offered, and
for the parameter `a` of the same call there is a complaint again. -/
theorem suggest_single_letter :
    IsWord ['A'] ∧ classify ['A'] = some .singleCharacter ∧
      suggest .singleCharacter ['A'] = ['a'] ∧ classify ['a'] = some .singleCharacter ∧
      (runSingle .naming "f(A = 1, a = 1)\n" {}).findings.map (fun finding =>
          (finding.rule, finding.cause.text? "parameter", finding.cause.text? "suggestion")) =
        [(.invalidParameterNamingConvention, some "A", some "a"),
          (.invalidParameterNamingConvention, some "a", none)] := by
  refine ⟨⟨rfl, List.all_eq_true.mp rfl⟩, rfl, rfl, rfl, ?_⟩
  decide +kernel

end PineCheck.Check.Naming
