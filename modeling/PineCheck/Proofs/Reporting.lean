import PineCheck.Analysis

/-!
# PineCheck — what each check reports

Every check has rules of its own, and it finds nothing but that they are broken. That a
check could not be completed is no rule of a check: it is only reported instead of what
the check has found.

Main results:

* `Signatures.mem_checkCall`, `ObjectState.exists_of_directAccess?`, `Naming.mem_check`,
  `Shadowing.checkLine?_eq_some`, `Compatibility.mem_checkCalls` — what a finding of these
  checks is about, and where it is.
* `Check.run_rule_mem` — whatever a check finds breaks one of its own rules.
* `Rule.isFailure_iff_code` — the code of a rule tells whether it is about a check that
  could not be completed.
-/

namespace PineCheck

-- ---------------------------------------------------------------------------
-- Definitions
-- ---------------------------------------------------------------------------

/-- The rules that a check can find broken. -/
def Check.ownRules : Check → List Rule
  | .signatures => [.missingRequiredParameters, .tooManyParameters, .typeMismatch]
  | .objectState => [.naObjectAccess, .naObjectHistoryAccess]
  | .naming => [.deprecatedParameterName, .invalidParameterNamingConvention]
  | check => check.rules

/-- Whether a rule is about a check that could not be completed. -/
def Rule.isFailure : Rule → Bool
  | .checkFailure _ => true
  | _ => false

-- ---------------------------------------------------------------------------
-- Failures
-- ---------------------------------------------------------------------------

/-- The code of a rule tells whether it is about a check that could not be completed. -/
theorem Rule.isFailure_iff_code (rule : Rule) :
    rule.isFailure = true ↔ "_VALIDATION_ERROR".toList <:+ rule.code.toList := by
  cases rule with
  | checkFailure check =>
    rw [code, String.toList_append]
    exact iff_of_true rfl (List.suffix_append ..)
  | _ => decide

/-- The rules of a check do not tell of failures. -/
theorem Check.isFailure_of_mem_ownRules {check : Check} {rule : Rule} (h : rule ∈ check.ownRules) :
    rule.isFailure = false := by
  have hall : ∀ rule ∈ check.ownRules, rule.isFailure = false := by
    cases check <;> decide
  exact hall rule h

-- ---------------------------------------------------------------------------
-- What a finding is about
-- ---------------------------------------------------------------------------

namespace Check

/-- A finding about an argument is about its type. -/
theorem Signatures.checkArgument?_eq_some {call : Call} {signature : Signature}
    {argument : Argument} {finding : Finding}
    (h : checkArgument? call signature argument = some finding) :
    ∃ parameter, parameterOf? signature argument = some parameter ∧
      finding = ⟨.wrongType call.name parameter.name argument.position parameter.type
        argument.value.type, argument.span⟩ := by
  rw [checkArgument?] at h
  split at h
  · cases h
  · obtain ⟨parameter, hparameter, h⟩ := Option.bind_eq_some_iff.mp h
    dsimp only at h
    split at h
    · cases h
    · cases h
      exact ⟨parameter, hparameter, rfl⟩

/-- A finding about a call is about the number of its arguments, or about one of them. -/
theorem Signatures.mem_checkCall {call : Call} {signature : Signature} {finding : Finding}
    (h : finding ∈ checkCall call signature) :
    finding = ⟨.missingArguments call.name signature.requiredCount call.arguments.length
        (missing call signature), call.span⟩ ∨
      finding = ⟨.tooManyArguments call.name signature.totalCount call.arguments.length,
        call.span⟩ ∨
      ∃ argument ∈ call.arguments, checkArgument? call signature argument = some finding := by
  rw [checkCall] at h
  split at h
  · exact .inl (List.mem_singleton.mp h)
  split at h
  · exact .inr (.inl (List.mem_singleton.mp h))
  · exact .inr (.inr (List.mem_filterMap.mp h))

/-- The name of an argument is an old one, or it is written as none is. -/
theorem Naming.cause?_eq_some {docs : Option Documentation} {function parameter : String}
    {cause : Cause} (h : cause? docs function parameter = some cause) :
    (∃ replacement, Language.renamedParameter? function parameter = some replacement ∧
        cause = .renamedParameter function parameter replacement) ∨
      ∃ convention, classify parameter.toList = some convention ∧
        cause = .unusualName function parameter convention
          (if String.ofList (suggest convention parameter.toList) = parameter then none
            else some (String.ofList (suggest convention parameter.toList))) := by
  rw [cause?] at h
  split at h
  · next replacement hrenamed => exact .inl ⟨replacement, hrenamed, (Option.some.inj h).symm⟩
  · split at h
    · cases h
    · obtain ⟨convention, hclassify, rfl⟩ := Option.map_eq_some_iff.mp h
      exact .inr ⟨convention, hclassify, rfl⟩

/-- A finding about a name is at a named argument of a call site. -/
theorem Naming.mem_check {docs : Option Documentation} {script masked : List Char}
    {finding : Finding} (h : finding ∈ check docs script masked) :
    ∃ site ∈ Text.callSites masked, ∃ argument ∈ Text.namedArguments site.arguments,
      ∃ cause, cause? docs site.name argument.name = some cause ∧
        finding = ⟨cause, locate script argument.offset (byteLength argument.name.toList)⟩ := by
  obtain ⟨site, hsite, h⟩ := List.mem_flatMap.mp h
  rw [checkSite] at h
  split at h
  · cases h
  · obtain ⟨argument, hargument, h⟩ := List.mem_filterMap.mp h
    obtain ⟨cause, hcause, rfl⟩ := Option.map_eq_some_iff.mp h
    exact ⟨site, hsite, argument, hargument, cause, hcause, rfl⟩

/-- The name of a function is an old one, or it lacks a namespace. -/
theorem Compatibility.cause?_eq_some {function : String} {cause : Cause}
    (h : cause? function = some cause) :
    (∃ replacement, cause = .renamedFunction function replacement) ∨
      ∃ namespaced, cause = .missingNamespace function namespaced := by
  rw [cause?] at h
  split at h
  · next replacement _ => exact .inl ⟨replacement, (Option.some.inj h).symm⟩
  · obtain ⟨namespaced, -, rfl⟩ := Option.map_eq_some_iff.mp h
    exact .inr ⟨namespaced, rfl⟩

/-- A finding about a function is at the name of a call site. -/
theorem Compatibility.mem_checkCalls {script masked : List Char} {finding : Finding}
    (h : finding ∈ checkCalls script masked) :
    ∃ site ∈ Text.callSites masked, ∃ cause, cause? site.name = some cause ∧
      finding = ⟨cause, locate script site.offset (byteLength site.name.toList)⟩ := by
  obtain ⟨site, hsite, h⟩ := List.mem_filterMap.mp h
  split at h
  · cases h
  · obtain ⟨cause, hcause, rfl⟩ := Option.map_eq_some_iff.mp h
    exact ⟨site, hsite, cause, hcause, rfl⟩

/-- A finding about an access is about a field of an object that a change before left `na`. -/
theorem ObjectState.exists_of_directAccess? {script : List Char} {all : List ObjectState.Change}
    {line offset : Nat} {cs : List Char} {finding : Finding}
    (h : directAccess? script all line offset cs = some finding) :
    ∃ object rest change field last, Text.word? cs = some (object, rest) ∧
      stateBefore? all object line = some change ∧ field? rest = some (field, last) ∧
      finding = ⟨.naAccess (String.ofList object) (String.ofList field)
          (String.ofList change.typeName) change.isVar change.line,
        locate script offset (byteLength object + 1 + byteLength field)⟩ := by
  rw [directAccess?] at h
  obtain ⟨⟨object, rest⟩, hobject, h⟩ := Option.bind_eq_some_iff.mp h
  obtain ⟨change, hchange, h⟩ := Option.bind_eq_some_iff.mp h
  split at h
  · cases h
  · obtain ⟨⟨field, last⟩, hfield, h⟩ := Option.bind_eq_some_iff.mp h
    exact ⟨object, rest, change, field, last, hobject, hchange, hfield, (Option.some.inj h).symm⟩

/-- A finding about a line is at a variable with the name of a namespace. -/
theorem Shadowing.checkLine?_eq_some {script : List Char} {line : Text.Line} {finding : Finding}
    (h : checkLine? script line = some finding) :
    line.isIndented = false ∧ ∃ name offset, assignedName? line.text = some (name, offset) ∧
      Language.isNamespace (String.ofList name) = true ∧
      finding = ⟨.shadowedNamespace (String.ofList name),
        locate script (line.offset + offset) (byteLength name)⟩ := by
  rw [checkLine?] at h
  split at h
  · cases h
  · next hindented =>
    obtain ⟨⟨name, offset⟩, hname, h⟩ := Option.bind_eq_some_iff.mp h
    dsimp only at h
    split at h
    · next hnamespace =>
      exact ⟨Bool.eq_false_iff.mpr hindented, name, offset, hname, hnamespace,
        (Option.some.inj h).symm⟩
    · cases h

end Check

-- ---------------------------------------------------------------------------
-- What the checks find
-- ---------------------------------------------------------------------------

namespace Check

/-- A finding about a call breaks a rule of the signature check. -/
theorem checkCall_rule_mem {call : Call} {signature : Signature} {finding : Finding}
    (h : finding ∈ Signatures.checkCall call signature) :
    finding.rule ∈ signatures.ownRules := by
  obtain rfl | rfl | ⟨argument, -, h⟩ := Signatures.mem_checkCall h
  · exact .head _
  · exact .tail _ (.head _)
  · obtain ⟨parameter, -, rfl⟩ := Signatures.checkArgument?_eq_some h
    exact .tail _ (.tail _ (.head _))

/-- The signature check reports its own rules. -/
theorem signatures_rule_mem {docs : Option Documentation} {program : Program} {finding : Finding}
    (h : finding ∈ Signatures.check docs program) : finding.rule ∈ signatures.ownRules := by
  obtain ⟨call, -, h⟩ := List.mem_flatMap.mp h
  split at h
  · exact checkCall_rule_mem h
  · cases h

/-- A direct access breaks the rule about objects that are `na`. -/
theorem directAccess?_rule {script : List Char} {all : List ObjectState.Change}
    {line offset : Nat} {cs : List Char} {finding : Finding}
    (h : ObjectState.directAccess? script all line offset cs = some finding) :
    finding.rule = .naObjectAccess := by
  obtain ⟨object, rest, change, field, last, -, -, -, rfl⟩ := ObjectState.exists_of_directAccess? h
  rfl

/-- So does each one of a text. -/
theorem directAccesses_rule {script : List Char} {all : List ObjectState.Change} {line : Nat}
    {previous : Option Char} {offset : Nat} {cs : List Char} {finding : Finding}
    (h : finding ∈ ObjectState.directAccesses script all line previous offset cs) :
    finding.rule = .naObjectAccess := by
  induction cs generalizing previous offset with
  | nil => cases h
  | cons c cs ih =>
    rw [ObjectState.directAccesses] at h
    rcases List.mem_append.mp h with h | h
    · split at h
      · exact directAccess?_rule (Option.mem_toList.mp h)
      · cases h
    · exact ih h

/-- An access behind a history reference breaks the rule about history. -/
theorem historyAccess?_rule {script : List Char} {all : List ObjectState.Change}
    {offset : Nat} {cs : List Char} {finding : Finding}
    (h : ObjectState.historyAccess? script all offset cs = some finding) :
    finding.rule = .naObjectHistoryAccess := by
  unfold ObjectState.historyAccess? at h
  split at h
  · obtain ⟨⟨object, rest⟩, -, h⟩ := Option.bind_eq_some_iff.mp h
    dsimp only at h
    split at h
    · cases h
    split at h
    · obtain ⟨⟨history, rest⟩, -, h⟩ := Option.bind_eq_some_iff.mp h
      dsimp only at h
      split at h
      · obtain ⟨⟨field, rest⟩, -, h⟩ := Option.bind_eq_some_iff.mp h
        cases h
        rfl
      · cases h
    · cases h
  · cases h

/-- So does each one of a text. -/
theorem historyAccesses_rule {script : List Char} {all : List ObjectState.Change}
    {offset : Nat} {cs : List Char} {finding : Finding}
    (h : finding ∈ ObjectState.historyAccesses script all offset cs) :
    finding.rule = .naObjectHistoryAccess := by
  induction cs generalizing offset with
  | nil => cases h
  | cons c cs ih =>
    rw [ObjectState.historyAccesses] at h
    rcases List.mem_append.mp h with h | h
    · exact historyAccess?_rule (Option.mem_toList.mp h)
    · exact ih h

/-- The object state check reports its own rules. -/
theorem objectState_rule_mem {script masked : List Char} {finding : Finding}
    (h : finding ∈ ObjectState.check script masked) : finding.rule ∈ objectState.ownRules := by
  obtain ⟨line, -, h⟩ := List.mem_flatMap.mp h
  rcases List.mem_append.mp h with h | h
  · rw [directAccesses_rule h]
    exact .head _
  · rw [historyAccesses_rule h]
    exact .tail _ (.head _)

/-- The naming check reports its own rules. -/
theorem naming_rule_mem {docs : Option Documentation} {script masked : List Char}
    {finding : Finding} (h : finding ∈ Naming.check docs script masked) :
    finding.rule ∈ naming.ownRules := by
  obtain ⟨site, -, argument, -, cause, hcause, rfl⟩ := Naming.mem_check h
  obtain ⟨replacement, -, rfl⟩ | ⟨convention, -, rfl⟩ := Naming.cause?_eq_some hcause
  · exact .head _
  · exact .tail _ (.head _)

/-- The check of short titles reports its own rule. -/
theorem shortTitles_rule_mem {rules : Option Rulebook} {script masked : List Char}
    {finding : Finding} (h : finding ∈ Declaration.checkShortTitles rules script masked) :
    finding.rule ∈ shortTitle.ownRules := by
  obtain ⟨site, -, h⟩ := List.mem_filterMap.mp h
  obtain ⟨part, -, h⟩ := Option.bind_eq_some_iff.mp h
  obtain ⟨title, -, h⟩ := Option.bind_eq_some_iff.mp h
  split at h
  · cases h
  · cases h
    exact .head _

/-- A number breaks the rule of one of the limits. -/
theorem numbers_rule_mem {rules : Option Rulebook} {script masked : List Char}
    {limits : List Declaration.Limit} {finding : Finding}
    (h : finding ∈ Declaration.checkNumbers rules script masked limits) :
    finding.rule ∈ limits.map Declaration.Limit.rule := by
  obtain ⟨site, -, h⟩ := List.mem_flatMap.mp h
  obtain ⟨argument, -, h⟩ := List.mem_filterMap.mp h
  obtain ⟨limit, hlimit, h⟩ := Option.bind_eq_some_iff.mp h
  obtain ⟨m, -, h⟩ := Option.bind_eq_some_iff.mp h
  split at h
  · cases h
    exact List.mem_map_of_mem (List.mem_of_find?_eq_some hlimit)
  · cases h

/-- The shadowing check reports its own rule. -/
theorem shadowing_rule_mem {script masked : List Char} {finding : Finding}
    (h : finding ∈ Shadowing.check script masked) :
    finding.rule ∈ namespaceShadowing.ownRules := by
  obtain ⟨line, -, h⟩ := List.mem_filterMap.mp h
  obtain ⟨-, name, offset, -, -, rfl⟩ := Shadowing.checkLine?_eq_some h
  exact .head _

/-- The check of continuation lines reports its own rule. -/
theorem checkLines_rule_mem {script : List Char} {depth : Nat} {lines : List Text.Line}
    {finding : Finding} (h : finding ∈ Continuation.checkLines script depth lines) :
    finding.rule ∈ lineContinuation.ownRules := by
  induction lines generalizing depth with
  | nil => cases h
  | cons line later ih =>
    rw [Continuation.checkLines] at h
    rcases List.mem_append.mp h with h | h
    · split at h
      · obtain ⟨next, -, h⟩ := Option.bind_eq_some_iff.mp (Option.mem_toList.mp h)
        dsimp only at h
        split at h
        · cases h
        · cases h
          exact .head _
      · cases h
    · exact ih h

/-- The compatibility check reports its own rules. -/
theorem compatibility_rule_mem {script masked : List Char} {finding : Finding}
    (h : finding ∈ Compatibility.check script masked) :
    finding.rule ∈ compatibility.ownRules := by
  -- the version of the script, or one of its calls
  rcases List.mem_append.mp h with h | h
  · rw [Compatibility.checkVersion] at h
    split at h
    · rw [List.mem_singleton.mp h]
      exact .tail _ (.tail _ (.head _))
    · split at h
      · cases h
      · split at h
        · rw [List.mem_singleton.mp h]
          exact .tail _ (.head _)
        · cases h
  · obtain ⟨site, -, cause, hcause, rfl⟩ := Compatibility.mem_checkCalls h
    obtain ⟨replacement, rfl⟩ | ⟨namespaced, rfl⟩ := Compatibility.cause?_eq_some hcause
    · exact .head _
    · exact .tail _ (.tail _ (.tail _ (.head _)))

/-- Whatever a check finds breaks one of its own rules. -/
theorem run_rule_mem (check : Check) {subject : Subject} {findings : List Finding}
    (hrun : check.run subject = .ok findings) {finding : Finding} (h : finding ∈ findings) :
    finding.rule ∈ check.ownRules := by
  cases check with
  | signatures =>
    cases hrun
    exact signatures_rule_mem h
  | objectState =>
    cases hrun
    exact objectState_rule_mem h
  | naming =>
    cases hrun
    exact naming_rule_mem h
  | shortTitle =>
    cases hrun
    exact shortTitles_rule_mem h
  | precision | maxBarsBack | drawingLimits =>
    cases hrun
    exact numbers_rule_mem h
  | namespaceShadowing =>
    cases hrun
    exact shadowing_rule_mem h
  | lineContinuation =>
    cases hrun
    exact checkLines_rule_mem h
  | compatibility =>
    cases hrun
    exact compatibility_rule_mem h

end Check

end PineCheck
