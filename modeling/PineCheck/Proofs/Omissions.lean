import PineCheck.Proofs.CallOrder
import PineCheck.Proofs.Reporting

/-!
# PineCheck — what a call leaves out

An argument without a name is for the parameter at its position, and one with a name for
the parameter of that name. A call omits the required parameters for which it has no
argument of either kind (`Call.omitted`).

* `Call.omitted_ne_nil` — a call with fewer arguments than its function requires omits a
  parameter.
* `Signatures.missing_eq_omitted` — the parameters that are reported are the omitted ones
  if no named argument stands at the position of an omitted parameter.
* `check_reports_omissions` — the report on a call with too few arguments.
* `check_reports_nothing_missing` — a call may omit a parameter that is not reported.
-/

namespace PineCheck

-- ---------------------------------------------------------------------------
-- Omitted parameters
-- ---------------------------------------------------------------------------

/-- Whether a call has an argument without a name at a position. -/
def Call.hasPositional (call : Call) (position : Nat) : Bool :=
  call.arguments.any fun argument => argument.name.isNone && argument.position = position

/-- Whether a call gives the parameter at a position, either there or by its name. -/
def Call.supplies (call : Call) (position : Nat) (parameter : Parameter) : Bool :=
  call.hasPositional position || call.hasNamed parameter.name

/-- The required parameters, with their positions, that a call does not give. -/
def Call.omissions (call : Call) (signature : Signature) : List (Parameter × Nat) :=
  signature.parameters.zipIdx.filter fun (parameter, position) =>
    parameter.isRequired && !call.supplies position parameter

/-- The names of the required parameters that a call does not give. -/
def Call.omitted (call : Call) (signature : Signature) : List String :=
  (call.omissions signature).map fun (parameter, _) => parameter.name

/-- The arguments of a call are numbered in their order. -/
def Call.Numbered (call : Call) : Prop :=
  ∀ (i : Nat) (argument : Argument), call.arguments[i]? = some argument → argument.position = i

/-- An omitted parameter is required and has neither a positional nor a named argument. -/
theorem Call.mem_omissions {call : Call} {signature : Signature} {parameter : Parameter}
    {position : Nat} :
    (parameter, position) ∈ call.omissions signature ↔
      signature.parameters[position]? = some parameter ∧ parameter.isRequired = true ∧
        call.hasPositional position = false ∧ call.hasNamed parameter.name = false := by
  rw [omissions, List.mem_filter, List.mem_zipIdx_iff_getElem?]
  simp [supplies]

-- ---------------------------------------------------------------------------
-- Fewer arguments than required
-- ---------------------------------------------------------------------------

/-- What an argument is for: a position or a name. -/
def Argument.target (argument : Argument) : Nat ⊕ String :=
  match argument.name with
  | some name => .inr name.name
  | none => .inl argument.position

/-- What the argument is for that gives a parameter. -/
def Call.targetOf (call : Call) (slot : Parameter × Nat) : Nat ⊕ String :=
  if call.hasPositional slot.2 then .inl slot.2 else .inr slot.1.name

/-- An argument without a name stands at a position if one is for it. -/
theorem Call.hasPositional_iff {call : Call} {position : Nat} :
    call.hasPositional position = true ↔
      .inl position ∈ call.arguments.map Argument.target := by
  simp only [hasPositional, List.any_eq_true, List.mem_map, Argument.target]
  refine exists_congr fun argument => and_congr_right fun _ => ?_
  cases argument.name <;> simp

/-- An argument has a name if one is for it. -/
theorem Call.hasNamed_iff {call : Call} {name : String} :
    call.hasNamed name = true ↔ .inr name ∈ call.arguments.map Argument.target := by
  simp only [hasNamed, List.any_eq_true, List.mem_map, Argument.target]
  refine exists_congr fun argument => and_congr_right fun _ => ?_
  cases argument.name <;> simp

/-- What supplies a parameter is for its position or for its name. -/
theorem Call.targetOf_mem {call : Call} {slot : Parameter × Nat}
    (h : call.supplies slot.2 slot.1 = true) :
    call.targetOf slot ∈ call.arguments.map Argument.target := by
  rw [targetOf]
  split
  case isTrue hpositional => exact hasPositional_iff.mp hpositional
  case isFalse hpositional =>
    exact hasNamed_iff.mp (((Bool.or_eq_true _ _).mp h).resolve_left hpositional)

/-- Parameters with different positions and names are given by different arguments. -/
theorem Call.targetOf_ne {call : Call} {slot other : Parameter × Nat} (hposition : slot.2 ≠ other.2)
    (hname : slot.1.name ≠ other.1.name) : call.targetOf slot ≠ call.targetOf other := by
  unfold targetOf
  split <;> split <;> simp [hposition, hname]

/-- **A call with fewer arguments than its function requires omits a parameter**, if each
parameter has a name of its own: no argument is for two parameters. -/
theorem Call.omitted_ne_nil {call : Call} {signature : Signature}
    (hnames : (signature.parameters.map Parameter.name).Nodup)
    (hfew : call.arguments.length < signature.requiredCount) : call.omitted signature ≠ [] := by
  intro hnone
  -- suppose that nothing is omitted: every required parameter is supplied
  have hsupplies (slot : Parameter × Nat) (hslot : slot ∈ signature.parameters.zipIdx)
      (hrequired : slot.1.isRequired = true) : call.supplies slot.2 slot.1 = true := by
    by_contra hnot
    have hmem : slot ∈ call.omissions signature :=
      List.mem_filter.mpr ⟨hslot, by simp [hrequired, hnot]⟩
    rw [List.map_eq_nil_iff.mp hnone] at hmem
    exact absurd hmem List.not_mem_nil
  let required := signature.parameters.zipIdx.filter fun slot => slot.1.isRequired
  -- no two parameters are supplied by the same argument
  have hdistinct : (required.map call.targetOf).Nodup := by
    have hpositions : signature.parameters.zipIdx.Pairwise fun slot other => slot.2 ≠ other.2 := by
      have hrange : (signature.parameters.zipIdx.map Prod.snd).Nodup := by
        rw [List.zipIdx_map_snd]
        exact List.nodup_range'
      exact List.pairwise_map.mp hrange
    have hslots : signature.parameters.zipIdx.Pairwise fun slot other =>
        slot.1.name ≠ other.1.name := by
      rw [← List.zipIdx_map_fst 0 signature.parameters, List.map_map] at hnames
      exact List.pairwise_map.mp hnames
    refine List.pairwise_map.mpr (List.Pairwise.sublist List.filter_sublist ?_)
    exact (hpositions.and hslots).imp fun h => targetOf_ne h.1 h.2
  -- so there is an argument for each of them
  have hgiven : required.map call.targetOf ⊆ call.arguments.map Argument.target := by
    intro target htarget
    obtain ⟨slot, hslot, rfl⟩ := List.mem_map.mp htarget
    obtain ⟨hslot, hrequired⟩ := List.mem_filter.mp hslot
    exact targetOf_mem (hsupplies slot hslot hrequired)
  have hcount : required.length = signature.requiredCount := by
    rw [Signature.requiredCount, ← List.countP_eq_length_filter]
    conv_rhs => rw [← List.zipIdx_map_fst 0 signature.parameters, List.countP_map]
    rfl
  have hle := hdistinct.length_le_of_subset hgiven
  rw [List.length_map, List.length_map, hcount] at hle
  omega

-- ---------------------------------------------------------------------------
-- Reported parameters
-- ---------------------------------------------------------------------------

namespace Check.Signatures

/-- Behind the arguments of a call there are none without a name. -/
theorem hasPositional_eq_false {call : Call} (hnumbered : call.Numbered) {position : Nat}
    (h : call.arguments.length ≤ position) : call.hasPositional position = false := by
  rw [Call.hasPositional, List.any_eq_false]
  intro argument hmem
  obtain ⟨i, hi⟩ := List.mem_iff_getElem?.mp hmem
  have hlt := (List.getElem?_eq_some_iff.mp hi).1
  have hposition := hnumbered i argument hi
  simp
  omega

/-- The members of a list from an index on, each with its index. -/
theorem filter_zipIdx_le {α : Type} (as : List α) (n k : Nat) :
    (as.zipIdx k).filter (fun slot => n ≤ slot.2) = (as.drop (n - k)).zipIdx (max n k) := by
  induction as generalizing k with
  | nil => simp
  | cons a as ih =>
    rw [List.zipIdx_cons, List.filter_cons, ih (k + 1)]
    -- the first member is before the index, or the whole list is behind it
    rcases Nat.lt_or_ge k n with hlt | hle
    · have hdrop : n - k = n - (k + 1) + 1 := by omega
      rw [if_neg (by simpa using hlt), hdrop, List.drop_succ_cons]
      congr 1
      omega
    · have hzero : n - k = 0 ∧ n - (k + 1) = 0 := by omega
      rw [if_pos (by simpa using hle), hzero.1, hzero.2, List.drop_zero, List.drop_zero,
        List.zipIdx_cons]
      congr 2 <;> omega

/-- The reported parameters are the omitted ones behind the arguments. -/
theorem missing_eq_filter {call : Call} (hnumbered : call.Numbered) (signature : Signature) :
    missing call signature =
      ((call.omissions signature).filter fun slot => call.arguments.length ≤ slot.2).map
        fun slot => slot.1.name := by
  let n := call.arguments.length
  let behind := (signature.parameters.drop n).zipIdx n
  have hbehind : signature.parameters.zipIdx.filter (fun slot => n ≤ slot.2) = behind := by
    simpa using filter_zipIdx_le signature.parameters n 0
  -- behind the arguments none is positional, so only a name supplies a parameter
  have hunnamed (slot : Parameter × Nat) (hslot : slot ∈ behind) :
      (slot.1.isRequired && !call.supplies slot.2 slot.1) =
        (slot.1.isRequired && !call.hasNamed slot.1.name) := by
    have hle : n ≤ slot.2 := by
      rw [← hbehind] at hslot
      simpa using (List.mem_filter.mp hslot).2
    rw [Call.supplies, hasPositional_eq_false hnumbered hle, Bool.false_or]
  have hfst : signature.parameters.drop n = behind.map Prod.fst := by
    rw [List.zipIdx_map_fst]
  rw [Call.omissions, List.filter_filter]
  simp only [Bool.and_comm (decide _)]
  rw [← List.filter_filter, hbehind, List.filter_congr hunnamed, missing, hfst, List.filter_map,
    List.map_map]
  rfl

/-- **The parameters that are reported are the omitted ones** exactly if a named argument
at the position of a required parameter never leaves it out. -/
theorem missing_eq_omitted {call : Call} (hnumbered : call.Numbered) (signature : Signature) :
    missing call signature = call.omitted signature ↔
      ∀ argument ∈ call.arguments, ∀ parameter, argument.name.isSome = true →
        signature.parameters[argument.position]? = some parameter →
        parameter.isRequired = true → call.hasNamed parameter.name = true := by
  rw [missing_eq_filter hnumbered]
  constructor
  case mp =>
    intro hall argument hmem parameter hname hparameter hrequired
    by_contra hnot
    have hlength := congrArg List.length hall
    rw [Call.omitted, List.length_map, List.length_map] at hlength
    -- the two lists agree, so every omitted parameter is behind the arguments
    have hbehind := List.filter_eq_self.mp (List.filter_sublist.eq_of_length hlength)
    obtain ⟨i, hi⟩ := List.mem_iff_getElem?.mp hmem
    have homitted : (parameter, i) ∈ call.omissions signature := by
      rw [hnumbered i argument hi] at hparameter
      refine Call.mem_omissions.mpr ⟨hparameter, hrequired, ?_, by simpa using hnot⟩
      -- the only argument at this position has a name
      rw [Call.hasPositional, List.any_eq_false]
      intro other hother
      obtain ⟨j, hj⟩ := List.mem_iff_getElem?.mp hother
      have hposition := hnumbered j other hj
      by_cases hij : j = i
      · subst hij
        rw [Option.some.inj (hj.symm.trans hi)]
        simp [Option.isNone_eq_false_iff.mpr hname]
      · simp [hposition, hij]
    have hle := hbehind _ homitted
    have hlt := (List.getElem?_eq_some_iff.mp hi).1
    simp at hle
    omega
  case mpr =>
    intro hnamed
    rw [Call.omitted, List.filter_eq_self.mpr]
    rintro ⟨parameter, position⟩ homitted
    obtain ⟨hparameter, hrequired, hpositional, hnot⟩ := Call.mem_omissions.mp homitted
    by_contra hnle
    have hlt : position < call.arguments.length := by simpa using hnle
    have hi : call.arguments[position]? = some call.arguments[position] :=
      List.getElem?_eq_getElem hlt
    have hposition := hnumbered position _ hi
    have hmem : call.arguments[position] ∈ call.arguments := List.getElem_mem hlt
    -- an argument stands at the position, and it is not positional
    have hname : call.arguments[position].name.isSome = true := by
      have hno := List.any_eq_false.mp hpositional _ hmem
      simpa [hposition, Option.isSome_iff_ne_none] using hno
    rw [hnamed _ hmem parameter hname (by rwa [hposition]) hrequired] at hnot
    exact Bool.noConfusion hnot

/-- The reported parameters are omitted. -/
theorem missing_sublist {call : Call} (hnumbered : call.Numbered) (signature : Signature) :
    (missing call signature).Sublist (call.omitted signature) := by
  rw [missing_eq_filter hnumbered]
  exact List.filter_sublist.map _

-- ---------------------------------------------------------------------------
-- The report
-- ---------------------------------------------------------------------------

/-- A call with too few arguments is reported with the required parameters behind them, and nothing
else is said of it. -/
theorem checkCalls_of_few {docs : Option Documentation} {call : Call} {signature : Signature}
    (hsignature : signature? docs call.name = some signature)
    (hfew : call.arguments.length < signature.requiredCount) :
    checkCalls docs [call] =
      [⟨.missingArguments call.name signature.requiredCount call.arguments.length
        (missing call signature), call.span⟩] := by
  rw [checkCalls, List.flatMap_singleton, hsignature]
  exact if_pos hfew

/-- Each call is checked by itself. -/
theorem checkCalls_eq_flatMap (docs : Option Documentation) (calls : List Call) :
    checkCalls docs calls = calls.flatMap fun call => checkCalls docs [call] := by
  simp only [checkCalls, List.flatMap_singleton]

/-- What is not about an argument is about the whole call. -/
theorem span_of_mem_checkCalls {docs : Option Documentation} {call : Call} {finding : Finding}
    (h : finding ∈ checkCalls docs [call]) (hrule : finding.rule ≠ .typeMismatch) :
    finding.span = call.span := by
  rw [checkCalls, List.flatMap_singleton] at h
  split at h
  case h_2 => cases h
  case h_1 signature _ =>
    obtain rfl | rfl | ⟨argument, -, h⟩ := mem_checkCall h
    · rfl
    · rfl
    · obtain ⟨parameter, -, rfl⟩ := checkArgument?_eq_some h
      exact absurd rfl hrule

/-- Whether a finding is about the number of arguments of a call. -/
def countsArguments (call : Call) (finding : Finding) : Bool :=
  finding.rule ≠ .typeMismatch && finding.span.start = call.span.start

/-- A call that begins elsewhere causes no findings about a call. -/
theorem filter_countsArguments_of_ne {docs : Option Documentation} {call other : Call}
    (h : other.span.start ≠ call.span.start) :
    (checkCalls docs [other]).filter (countsArguments call) = [] := by
  rw [List.filter_eq_nil_iff]
  intro finding hmem
  by_cases hrule : finding.rule = .typeMismatch
  · simp [countsArguments, hrule]
  · simp [countsArguments, span_of_mem_checkCalls hmem hrule, h]

/-- Among calls that begin at different places, only a call itself causes findings about
the number of its arguments. -/
theorem filter_countsArguments {docs : Option Documentation} {call : Call} {calls : List Call}
    (hcall : call ∈ calls) (hdistinct : calls.Pairwise fun a b => a.span.start ≠ b.span.start) :
    (checkCalls docs calls).filter (countsArguments call) =
      (checkCalls docs [call]).filter (countsArguments call) := by
  rw [checkCalls_eq_flatMap, List.filter_flatMap]
  induction calls with
  | nil => cases hcall
  | cons first calls ih =>
    obtain ⟨hfirst, hdistinct⟩ := List.pairwise_cons.mp hdistinct
    rw [List.flatMap_cons]
    rcases List.mem_cons.mp hcall with rfl | hcall
    · have hothers (other : Call) (hother : other ∈ calls) :
          (checkCalls docs [other]).filter (countsArguments call) = [] :=
        filter_countsArguments_of_ne (hfirst other hother).symm
      rw [List.flatMap_eq_nil_iff.mpr hothers, List.append_nil]
    · rw [filter_countsArguments_of_ne (hfirst call hcall), List.nil_append,
        ih hcall hdistinct]

/-- One finding among those about `calls` reports what a call leaves out: it lists omitted
parameters, and all of them exactly if a named argument at the position of a required
parameter never leaves it out. -/
structure Reports (docs : Option Documentation) (calls : List Call) (call : Call)
    (signature : Signature) (finding : Finding) : Prop where
  alone : checkCalls docs [call] = [finding]
  once : (checkCalls docs calls).filter (countsArguments call) = [finding]
  rule : finding.rule = .missingRequiredParameters
  span : finding.span = call.span
  missing : ∃ names,
    finding.cause.facts.lookup "missing" = some (.array (names.map .string)) ∧
    names.Sublist (call.omitted signature) ∧
    (names = call.omitted signature ↔
      ∀ argument ∈ call.arguments, ∀ parameter, argument.name.isSome = true →
        signature.parameters[argument.position]? = some parameter →
        parameter.isRequired = true → call.hasNamed parameter.name = true)

/-- Among calls that start at different places, the finding about this one is the only one that
counts its arguments. -/
theorem exists_reports {docs : Option Documentation} {calls : List Call} {call : Call}
    {signature : Signature} (hcall : call ∈ calls)
    (hdistinct : calls.Pairwise fun a b => a.span.start ≠ b.span.start)
    (hnumbered : call.Numbered) (hsignature : signature? docs call.name = some signature)
    (hfew : call.arguments.length < signature.requiredCount) :
    ∃ finding, Reports docs calls call signature finding := by
  have halone := checkCalls_of_few hsignature hfew
  refine ⟨_, halone, ?_, rfl, rfl, missing call signature, rfl,
    missing_sublist hnumbered signature, missing_eq_omitted hnumbered signature⟩
  rw [filter_countsArguments hcall hdistinct, halone]
  simp [countsArguments, Finding.rule, Cause.rule]

end Check.Signatures

open Check in
/-- **A call with too few arguments is reported once, with parameters that it omits.** All
that it omits are listed exactly if a named argument at the position of a required
parameter never leaves it out; and if the parameters have different names, there is one that
it omits. -/
theorem check_reports_omissions (source : String) (allowed : Nat) (docs : Option Documentation)
    {call : Call} {signature : Signature}
    (hcall : call ∈ (parse source allowed).program.calls.flatMap Call.walk)
    (hsignature : Signatures.signature? docs call.name = some signature)
    (hfew : call.arguments.length < signature.requiredCount) :
    (∃ finding, Signatures.Reports docs ((parse source allowed).program.calls.flatMap Call.walk)
      call signature finding) ∧
    ((signature.parameters.map Parameter.name).Nodup → call.omitted signature ≠ []) :=
  ⟨Signatures.exists_reports hcall (parse_calls_distinct source allowed)
    ((parse_nested source allowed).calls call hcall).position hsignature hfew,
    fun hnames => Call.omitted_ne_nil hnames hfew⟩

open Check in
/-- A call of `ta.sma` with one of its two arguments. -/
theorem check_reports_omissions_sample :
    ∃ call ∈ (parse "x = ta.sma(close)\n" Parser.defaultAllowed).program.calls.flatMap Call.walk,
      ∃ signature, Signatures.signature? none call.name = some signature ∧
        call.arguments.length < signature.requiredCount ∧
        (signature.parameters.map Parameter.name).Nodup ∧
        (∃ finding, Signatures.Reports none ((parse "x = ta.sma(close)\n"
          Parser.defaultAllowed).program.calls.flatMap Call.walk) call signature finding) ∧
        call.omitted signature ≠ [] := by
  let signature := (Signatures.signature? none "ta.sma").getD default
  let call := List.head ((parse "x = ta.sma(close)\n"
    Parser.defaultAllowed).program.calls.flatMap Call.walk) (by decide +kernel)
  have hsignature : Signatures.signature? none call.name = some signature := by decide +kernel
  have hfew : call.arguments.length < signature.requiredCount := by decide +kernel
  have hnames : (signature.parameters.map Parameter.name).Nodup := by decide +kernel
  obtain ⟨hreports, homits⟩ := check_reports_omissions "x = ta.sma(close)\n"
    Parser.defaultAllowed none (List.head_mem _) hsignature hfew
  exact ⟨call, List.head_mem _, signature, hsignature, hfew, hnames, hreports, homits hnames⟩

open Check in
/-- **What is missing may not be told.** The one argument of this call is named and stands
at the position of another required parameter. -/
theorem check_reports_nothing_missing :
    ∃ call ∈ (parse "x = ta.sma(length = 14)\n"
        Parser.defaultAllowed).program.calls.flatMap Call.walk,
      ∃ signature, Signatures.signature? none call.name = some signature ∧
        Signatures.checkCalls none [call] =
          [⟨.missingArguments "ta.sma" 2 1 [], call.span⟩] ∧
        call.omitted signature = ["source"] := by
  let signature := (Signatures.signature? none "ta.sma").getD default
  let call := List.head ((parse "x = ta.sma(length = 14)\n"
    Parser.defaultAllowed).program.calls.flatMap Call.walk) (by decide +kernel)
  have hsignature : Signatures.signature? none call.name = some signature := by decide +kernel
  refine ⟨call, List.head_mem _, signature, hsignature, ?_, by decide +kernel⟩
  obtain ⟨hname, hrequired, hgiven, hmissing⟩ : call.name = "ta.sma" ∧
      signature.requiredCount = 2 ∧ call.arguments.length = 1 ∧
      Signatures.missing call signature = [] := by decide +kernel
  rw [Signatures.checkCalls_of_few hsignature (by decide +kernel), hname, hrequired, hgiven,
    hmissing]

end PineCheck
