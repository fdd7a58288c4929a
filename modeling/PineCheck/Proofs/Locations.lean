import PineCheck.Analysis
import PineCheck.Proofs.Lexing
import PineCheck.Proofs.Parsing
import PineCheck.Proofs.Reporting

/-!
# PineCheck — every diagnostic points at a real place

Spans come from three sources: from the tokens of a script, from stretching one
of them to the end of another in the parser, and from `locate` in the checks that
look at the text. All three stand in the script, so all of them point at a real
place of it.

Main results:

* `parse_standsIn` — the tree of a script, its parse errors and its parse
  warnings hold only spans that stand in the script.
* `Check.run_standsIn` — so do the findings of every check.
* `analyze_points_into` — every finding, error and warning of an analysis, and
  every span in the tree, lies between character boundaries of the script and has
  the line and the column of its start.
-/

namespace PineCheck

-- ---------------------------------------------------------------------------
-- The parse
-- ---------------------------------------------------------------------------

/-- The tokens of a script stand in it. -/
theorem lex_span_standsIn {source : String} {lexed : Lexed} (h : lexed ∈ lex source) :
    lexed.span.StandsIn source.toList := by
  obtain ⟨before, taken, behind, hcut, hspan, _⟩ := (Lexer.lex_run source).standsIn lexed h
  exact ⟨before, taken, behind, hcut, hspan⟩

/-- A parse starts with the spans of its tokens. Without tokens, it starts at the
start of the script. -/
theorem Parser.start_within {P : Span → Prop} {tokens : List Lexed} (allowed : Nat)
    (hstart : P ⟨0, 0, 1, 0⟩) (h : ∀ lexed ∈ tokens, P lexed.span) :
    (State.start tokens allowed).Within P where
  queue := by
    intro placed hplaced
    obtain ⟨lexed, hlexed, hkept⟩ := List.mem_filterMap.mp hplaced
    split at hkept
    · cases hkept
    · cases hkept
      exact h lexed hlexed
    · cases hkept
  last := by
    show P ((tokens.head?.map Lexed.span).getD ⟨0, 0, 1, 0⟩)
    cases tokens with
    | nil => exact hstart
    | cons first rest => exact h first List.mem_cons_self
  errors := by
    intro error herror
    obtain ⟨lexed, hlexed, hfault⟩ := List.mem_filterMap.mp herror
    split at hfault
    · cases hfault
    · cases hfault
      exact h lexed hlexed
  warnings := fun _ hwarning => absurd hwarning List.not_mem_nil

/-- The start of a script is a place in it. -/
theorem start_standsIn (script : List Char) : Span.StandsIn script ⟨0, 0, 1, 0⟩ :=
  ⟨[], [], script, rfl, rfl⟩

/-- All spans that a parse gives stand in the script. -/
theorem parse_standsIn (source : String) (allowed : Nat) :
    (∀ span ∈ (parse source allowed).program.spans, span.StandsIn source.toList) ∧
    (∀ error ∈ (parse source allowed).errors, error.span.StandsIn source.toList) ∧
    (∀ warning ∈ (parse source allowed).warnings, warning.span.StandsIn source.toList) := by
  have hclosed : Parser.IsClosed (Span.StandsIn source.toList) :=
    fun _ _ hs ht => hs.through ht
  have hstart := Parser.start_within allowed (start_standsIn source.toList)
    fun _ => lex_span_standsIn
  have hyields := Parser.statements_yields
    ((Parser.State.start (lex source) allowed).queue.length + 1)
    (Parser.State.start (lex source) allowed)
  have hend := hyields.reaches.within hstart
  refine ⟨fun span hspan => ?_, hend.errors, hend.warnings⟩
  rcases List.mem_append.mp hspan with hspan | hspan
  · -- the script as a whole reaches from its first token to the last one taken
    obtain ⟨first, hfirst, rfl⟩ := Option.map_eq_some_iff.mp (Option.mem_toList.mp hspan)
    exact (lex_span_standsIn (List.mem_of_head? hfirst)).through hend.last
  · exact hyields.made _ hclosed hstart span hspan

-- ---------------------------------------------------------------------------
-- Calls of a script
-- ---------------------------------------------------------------------------

mutual

/-- The spans of a call below a value are spans of the value. -/
theorem Value.spans_of_mem_walk {value : Value} {call : Call} (h : call ∈ value.walk) :
    call.spans ⊆ value.spans := by
  cases value with
  | literal => simp [Value.walk] at h
  | identifier => simp [Value.walk] at h
  | call c =>
    rw [Value.walk] at h
    rw [Value.spans]
    exact Call.spans_of_mem_walk h

/-- The spans of a call below another one are spans of that one. -/
theorem Call.spans_of_mem_walk {outer call : Call} (h : call ∈ outer.walk) :
    call.spans ⊆ outer.spans := by
  obtain ⟨name, arguments, span⟩ := outer
  rw [Call.walk] at h
  rcases List.mem_cons.mp h with rfl | h
  · exact List.Subset.refl _
  · rw [Call.spans]
    exact List.Subset.trans (Argument.spans_of_mem_walkAll h) (List.subset_cons_self ..)

/-- The spans of a call below a list of arguments are spans of the list. -/
theorem Argument.spans_of_mem_walkAll {arguments : List Argument} {call : Call}
    (h : call ∈ Argument.walkAll arguments) : call.spans ⊆ Argument.spansAll arguments := by
  cases arguments with
  | nil => simp [Argument.walkAll] at h
  | cons argument rest =>
    rw [Argument.walkAll] at h
    rw [Argument.spansAll]
    rcases List.mem_append.mp h with h | h
    · exact List.Subset.trans (Argument.spans_of_mem_walk h) (List.subset_append_left ..)
    · exact List.Subset.trans (Argument.spans_of_mem_walkAll h) (List.subset_append_right ..)

/-- The spans of a call below an argument are spans of the argument. -/
theorem Argument.spans_of_mem_walk {argument : Argument} {call : Call}
    (h : call ∈ argument.walk) : call.spans ⊆ argument.spans := by
  obtain ⟨name, value, position, isExpression, span⟩ := argument
  rw [Argument.walk] at h
  rw [Argument.spans]
  exact List.Subset.trans (Value.spans_of_mem_walk h)
    (List.Subset.trans (List.subset_append_right ..) (List.subset_cons_self ..))

end

/-- The span of an argument is one of the spans of its list. -/
theorem Argument.span_mem_spansAll {arguments : List Argument} {argument : Argument}
    (h : argument ∈ arguments) : argument.span ∈ Argument.spansAll arguments := by
  induction arguments with
  | nil => simp at h
  | cons first rest ih =>
    rw [Argument.spansAll]
    rcases List.mem_cons.mp h with rfl | h
    · obtain ⟨name, value, position, isExpression, span⟩ := argument
      rw [Argument.spans]
      exact List.mem_append_left _ List.mem_cons_self
    · exact List.mem_append_right _ (ih h)

theorem Call.span_mem_spans (call : Call) : call.span ∈ call.spans := by
  obtain ⟨name, arguments, span⟩ := call
  rw [Call.spans]
  exact List.mem_cons_self

/-- The arguments of a call are among its spans. -/
theorem Call.argument_span_mem_spans {call : Call} {argument : Argument}
    (h : argument ∈ call.arguments) : argument.span ∈ call.spans := by
  obtain ⟨name, arguments, span⟩ := call
  rw [Call.spans]
  exact List.mem_cons_of_mem _ (Argument.span_mem_spansAll h)

/-- The spans of an outermost call of a script are spans of the script. -/
theorem Program.spans_of_mem_calls {program : Program} {call : Call}
    (h : call ∈ program.calls) : call.spans ⊆ program.spans := by
  obtain ⟨node, hnode, hcall⟩ := List.mem_filterMap.mp h
  have hnodes : node.spans ⊆ program.spans := by
    intro span hspan
    exact List.mem_append_right _ (List.mem_flatMap.mpr ⟨node, hnode, hspan⟩)
  refine List.Subset.trans ?_ hnodes
  cases node with
  | call c =>
    cases hcall
    exact List.Subset.refl _
  | declaration d =>
    simp only at hcall
    split at hcall
    · next c hvalue =>
      cases hcall
      simp [Node.spans, Declaration.spans, hvalue, Value.spans]
    · cases hcall

-- ---------------------------------------------------------------------------
-- The checks
-- ---------------------------------------------------------------------------

namespace Check

/-- Findings point into a script when their spans stand in it. -/
structure PointInto (script : List Char) (findings : List Finding) : Prop where
  standsIn : ∀ finding ∈ findings, finding.span.StandsIn script

namespace PointInto

variable {script : List Char}

theorem nil : PointInto script [] :=
  ⟨fun _ h => absurd h List.not_mem_nil⟩

/-- A finding that stands in the script, alone. -/
theorem singleton {finding : Finding} (h : finding.span.StandsIn script) :
    PointInto script [finding] := by
  refine ⟨fun other hmem => ?_⟩
  rw [List.mem_singleton.mp hmem]
  exact h

theorem append {findings others : List Finding} (h : PointInto script findings)
    (h' : PointInto script others) : PointInto script (findings ++ others) :=
  ⟨fun finding hmem => (List.mem_append.mp hmem).elim (h.standsIn finding)
    (h'.standsIn finding)⟩

/-- Findings that a check makes for each member of a list. -/
theorem flatMap {α : Type} {xs : List α} {f : α → List Finding}
    (h : ∀ x ∈ xs, PointInto script (f x)) : PointInto script (xs.flatMap f) := by
  refine ⟨fun finding hmem => ?_⟩
  obtain ⟨x, hx, hfinding⟩ := List.mem_flatMap.mp hmem
  exact (h x hx).standsIn finding hfinding

/-- Findings of which a check makes at most one for each member of a list. -/
theorem filterMap {α : Type} {xs : List α} {f : α → Option Finding}
    (h : ∀ x ∈ xs, PointInto script (f x).toList) : PointInto script (xs.filterMap f) := by
  refine ⟨fun finding hmem => ?_⟩
  obtain ⟨x, hx, hfinding⟩ := List.mem_filterMap.mp hmem
  exact (h x hx).standsIn finding (Option.mem_toList.mpr hfinding)

/-- A finding that is made only where something is found. -/
theorem bind {α : Type} {o : Option α} {f : α → Option Finding}
    (h : ∀ a, PointInto script (f a).toList) : PointInto script (o.bind f).toList := by
  cases o with
  | none => exact nil
  | some a => exact h a

/-- What `locate` finds is pointed at rightly. -/
theorem located (cause : Cause) (offset length : Nat) :
    PointInto script [⟨cause, locate script offset length⟩] :=
  singleton (locate_standsIn script offset length)

end PointInto

/-- The findings about a call are at the call or at one of its arguments. -/
theorem checkCall_pointInto {call : Call} {script : List Char} (signature : Signature)
    (h : ∀ span ∈ call.spans, span.StandsIn script) :
    PointInto script (Signatures.checkCall call signature) := by
  refine ⟨fun finding hfinding => ?_⟩
  obtain rfl | rfl | ⟨argument, hargument, hfound⟩ := Signatures.mem_checkCall hfinding
  · exact h _ call.span_mem_spans
  · exact h _ call.span_mem_spans
  · obtain ⟨parameter, -, rfl⟩ := Signatures.checkArgument?_eq_some hfound
    exact h _ (Call.argument_span_mem_spans hargument)

/-- The signature check points at spans of the program. -/
theorem signatures_pointInto (docs : Option Documentation) {program : Program}
    {script : List Char} (h : ∀ span ∈ program.spans, span.StandsIn script) :
    PointInto script (Signatures.check docs program) := by
  refine .flatMap fun call hcall => ?_
  obtain ⟨outer, houter, hwalk⟩ := List.mem_flatMap.mp hcall
  have hspans : ∀ span ∈ call.spans, span.StandsIn script := fun span hspan =>
    h span (Program.spans_of_mem_calls houter (Call.spans_of_mem_walk hwalk hspan))
  split
  · exact checkCall_pointInto _ hspans
  · exact .nil

/-! Every other check looks at the text and asks `locate` for the places. -/

/-- A direct access of a field is reported at its own offset. -/
theorem directAccess?_pointInto (script : List Char) (all : List ObjectState.Change)
    (line offset : Nat) (cs : List Char) :
    PointInto script (ObjectState.directAccess? script all line offset cs).toList := by
  refine ⟨fun finding hfinding => ?_⟩
  obtain ⟨object, rest, change, field, last, -, -, -, rfl⟩ :=
    ObjectState.exists_of_directAccess? (Option.mem_toList.mp hfinding)
  exact locate_standsIn ..

/-- The direct accesses of a text are reported where they are. -/
theorem directAccesses_pointInto (script : List Char) (all : List ObjectState.Change)
    (line : Nat) (previous : Option Char) (offset : Nat) (cs : List Char) :
    PointInto script (ObjectState.directAccesses script all line previous offset cs) := by
  induction cs generalizing previous offset with
  | nil => exact .nil
  | cons c cs ih =>
    rw [ObjectState.directAccesses]
    refine .append ?_ (ih ..)
    split
    · exact directAccess?_pointInto ..
    · exact .nil

/-- An access behind a history reference is reported at its own offset. -/
theorem historyAccess?_pointInto (script : List Char) (all : List ObjectState.Change)
    (offset : Nat) (cs : List Char) :
    PointInto script (ObjectState.historyAccess? script all offset cs).toList := by
  unfold ObjectState.historyAccess?
  split
  · refine .bind fun (object, rest) => ?_
    dsimp only
    split
    · exact .nil
    split
    · refine .bind fun (history, rest) => ?_
      dsimp only
      split
      · exact .bind fun (field, rest) => .located ..
      · exact .nil
    · exact .nil
  · exact .nil

/-- The accesses behind history references are reported where they are. -/
theorem historyAccesses_pointInto (script : List Char) (all : List ObjectState.Change)
    (offset : Nat) (cs : List Char) :
    PointInto script (ObjectState.historyAccesses script all offset cs) := by
  induction cs generalizing offset with
  | nil => exact .nil
  | cons c cs ih =>
    rw [ObjectState.historyAccesses]
    exact .append (historyAccess?_pointInto ..) (ih _)

theorem objectState_pointInto (script masked : List Char) :
    PointInto script (ObjectState.check script masked) :=
  .flatMap fun _ _ => .append (directAccesses_pointInto ..) (historyAccesses_pointInto ..)

/-- The naming check points into the script. -/
theorem naming_pointInto (docs : Option Documentation) (script masked : List Char) :
    PointInto script (Naming.check docs script masked) := by
  refine ⟨fun finding hfinding => ?_⟩
  obtain ⟨site, -, argument, -, cause, -, rfl⟩ := Naming.mem_check hfinding
  exact locate_standsIn ..

/-- The check of short titles points into the script. -/
theorem shortTitles_pointInto (rules : Option Rulebook) (script masked : List Char) :
    PointInto script (Declaration.checkShortTitles rules script masked) := by
  refine .filterMap fun site _ => .bind fun part => .bind fun title => ?_
  split
  · exact .nil
  · exact .located ..

/-- The checks of numbers point into the script. -/
theorem numbers_pointInto (rules : Option Rulebook) (script masked : List Char)
    (limits : List Declaration.Limit) :
    PointInto script (Declaration.checkNumbers rules script masked limits) := by
  refine .flatMap fun site _ => .filterMap fun argument _ => .bind fun limit => .bind fun m => ?_
  split
  · exact .located ..
  · exact .nil

/-- The shadowing check points into the script. -/
theorem shadowing_pointInto (script masked : List Char) :
    PointInto script (Shadowing.check script masked) := by
  refine .filterMap fun line _ => ⟨fun finding hfinding => ?_⟩
  obtain ⟨-, name, offset, -, -, rfl⟩ :=
    Shadowing.checkLine?_eq_some (Option.mem_toList.mp hfinding)
  exact locate_standsIn ..

/-- The check of continuation lines points into the script. -/
theorem checkLines_pointInto (script : List Char) (depth : Nat) (lines : List Text.Line) :
    PointInto script (Continuation.checkLines script depth lines) := by
  induction lines generalizing depth with
  | nil => exact .nil
  | cons line later ih =>
    rw [Continuation.checkLines]
    refine .append ?_ (ih _)
    split
    · rw [Continuation.checkNext?]
      refine .bind fun next => ?_
      dsimp only
      -- the line goes on in the next one, or there is no next line
      split
      · exact .nil
      · exact .located ..
    · exact .nil

/-- The compatibility check points into the script. -/
theorem compatibility_pointInto (script masked : List Char) :
    PointInto script (Compatibility.check script masked) := by
  refine .append ?_ ?_
  · fun_cases Compatibility.checkVersion script with
    | case1 => exact .located ..
    | case2 => exact .nil
    | case3 => exact .located ..
    | case4 => exact .nil
  · refine ⟨fun finding hfinding => ?_⟩
    obtain ⟨site, -, cause, -, rfl⟩ := Compatibility.mem_checkCalls hfinding
    exact locate_standsIn ..

/-- Whatever a check finds is at a place of the script. -/
theorem run_standsIn (check : Check) {subject : Subject} {findings : List Finding}
    (hprogram : ∀ span ∈ subject.program.spans, span.StandsIn subject.script)
    (hrun : check.run subject = .ok findings) : PointInto subject.script findings := by
  cases check with
  | signatures =>
    cases hrun
    exact signatures_pointInto _ hprogram
  | objectState =>
    cases hrun
    exact objectState_pointInto ..
  | naming =>
    cases hrun
    exact naming_pointInto ..
  | shortTitle =>
    cases hrun
    exact shortTitles_pointInto ..
  | precision | maxBarsBack | drawingLimits =>
    cases hrun
    exact numbers_pointInto ..
  | namespaceShadowing =>
    cases hrun
    exact shadowing_pointInto ..
  | lineContinuation =>
    cases hrun
    exact checkLines_pointInto ..
  | compatibility =>
    cases hrun
    exact compatibility_pointInto ..

end Check

-- ---------------------------------------------------------------------------
-- The analysis
-- ---------------------------------------------------------------------------

/-- A check that could not be completed is reported at the start of the script. -/
theorem Outcome.ofCheck_pointInto (check : Check) {subject : Subject} (keep : Finding → Bool)
    (hprogram : ∀ span ∈ subject.program.spans, span.StandsIn subject.script) :
    Check.PointInto subject.script (ofCheck check subject keep).findings := by
  rw [ofCheck]
  split
  · next findings hrun =>
    refine ⟨fun finding hmem => ?_⟩
    exact (check.run_standsIn hprogram hrun).standsIn finding (List.mem_filter.mp hmem).1
  · exact .located ..

/-- Whatever some checks find together is at a place of the script. -/
theorem Outcome.ofChecks_pointInto (checks : List Check) (subject : Subject)
    (hprogram : ∀ span ∈ subject.program.spans, span.StandsIn subject.script) :
    Check.PointInto subject.script (ofChecks checks subject).findings := by
  induction checks with
  | nil => exact .nil
  | cons check checks ih => exact .append (ofCheck_pointInto check _ hprogram) ih

/-- **Every diagnostic points at a real place.** Whatever the rules, the
documentation and the number of errors that the parse may go on behind: all
findings, parse errors and parse warnings of an analysis, and all spans in the
tree of the script, point into the script. -/
theorem analyze_points_into (source : String) (settings : Settings) :
    (∀ finding ∈ (analyze source settings).findings, finding.span.PointsInto source) ∧
    (∀ error ∈ (analyze source settings).errors, error.span.PointsInto source) ∧
    (∀ warning ∈ (analyze source settings).warnings, warning.span.PointsInto source) ∧
    (∀ span ∈ (parse source settings.allowed).program.spans, span.PointsInto source) := by
  obtain ⟨hspans, herrors, hwarnings⟩ := parse_standsIn source settings.allowed
  have hfindings := Outcome.ofChecks_pointInto settings.enabledChecks
    (Subject.ofSource source (parse source settings.allowed).program settings) hspans
  exact ⟨fun finding h => (hfindings.standsIn finding h).pointsInto,
    fun error h => (herrors error h).pointsInto,
    fun warning h => (hwarnings warning h).pointsInto,
    fun span h => (hspans span h).pointsInto⟩

end PineCheck
