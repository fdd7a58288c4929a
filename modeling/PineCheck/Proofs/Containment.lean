import PineCheck.Proofs.Lexing
import PineCheck.Proofs.Unfolding

/-!
# PineCheck — where the parts of a tree lie

The spans of a tree are to lie in each other as its parts do: a statement in the
script, a name and a value in the declaration or the argument that they belong to, the
arguments of a call in the call, one behind the other. `Program.Nested` says so.

A span in the tree starts with a token that is spelled by characters and ends with
whatever token was taken last. Starts of tokens are no order, since a mark of layout
may start before the mark in front of it. What the parser relies on is that no token
starts before the end of another one in front of it, unless it is such a mark.

* `State.Ordered` says this of the tokens that are left, and `State.Ordered.reaches`
  that every move keeps it.
* `Lies` says where a span stands between two states of a parse, and `Lays` that all
  values of a stretch of a parse lie there and are nested. `Lays.append` puts two
  stretches together, and `Listed.append` two parts of an argument list.
-/

namespace PineCheck

-- ---------------------------------------------------------------------------
-- Nested trees
-- ---------------------------------------------------------------------------

/-- One span inside another. -/
def Span.Contains (outer inner : Span) : Prop :=
  outer.start ≤ inner.start ∧ inner.stop ≤ outer.stop

theorem Span.Contains.trans {a b c : Span} (h : a.Contains b) (h' : b.Contains c) :
    a.Contains c :=
  ⟨h.1.trans h'.1, h'.2.trans h.2⟩

theorem Span.Contains.refl (a : Span) : a.Contains a :=
  ⟨Nat.le_refl _, Nat.le_refl _⟩

/-- The name and the value of an argument lie in it. -/
structure Argument.Nested (argument : Argument) : Prop where
  covers : argument.span.start < argument.span.stop
  name : ∀ name, argument.name = some name → argument.span.Contains name.span
  value : argument.span.Contains argument.value.span

/-- The arguments of a call lie in it, one behind the other, and are numbered in this
order. -/
structure Call.Nested (call : Call) : Prop where
  inside : ∀ argument ∈ call.arguments, call.span.Contains argument.span
  arguments : ∀ argument ∈ call.arguments, argument.Nested
  ordered : call.arguments.Pairwise fun a b => a.span.stop ≤ b.span.start
  position : ∀ (i : Nat) (argument : Argument),
    call.arguments[i]? = some argument → argument.position = i

/-- The name and the value of a declaration lie in it. -/
structure Declaration.Nested (declaration : Declaration) : Prop where
  name : declaration.span.Contains declaration.name.span
  value : ∀ value, declaration.value = some value → declaration.span.Contains value.span

/-- All that a script is made of lies in it, and so do the parts in each other. -/
structure Program.Nested (program : Program) : Prop where
  inside : ∃ whole, program.span = some whole ∧
    ∀ span ∈ Node.spansAll program.nodes, whole.Contains span
  declarations : ∀ declaration ∈ program.declarations, declaration.Nested
  calls : ∀ call ∈ program.calls.flatMap Call.walk, call.Nested

mutual

theorem Value.contains_spans :
    ∀ value : Value, (∀ call ∈ value.walk, call.Nested) →
      ∀ span ∈ value.spans, value.span.Contains span
  | .literal literal, _, span, hspan => by
    rw [List.mem_singleton.mp hspan]
    exact .refl _
  | .identifier identifier, _, span, hspan => by
    rw [List.mem_singleton.mp hspan]
    exact .refl _
  | .call call, h, span, hspan => call.contains_spans h span hspan

/-- All spans in a call lie in it, if it and the calls inside it are nested. -/
theorem Call.contains_spans :
    ∀ call : Call, (∀ inner ∈ call.walk, inner.Nested) →
      ∀ span ∈ call.spans, call.span.Contains span
  | ⟨name, arguments, whole⟩, h, span, hspan => by
    have hcall := h _ List.mem_cons_self
    have hwalk := fun inner hinner => h inner (List.mem_cons_of_mem _ hinner)
    rcases List.mem_cons.mp hspan with rfl | hspan
    · exact .refl _
    · obtain ⟨argument, hmem, hinside⟩ :=
        Argument.contains_spansAll arguments hcall.arguments hwalk span hspan
      exact (hcall.inside argument hmem).trans hinside

theorem Argument.contains_spansAll :
    ∀ arguments : List Argument, (∀ argument ∈ arguments, argument.Nested) →
      (∀ call ∈ Argument.walkAll arguments, call.Nested) →
      ∀ span ∈ Argument.spansAll arguments, ∃ argument ∈ arguments, argument.span.Contains span
  | argument :: arguments, hnested, hwalk, span, hspan => by
    rcases List.mem_append.mp hspan with hspan | hspan
    · exact ⟨argument, List.mem_cons_self, argument.contains_spans
        (hnested _ List.mem_cons_self)
        (fun call hcall => hwalk call (List.mem_append_left _ hcall)) span hspan⟩
    · obtain ⟨other, hmem, hinside⟩ := Argument.contains_spansAll arguments
        (fun other hother => hnested other (List.mem_cons_of_mem _ hother))
        (fun call hcall => hwalk call (List.mem_append_right _ hcall)) span hspan
      exact ⟨other, List.mem_cons_of_mem _ hmem, hinside⟩

theorem Argument.contains_spans :
    ∀ argument : Argument, argument.Nested → (∀ call ∈ argument.walk, call.Nested) →
      ∀ span ∈ argument.spans, argument.span.Contains span
  | ⟨name, value, position, isExpression, whole⟩, hnested, hwalk, span, hspan => by
    rcases List.mem_cons.mp hspan with rfl | hspan
    · exact .refl _
    rcases List.mem_append.mp hspan with hspan | hspan
    · obtain ⟨identifier, hname, rfl⟩ := Option.map_eq_some_iff.mp (Option.mem_toList.mp hspan)
      exact hnested.name identifier hname
    · exact hnested.value.trans (value.contains_spans hwalk span hspan)

end

namespace Lexer

-- ---------------------------------------------------------------------------
-- The order of tokens
-- ---------------------------------------------------------------------------

/-- A mark of layout, or the end of the file. -/
def IsMark (lexed : Lexed) : Prop :=
  ∃ token, lexed.reading = .ok token ∧ isUnspelled token = true

/-- Every token between two lines is a mark. -/
theorem isMark_of_mem_layoutMarks {before blanks : List Char} {ended : Nat} {begins : Bool}
    {lexed : Lexed} (h : lexed ∈ layoutMarks before blanks ended begins) : IsMark lexed := by
  rcases mem_layoutMarks h with rfl | rfl
  · exact ⟨.dedent, rfl, rfl⟩
  · exact ⟨.indent, rfl, rfl⟩

/-- What is no mark covers characters. -/
theorem Run.covers {before rest : List Char} {tokens : List Lexed}
    (run : Run before rest tokens) :
    ∀ t ∈ tokens, IsMark t ∨ t.span.start < t.span.stop := by
  intro t ht
  cases run.readFrom t ht with
  | @lexeme front c cs reading cut reads =>
    have hpos : byteLength (Lexer.lexeme c cs).taken ≠ 0 :=
      fun hzero => lexeme_taken_ne_nil c cs ((byteLength_eq_zero_iff _).mp hzero)
    refine .inr ?_
    rw [stretch_start, stretch_stop]
    omega
  | dedent => exact .inl ⟨.dedent, rfl, rfl⟩
  | indent => exact .inl ⟨.indent, rfl, rfl⟩
  | endOfFile => exact .inl ⟨.endOfFile, rfl, rfl⟩

/-- What is no mark starts behind all tokens in front of it. -/
theorem Run.pairwise_start {before rest : List Char} {tokens : List Lexed}
    (run : Run before rest tokens) :
    tokens.Pairwise fun s t => IsMark t ∨ s.span.stop ≤ t.span.start := by
  induction run with
  | finish => exact List.pairwise_singleton ..
  | @read before c cs tokens next ih =>
    refine List.pairwise_append.mpr ⟨?_, ih, ?_⟩
    -- a lexeme gives one token at most, which ends where the others begin
    · cases (lexeme c cs).reading with
      | none => exact List.Pairwise.nil
      | some => exact List.pairwise_singleton ..
    · intro s hs t ht
      obtain ⟨reading, -, rfl⟩ := List.mem_map.mp hs
      have hstart := next.byteLength_le_start t ht
      rw [byteLength_append] at hstart
      exact .inr (by rwa [stretch_stop])
  | @line before blanks rest tokens ended begins spaces next ih =>
    refine List.pairwise_append.mpr ⟨?_, ih, ?_⟩
    -- between two lines all tokens are marks
    · exact List.pairwise_of_forall_mem_list fun _ _ t ht => .inl (isMark_of_mem_layoutMarks ht)
    · intro s hs t ht
      have hstart := next.byteLength_le_start t ht
      have hstop : s.span.stop = byteLength (before ++ blanks) := by
        rcases mem_layoutMarks hs with rfl | rfl <;> simp
      exact .inr (by rwa [hstop])

end Lexer

namespace Parser

-- ---------------------------------------------------------------------------
-- What a parse has taken
-- ---------------------------------------------------------------------------

@[simp] theorem State.last_record (s : State) (problem : ParseProblem) :
    (s.record problem).last = s.last := by
  fun_cases State.record s problem <;> rfl

/-- What a parse has taken stands at the front of the queue, and the last token that
was taken is the last one of that. -/
theorem Reaches.taken {s s' : State} (h : Reaches s s') :
    ∃ taken, s.queue = taken ++ s'.queue ∧
      s'.last = (taken.getLast?.map Placed.span).getD s.last := by
  induction h with
  | refl => exact ⟨[], rfl, rfl⟩
  | @tail t t' _ hmove ih =>
    obtain ⟨taken, hqueue, hlast⟩ := ih
    cases hmove with
    | pop n =>
      refine ⟨taken ++ t.queue.take n, ?_, ?_⟩
      · rw [List.append_assoc, State.pop, List.take_append_drop]
        exact hqueue
      · rw [State.pop, List.getLast?_append]
        dsimp only
        rw [hlast]
        cases (t.queue.take n).getLast? <;> rfl
    | record => exact ⟨taken, by rw [State.queue_record, hqueue], by rw [State.last_record, hlast]⟩
    | deepen | leave => exact ⟨taken, hqueue, hlast⟩

/-- The tokens of a queue are in order: none ends before one in front of it does,
and none starts before that, unless it is a mark of layout or the end of the file. -/
structure State.Ordered (s : State) : Prop where
  stops : s.queue.Pairwise fun p r => p.span.stop ≤ r.span.stop
  starts : s.queue.Pairwise fun p r =>
    Lexer.isUnspelled r.token = false → p.span.stop ≤ r.span.start
  covers : ∀ p ∈ s.queue, Lexer.isUnspelled p.token = false → p.span.start < p.span.stop
  last : ∀ p ∈ s.queue, s.last.stop ≤ p.span.stop

/-- The last token that was taken ends before any token starts that is left. -/
def State.Behind (s : State) : Prop :=
  ∀ p ∈ s.queue, Lexer.isUnspelled p.token = false → s.last.stop ≤ p.span.start

section Order

variable {s s' : State}

/-- Tokens stay in order as the parse goes on. -/
theorem State.Ordered.reaches (hs : s.Ordered) (h : Reaches s s') : s'.Ordered := by
  obtain ⟨taken, hqueue, hlast⟩ := h.taken
  have hmem {p : Placed} (hp : p ∈ s'.queue) : p ∈ s.queue := by
    rw [hqueue]
    exact List.mem_append_right _ hp
  have hstops := hs.stops
  have hstarts := hs.starts
  rw [hqueue, List.pairwise_append] at hstops hstarts
  refine ⟨hstops.2.1, hstarts.2.1, fun p hp => hs.covers p (hmem hp), fun p hp => ?_⟩
  rw [hlast]
  cases hl : taken.getLast? with
  | none => exact hs.last p (hmem hp)
  | some r => exact hstops.2.2 r (List.mem_of_getLast? hl) p hp

/-- The end of what a parse has taken never goes back. -/
theorem State.Ordered.last_le (hs : s.Ordered) (h : Reaches s s') :
    s.last.stop ≤ s'.last.stop := by
  obtain ⟨taken, hqueue, hlast⟩ := h.taken
  rw [hlast]
  cases hl : taken.getLast? with
  | none => exact Nat.le_refl _
  | some r =>
    refine hs.last r ?_
    rw [hqueue]
    exact List.mem_append_left _ (List.mem_of_getLast? hl)

/-- The tokens that are left stay behind the last one that was taken. -/
theorem State.Behind.reaches (hb : s.Behind) (hs : s.Ordered) (h : Reaches s s') :
    s'.Behind := by
  obtain ⟨taken, hqueue, hlast⟩ := h.taken
  have hstarts := hs.starts
  rw [hqueue, List.pairwise_append] at hstarts
  intro p hp
  rw [hlast]
  cases hl : taken.getLast? with
  | none =>
    refine hb p ?_
    rw [hqueue]
    exact List.mem_append_right _ hp
  | some r => exact hstarts.2.2 r (List.mem_of_getLast? hl) p hp

/-- Behind a token that was taken, the rest of the queue starts. -/
theorem State.Ordered.behind (hs : s.Ordered) (h : Reaches s s')
    (hlt : s'.queue.length < s.queue.length) : s'.Behind := by
  obtain ⟨taken, hqueue, hlast⟩ := h.taken
  have hstarts := hs.starts
  rw [hqueue, List.pairwise_append] at hstarts
  rw [hqueue, List.length_append] at hlt
  intro p hp
  rw [hlast]
  cases hl : taken.getLast? with
  | none =>
    rw [List.getLast?_eq_none_iff.mp hl] at hlt
    simp at hlt
  | some r => exact hstarts.2.2 r (List.mem_of_getLast? hl) p hp

section Front

variable {front : Placed} {rest : Queue} (hq : s.queue = front :: rest) (hs : s.Ordered)
include hq hs

/-- The first token ends before the last one that was taken, if any was. -/
theorem State.Ordered.front_le_last (h : Reaches s s')
    (hlt : s'.queue.length < s.queue.length) : front.span.stop ≤ s'.last.stop := by
  obtain ⟨taken, hqueue, hlast⟩ := h.taken
  rw [hlast]
  rw [hqueue, List.length_append] at hlt
  rw [hq] at hqueue
  cases taken with
  | nil => simp at hlt
  | cons first others =>
    cases List.cons.inj hqueue |>.1
    cases hl : (front :: others).getLast? with
    | none => cases hl
    | some r =>
      show front.span.stop ≤ r.span.stop
      rcases List.mem_cons.mp (List.mem_of_getLast? hl) with rfl | hr
      · exact Nat.le_refl _
      -- the last taken token is the front one, or stands behind it
      · have hstops := hs.stops
        rw [hq, List.pairwise_cons] at hstops
        refine hstops.1 r ?_
        rw [(List.cons.inj hqueue).2]
        exact List.mem_append_left _ hr

/-- No token starts before the first one does, if both are spelled. -/
theorem State.Ordered.front_start_le (hfront : Lexer.isUnspelled front.token = false)
    {p : Placed} (hp : p ∈ s.queue) (hspelled : Lexer.isUnspelled p.token = false) :
    front.span.start ≤ p.span.start := by
  have hcovers := hs.covers front (by rw [hq]; exact List.mem_cons_self) hfront
  have hstarts := hs.starts
  rw [hq, List.pairwise_cons] at hstarts
  rw [hq] at hp
  rcases List.mem_cons.mp hp with rfl | hp
  · exact Nat.le_refl _
  · exact (Nat.le_of_lt hcovers).trans (hstarts.1 p hp hspelled)

end Front

end Order

-- ---------------------------------------------------------------------------
-- Where spans lie
-- ---------------------------------------------------------------------------

/-- A span lies between two states of a parse: it starts with a token that is left in
the first one, and ends before the last one that was taken in the second one. -/
structure Lies (s s' : State) (span : Span) : Prop where
  anchor : ∃ p ∈ s.queue, Lexer.isUnspelled p.token = false ∧ span.start = p.span.start ∧
    p.span.stop ≤ span.stop
  stop_le : span.stop ≤ s'.last.stop

/-- A span lies between any states around the two. -/
theorem Lies.mono {r s s' s'' : State} {span : Span} (h : Lies s s' span) (hs : Reaches r s)
    (hs' : Reaches s' s'') (ho : s'.Ordered) : Lies r s'' span := by
  obtain ⟨p, hp, hspelled, hstart, hstop⟩ := h.anchor
  exact ⟨⟨p, hs.queue_suffix.subset hp, hspelled, hstart, hstop⟩,
    h.stop_le.trans (ho.last_le hs')⟩

section Front

variable {s s' : State} {front : Placed} {rest : Queue} (hq : s.queue = front :: rest)
  (hs : s.Ordered) (h : Reaches s s') (hlt : s'.queue.length < s.queue.length)
  (hspelled : Lexer.isUnspelled front.token = false)

@[simp] theorem start_spanFrom (s : State) (start : Span) :
    (s.spanFrom start).start = start.start := by
  rw [State.spanFrom, Span.through]
  split <;> rfl

include hq hs h hlt

/-- A span that takes a token ends where the last taken token does. -/
theorem stop_spanFrom : (s'.spanFrom front.span).stop = s'.last.stop := by
  have hle := hs.front_le_last hq h hlt
  rw [State.spanFrom, Span.through]
  split
  · rfl
  · omega

include hspelled

/-- The first token lies before what was taken. -/
theorem lies_front : Lies s s' front.span :=
  ⟨⟨front, by rw [hq]; exact List.mem_cons_self, hspelled, rfl, Nat.le_refl _⟩,
    hs.front_le_last hq h hlt⟩

/-- The span from the first token to the last one that was taken. -/
theorem lies_spanFrom : Lies s s' (s'.spanFrom front.span) := by
  have hstop := stop_spanFrom hq hs h hlt
  exact ⟨⟨front, by rw [hq]; exact List.mem_cons_self, hspelled, start_spanFrom .., by
    rw [hstop]; exact hs.front_le_last hq h hlt⟩, Nat.le_of_eq hstop⟩

/-- Whatever lies between the two states lies in this span. -/
theorem spanFrom_contains {span : Span} (hspan : Lies s s' span) :
    (s'.spanFrom front.span).Contains span := by
  obtain ⟨p, hp, hp', hstart, -⟩ := hspan.anchor
  refine ⟨?_, ?_⟩
  · rw [start_spanFrom, hstart]
    exact hs.front_start_le hq hspelled hp hp'
  · rw [stop_spanFrom hq hs h hlt]
    exact hspan.stop_le

end Front

-- ---------------------------------------------------------------------------
-- Values
-- ---------------------------------------------------------------------------

/-- A value lies between two states of a parse, and all calls in it are nested. -/
structure Laid (s s' : State) (value : Value) : Prop where
  lies : Lies s s' value.span
  nested : ∀ call ∈ value.walk, call.Nested

/-- A parse goes from `s` to `s'` and reads values that lie between the two. -/
structure Lays (s : State) (values : List Value) (s' : State) : Prop where
  reaches : Reaches s s'
  laid : s.Ordered → ∀ value ∈ values, Laid s s' value

namespace Lays

variable {s s' s'' : State} {values others : List Value}

/-- A step that reads no value. -/
theorem of_reaches (h : Reaches s s') : Lays s [] s' :=
  ⟨h, fun _ _ hmem => absurd hmem List.not_mem_nil⟩

theorem refl (s : State) : Lays s [] s :=
  of_reaches (.refl s)

/-- One stretch of a parse behind another. -/
theorem append (h : Lays s values s') (h' : Lays s' others s'') :
    Lays s (values ++ others) s'' := by
  refine ⟨h.reaches.trans h'.reaches, fun hs value hmem => ?_⟩
  have hs' := hs.reaches h.reaches
  rcases List.mem_append.mp hmem with hmem | hmem
  · have hlaid := h.laid hs value hmem
    exact ⟨hlaid.lies.mono (.refl s) h'.reaches hs', hlaid.nested⟩
  · have hlaid := h'.laid hs' value hmem
    exact ⟨hlaid.lies.mono h.reaches (.refl s'') (hs'.reaches h'.reaches), hlaid.nested⟩

theorem after (h : Reaches s s') (h' : Lays s' values s'') : Lays s values s'' :=
  (of_reaches h).append h'

theorem before (h : Lays s values s') (h' : Reaches s' s'') : Lays s values s'' := by
  simpa using h.append (of_reaches h')

theorem mono (h : Lays s values s') (hsub : others ⊆ values) : Lays s others s' :=
  ⟨h.reaches, fun hs value hmem => h.laid hs value (hsub hmem)⟩

/-- A value without calls is read from the first token on. -/
theorem single {value : Value} (h : Reaches s s') (hlies : s.Ordered → Lies s s' value.span)
    (hwalk : value.walk = []) : Lays s [value] s' := by
  refine ⟨h, fun hs other hmem => ?_⟩
  rw [List.mem_singleton.mp hmem]
  refine ⟨hlies hs, fun call hcall => ?_⟩
  rw [hwalk] at hcall
  cases hcall

end Lays

/-- The values of an operand and of the calls that were met beside it. -/
def operandValues (r : Option (Value × Bool) × List Call × State) : List Value :=
  (r.1.map Prod.fst).toList ++ r.2.1.map .call

/-- The arguments of a call lie between two states of a parse, one behind the other,
and are numbered from `position` on. -/
structure Listed (position : Nat) (s s' : State) (arguments : List Argument) : Prop where
  lies : ∀ argument ∈ arguments, Lies s s' argument.span
  nested : ∀ argument ∈ arguments, argument.Nested
  walk : ∀ argument ∈ arguments, ∀ call ∈ argument.walk, call.Nested
  ordered : arguments.Pairwise fun a b => a.span.stop ≤ b.span.start
  position : ∀ (i : Nat) (argument : Argument),
    arguments[i]? = some argument → argument.position = position + i

theorem Listed.nil (position : Nat) (s s' : State) : Listed position s s' [] :=
  ⟨nofun, nofun, nofun, .nil, nofun⟩

theorem Listed.mono {position : Nat} {r s s' s'' : State} {arguments : List Argument}
    (h : Listed position s s' arguments) (hs : Reaches r s) (hs' : Reaches s' s'')
    (ho : s'.Ordered) : Listed position r s'' arguments :=
  { h with lies := fun argument hmem => (h.lies argument hmem).mono hs hs' ho }

/-- Arguments behind others. -/
theorem Listed.append {position : Nat} {s s' s'' : State} {given others : List Argument}
    (h : Listed position s s' given) (h' : Listed (position + given.length) s' s'' others)
    (hs : s.Ordered) (hb : s.Behind) (hto : Reaches s s') (hto' : Reaches s' s'') :
    Listed position s s'' (given ++ others) where
  lies := by
    intro argument hmem
    have hs' := hs.reaches hto
    rcases List.mem_append.mp hmem with hmem | hmem
    · exact (h.lies argument hmem).mono (.refl s) hto' hs'
    · exact (h'.lies argument hmem).mono hto (.refl s'') (hs'.reaches hto')
  nested := by
    intro argument hmem
    exact (List.mem_append.mp hmem).elim (h.nested argument) (h'.nested argument)
  walk := by
    intro argument hmem
    exact (List.mem_append.mp hmem).elim (h.walk argument) (h'.walk argument)
  ordered := by
    refine List.pairwise_append.mpr ⟨h.ordered, h'.ordered, fun a ha b hb' => ?_⟩
    -- the first one ends before the last token that was taken, and the second one
    -- starts with a token that was left
    obtain ⟨p, hp, hspelled, hstart, -⟩ := (h'.lies b hb').anchor
    rw [hstart]
    exact (h.lies a ha).stop_le.trans (hb.reaches hs hto p hp hspelled)
  position := by
    intro i argument hi
    rcases Nat.lt_or_ge i given.length with hlt | hge
    · rw [List.getElem?_append_left hlt] at hi
      exact h.position i argument hi
    · rw [List.getElem?_append_right hge] at hi
      have hposition := h'.position _ argument hi
      omega

end Parser

end PineCheck
