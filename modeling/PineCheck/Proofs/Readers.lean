import PineCheck.Proofs.CallHeight

/-!
# PineCheck — a parse with other readers

A parse goes from statement to statement, and whenever an expression or a call stands in
front it has one of two functions read it. `Readers` are two functions in the place of
these. The functions below are those of a parse and of the search for calls alone, with
the readers as a parameter.

What becomes of a parse depends on its readers only where it has them read: no deeper in
parentheses than it started, and from an end of the queue that it started with. This is
`Stays`, and readers that do there what the parser does make the same parse:

* `Readers.AgreesFrom.of_levels` — readers that are made of the functions of a parser.
* `Readers.parseTokens_eq`, `Readers.looseCalls_eq` — the same parse and the same search.
-/

namespace PineCheck.Parser

-- ---------------------------------------------------------------------------
-- Where a parse goes
-- ---------------------------------------------------------------------------

/-- As many parentheses are open behind a stretch of a parse as before it, and what is left
of the queue is an end of it. -/
structure Stays (s s' : State) : Prop where
  depth : s'.depth = s.depth
  suffix : s'.queue <:+ s.queue

namespace Stays

theorem refl (s : State) : Stays s s :=
  ⟨rfl, List.suffix_rfl⟩

theorem trans {s s' s'' : State} (h : Stays s s') (h' : Stays s' s'') : Stays s s'' :=
  ⟨h'.depth.trans h.depth, h'.suffix.trans h.suffix⟩

theorem pop (s : State) (n : Nat) : Stays s (s.pop n) :=
  ⟨rfl, List.drop_suffix ..⟩

theorem record (s : State) (problem : ParseProblem) : Stays s (s.record problem) :=
  ⟨State.depth_record s problem, (State.queue_record s problem).symm ▸ List.suffix_rfl⟩

/-- A stretch of the parse that ends at the depth it starts at. -/
theorem of_reaches {s s' : State} (h : Reaches s s') (hdepth : s'.depth = s.depth) :
    Stays s s' :=
  ⟨hdepth, h.queue_suffix⟩

theorem callWithInner (s : State) : Stays s s.callWithInner.2 :=
  of_reaches (callWithInner_yields s).reaches (callWithInner_fits s).depth

theorem assignedValue (s : State) : Stays s (assignedValue s).2.2 :=
  of_reaches (assignedValue_returns s).reaches (assignedValue_fits s).depth

theorem statement (s : State) : Stays s (statement s).2 :=
  of_reaches (statement_yields s).reaches (statement_fits s).depth

end Stays

-- ---------------------------------------------------------------------------
-- Parses
-- ---------------------------------------------------------------------------

/-- What reads the expressions and the calls of a parse. -/
structure Readers where
  expression : State → Setting → Option (Value × Bool) × List Call × State
  callWithInner : State → List Call × State

namespace Readers

/-- The readers that give each expression and each call the steps that the parser gives it. -/
def ofLevels (level : Nat → Parsers) : Readers where
  expression s setting := (level (fuelFor s.queue)).expression setting s
  callWithInner s :=
    let (found, inner, s) := (level (fuelFor s.queue)).call s
    (found :: inner, s)

variable (r : Readers)

/-- The calls up to the end of the line. -/
def scanLine : Nat → Nat → State → List Call × State
  | 0, _, s => ([], s)
  | fuel + 1, depth, s =>
    if s.isHalted then ([], s)
    else match s.front? with
      | none => ([], s)
      | some token =>
        match token with
        | .endOfFile => ([], s)
        | .newline | .indent | .dedent =>
          if depth = 0 then ([], s) else scanLine fuel depth (s.pop 1)
        | .punctuation .parenLeft | .punctuation .bracketLeft =>
          scanLine fuel (depth + 1) (s.pop 1)
        | .punctuation .parenRight | .punctuation .bracketRight =>
          if depth = 0 then scanLine fuel 0 ((s.record .unmatchedClosing).pop 1)
          else scanLine fuel (depth - 1) (s.pop 1)
        | .identifier _ =>
          if isCallAhead s.queue then
            let (found, s) := r.callWithInner s
            let (later, s) := scanLine fuel depth s
            (found ++ later, s)
          else scanLine fuel depth (s.pop 1)
        | _ => scanLine fuel depth (s.pop 1)

/-- The calls on the rest of the line. -/
def restOfLine (s : State) : List Call × State :=
  r.scanLine (s.queue.length + 1) 0 s

/-- What a variable is given, and the calls that are met beside it. -/
def assignedValue (s : State) : Option Value × List Call × State :=
  match s.front? with
  | some (.keyword .ifKw) | some (.keyword .switchKw) => (none, [], s)
  | none | some .newline | some .indent | some .dedent | some .endOfFile =>
    (none, [], s.record .expectedAssignedValue)
  | some _ => assigned (r.expression s .statement)

/-- A declaration behind the word `var` that it may start with. -/
def declared (isVar : Bool) (start : Span) (s : State) : List Node × List Call × State :=
  match declaredType? s.queue with
  | none => ([], [], (s.record .expectedDeclaration).skipLine)
  | some type =>
    let typeName := if type = [] then none else some (textOf type)
    let s := s.pop type.length
    match s.queue with
    | ⟨.identifier name, span⟩ :: op :: _ =>
      let isReassignment := op.token ≠ .operator .assignment
      let (value, calls, s) := r.assignedValue (s.pop 2)
      let (others, s) := r.restOfLine s
      let node : Declaration :=
        { name := ⟨name, span⟩
          typeName := typeName
          isVar := isVar
          isReassignment := isReassignment
          value := value
          span := s.spanFrom start }
      ([.declaration node], calls ++ others, s)
    | _ => ([], [], s.pop 1)

/-- A declaration, and the calls on its line that are not its value. -/
def declaration (s : State) : List Node × List Call × State :=
  r.declared s.startsVar s.here (if s.startsVar then s.pop 1 else s)

/-- The nodes of the statement at the front of the queue. -/
def statement (s : State) : List Node × State :=
  let withCalls (nodes : List Node) (calls : List Call) (s : State) : List Node × State :=
    (nodes ++ calls.map .call, s)
  match s.front? with
  | none => ([], s)
  | some token =>
    match token with
    | .keyword .typeKw | .keyword .enumKw => ([], s.skipDefinition)
    | .keyword .importKw => ([], s.skipLine)
    | .keyword .exportKw | .keyword .methodKw => ([], s.pop 1)
    | .keyword .varKw | .keyword .varipKw =>
      let (nodes, calls, s) := r.declaration s
      withCalls nodes calls s
    | .identifier _ =>
      if isDefinitionAhead s.queue then ([], s.skipHead)
      else if (declaredType? s.queue).isSome then
        let (nodes, calls, s) := r.declaration s
        withCalls nodes calls s
      else
        let (calls, s) := r.restOfLine s
        withCalls [] calls s
    | _ =>
      let (calls, s) := r.restOfLine s
      withCalls [] calls s

/-- The statements of a queue. -/
def statements : Nat → State → List Node × State
  | 0, s => ([], s)
  | fuel + 1, s =>
    if s.isHalted then ([], s)
    else match s.front? with
      | none | some .endOfFile => ([], s)
      | some .newline | some .indent | some .dedent => statements fuel (s.pop 1)
      | some _ =>
        let (nodes, s) := r.statement s
        let (others, s) := statements fuel s
        (nodes ++ others, s)

/-- The calls of a queue. -/
def looseCalls : Nat → State → List Call × State
  | 0, s => ([], s)
  | fuel + 1, s =>
    if s.isHalted then ([], s)
    else match s.front? with
      | none | some .endOfFile => ([], s)
      | some (.identifier _) =>
        if isDefinitionAhead s.queue then looseCalls fuel s.skipHead
        else if isCallAhead s.queue then
          let (found, s) := r.callWithInner s
          let (later, s) := looseCalls fuel s
          (found ++ later, s)
        else looseCalls fuel (s.pop 1)
      | some _ => looseCalls fuel (s.pop 1)

/-- Parses a list of tokens. -/
def parseTokens (tokens : List Lexed) (allowed : Nat) : Parsed :=
  let start := State.start tokens allowed
  let (nodes, s) := r.statements (start.queue.length + 1) start
  { program := ⟨nodes, tokens.head?.map fun first => first.span.through s.last⟩
    errors := s.errors
    warnings := s.warnings
    tokenCount := tokens.length
    attempts := s.attempts }

-- ---------------------------------------------------------------------------
-- The readers of the parser
-- ---------------------------------------------------------------------------

/-- Readers that do what the parser does wherever a parse may go from a state. -/
structure AgreesFrom (s : State) : Prop where
  expression : ∀ {s'}, Stays s s' → ∀ setting, r.expression s' setting = s'.expression setting
  callWithInner : ∀ {s'}, Stays s s' → r.callWithInner s' = s'.callWithInner

variable {r} {s : State}

/-- Readers that agree with the parser from here agree from every later state. -/
theorem AgreesFrom.after (h : r.AgreesFrom s) {s' : State} (hs : Stays s s') : r.AgreesFrom s' :=
  ⟨fun hs' => h.expression (hs.trans hs'), fun hs' => h.callWithInner (hs.trans hs')⟩

/-- Functions that do what the parser does with any number of steps are such readers. -/
theorem AgreesFrom.of_levels {level : Nat → Parsers}
    (hexpression : ∀ fuel setting {s'}, Stays s s' →
      (level fuel).expression setting s' = (Parsers.level fuel).expression setting s')
    (hcall : ∀ fuel {s'}, Stays s s' → (level fuel).call s' = (Parsers.level fuel).call s') :
    (ofLevels level).AgreesFrom s where
  expression hstays setting := hexpression _ setting hstays
  callWithInner {s'} hstays := by
    show (let (found, inner, s) := (level (fuelFor s'.queue)).call s'
      (found :: inner, s)) = s'.callWithInner
    rw [hcall _ hstays]
    rfl

/-- Readers that agree with the parser scan a line as it does. -/
theorem scanLine_eq (h : r.AgreesFrom s) (fuel depth : Nat) :
    r.scanLine fuel depth s = Parser.scanLine fuel depth s := by
  induction fuel generalizing depth s with
  | zero => rfl
  | succ fuel ih =>
    have hgo := ih (h.after (.pop s 1))
    have hclosing := ih (h.after ((Stays.record s .unmatchedClosing).trans (.pop _ 1)))
    have hlater := ih (h.after (.callWithInner s))
    conv_lhs => simp only [scanLine, h.callWithInner (.refl s), hgo, hclosing, hlater]
    rfl

/-- They scan the rest of a line as it does. -/
theorem restOfLine_eq (h : r.AgreesFrom s) : r.restOfLine s = s.scanLine :=
  scanLine_eq h _ 0

theorem assignedValue_eq (h : r.AgreesFrom s) : r.assignedValue s = Parser.assignedValue s := by
  unfold assignedValue Parser.assignedValue
  rw [h.expression (.refl s)]
  rfl

/-- They read a declaration behind its optional keyword as it does. -/
theorem declared_eq (h : r.AgreesFrom s) (isVar : Bool) (start : Span) :
    r.declared isVar start s = Parser.declared isVar start s := by
  have hvalue (n : Nat) := assignedValue_eq (h.after ((Stays.pop s n).trans (.pop _ 2)))
  have hline (n : Nat) := restOfLine_eq
    (h.after (((Stays.pop s n).trans (.pop _ 2)).trans (.assignedValue _)))
  unfold declared Parser.declared
  cases declaredType? s.queue with
  | none => rfl
  | some type =>
    rcases hqueue : (s.pop type.length).queue with _ | ⟨⟨token, span⟩, _ | ⟨op, rest⟩⟩
    · simp only [hqueue]
    · cases token <;> simp only [hqueue]
    · cases token <;> simp only [hqueue, hvalue, hline]

/-- They read a declaration as it does. -/
theorem declaration_eq (h : r.AgreesFrom s) : r.declaration s = Parser.declaration s := by
  have hvar : Stays s (if s.startsVar then s.pop 1 else s) := by
    split
    · exact .pop s 1
    · exact .refl s
  rw [declaration, declared_eq (h.after hvar), declaration_eq_declared]

theorem statement_eq (h : r.AgreesFrom s) : r.statement s = Parser.statement s := by
  unfold statement
  rw [declaration_eq h, restOfLine_eq h]
  rfl

/-- They read the statements of a script as it does. -/
theorem statements_eq (h : r.AgreesFrom s) (fuel : Nat) :
    r.statements fuel s = Parser.statements fuel s := by
  induction fuel generalizing s with
  | zero => rfl
  | succ fuel ih =>
    have hgo := ih (h.after (.pop s 1))
    have hothers := ih (h.after (.statement s))
    conv_lhs => simp only [statements, statement_eq h, hgo, hothers]
    rfl

/-- The search for calls alone does not depend on the readers either. -/
theorem looseCalls_eq (h : r.AgreesFrom s) (fuel : Nat) :
    r.looseCalls fuel s = Parser.looseCalls fuel s := by
  induction fuel generalizing s with
  | zero => rfl
  | succ fuel ih =>
    have hgo := ih (h.after (.pop s 1))
    have hskip := ih (h.after (.pop s (headLength s.queue)))
    have hlater := ih (h.after (.callWithInner s))
    conv_lhs =>
      simp only [looseCalls, h.callWithInner (.refl s), State.skipHead, hgo, hskip, hlater]
    rfl

/-- A parse does not depend on its readers if they do what the parser does wherever it goes. -/
theorem parseTokens_eq {tokens : List Lexed} {allowed : Nat}
    (h : r.AgreesFrom (State.start tokens allowed)) :
    r.parseTokens tokens allowed = PineCheck.parseTokens tokens allowed := by
  unfold parseTokens
  dsimp only
  rw [statements_eq h]
  rfl

end Readers

end PineCheck.Parser
