import PineCheck.Proofs.Expressions
import PineCheck.Proofs.Printing

/-!
# PineCheck — parsing what was printed

The parse of a printed script gives the script back.

* `statement_parse` is about one statement: the tokens ahead tell calls and
  declarations apart, and either is taken up to the end of its line.
* `statements_parse` goes through a script, statement by statement.
* `kept_eq` leads from the tokens of a printed script to the start of a parse.

Main result:

* `Script.parse_print` — the parse of a printed script has no errors and no
  warnings, and apart from places its nodes are the statements that were printed,
  with the namespaces of their calls.
-/

namespace PineCheck.Parser

open Script

-- ---------------------------------------------------------------------------
-- Statements
-- ---------------------------------------------------------------------------

/-- At the end of a line there are no more calls on it. -/
theorem scanLine_newline {s : State} {rest : List Token} (h : s.tokens = .newline :: rest)
    (hhalted : s.isHalted = false) (fuel : Nat) : scanLine (fuel + 1) 0 s = ([], s) := by
  rw [scanLine, if_neg (ne_true_of_eq_false hhalted), State.front?_eq, h]
  rfl

/-- A call that fills a line is found as a whole. -/
theorem call_line {s : State} {function : Chain} {positional : List Expr}
    {named : List (Word × Expr)} {rest : List Token}
    (h : s.tokens = (Expr.call function positional named).tokens ++ .newline :: rest)
    (hhalted : s.isHalted = false)
    (hdepth : s.depth + (Expr.call function positional named).height ≤ State.maxDepth) :
    ∃ found : Call,
      found.unplaced = Expr.callOf function
        (Expr.mapArguments Expr.value (Script.arguments positional named)) ∧
      call (fuelFor s.queue) s =
        (found, [], s.pop (Expr.call function positional named).tokens.length) := by
  have hlength : s.queue.length = (Expr.call function positional named).tokens.length +
      (rest.length + 1) := by
    rw [← State.length_tokens, h, List.length_append, List.length_cons]
  exact call_parse (fun argument _ => parses argument.2) h hhalted hdepth
    (by rw [fuelFor]; omega)

/-- A call that fills a line is the only one on it. -/
theorem scanLine_call {s : State} {function : Chain} {positional : List Expr}
    {named : List (Word × Expr)} {rest : List Token} {found : Call}
    (h : s.tokens = (Expr.call function positional named).tokens ++ .newline :: rest)
    (hhalted : s.isHalted = false)
    (hcall : call (fuelFor s.queue) s =
      (found, [], s.pop (Expr.call function positional named).tokens.length)) :
    s.scanLine = ([found], s.pop (Expr.call function positional named).tokens.length) := by
  have hlength : s.queue.length = (Expr.call function positional named).tokens.length +
      (rest.length + 1) := by
    rw [← State.length_tokens, h, List.length_append, List.length_cons]
  have hbehind : (s.pop (Expr.call function positional named).tokens.length).tokens =
      .newline :: rest :=
    State.tokens_behind h
  rw [State.scanLine, scanLine, if_neg (ne_true_of_eq_false hhalted), State.front?_eq,
    tokens_call_append h]
  show (if isCallAhead s.queue = true then _ else _) = _
  rw [if_pos (isCallAhead_call (tokens_call_append h)), State.callWithInner, hcall, hlength]
  simp only [scanLine_newline hbehind hhalted, ← Nat.add_assoc]
  rfl

/-- What a variable is given is found as a whole. -/
theorem assignedValue_parse {s : State} {e : Expr} {rest : List Token}
    (h : s.tokens = e.tokens ++ .newline :: rest) (hhalted : s.isHalted = false)
    (hdepth : s.depth + e.height ≤ State.maxDepth) :
    ∃ v : Value, v.unplaced = e.value ∧
      assignedValue s = (some v, [], s.pop e.tokens.length) := by
  obtain ⟨t, ts, htokens, ht, -⟩ := tokens_eq_cons e
  have hlength : e.tokens.length ≤ s.queue.length := by
    rw [← State.length_tokens, h, List.length_append]
    omega
  obtain ⟨v, hv, hexpression⟩ : ∃ v : Value, v.unplaced = e.value ∧
      expression (fuelFor s.queue) .statement s = (some (v, false), [], _) :=
    expression_parse (parses e) h .newline hhalted hdepth (by rw [fuelFor]; omega)
  refine ⟨v, hv, ?_⟩
  have hfront : s.front? = some t := by
    rw [State.front?_eq, h, htokens, List.cons_append, List.head?_cons]
  rw [assignedValue, hfront, State.expression, hexpression]
  cases ht <;> rfl

/-- The tokens ahead of a call on a line of its own lead to its parse. -/
theorem statement_eq_call {s : State} {function : Chain} {positional : List Expr}
    {named : List (Word × Expr)} {rest : List Token} {found : Call}
    (h : s.tokens = (Expr.call function positional named).tokens ++ .newline :: rest)
    (hhalted : s.isHalted = false)
    (hfound : call (fuelFor s.queue) s =
      (found, [], s.pop (Expr.call function positional named).tokens.length)) :
    statement s =
      ([.call found], s.pop (Expr.call function positional named).tokens.length) := by
  have hcall := tokens_call_append h
  -- the search for an arrow goes past the arguments, and finds the end of the line
  have hinside : Skips (insideTokens (Script.arguments positional named)) :=
    Skips.hereditary.inside _
  rw [statement, State.front?_eq, hcall]
  show (if isDefinitionAhead s.queue = true then _ else
    if (declaredType? s.queue).isSome = true then _ else _) = _
  rw [isDefinitionAhead_call hcall hinside, declaredType?_call hcall,
    scanLine_call h hhalted hfound]
  rfl

/-- A call on a line of its own is a statement. -/
theorem statement_call {s : State} {function : Chain} {positional : List Expr}
    {named : List (Word × Expr)} {rest : List Token}
    (h : s.tokens = (Expr.call function positional named).tokens ++ .newline :: rest)
    (hhalted : s.isHalted = false)
    (hdepth : s.depth + (Expr.call function positional named).height ≤ State.maxDepth) :
    ∃ node : Node, node.unplaced = (Statement.call function positional named).node ∧
      statement s = ([node], s.pop (Expr.call function positional named).tokens.length) := by
  obtain ⟨found, hfound, hcall⟩ := call_line h hhalted hdepth
  refine ⟨.call found, ?_, statement_eq_call h hhalted hcall⟩
  rw [Node.unplaced, hfound]
  rfl

-- ---------------------------------------------------------------------------
-- Declarations
-- ---------------------------------------------------------------------------

/-- The tokens of a declaration. -/
def declarationTokens (isVar : Bool) (type : Option TypeName) (name : Word) (op : Token)
    (e : Expr) : List Token :=
  (if isVar then [.keyword .varKw] else []) ++ (Statement.typeTokens type ++
    (.identifier name.text :: op :: e.tokens))

/-- The parts of a declaration before something else. -/
theorem declarationTokens_append {isVar : Bool} {type : Option TypeName} {name : Word} {op : Token}
    {e : Expr} {tokens rest : List Token}
    (h : tokens = declarationTokens isVar type name op e ++ rest) :
    tokens = (if isVar then [.keyword .varKw] else []) ++ (Statement.typeTokens type ++
      (.identifier name.text :: op :: (e.tokens ++ rest))) := by
  rw [h, declarationTokens, List.append_assoc, List.append_assoc]
  rfl

/-- A declaration without `var` starts with a name. -/
theorem typed_eq_cons (type : Option TypeName) (name : Word) (rest : List Token) :
    ∃ text rest', Statement.typeTokens type ++ .identifier name.text :: rest =
      .identifier text :: rest' := by
  cases type with
  | none => exact ⟨_, _, rfl⟩
  | some type => exact ⟨_, _, rfl⟩

/-- A declaration with `var` starts with it. -/
theorem front_declaration {s : State} {isVar : Bool} {type : Option TypeName} {name : Word}
    {op : Token} {e : Expr} {rest : List Token}
    (h : s.tokens = declarationTokens isVar type name op e ++ rest) :
    (decide (s.front? = some (.keyword .varKw)) ||
      decide (s.front? = some (.keyword .varipKw))) = isVar := by
  rw [State.front?_eq, declarationTokens_append h]
  cases isVar with
  | true => rfl
  | false =>
    obtain ⟨text, rest', hcons⟩ := typed_eq_cons type name (op :: (e.tokens ++ rest))
    rw [hcons]
    rfl

/-- Behind `var` a declaration goes on as if it were not there. -/
theorem skip_var {s : State} {isVar : Bool} {type : Option TypeName} {name : Word} {op : Token}
    {e : Expr} {rest : List Token}
    (h : s.tokens = declarationTokens isVar type name op e ++ rest) :
    ∃ skipped, (if isVar = true then s.pop 1 else s) = s.pop skipped ∧
      (s.pop skipped).tokens = Statement.typeTokens type ++
        (.identifier name.text :: op :: (e.tokens ++ rest)) ∧
      (declarationTokens isVar type name op e).length =
        skipped + (Statement.typeTokens type).length + 2 + e.tokens.length := by
  replace h := declarationTokens_append h
  cases isVar with
  | true =>
    refine ⟨1, rfl, ?_, ?_⟩
    · rw [State.tokens_pop, h]
      rfl
    · simp only [declarationTokens, if_true, List.length_append, List.length_cons,
        List.length_nil]
      omega
  | false =>
    refine ⟨0, rfl, h, ?_⟩
    simp only [declarationTokens, Bool.false_eq_true, if_false, List.length_append,
      List.length_cons, List.length_nil]
    omega

/-- A declaration is found as a whole, up to the end of its line. -/
theorem declaration_parse {s : State} {isVar : Bool} {type : Option TypeName} {name : Word}
    {op : Token} {e : Expr} {rest : List Token}
    (h : s.tokens = declarationTokens isVar type name op e ++ .newline :: rest)
    (hop : op = .operator .assignment ∨ op = .operator .reassignment)
    (hhalted : s.isHalted = false) (hdepth : s.depth + e.height ≤ State.maxDepth) :
    ∃ found : Declaration,
      (Node.declaration found).unplaced = .declaration
        { name := ⟨name.text, default⟩
          typeName := type.map TypeName.text
          isVar := isVar
          isReassignment := op ≠ .operator .assignment
          value := some e.value
          span := default } ∧
      declaration s =
        ([.declaration found], [], s.pop (declarationTokens isVar type name op e).length) := by
  obtain ⟨skipped, hskip, htyped, hlength⟩ := skip_var h
  have hnamed : (s.pop (skipped + (Statement.typeTokens type).length)).tokens =
      .identifier name.text :: op :: (e.tokens ++ .newline :: rest) := by
    rw [← State.pop_pop, State.tokens_behind htyped]
  -- the name and the operator as the queue holds them, with their places
  obtain ⟨word, queue, hqueue, hword, hrest⟩ := List.map_eq_cons_iff.mp hnamed
  obtain ⟨next, queue, rfl, rfl, -⟩ := List.map_eq_cons_iff.mp hrest
  obtain ⟨token, span⟩ := word
  obtain rfl : token = .identifier name.text := hword
  have hvalue : (s.pop (skipped + (Statement.typeTokens type).length + 2)).tokens =
      e.tokens ++ .newline :: rest := by
    rw [← State.pop_pop, State.tokens_pop, hnamed]
    rfl
  obtain ⟨v, hv, hassigned⟩ := assignedValue_parse hvalue hhalted hdepth
  have hend : (s.pop (skipped + (Statement.typeTokens type).length + 2 +
      e.tokens.length)).tokens = .newline :: rest := by
    rw [← State.pop_pop, State.tokens_behind hvalue]
  rw [hlength]
  generalize hbehind : s.pop (skipped + (Statement.typeTokens type).length + 2 +
    e.tokens.length) = behind at hend ⊢
  refine ⟨{ name := ⟨name.text, span⟩
            typeName := type.map TypeName.text
            isVar := isVar
            isReassignment := next.token ≠ .operator .assignment
            value := some v
            span := behind.spanFrom s.here }, ?_, ?_⟩
  · rw [Node.unplaced, Option.map_some, hv]
  · rw [declaration]
    simp only [front_declaration h, hskip]
    rw [declaredType?_eq htyped hop]
    simp only [State.length_take_queue htyped, typeName_eq htyped, State.pop_pop, hqueue,
      hassigned, hbehind, State.scanLine, scanLine_newline hend (hbehind ▸ hhalted),
      List.append_nil]

/-- The tokens ahead of a declaration lead to its parse. -/
theorem statement_eq_declaration {s : State} {isVar : Bool} {type : Option TypeName} {name : Word}
    {op : Token} {e : Expr} {rest : List Token}
    (h : s.tokens = declarationTokens isVar type name op e ++ rest)
    (hop : op = .operator .assignment ∨ op = .operator .reassignment) :
    statement s =
      ((declaration s).1 ++ (declaration s).2.1.map .call, (declaration s).2.2) := by
  replace h := declarationTokens_append h
  cases isVar with
  | true =>
    rw [statement, State.front?_eq, h]
    rfl
  | false =>
    -- without `var` only the tokens behind the first name tell that this is no call
    obtain ⟨text, rest', hcons⟩ := typed_eq_cons type name (op :: (e.tokens ++ rest))
    replace h : s.tokens = Statement.typeTokens type ++
      (.identifier name.text :: op :: (e.tokens ++ rest)) := h
    rw [statement, State.front?_eq, h, hcons]
    show (if isDefinitionAhead s.queue = true then _ else
      if (declaredType? s.queue).isSome = true then _ else _) = _
    rw [isDefinitionAhead_declaration h hop, declaredType?_eq h hop]
    rfl

/-- A declaration on a line of its own is a statement. -/
theorem statement_declaration {s : State} {isVar : Bool} {type : Option TypeName} {name : Word}
    {op : Token} {e : Expr} {rest : List Token}
    (h : s.tokens = declarationTokens isVar type name op e ++ .newline :: rest)
    (hop : op = .operator .assignment ∨ op = .operator .reassignment)
    (hhalted : s.isHalted = false) (hdepth : s.depth + e.height ≤ State.maxDepth) :
    ∃ node : Node,
      node.unplaced = .declaration
        { name := ⟨name.text, default⟩
          typeName := type.map TypeName.text
          isVar := isVar
          isReassignment := op ≠ .operator .assignment
          value := some e.value
          span := default } ∧
      statement s = ([node], s.pop (declarationTokens isVar type name op e).length) := by
  obtain ⟨found, hfound, hdeclaration⟩ := declaration_parse h hop hhalted hdepth
  refine ⟨.declaration found, hfound, ?_⟩
  rw [statement_eq_declaration h hop, hdeclaration]
  rfl

-- ---------------------------------------------------------------------------
-- Scripts
-- ---------------------------------------------------------------------------

/-- A statement is found as a whole, up to the end of its line. -/
theorem statement_parse (stmt : Statement) {s : State} {rest : List Token}
    (h : s.tokens = stmt.tokens ++ rest) (hhalted : s.isHalted = false)
    (hdepth : s.depth + stmt.height ≤ State.maxDepth) :
    ∃ (node : Node) (line : List Token), node.unplaced = stmt.node ∧
      stmt.tokens = line ++ [.newline] ∧ statement s = ([node], s.pop line.length) := by
  have hline : ∀ line, stmt.tokens = line ++ [.newline] → s.tokens = line ++ .newline :: rest := by
    intro line hline
    rw [h, hline, List.append_assoc, List.singleton_append]
  cases stmt with
  | call function positional named =>
    obtain ⟨node, hnode, hstatement⟩ := statement_call (hline _ rfl) hhalted hdepth
    exact ⟨node, _, hnode, rfl, hstatement⟩
  | declare isVar type name value =>
    have htokens : (Statement.declare isVar type name value).tokens =
        declarationTokens isVar type name (.operator .assignment) value ++ [.newline] :=
      (declarationTokens_append rfl).symm
    obtain ⟨node, hnode, hstatement⟩ :=
      statement_declaration (hline _ htokens) (.inl rfl) hhalted hdepth
    exact ⟨node, _, hnode, htokens, hstatement⟩
  | reassign type name value =>
    have htokens : (Statement.reassign type name value).tokens =
        declarationTokens false type name (.operator .reassignment) value ++ [.newline] :=
      (@declarationTokens_append false _ _ _ _ _ _ rfl).symm
    obtain ⟨node, hnode, hstatement⟩ :=
      statement_declaration (hline _ htokens) (.inr rfl) hhalted hdepth
    exact ⟨node, _, hnode, htokens, hstatement⟩

/-- A statement starts with a name or with `var`. -/
theorem statement_eq_cons (stmt : Statement) :
    ∃ t ts, stmt.tokens = t :: ts ∧ (t = .keyword .varKw ∨ ∃ text, t = .identifier text) := by
  cases stmt with
  | call function positional named =>
    exact ⟨_, _, tokens_call_append rfl, .inr ⟨_, rfl⟩⟩
  | declare isVar type name value =>
    cases isVar with
    | true => exact ⟨_, _, rfl, .inl rfl⟩
    | false =>
      obtain ⟨text, rest, hcons⟩ := typed_eq_cons type name
        (.operator .assignment :: (value.tokens ++ [.newline]))
      exact ⟨_, _, hcons, .inr ⟨text, rfl⟩⟩
  | reassign type name value =>
    obtain ⟨text, rest, hcons⟩ := typed_eq_cons type name
      (.operator .reassignment :: (value.tokens ++ [.newline]))
    exact ⟨_, _, hcons, .inr ⟨text, rfl⟩⟩

theorem two_le_length_statement (stmt : Statement) : 2 ≤ stmt.tokens.length := by
  cases stmt with
  | call function positional named =>
    have hpos := length_tokens_pos (.call function positional named)
    rw [Statement.tokens, List.length_append, List.length_singleton]
    omega
  | declare | reassign =>
    simp only [Statement.tokens, List.length_append, List.length_cons]
    omega

/-- The node of a statement is taken, and the end of its line. -/
theorem statements_line {stmt : Statement} {fuel : Nat} {s s' : State} {line rest : List Token}
    {node : Node} {others : List Node} (h : s.tokens = stmt.tokens ++ rest)
    (htokens : stmt.tokens = line ++ [.newline]) (hhalted : s.isHalted = false)
    (hstatement : statement s = ([node], s.pop line.length))
    (hothers : statements fuel (s.pop stmt.tokens.length) = (others, s')) :
    statements (fuel + 2) s = (node :: others, s') := by
  obtain ⟨t, ts, hcons, ht⟩ := statement_eq_cons stmt
  have hend : (s.pop line.length).tokens = .newline :: rest := by
    rw [State.tokens_pop, h, htokens, List.append_assoc, List.drop_left]
    rfl
  have hnewline : statements (fuel + 1) (s.pop line.length) = (others, s') := by
    rw [htokens, List.length_append, ← State.pop_pop] at hothers
    rw [statements, if_neg (ne_true_of_eq_false ((s.isHalted_pop _).trans hhalted)),
      State.front?_eq, hend]
    exact hothers
  have hfront : s.front? = some t := by
    rw [State.front?_eq, h, hcons, List.cons_append, List.head?_cons]
  rw [statements, if_neg (ne_true_of_eq_false hhalted), hfront, hstatement]
  simp only [hnewline]
  rcases ht with rfl | ⟨text, rfl⟩
  · rfl
  · rfl

/-- One statement is taken with the end of its line. -/
theorem statements_step (stmt : Statement) {fuel : Nat} {s s' : State} {rest : List Token}
    {others : List Node} (h : s.tokens = stmt.tokens ++ rest) (hhalted : s.isHalted = false)
    (hdepth : s.depth + stmt.height ≤ State.maxDepth)
    (hothers : statements fuel (s.pop stmt.tokens.length) = (others, s')) :
    ∃ node : Node, node.unplaced = stmt.node ∧
      statements (fuel + 2) s = (node :: others, s') := by
  obtain ⟨node, line, hnode, htokens, hstatement⟩ := statement_parse stmt h hhalted hdepth
  exact ⟨node, hnode, statements_line h htokens hhalted hstatement hothers⟩

/-- A statement and the end of its line cost one step each, and it has two tokens or
more. -/
theorem exists_fuel_statement (stmt : Statement) {fuel : Nat} {s : State} {rest : List Token}
    (h : s.tokens = stmt.tokens ++ rest) (hfuel : s.tokens.length ≤ fuel) :
    ∃ n, fuel = n + 2 ∧ (s.pop stmt.tokens.length).tokens.length ≤ n := by
  have htwo := two_le_length_statement stmt
  rw [State.tokens_behind h]
  rw [h, List.length_append] at hfuel
  exact ⟨fuel - 2, by omega, by omega⟩

/-- At the end of the file there are no more statements. -/
theorem statements_end {fuel : Nat} {s : State} (h : s.tokens = [.endOfFile])
    (hhalted : s.isHalted = false) : statements (fuel + 1) s = ([], s) := by
  rw [statements, if_neg (ne_true_of_eq_false hhalted), State.front?_eq, h]
  rfl

/-- The statements of a script are found one after the other. -/
theorem statements_parse (script : List Statement) {fuel : Nat} {s : State}
    (h : s.tokens = script.flatMap Statement.tokens ++ [.endOfFile])
    (hhalted : s.isHalted = false)
    (hdepth : ∀ stmt ∈ script, s.depth + stmt.height ≤ State.maxDepth)
    (hfuel : s.tokens.length ≤ fuel) :
    ∃ nodes : List Node, nodes.map Node.unplaced = script.map Statement.node ∧
      statements fuel s = (nodes, s.pop (script.flatMap Statement.tokens).length) := by
  induction script generalizing fuel s with
  | nil =>
    rw [h] at hfuel
    obtain ⟨fuel, rfl⟩ : ∃ n, fuel = n + 1 := ⟨fuel - 1, by simp at hfuel; omega⟩
    exact ⟨[], rfl, statements_end h hhalted⟩
  | cons stmt script ih =>
    rw [List.forall_mem_cons] at hdepth
    rw [List.flatMap_cons, List.append_assoc] at h
    obtain ⟨fuel, rfl, hless⟩ := exists_fuel_statement stmt h hfuel
    have hbehind : (s.pop stmt.tokens.length).tokens =
        script.flatMap Statement.tokens ++ [.endOfFile] :=
      State.tokens_behind h
    have hothers : ∃ nodes : List Node, nodes.map Node.unplaced = script.map Statement.node ∧
        statements fuel (s.pop stmt.tokens.length) = (nodes, _) :=
      ih hbehind hhalted hdepth.2 hless
    obtain ⟨nodes, hnodes, hothers⟩ := hothers
    obtain ⟨node, hnode, hstep⟩ := statements_step stmt h hhalted hdepth.1 hothers
    refine ⟨node :: nodes, ?_, ?_⟩
    · rw [List.map_cons, List.map_cons, hnode, hnodes]
    · rw [hstep, State.pop_pop, List.flatMap_cons, List.length_append]

-- ---------------------------------------------------------------------------
-- The start of a parse
-- ---------------------------------------------------------------------------

/-- Whether a token is parsed, as all but comments are. -/
def isParsed : Token → Bool
  | .comment _ => false
  | _ => true

theorem isParsed_chain (chain : Chain) : chain.tokens.all isParsed = true := by
  simp [Chain.tokens, List.all_flatMap, isParsed]

/-- No statement is printed with a comment, so that the parser keeps every token. -/
theorem isParsed_hereditary : Hereditary fun tokens => tokens.all isParsed = true where
  nil := rfl
  atom a := by
    cases a with
    | number | string | boolean | color => rfl
    | name name => exact isParsed_chain name.toChain
  label _ h := h
  comma h hothers := by
    rw [List.all_append, h]
    exact hothers
  call function h := by
    rw [List.all_append, isParsed_chain, List.all_cons, List.all_append, h]
    rfl

theorem isParsed_type (type : Option TypeName) :
    (Statement.typeTokens type).all isParsed = true := by
  obtain _ | ⟨chain, _ | ⟨first, others⟩, _ | _⟩ := type
  all_goals
    simp [Statement.typeTokens, TypeName.tokens, TypeName.argumentTokens, TypeName.markTokens,
      List.all_flatMap, isParsed_chain, isParsed]

/-- A script is written without comments. -/
theorem isParsed_script (script : List Statement) :
    (script.flatMap Statement.tokens ++ [Token.endOfFile]).all isParsed = true := by
  have hstatement : ∀ stmt : Statement, stmt.tokens.all isParsed = true := by
    intro stmt
    cases stmt with
    | call function positional named =>
      rw [Statement.tokens, List.all_append, isParsed_hereditary.tokens]
      rfl
    | declare isVar type name value =>
      cases isVar <;>
        simp [Statement.tokens, List.all_append, isParsed_hereditary.tokens, isParsed_type,
          isParsed]
    | reassign type name value =>
      simp [Statement.tokens, List.all_append, isParsed_hereditary.tokens, isParsed_type, isParsed]
  rw [List.all_append, List.all_flatMap, List.all_eq_true.mpr fun stmt _ => hstatement stmt]
  rfl

/-- Without faults and comments all tokens are parsed. -/
theorem kept_eq {lexed : List Lexed} {tokens : List Token}
    (h : lexed.map Lexed.reading = tokens.map .ok) (hparsed : tokens.all isParsed = true) :
    (State.kept lexed).map Placed.token = tokens ∧ State.lexicalErrors lexed = [] := by
  induction lexed generalizing tokens with
  | nil =>
    obtain rfl := List.map_eq_nil_iff.mp h.symm
    exact ⟨rfl, rfl⟩
  | cons first lexed ih =>
    obtain ⟨t, tokens, rfl, ht, h⟩ := List.map_eq_cons_iff.mp h.symm
    rw [List.all_cons, Bool.and_eq_true] at hparsed
    obtain ⟨hkept, herrors⟩ := ih h.symm hparsed.2
    constructor
    · rw [State.kept, List.filterMap_cons, ← ht]
      cases t with
      | comment => exact nomatch hparsed.1
      | _ => exact congrArg (_ :: ·) hkept
    · rw [State.lexicalErrors, List.filterMap_cons, ← ht]
      exact herrors

end PineCheck.Parser

namespace PineCheck.Script

open PineCheck.Parser

-- ---------------------------------------------------------------------------
-- Namespaces
-- ---------------------------------------------------------------------------

theorem splitName?_word (word : Word) : Call.splitName? (Chain.text ⟨word, []⟩) = none := by
  have hchars : (Chain.text ⟨word, []⟩).toList = word.text.toList := by
    rw [Chain.text, String.toList_ofList]
    exact List.append_nil _
  have hnone : word.text.toList.reverse.dropWhile (· ≠ '.') = [] := by
    rw [List.dropWhile_eq_nil_iff]
    intro c hc
    simpa using word_ne_dot word c (List.mem_reverse.mp hc)
  rw [Call.splitName?, hchars, hnone]

/-- The last full stop of a chain stands before its last word. -/
theorem splitName?_chain (first : Word) (inner : List Word) (last : Word) :
    Call.splitName? (Chain.text ⟨first, inner ++ [last]⟩) =
      some (Chain.text ⟨first, inner⟩, last.text) := by
  -- seen from behind, the first full stop is the one before the last word
  have hchars : (Chain.text ⟨first, inner ++ [last]⟩).toList.reverse =
      last.text.toList.reverse ++ '.' :: (Chain.chars ⟨first, inner⟩).reverse := by
    rw [Chain.text, String.toList_ofList]
    simp [Chain.chars]
  have hlast : ∀ c ∈ last.text.toList.reverse, decide (c ≠ '.') = true := by
    intro c hc
    exact decide_eq_true (word_ne_dot last c (List.mem_reverse.mp hc))
  have hcut : (last.text.toList.reverse ++ '.' :: (Chain.chars ⟨first, inner⟩).reverse).dropWhile
      (· ≠ '.') = '.' :: (Chain.chars ⟨first, inner⟩).reverse := by
    rw [List.dropWhile_append_of_pos hlast]
    rfl
  have htaken : (last.text.toList.reverse ++ '.' :: (Chain.chars ⟨first, inner⟩).reverse).takeWhile
      (· ≠ '.') = last.text.toList.reverse := by
    rw [List.takeWhile_append_of_pos hlast]
    exact List.append_nil _
  rw [Call.splitName?, hchars, hcut, htaken]
  simp only [List.reverse_reverse, String.ofList_toList]
  rfl

/-- A call that is found has the namespace that it was written with. -/
theorem namespace?_eq {found : Call} {function : Chain} {given : List (Option Word × Value)}
    (h : found.unplaced = Expr.callOf function given) : found.namespace? = function.namespace? := by
  obtain ⟨name, arguments, span⟩ := found
  obtain rfl : name = function.text := congrArg Call.name h
  obtain ⟨first, others⟩ := function
  rw [Call.namespace?, Chain.namespace?]
  rcases List.eq_nil_or_concat others with rfl | ⟨inner, last, rfl⟩
  · rw [splitName?_word]
    rfl
  · rw [List.concat_eq_append, splitName?_chain, List.dropLast_concat,
      if_neg (List.append_ne_nil_of_right_ne_nil _ (List.cons_ne_nil _ _))]
    rfl

/-- If the calls of every argument keep their namespaces, so do those of the list. -/
theorem walkAll_namespaces {given : List (Option Word × Expr)}
    (h : ∀ argument ∈ given, ∀ v : Value, v.unplaced = argument.2.value →
      v.walk.map Call.namespace? = argument.2.functions.map Chain.namespace?)
    {found : List Argument} {position : Nat}
    (hfound : Argument.unplacedAll found =
      Expr.placeArguments position (Expr.mapArguments Expr.value given)) :
    (Argument.walkAll found).map Call.namespace? =
      (given.flatMap fun argument => argument.2.functions).map Chain.namespace? := by
  induction given generalizing found position with
  | nil =>
    cases found with
    | nil => rfl
    | cons argument found => exact nomatch hfound
  | cons argument given ih =>
    cases found with
    | nil => exact nomatch hfound
    | cons first found =>
      obtain ⟨hargument, hgiven⟩ := List.forall_mem_cons.mp h
      obtain ⟨hfirst, hothers⟩ := List.cons.inj hfound
      obtain ⟨name, v, position, isExpression, span⟩ := first
      rw [Argument.walkAll, List.map_append, List.flatMap_cons, List.map_append, ih hgiven hothers]
      exact congrArg (· ++ _) (hargument v (congrArg Argument.value hfirst))

/-- The calls inside a value that is found have the namespaces of the functions that
were written. -/
theorem walk_namespaces (e : Expr) : ∀ v : Value, v.unplaced = e.value →
    v.walk.map Call.namespace? = e.functions.map Chain.namespace? := by
  induction e using Expr.induction with
  | atom a =>
    intro v hv
    cases v with
    | literal | identifier => rfl
    | call found => cases a <;> exact nomatch hv
  | call function positional named ih =>
    intro v hv
    rw [Expr.value_call] at hv
    cases v with
    | literal | identifier => exact nomatch hv
    | call found =>
      replace hv := Value.call.inj hv
      rw [Expr.functions_call, Value.walk]
      obtain ⟨name, given, span⟩ := found
      rw [Call.walk, List.map_cons, List.map_cons, namespace?_eq hv]
      exact congrArg (_ :: ·) (walkAll_namespaces ih (congrArg Call.arguments hv))

/-- The calls of a program that starts with a declaration. -/
theorem calls_declaration {found : Declaration} {v : Value} (h : found.value = some v)
    (nodes : List Node) (span : Option Span) :
    (Program.calls ⟨.declaration found :: nodes, span⟩).flatMap Call.walk =
      v.walk ++ (Program.calls ⟨nodes, span⟩).flatMap Call.walk := by
  obtain ⟨name, typeName, isVar, isReassignment, value, place⟩ := found
  obtain rfl : value = some v := h
  cases v <;> rfl

/-- The same for all calls of a program. -/
theorem calls_namespaces {nodes : List Node} {script : List Statement}
    (h : nodes.map Node.unplaced = script.map Statement.node) (span : Option Span) :
    ((Program.calls ⟨nodes, span⟩).flatMap Call.walk).map Call.namespace? =
      (script.flatMap Statement.functions).map Chain.namespace? := by
  induction script generalizing nodes with
  | nil =>
    obtain rfl := List.map_eq_nil_iff.mp h
    rfl
  | cons stmt script ih =>
    obtain ⟨node, nodes, rfl, hnode, hnodes⟩ := List.map_eq_cons_iff.mp h
    have hgiven : ∀ (found : Declaration) (e : Expr),
        found.value.map Value.unplaced = some e.value →
        ((Program.calls ⟨.declaration found :: nodes, span⟩).flatMap Call.walk).map
          Call.namespace? = (e.functions ++ script.flatMap Statement.functions).map
            Chain.namespace? := by
      intro found e hvalue
      obtain ⟨v, hv, hunplaced⟩ := Option.map_eq_some_iff.mp hvalue
      rw [calls_declaration hv, List.map_append, List.map_append, walk_namespaces e v hunplaced,
        ih hnodes]
    -- a node and the statement it stands for are both calls or both declarations
    cases node with
    | call found =>
      cases stmt with
      | declare | reassign => cases hnode
      | call function positional named =>
        have hwalk := walk_namespaces (.call function positional named) (.call found)
          (by rw [Expr.value_call, Value.unplaced]; exact congrArg _ (Node.call.inj hnode))
        rw [List.flatMap_cons, List.map_append, ← ih hnodes, Statement.functions, ← hwalk,
          ← List.map_append]
        rfl
    | declaration found =>
      cases stmt with
      | call => cases hnode
      | declare isVar type name value | reassign type name value =>
        exact hgiven found value (congrArg Declaration.value (Node.declaration.inj hnode))

-- ---------------------------------------------------------------------------
-- The round trip
-- ---------------------------------------------------------------------------

/-- The parse of a printed script reports nothing and gives the script back, and its
calls have the namespaces that they were written with. -/
theorem parse_print (script : List Statement) (allowed : Nat)
    (h : ∀ stmt ∈ script, stmt.height ≤ 127) :
    (parse (print script) allowed).errors = [] ∧
    (parse (print script) allowed).warnings = [] ∧
    (parse (print script) allowed).program.nodes.map Node.unplaced =
      script.map Statement.node ∧
    ((parse (print script) allowed).program.calls.flatMap Call.walk).map Call.namespace? =
      (script.flatMap Statement.functions).map Chain.namespace? := by
  obtain ⟨hkept, herrors⟩ := kept_eq (lex_print script) (isParsed_script script)
  let start := State.start (lex (print script)) allowed
  have htokens : start.tokens = script.flatMap Statement.tokens ++ [.endOfFile] := hkept
  have hdepth : ∀ stmt ∈ script, start.depth + stmt.height ≤ State.maxDepth := by
    intro stmt hmem
    exact (Nat.zero_add _).trans_le (h stmt hmem)
  have hfuel : start.tokens.length ≤ start.queue.length + 1 := by
    rw [State.length_tokens]
    exact Nat.le_succ _
  obtain ⟨nodes, hnodes, hstatements⟩ := statements_parse script htokens rfl hdepth hfuel
  rw [parse, parseTokens, hstatements]
  exact ⟨herrors, rfl, hnodes, calls_namespaces hnodes _⟩

/-- A variable and a call with named arguments, to be printed and parsed. -/
def sample : List Statement :=
  [.declare true (some ⟨⟨{ text := "float" }, []⟩, none, false⟩) { text := "mean" }
      (.call ⟨{ text := "ta" }, [{ text := "sma" }]⟩
        [.atom (.name ⟨⟨{ text := "close" }, []⟩, by decide⟩),
          .atom (.number ⟨false, { chars := ['1', '4'] }, none, none⟩)] []),
    .call ⟨{ text := "plot" }, []⟩
      [.call ⟨{ text := "math" }, [{ text := "max" }]⟩
        [.atom (.name ⟨⟨{ text := "mean" }, []⟩, by decide⟩),
          .atom (.number ⟨true, { chars := ['1'] }, some { chars := ['5'] }, none⟩)] []]
      [({ text := "title" }, .atom (.string "a \"mean\"\n")),
        ({ text := "color" }, .atom (.color { digits := ['f', 'f', '8', '0', '0', '0'] }))]]

theorem parse_print_sample :
    (∀ stmt ∈ sample, stmt.height ≤ 127) ∧
    (parse (print sample) 0).errors = [] ∧
    (parse (print sample) 0).warnings = [] ∧
    (parse (print sample) 0).program.nodes.map Node.unplaced = sample.map Statement.node ∧
    ((parse (print sample) 0).program.calls.flatMap Call.walk).map Call.namespace? =
      (sample.flatMap Statement.functions).map Chain.namespace? :=
  have h : ∀ stmt ∈ sample, stmt.height ≤ 127 := by decide
  ⟨h, parse_print sample 0 h⟩

end PineCheck.Script
