import PineCheck.Proofs.Agreement
import PineCheck.Proofs.Pieces
import PineCheck.Proofs.Place

/-!
# PineCheck — calls that are not closed

A call whose closing parenthesis is missing does not take the statements below it
along. The first of them stands at the start of a line, and a token there interrupts
any list of arguments. This module goes with such a call from its text to its parse.

* `OpenCall` is a call without its closing parenthesis, and `OpenCall.print` writes it
  above a script.
* `behind_call` — behind the tokens of the call stands the end of the first line, and
  the script below interrupts there.
* `arguments_open` — whether or not a comma stands behind the last argument, the arguments
  are all found and one error is recorded.
* `statement_open` — the search for an arrow goes through the whole script without
  finding one, so the call is not taken for the head of a definition.

Main result:

* `parse_openCall` — an unclosed call costs one error, and apart from places the nodes
  are the call with all its arguments and those of the script below.
-/

namespace PineCheck.Parser

-- ---------------------------------------------------------------------------
-- Where a parse stands
-- ---------------------------------------------------------------------------

namespace State

theorem queue_pop (s : State) (n : Nat) : (s.pop n).queue = s.queue.drop n :=
  rfl

theorem queue_start (lexed : List Lexed) (allowed : Nat) :
    (start lexed allowed).queue = kept lexed :=
  rfl

theorem errors_start (lexed : List Lexed) (allowed : Nat) :
    (start lexed allowed).errors = lexicalErrors lexed :=
  rfl

theorem kept_newline (span : Span) (lexed : List Lexed) :
    kept (⟨.ok .newline, span⟩ :: lexed) = ⟨.newline, span⟩ :: kept lexed :=
  rfl

/-- At the end of a line, the queue behind it decides whether the next statement
interrupts. -/
theorem at_newline {s : State} {span : Span} {queue : Queue}
    (h : s.queue = ⟨.newline, span⟩ :: queue) :
    s.here = span ∧ s.isInterrupted = interrupts true queue := by
  rw [here, isInterrupted, h]
  exact ⟨rfl, rfl⟩

/-- A parenthesis is left behind an error as if the error were recorded outside. -/
theorem leave_record_deeper (s : State) (problem : ParseProblem) :
    (s.deeper.record problem).leave = s.record problem := by
  fun_cases State.record s problem with
  | case1 hhalted => exact congrArg leave (@record_of_isHalted s.deeper hhalted problem)
  | case2 hhalted hwarning => exact congrArg leave (@record_warning s.deeper hhalted _ hwarning)
  | case3 hhalted hwarning attempts errors hlt =>
    exact congrArg leave (@record_last s.deeper hhalted _ hwarning (Nat.le_of_lt_succ hlt))
  | case4 hhalted hwarning attempts errors hlt =>
    exact congrArg leave (@record_error s.deeper hhalted _ hwarning (Nat.le_of_not_lt hlt))

end State

end PineCheck.Parser

namespace PineCheck.Script

open Lexer PineCheck.Parser

-- ---------------------------------------------------------------------------
-- Calls without a closing parenthesis
-- ---------------------------------------------------------------------------

/-- A call that is written without its closing parenthesis, perhaps with a comma behind
its last argument. -/
structure OpenCall where
  function : Chain
  positional : List Expr
  named : List (Word × Expr)
  hasComma : Bool
  comma_behind : hasComma = true → arguments positional named ≠ []

namespace OpenCall

/-- The call with its closing parenthesis. -/
def closed (call : OpenCall) : Expr :=
  .call call.function call.positional call.named

/-- The arguments of the call in order. -/
abbrev given (call : OpenCall) : List (Option Word × Expr) :=
  arguments call.positional call.named

/-- How the call is written: as if it were closed, but for the parenthesis. -/
def chars (call : OpenCall) : List Char :=
  call.closed.chars.dropLast ++ if call.hasComma then [','] else []

/-- Writes the call on a line of its own above a script. -/
def print (call : OpenCall) (script : List Statement) : String :=
  String.ofList (call.chars ++ '\n' :: script.flatMap Statement.chars)

/-- The call as the parser should give it. -/
def node (call : OpenCall) : Node :=
  (Statement.call call.function call.positional call.named).node

/-- The token of the comma behind the last argument. -/
def commaTokens (hasComma : Bool) : List Token :=
  if hasComma then [.punctuation .comma] else []

theorem length_commaTokens (hasComma : Bool) :
    (commaTokens hasComma).length = hasComma.toNat := by
  cases hasComma <;> rfl

/-- The tokens behind the opening parenthesis. -/
def inside (call : OpenCall) : List Token :=
  insideTokens call.given ++ commaTokens call.hasComma

/-- The tokens of the call. -/
def tokens (call : OpenCall) : List Token :=
  call.function.tokens ++ .punctuation .parenLeft :: call.inside

/-- The pieces of the call. -/
def pieces (call : OpenCall) : List Piece :=
  call.function.pieces ++ .mark .parenLeft ::
    (Expr.joinedPieces (Expr.mapArguments Expr.pieces call.given) ++
      if call.hasComma then [.mark .comma] else [])

/-- The text of the call, up to where it is left open. -/
theorem chars_eq (call : OpenCall) : call.chars =
    call.function.chars ++ '(' :: (Expr.joinedChars (Expr.mapArguments Expr.chars call.given) ++
      if call.hasComma then [','] else []) := by
  have hclosed : call.closed.chars = (call.function.chars ++
      '(' :: Expr.joinedChars (Expr.mapArguments Expr.chars call.given)) ++ [')'] := by
    rw [closed, Expr.chars_call, List.append_assoc, List.cons_append]
  rw [chars, hclosed, List.dropLast_concat, List.append_assoc, List.cons_append]

/-- The pieces of the call give its text and its tokens. -/
theorem gives (call : OpenCall) : Gives call.pieces call.chars call.tokens := by
  have hcomma : Gives (if call.hasComma then [.mark .comma] else [])
      (if call.hasComma then [','] else []) (commaTokens call.hasComma) := by
    cases call.hasComma with
    | false => exact .nil
    | true => exact .singleton rfl
  have hjoined : Gives (Expr.joinedPieces (Expr.mapArguments Expr.pieces call.given))
      (Expr.joinedChars (Expr.mapArguments Expr.chars call.given)) (insideTokens call.given) :=
    .joined fun argument _ => .expr argument.2
  rw [chars_eq]
  exact (Gives.chain call.function).append (.cons rfl (hjoined.append hcomma))

-- ---------------------------------------------------------------------------
-- The tokens of the text
-- ---------------------------------------------------------------------------

/-- An unclosed call above a script is read as its tokens. -/
theorem reads (call : OpenCall) (script : List Statement) :
    Reads (call.chars ++ '\n' :: script.flatMap Statement.chars)
      (call.tokens ++ .newline :: (script.flatMap Statement.tokens ++ [.endOfFile])) := by
  have hend := Reads.newline (stops_script script) (reads_script script)
  have hcomma : EndsOperand ((if call.hasComma then [','] else []) ++
        '\n' :: script.flatMap Statement.chars) ∧
      Reads ((if call.hasComma then [','] else []) ++ '\n' :: script.flatMap Statement.chars)
        (commaTokens call.hasComma ++
          .newline :: (script.flatMap Statement.tokens ++ [.endOfFile])) := by
    cases call.hasComma with
    | false => exact ⟨.newline _, hend⟩
    | true => exact ⟨.comma _, .mark .comma (by decide) hend⟩
  have hinside := Reads.arguments (fun (argument : Option Word × Expr)
    (_ : argument ∈ call.given) => readsBack argument.2) hcomma.1 hcomma.2
  have hopen := Reads.mark .parenLeft (by decide) hinside
  rw [chars_eq, tokens, inside]
  simpa [Punctuation.spelling] using Reads.chain call.function (.cons (by decide) _) hopen

/-- The text of a call above a script starts with a name. -/
theorem stops (call : OpenCall) (rest : List Char) : Stops Text.isSpace (call.chars ++ rest) := by
  rw [chars_eq, List.append_assoc]
  exact stops_chain call.function _

/-- The tokens of the text come from a scan that starts at its first character. -/
theorem lex_eq_scan (call : OpenCall) (script : List Statement) :
    lex (call.print script) =
      scan ⟨{}, [0], call.chars ++ '\n' :: script.flatMap Statement.chars⟩ := by
  rw [lex, print, String.toList_ofList, Lexer.tokens, Lexer.start,
    openLine_margin _ (call.stops _), List.nil_append]

/-- All tokens of the call are parsed. -/
theorem isParsed_tokens (call : OpenCall) : call.tokens.all isParsed = true := by
  have hcomma : (commaTokens call.hasComma).all isParsed = true := by
    cases call.hasComma <;> rfl
  rw [tokens, List.all_append, isParsed_chain, List.all_cons, inside, List.all_append,
    isParsed_hereditary.inside, hcomma]
  rfl

end OpenCall

-- ---------------------------------------------------------------------------
-- The end of the first line
-- ---------------------------------------------------------------------------

/-- A script below the end of a line starts with a token that interrupts. -/
theorem interrupts_margin {script : List Statement} (hne : script ≠ []) (p : Position) :
    interrupts true (State.kept (scan ⟨p.after ['\n'], [0], script.flatMap Statement.chars⟩)) =
      true := by
  obtain ⟨stmt, script, rfl⟩ := List.exists_cons_of_ne_nil hne
  obtain ⟨piece, ps, t, hline, htoken, ht⟩ := stmt.exists_piece
  obtain ⟨hchars, htokens⟩ := Gives.line stmt
  have hreads := reads_script (stmt :: script) (p.after ['\n'])
  have hcs : (stmt :: script).flatMap Statement.chars =
      piece.chars ++ (charsOf ps ++ '\n' :: script.flatMap Statement.chars) := by
    rw [List.flatMap_cons, ← hchars, hline, List.append_assoc]
    exact List.append_assoc ..
  have hts : (stmt :: script).flatMap Statement.tokens =
      t :: (tokensOf ps ++ .newline :: script.flatMap Statement.tokens) := by
    rw [List.flatMap_cons, ← htokens, hline, List.append_assoc, tokensOf, List.filterMap_cons,
      htoken]
    rfl
  rw [hcs, hts] at hreads
  rw [hcs, scan_piece htoken hreads, State.kept, List.filterMap_cons]
  rcases ht with rfl | ⟨text, rfl⟩
  · rfl
  · rfl

/-- **Behind the tokens of the call stands the end of the first line**, and the script below
it interrupts there. -/
theorem OpenCall.behind_call (call : OpenCall) {script : List Statement} (hne : script ≠ [])
    (allowed : Nat) :
    ((State.start (lex (call.print script)) allowed).pop call.tokens.length).here.line = 1 ∧
    ((State.start (lex (call.print script)) allowed).pop call.tokens.length).isInterrupted =
      true := by
  obtain ⟨hchars, htokens⟩ := call.gives
  have hreads : (scan ⟨{}, [0], charsOf call.pieces ++
      '\n' :: script.flatMap Statement.chars⟩).map Lexed.reading =
        (tokensOf call.pieces).map .ok ++
          (.newline :: (script.flatMap Statement.tokens ++ [Token.endOfFile])).map .ok := by
    rw [hchars, htokens, call.reads script, List.map_append]
  obtain ⟨found, hfound, hreading, -⟩ := scan_pieces call.pieces {} hreads
  rw [hchars] at hfound
  rw [htokens] at hreading
  have hlength : (State.kept found).length = call.tokens.length := by
    rw [← (kept_eq hreading call.isParsed_tokens).1, List.length_map]
  rw [scan_newline, openLine_margin _ (stops_script script), List.nil_append] at hfound
  -- as many tokens are popped as the scan has found in the call
  have hqueue : ((State.start (lex (call.print script)) allowed).pop call.tokens.length).queue =
      ⟨.newline, Span.between (Position.after {} call.chars)
          ((Position.after {} call.chars).after ['\n'])⟩ ::
        State.kept (scan ⟨(Position.after {} call.chars).after ['\n'], [0],
          script.flatMap Statement.chars⟩) := by
    rw [State.queue_pop, State.queue_start, call.lex_eq_scan, hfound, State.kept_append, ← hlength,
      List.drop_left, State.kept_newline]
  obtain ⟨hhere, hinterrupted⟩ := State.at_newline hqueue
  rw [hhere, hinterrupted]
  refine ⟨?_, interrupts_margin hne _⟩
  -- the call stays on its line, which is the first one
  show (Position.after {} call.chars).line = 1
  rw [Position.after_line, ← hchars, List.count_eq_zero.mpr (newline_notMem_charsOf _)]

end PineCheck.Script

namespace PineCheck.Parser

open PineCheck.Script

-- ---------------------------------------------------------------------------
-- Arguments
-- ---------------------------------------------------------------------------

/-- Where the next statement starts, the arguments end and the missing parenthesis is
recorded. -/
theorem arguments_interrupted {fuel position : Nat} {hasNamed afterComma : Bool} {s : State}
    (hbreak : s.isInterrupted = true) (hhalted : s.isHalted = false) :
    arguments (fuel + 1) hasNamed afterComma position s =
      ([], [], s.record .expectedParenthesisBeforeStatement) := by
  rw [arguments, if_neg (ne_true_of_eq_false hhalted), if_pos hbreak]

/-- The arguments of a call that is not closed are found one after the other, and the
missing parenthesis is recorded behind them. -/
theorem arguments_open {given : List (Option Word × Expr)} {hasComma : Bool}
    (hcomma : hasComma = true → given ≠ []) {fuel : Nat} {s behind : State} {rest : List Token}
    (h : s.tokens = insideTokens given ++ (OpenCall.commaTokens hasComma ++ .newline :: rest))
    (hbehind : s.pop ((insideTokens given).length + hasComma.toNat) = behind)
    (hbreak : behind.isInterrupted = true) (hordered : Ordered false given)
    (hhalted : s.isHalted = false)
    (hdepth : ∀ argument ∈ given, s.depth + argument.2.height ≤ State.maxDepth)
    (hfuel : 2 * (insideTokens given).length + 2 ≤ fuel) :
    ∃ found : List Argument,
      Argument.unplacedAll found =
        Expr.placeArguments 0 (Expr.mapArguments Expr.value given) ∧
      arguments fuel false false 0 s =
        (found, [], behind.record .expectedParenthesisBeforeStatement) := by
  have hhalted' : behind.isHalted = false := by
    rw [← hbehind, State.isHalted_pop, hhalted]
  have hne : Token.newline ≠ .punctuation .comma := nofun
  exact arguments_list (fun argument _ => parses argument.2) hasComma hcomma hne
    (fun _ => .inr ⟨rfl, hbreak⟩) (fun _ _ _ => arguments_interrupted hbreak hhalted') h hbehind
    hordered nofun hhalted hdepth hfuel

-- ---------------------------------------------------------------------------
-- Calls and statements
-- ---------------------------------------------------------------------------

/-- The next statement is an unclosed call, the statement below it interrupts, and the parse
has room for the call and for one more error. -/
structure Before (call : OpenCall) (s : State) (rest : List Token) : Prop where
  tokens_eq : s.tokens = call.tokens ++ .newline :: rest
  interrupted : (s.pop call.tokens.length).isInterrupted = true
  running : s.isHalted = false
  hasAttempt : s.attempts < s.allowed
  hasRoom : s.depth + call.closed.height ≤ State.maxDepth

/-- The state behind an unclosed call. -/
def recovered (call : OpenCall) (s : State) : State :=
  (s.pop call.tokens.length).record .expectedParenthesisBeforeStatement

namespace Before

variable {call : OpenCall} {s : State} {rest : List Token}

/-- In front stand the name, the parenthesis and what is behind it. -/
theorem tokens_front (h : Before call s rest) : s.tokens =
    call.function.tokens ++ .punctuation .parenLeft :: (call.inside ++ .newline :: rest) := by
  rw [h.tokens_eq, OpenCall.tokens, List.append_assoc, List.cons_append]

theorem front?_eq (h : Before call s rest) :
    s.front? = some (.identifier call.function.first.text) := by
  rw [State.front?_eq, h.tokens_front]
  rfl

/-- The recovery records one error and goes on at the end of the line. -/
theorem recovered_eq (h : Before call s rest) : recovered call s =
    { s.pop call.tokens.length with
      errors := s.errors ++ [⟨.expectedParenthesisBeforeStatement, (s.pop call.tokens.length).here⟩]
      attempts := s.attempts + 1 } :=
  @State.record_error (s.pop call.tokens.length) (ne_true_of_eq_false h.running) _
    (by decide) h.hasAttempt

/-- The missing parenthesis is all that is recorded, also when more tokens are taken. -/
theorem recorded (h : Before call s rest) (n : Nat) :
    ((recovered call s).pop n).errors = s.errors ++
        [⟨.expectedParenthesisBeforeStatement, (s.pop call.tokens.length).here⟩] ∧
      ((recovered call s).pop n).warnings = s.warnings ∧
      ((recovered call s).pop n).attempts = s.attempts + 1 := by
  rw [h.recovered_eq]
  exact ⟨rfl, rfl, rfl⟩

/-- Behind the recovery the line ends. -/
theorem tokens_recovered (h : Before call s rest) :
    (recovered call s).tokens = .newline :: rest := by
  rw [h.recovered_eq]
  exact State.tokens_behind h.tokens_eq

/-- The recovery does not halt the parse. -/
theorem isHalted_recovered (h : Before call s rest) : (recovered call s).isHalted = false := by
  rw [h.recovered_eq]
  exact h.running

theorem length_queue (h : Before call s rest) :
    s.queue.length = call.tokens.length + (rest.length + 1) := by
  rw [← State.length_tokens, h.tokens_eq, List.length_append, List.length_cons]

end Before

variable {call : OpenCall} {s : State}

/-- The call is found with all its arguments, and the missing parenthesis is recorded
behind them. -/
theorem call_open {fuel : Nat} {rest : List Token} (h : Before call s rest)
    (hfuel : 2 * call.tokens.length + 2 ≤ fuel) :
    ∃ found : Call, (Node.call found).unplaced = call.node ∧
      Parser.call fuel s = (found, [], recovered call s) := by
  have hlength : call.tokens.length = call.function.tokens.length + 1 +
      ((insideTokens call.given).length + call.hasComma.toNat) := by
    rw [OpenCall.tokens, List.length_append, List.length_cons, OpenCall.inside, List.length_append,
      OpenCall.length_commaTokens]
    omega
  have hfront : s.tokens = call.function.tokens ++ .punctuation .parenLeft ::
      (insideTokens call.given ++ (OpenCall.commaTokens call.hasComma ++ .newline :: rest)) := by
    rw [h.tokens_front, OpenCall.inside, List.append_assoc]
  -- the tokens inside lead up to the end of the line
  have hbehind : (s.pop (call.function.tokens.length + 1)).deeper.pop
      ((insideTokens call.given).length + call.hasComma.toNat) =
        (s.pop call.tokens.length).deeper := by
    rw [hlength, ← State.pop_pop s (call.function.tokens.length + 1)]
    rfl
  have hcomma : call.hasComma = true → call.given ≠ [] := call.comma_behind
  have hordered : Ordered false call.given := ordered_arguments call.positional call.named
  -- there is room for the call, and one level less for its arguments
  obtain ⟨hlower, hroom⟩ := room_inside h.hasRoom (call.function.tokens.length + 1)
  obtain ⟨fuel, rfl⟩ : ∃ n, fuel = n + 1 := ⟨fuel - 1, by omega⟩
  obtain ⟨found, hfound, harguments⟩ : ∃ found : List Argument,
      Argument.unplacedAll found = Expr.placeArguments 0
        (Expr.mapArguments Expr.value call.given) ∧
      arguments fuel false false 0 (s.pop (call.function.tokens.length + 1)).deeper =
        (found, [], _) :=
    arguments_open hcomma (tokens_inside hfront) hbehind h.interrupted hordered h.running hroom
      (by omega)
  refine ⟨⟨call.function.text, found, (recovered call s).spanFrom s.here⟩, ?_, ?_⟩
  · rw [Node.unplaced, Call.unplaced, hfound]
    rfl
  · rw [call_eq hfront hlower, harguments]
    simp only [State.leave_record_deeper]
    rfl

/-- A call that is not closed is the only one on its line. -/
theorem scanLine_open {rest : List Token} (h : Before call s rest) :
    ∃ found : Call, (Node.call found).unplaced = call.node ∧
      s.scanLine = ([found], recovered call s) := by
  have hlength := h.length_queue
  obtain ⟨found, hfound, hcall⟩ : ∃ found : Call, (Node.call found).unplaced = call.node ∧
      Parser.call (fuelFor s.queue) s = (found, [], recovered call s) :=
    call_open h (by rw [fuelFor]; omega)
  refine ⟨found, hfound, ?_⟩
  rw [State.scanLine, scanLine, if_neg (ne_true_of_eq_false h.running), State.front?_eq,
    h.tokens_front]
  show (if isCallAhead s.queue = true then _ else _) = _
  rw [if_pos (isCallAhead_call h.tokens_front), State.callWithInner, hcall, hlength]
  simp only [scanLine_newline h.tokens_recovered h.isHalted_recovered, ← Nat.add_assoc]
  rfl

section Below

variable {script : List Statement}

/-- **A call that is not closed is a statement.** The search for an arrow goes through the
open parenthesis and all statements below it. -/
theorem statement_open
    (h : Before call s (script.flatMap Statement.tokens ++ [.endOfFile])) :
    ∃ node : Node, node.unplaced = call.node ∧ statement s = ([node], recovered call s) := by
  obtain ⟨found, hfound, hscan⟩ := scanLine_open h
  have hcomma : Skips (OpenCall.commaTokens call.hasComma) := by
    cases call.hasComma with
    | false => exact .nil
    | true => exact .cons nofun nofun nofun .nil
  have hbelow : Skips (.newline :: script.flatMap Statement.tokens) :=
    .cons nofun nofun nofun (.flatMap fun stmt _ => .statement stmt)
  -- no arrow stands inside or below, so no definition is ahead
  have hskips : Skips (call.inside ++ .newline :: script.flatMap Statement.tokens) :=
    ((Skips.hereditary.inside call.given).append hcomma).append hbelow
  have hfront : s.tokens = call.function.tokens ++ .punctuation .parenLeft ::
      ((call.inside ++ .newline :: script.flatMap Statement.tokens) ++ [.endOfFile]) := by
    rw [h.tokens_front, List.append_assoc, List.cons_append]
  refine ⟨.call found, hfound, ?_⟩
  rw [statement, State.front?_eq, hfront]
  show (if isDefinitionAhead s.queue = true then _ else
    if (declaredType? s.queue).isSome = true then _ else _) = _
  rw [isDefinitionAhead_open hfront hskips, declaredType?_call hfront, hscan]
  rfl

/-- The statements below a call that is not closed are found as if it were not there. -/
theorem statements_open {fuel : Nat}
    (h : Before call s (script.flatMap Statement.tokens ++ [.endOfFile]))
    (hbelow : ∀ stmt ∈ script, s.depth + stmt.height ≤ State.maxDepth)
    (hfuel : s.tokens.length ≤ fuel) :
    ∃ nodes : List Node, nodes.map Node.unplaced = call.node :: script.map Statement.node ∧
      statements fuel s =
        (nodes, (recovered call s).pop ((script.flatMap Statement.tokens).length + 1)) := by
  obtain ⟨node, hnode, hstatement⟩ := statement_open h
  have hlength : (s.tokens).length = call.tokens.length +
      ((script.flatMap Statement.tokens ++ [Token.endOfFile]).length + 1) := by
    rw [h.tokens_eq, List.length_append, List.length_cons]
  have hpos : 0 < call.tokens.length := by
    rw [OpenCall.tokens, List.length_append, List.length_cons]
    omega
  obtain ⟨fuel, rfl⟩ : ∃ n, fuel = n + 2 := ⟨fuel - 2, by omega⟩
  have htokens : ((recovered call s).pop 1).tokens =
      script.flatMap Statement.tokens ++ [.endOfFile] := by
    rw [State.tokens_pop, h.tokens_recovered, List.drop_one, List.tail_cons]
  have hdepth : ∀ stmt ∈ script,
      ((recovered call s).pop 1).depth + stmt.height ≤ State.maxDepth := by
    rw [h.recovered_eq]
    exact hbelow
  obtain ⟨nodes, hnodes, hothers⟩ : ∃ nodes : List Node,
      nodes.map Node.unplaced = script.map Statement.node ∧
      statements fuel ((recovered call s).pop 1) = (nodes, _) :=
    statements_parse script htokens h.isHalted_recovered hdepth (by rw [htokens]; omega)
  -- the end of the line is passed over, and the others are parsed behind it
  have hnewline : statements (fuel + 1) (recovered call s) =
      statements fuel ((recovered call s).pop 1) := by
    rw [statements, if_neg (ne_true_of_eq_false h.isHalted_recovered), State.front?_eq,
      h.tokens_recovered]
    rfl
  refine ⟨node :: nodes, ?_, ?_⟩
  · rw [List.map_cons, hnode, hnodes]
  · rw [statements, if_neg (ne_true_of_eq_false h.running), h.front?_eq, hstatement]
    simp only [hnewline, hothers, State.pop_pop, Nat.add_comm 1]
    rfl

end Below

end PineCheck.Parser

namespace PineCheck.Script

open PineCheck.Parser

-- ---------------------------------------------------------------------------
-- The parse of the text
-- ---------------------------------------------------------------------------

/-- Apart from places, the nodes of a printed script are its statements. -/
theorem nodes_print (script : List Statement) (allowed : Nat)
    (h : ∀ stmt ∈ script, stmt.height ≤ 127) :
    (parse (print script) allowed).program.nodes.map Node.unplaced =
      script.map Statement.node := by
  let start := State.start (lex (print script)) allowed
  have htokens : start.tokens = script.flatMap Statement.tokens ++ [.endOfFile] :=
    (kept_eq (lex_print script) (isParsed_script script)).1
  have hdepth : ∀ stmt ∈ script, start.depth + stmt.height ≤ State.maxDepth := by
    intro stmt hmem
    exact (Nat.zero_add _).trans_le (h stmt hmem)
  obtain ⟨nodes, hnodes, hstatements⟩ := statements_parse script htokens rfl hdepth
    (start.length_tokens.trans_le (Nat.le_succ _))
  rw [parse, parseTokens, hstatements]
  exact hnodes

/-- The tokens of a call above a script are all kept, and none is a fault. -/
theorem OpenCall.kept_print (call : OpenCall) (script : List Statement) :
    (State.kept (lex (call.print script))).map Placed.token =
        call.tokens ++ .newline :: (script.flatMap Statement.tokens ++ [.endOfFile]) ∧
      State.lexicalErrors (lex (call.print script)) = [] := by
  refine kept_eq ?_ ?_
  · rw [call.lex_eq_scan]
    exact call.reads script _
  · rw [List.all_append, call.isParsed_tokens, List.all_cons, isParsed_script]
    rfl

/-- What a parse returns is in the state that its statements lead to. -/
theorem parse_eq {source : String} {allowed : Nat} {nodes : List Node} {s : State}
    (h : statements ((State.start (lex source) allowed).queue.length + 1)
      (State.start (lex source) allowed) = (nodes, s)) :
    (parse source allowed).program.nodes = nodes ∧ (parse source allowed).errors = s.errors ∧
      (parse source allowed).warnings = s.warnings ∧
      (parse source allowed).attempts = s.attempts := by
  rw [parse, parseTokens, h]
  exact ⟨rfl, rfl, rfl, rfl⟩

/-- A parse of an unclosed call above a script starts before the call. -/
theorem OpenCall.before (call : OpenCall) {script : List Statement} {allowed : Nat}
    (hne : script ≠ []) (hheight : call.closed.height ≤ 127) (hallowed : 1 ≤ allowed) :
    Before call (State.start (lex (call.print script)) allowed)
      (script.flatMap Statement.tokens ++ [.endOfFile]) where
  tokens_eq := by
    rw [State.tokens, State.queue_start]
    exact (call.kept_print script).1
  interrupted := (call.behind_call hne allowed).2
  running := rfl
  hasAttempt := hallowed
  hasRoom := (Nat.zero_add _).trans_le hheight

/-- **An unclosed call does not damage the script below it.** One error asks for the missing
parenthesis on the line of the call, and apart from places the nodes are the call with all
its arguments and the nodes of the script alone. -/
theorem parse_openCall (call : OpenCall) {script : List Statement} {allowed : Nat}
    (hne : script ≠ []) (hheight : call.closed.height ≤ 127)
    (hbelow : ∀ stmt ∈ script, stmt.height ≤ 127) (hallowed : 1 ≤ allowed) :
    (∃ error : ParseError, (parse (call.print script) allowed).errors = [error] ∧
      error.problem.code = .missingClosingParen ∧
      error.problem.recovery = .insertMissingToken ∧ error.span.line = 1) ∧
    (parse (call.print script) allowed).warnings = [] ∧
    (parse (call.print script) allowed).attempts = 1 ∧
    (parse (call.print script) allowed).program.nodes.map Node.unplaced =
      call.node :: (parse (print script) allowed).program.nodes.map Node.unplaced := by
  have hbefore := call.before hne hheight hallowed
  have hdepth : ∀ stmt ∈ script,
      (State.start (lex (call.print script)) allowed).depth + stmt.height ≤ State.maxDepth := by
    intro stmt hmem
    exact (Nat.zero_add _).trans_le (hbelow stmt hmem)
  obtain ⟨nodes, hnodes, hstatements⟩ := statements_open hbefore hdepth
    ((State.length_tokens _).trans_le (Nat.le_succ _))
  obtain ⟨hprogram, herrors, hwarnings, hattempts⟩ := parse_eq hstatements
  -- the error of the recovery is the only one, since the lexer has none
  obtain ⟨herrors', hwarnings', hattempts'⟩ :=
    hbefore.recorded ((script.flatMap Statement.tokens).length + 1)
  rw [State.errors_start, (call.kept_print script).2, List.nil_append] at herrors'
  rw [hprogram, hnodes, nodes_print script allowed hbelow]
  exact ⟨⟨_, herrors.trans herrors', rfl, rfl, (call.behind_call hne allowed).1⟩,
    hwarnings.trans hwarnings', hattempts.trans hattempts', rfl⟩

/-- A call that is left open behind a comma. -/
def openSample : OpenCall where
  function := ⟨{ text := "label" }, []⟩
  positional := [.atom (.name ⟨⟨{ text := "high" }, []⟩, by decide⟩),
    .call ⟨{ text := "strategy" }, [{ text := "risk" }]⟩
      [.atom (.number ⟨true, { chars := ['2'] }, some { chars := ['7'] }, none⟩)] []]
  named := [({ text := "text" }, .atom (.string "a"))]
  hasComma := true
  comma_behind _ := List.cons_ne_nil _ _

/-- A declaration below it. -/
def belowSample : List Statement :=
  [.declare false none { text := "x" } (.call ⟨{ text := "f" }, []⟩ [] [])]

example : (openSample.print belowSample).toList =
    "label(high, strategy.risk(-2.7), text = \"a\",\nx = f()\n".toList := by
  decide +kernel

/-- A call with an argument and a comma, above two statements. -/
theorem parse_openCall_sample :
    belowSample ≠ [] ∧ openSample.closed.height ≤ 127 ∧
    (∀ stmt ∈ belowSample, stmt.height ≤ 127) ∧ 1 ≤ 1 ∧
    (∃ error : ParseError, (parse (openSample.print belowSample) 1).errors = [error] ∧
      error.problem.code = .missingClosingParen ∧
      error.problem.recovery = .insertMissingToken ∧ error.span.line = 1) ∧
    (parse (openSample.print belowSample) 1).warnings = [] ∧
    (parse (openSample.print belowSample) 1).attempts = 1 ∧
    (parse (openSample.print belowSample) 1).program.nodes.map Node.unplaced =
      openSample.node :: (parse (print belowSample) 1).program.nodes.map Node.unplaced :=
  have hne : belowSample ≠ [] := List.cons_ne_nil _ _
  have hheight : openSample.closed.height ≤ 127 := by decide
  have hbelow : ∀ stmt ∈ belowSample, stmt.height ≤ 127 := by decide
  ⟨hne, hheight, hbelow, le_rfl, parse_openCall openSample hne hheight hbelow le_rfl⟩

end PineCheck.Script
