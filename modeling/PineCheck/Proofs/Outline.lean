import PineCheck.Proofs.Lockstep

/-!
# PineCheck — what a parse sees of the places of its tokens

A parse copies the spans of its tokens into the tree and into its errors, but it decides
what to do by the tokens alone, with one exception: it asks whether a token starts in the
first column. The `outline` of a token is what is left of it when its span is cut down to
its line and, beside that, the answer to this question. Nothing is asked about the columns
of line breaks and other marks of layout, so an outline does not keep them.

Two states are `Parallel` when they see the same outlines and have recorded the same on the
same lines. This module says that everything that is read from parallel states is the same,
and that taking tokens and recording problems keeps them parallel.

* `Value.onLine`, `Node.onLine` and their like cut trees down to their lines.
* `interrupts_outline` — the only question about columns is answered by outlines.
* `Parallel.pop`, `Parallel.record` — the two steps that all others are made of.
-/

namespace PineCheck

-- ---------------------------------------------------------------------------
-- Trees on their lines
-- ---------------------------------------------------------------------------

/-- A span that has only its line left. -/
def Span.onLine (span : Span) : Span :=
  ⟨0, 0, span.line, 0⟩

/-- A literal on its line. -/
def Literal.onLine (literal : Literal) : Literal :=
  { literal with span := literal.span.onLine }

/-- A name on its line. -/
def Identifier.onLine (identifier : Identifier) : Identifier :=
  { identifier with span := identifier.span.onLine }

mutual

/-- A value on its lines. -/
def Value.onLine : Value → Value
  | .literal literal => .literal literal.onLine
  | .identifier identifier => .identifier identifier.onLine
  | .call call => .call call.onLine

/-- A call on its lines. -/
def Call.onLine : Call → Call
  | ⟨name, arguments, span⟩ => ⟨name, Argument.allOnLine arguments, span.onLine⟩

/-- Arguments on their lines. -/
def Argument.allOnLine : List Argument → List Argument
  | [] => []
  | argument :: arguments => argument.onLine :: Argument.allOnLine arguments

/-- An argument on its lines. -/
def Argument.onLine : Argument → Argument
  | ⟨name, value, position, isExpression, span⟩ =>
    ⟨name.map Identifier.onLine, value.onLine, position, isExpression, span.onLine⟩

end

/-- The list of arguments is gone through one by one. -/
theorem Argument.allOnLine_eq_map (arguments : List Argument) :
    Argument.allOnLine arguments = arguments.map Argument.onLine := by
  induction arguments with
  | nil => rw [Argument.allOnLine, List.map_nil]
  | cons argument arguments ih => rw [Argument.allOnLine, ih, List.map_cons]

/-- A declaration on its lines. -/
def Declaration.onLine (declaration : Declaration) : Declaration :=
  { declaration with
    name := declaration.name.onLine
    value := declaration.value.map Value.onLine
    span := declaration.span.onLine }

/-- A statement on its lines. -/
def Node.onLine : Node → Node
  | .call c => .call c.onLine
  | .declaration d => .declaration d.onLine

/-- A problem on its line. -/
def ParseError.onLine (error : ParseError) : ParseError :=
  { error with span := error.span.onLine }

/-- A parse on its lines: everything but columns and offsets. -/
def Parsed.onLine (parsed : Parsed) : Parsed :=
  { parsed with
    program := ⟨parsed.program.nodes.map Node.onLine, parsed.program.span.map Span.onLine⟩
    errors := parsed.errors.map ParseError.onLine
    warnings := parsed.warnings.map ParseError.onLine }

@[simp] theorem Span.onLine_through (span other : Span) :
    (span.through other).onLine = span.onLine := by
  unfold Span.through
  split <;> rfl

namespace Parser

-- ---------------------------------------------------------------------------
-- Queues
-- ---------------------------------------------------------------------------

section Queues

/-! Lookahead asks for tokens only, so it sees the same in a queue with other spans. -/

variable {f : Placed → Placed} (hf : ∀ placed, (f placed).token = placed.token) (q : Queue)

include hf

/-- What is looked for at the front of a queue is a token. -/
theorem startsWith_map (token : Token) : startsWith (q.map f) token = startsWith q token := by
  cases q with
  | nil => rfl
  | cons placed rest => simp [startsWith, hf]

/-- The rest of a name is cut off at the same place. -/
theorem nameTail_map : nameTail (q.map f) = ((nameTail q).1.map f, (nameTail q).2.map f) := by
  fun_induction nameTail q with
  | case1 dot word rest text hword hdot taken rest' htail ih =>
    rw [htail] at ih
    simp [nameTail, hf, hdot, hword, ih]
  | case2 dot word rest hnot =>
    simp only [List.map_cons]
    rw [nameTail]
    simp [hf]
  | case3 q hq =>
    rcases q with _ | ⟨first, _ | ⟨second, rest⟩⟩
    · rfl
    · rfl
    -- two tokens always make one of the cases before
    · exact absurd rfl (hq first second rest)

/-- A name is cut off at the same place. -/
theorem name_map : name (q.map f) = ((name q).1.map f, (name q).2.map f) := by
  fun_cases name q with
  | case1 => rfl
  | case2 word rest text htext taken rest' htail =>
    simp [name, hf, htext, nameTail_map hf, htail]
  | case3 word rest hnot =>
    rw [List.map_cons, name]
    simp [hf]

/-- The type arguments behind an opening angle bracket end at the same place. -/
theorem genericTail?_map :
    genericTail? (q.map f) = (genericTail? q).map (Prod.map (List.map f) (List.map f)) := by
  fun_induction genericTail? q with
  | case1 => rfl
  | case2 placed rest h => simp [genericTail?, hf, h]
  | case3 placed rest text h ih => simp [genericTail?, hf, h, ih, Function.comp_def]
  | case4 placed rest h ih | case5 placed rest h ih =>
    simp [genericTail?, hf, h, ih, Function.comp_def]
  | case6 placed rest =>
    rw [List.map_cons, genericTail?]
    simp [hf]

/-- The type arguments of a name are cut off at the same place. -/
theorem generics_map : generics (q.map f) = ((generics q).1.map f, (generics q).2.map f) := by
  fun_cases generics q with
  | case1 => rfl
  | case2 placed rest hless taken rest' htail =>
    simp [generics, hf, hless, genericTail?_map hf, htail]
  | case3 placed rest hless htail => simp [generics, hf, hless, genericTail?_map hf, htail]
  | case4 placed rest hnot => simp [generics, hf, hnot]

/-- The same queues start with a call. -/
theorem isCallAhead_map : isCallAhead (q.map f) = isCallAhead q := by
  unfold isCallAhead
  rw [name_map hf]
  rcases name q with ⟨words, rest⟩
  cases words with
  | nil => rfl
  | cons word words =>
    show startsWith (generics (rest.map f)).2 _ = startsWith (generics rest).2 _
    rw [generics_map hf, startsWith_map hf]

/-- The same parentheses have an arrow behind them. -/
theorem arrowBehind_map (depth : Nat) : arrowBehind depth (q.map f) = arrowBehind depth q := by
  induction q generalizing depth with
  | nil => rfl
  | cons placed rest ih =>
    rw [List.map_cons, arrowBehind, arrowBehind, hf]
    simp only [ih, startsWith_map hf]

/-- The same queues start with the definition of a function. -/
theorem isDefinitionAhead_map : isDefinitionAhead (q.map f) = isDefinitionAhead q := by
  unfold isDefinitionAhead
  rw [name_map hf]
  rcases name q with ⟨words, rest⟩
  cases words with
  | nil => rfl
  | cons word words =>
    show (startsWith (rest.map f) _ && arrowBehind 0 (rest.map f)) = _
    rw [startsWith_map hf, arrowBehind_map hf]

/-- The mark of an array is cut off at the same place. -/
theorem arrayMark_map : arrayMark (q.map f) = ((arrayMark q).1.map f, (arrayMark q).2.map f) := by
  rcases q with _ | ⟨left, _ | ⟨right, rest⟩⟩
  · rfl
  · rfl
  · simp only [List.map_cons, arrayMark, hf]
    split <;> rfl

/-- The same queues start with an assignment. -/
theorem startsAssignment_map : startsAssignment (q.map f) = startsAssignment q := by
  rcases q with _ | ⟨word, _ | ⟨op, rest⟩⟩
  · rfl
  · rfl
  · simp only [List.map_cons, startsAssignment, hf]

/-- The type of a declaration is the same part of the queue. -/
theorem declaredType?_map : declaredType? (q.map f) = (declaredType? q).map (List.map f) := by
  unfold declaredType?
  rw [name_map hf]
  rcases name q with ⟨words, rest⟩
  cases words with
  | nil => rfl
  | cons word words =>
    -- whether a variable without a type is given a value is seen from one token
    have hhead : (rest.map f).head?.any (fun placed => assigns placed.token) =
        rest.head?.any fun placed => assigns placed.token := by
      cases rest with
      | nil => rfl
      | cons placed rest => simp [hf]
    simp only [List.map_cons, hhead, generics_map hf, arrayMark_map hf, startsAssignment_map hf,
      List.length_cons, List.length_map]
    split
    · split <;> rfl
    · split
      · simp
      · rfl

/-- The text of tokens does not depend on where they stand. -/
theorem textOf_map : textOf (q.map f) = textOf q := by
  simp only [textOf, List.map_map, Function.comp_def, hf]

/-- What is taken as long as the tokens allow it has the same length. -/
theorem takeWhile_map (p : Token → Bool) :
    ((q.map f).takeWhile fun placed => p placed.token) =
      (q.takeWhile fun placed => p placed.token).map f := by
  rw [List.takeWhile_map]
  simp only [Function.comp_def, hf]

/-- Blocks have the same length. -/
theorem blockLength_map (depth : Nat) : blockLength depth (q.map f) = blockLength depth q := by
  induction q generalizing depth with
  | nil => rfl
  | cons placed rest ih =>
    rw [List.map_cons, blockLength, blockLength, hf]
    simp only [ih]

/-- The head of a definition has the same length. -/
theorem headLength_map : headLength (q.map f) = headLength q := by
  induction q with
  | nil => rfl
  | cons placed rest ih => rw [List.map_cons, headLength, headLength, hf, ih]

/-- Brackets close at the same place. -/
theorem bracketsLength_map (depth : Nat) :
    bracketsLength depth (q.map f) = bracketsLength depth q := by
  induction q generalizing depth with
  | nil => rfl
  | cons placed rest ih =>
    rw [List.map_cons, bracketsLength, bracketsLength, hf]
    simp only [ih]

end Queues

/-- What a parse sees of a token and its place: the line, and whether it starts in the first
column, which is not asked about marks of layout. -/
def Placed.outline (placed : Placed) : Placed :=
  ⟨placed.token,
    ⟨0, 0, placed.span.line, if isLayout placed.token || placed.span.column ≠ 0 then 1 else 0⟩⟩

theorem Placed.outline_token (placed : Placed) : placed.outline.token = placed.token := rfl

/-- A statement interrupts an argument list only if it starts in the first column, and the outline
of a token keeps this much of its column. -/
theorem interrupts_outline (hasBreak : Bool) (q : Queue) :
    interrupts hasBreak (q.map Placed.outline) = interrupts hasBreak q := by
  induction q generalizing hasBreak with
  | nil => rfl
  | cons placed rest ih =>
    -- the marks of layout are left out of this: they stand in no column of their own
    have hcolumn : isLayout placed.token = false →
        decide (placed.outline.span.column = 0) = decide (placed.span.column = 0) := by
      intro hlayout
      by_cases hzero : placed.span.column = 0 <;> simp [Placed.outline, hlayout, hzero]
    rw [List.map_cons, interrupts, interrupts, Placed.outline_token]
    split
    · exact ih true
    · exact ih hasBreak
    · exact ih hasBreak
    · rfl
    · rfl
    · rw [hcolumn]
      rw [isLayout] <;> assumption

/-- An argument list that is left out ends at the same place. -/
theorem closingLength_outline (depth : Nat) (q : Queue) :
    closingLength depth (q.map Placed.outline) = closingLength depth q := by
  induction q generalizing depth with
  | nil => rfl
  | cons placed rest ih =>
    have hinterrupts := interrupts_outline false (placed :: rest)
    rw [List.map_cons] at hinterrupts ⊢
    rw [closingLength, closingLength, hinterrupts, Placed.outline_token]
    simp only [ih]

-- ---------------------------------------------------------------------------
-- States
-- ---------------------------------------------------------------------------

@[simp] theorem State.onLine_spanFrom (s : State) (start : Span) :
    (s.spanFrom start).onLine = start.onLine :=
  Span.onLine_through start s.last

/-- Two parses see the same and have recorded the same, up to columns and offsets. -/
structure Parallel (s t : State) : Prop where
  queue : t.queue.map Placed.outline = s.queue.map Placed.outline
  last : t.last.onLine = s.last.onLine
  errors : t.errors.map ParseError.onLine = s.errors.map ParseError.onLine
  warnings : t.warnings.map ParseError.onLine = s.warnings.map ParseError.onLine
  attempts : t.attempts = s.attempts
  allowed : t.allowed = s.allowed
  isHalted : t.isHalted = s.isHalted
  depth : t.depth = s.depth

namespace Parallel

variable {s t : State}

/-- What is the same for a queue and its outline is the same for both parses. -/
theorem sees {α : Type} {g : Queue → α} (h : Parallel s t)
    (hg : ∀ q : Queue, g (q.map Placed.outline) = g q) : g t.queue = g s.queue := by
  rw [← hg t.queue, h.queue, hg]

theorem length_eq (h : Parallel s t) : t.queue.length = s.queue.length :=
  h.sees fun _ => List.length_map _

theorem front? (h : Parallel s t) : t.front? = s.front? := by
  refine h.sees (g := fun q => q.head?.map Placed.token) fun q => ?_
  rw [List.head?_map, Option.map_map]
  rfl

theorem isCallAhead (h : Parallel s t) : isCallAhead t.queue = isCallAhead s.queue :=
  h.sees (isCallAhead_map Placed.outline_token)

theorem isDefinitionAhead (h : Parallel s t) :
    isDefinitionAhead t.queue = isDefinitionAhead s.queue :=
  h.sees (isDefinitionAhead_map Placed.outline_token)

theorem isInterrupted (h : Parallel s t) : t.isInterrupted = s.isInterrupted :=
  h.sees (interrupts_outline false)

/-- The words of a name at the front, as far as both parses see them. -/
theorem name (h : Parallel s t) :
    (name t.queue).1.length = (name s.queue).1.length ∧
      textOf (name t.queue).1 = textOf (name s.queue).1 := by
  refine ⟨h.sees (g := fun q => (Parser.name q).1.length) fun q => ?_,
    h.sees (g := fun q => textOf (Parser.name q).1) fun q => ?_⟩
  · rw [name_map Placed.outline_token, List.length_map]
  · rw [name_map Placed.outline_token, textOf_map Placed.outline_token]

/-- Both parses stand on the same line. -/
theorem here (h : Parallel s t) : t.here.onLine = s.here.onLine := by
  have hhere (s : State) : s.here.onLine =
      (((s.queue.map Placed.outline).head?.map fun placed => placed.span.onLine).getD
        s.last.onLine) := by
    unfold State.here
    cases s.queue <;> rfl
  rw [hhere, hhere, h.queue, h.last]

/-- Both parses take the same number of tokens. -/
theorem pop (h : Parallel s t) (n : Nat) : Parallel (s.pop n) (t.pop n) where
  queue := by
    show (t.queue.drop n).map _ = (s.queue.drop n).map _
    rw [List.map_drop, h.queue, List.map_drop]
  last := by
    have hlast (s : State) : (s.pop n).last.onLine =
        ((((s.queue.map Placed.outline).take n).getLast?.map fun placed =>
          placed.span.onLine).getD s.last.onLine) := by
      show Span.onLine (((s.queue.take n).getLast?.map Placed.span).getD s.last) = _
      rw [← List.map_take, List.getLast?_map]
      cases (s.queue.take n).getLast? <;> rfl
    rw [hlast, hlast, h.queue, h.last]
  errors := h.errors
  warnings := h.warnings
  attempts := h.attempts
  allowed := h.allowed
  isHalted := h.isHalted
  depth := h.depth

/-- What is taken off, as far as it depends on what both parses see. -/
theorem popBy (h : Parallel s t) {g : Queue → Nat}
    (hg : ∀ q : Queue, g (q.map Placed.outline) = g q) :
    Parallel (s.pop (g s.queue)) (t.pop (g t.queue)) := by
  rw [h.sees hg]
  exact h.pop _

theorem leave (h : Parallel s t) : Parallel s.leave t.leave :=
  { h with depth := congrArg (· - 1) h.depth }

/-- Both parses record a problem on the same line. -/
theorem record (h : Parallel s t) (problem : ParseProblem) :
    Parallel (s.record problem) (t.record problem) := by
  have hproblem (problem : ParseProblem) : ParseError.onLine ⟨problem, t.here⟩ =
      ParseError.onLine ⟨problem, s.here⟩ :=
    congrArg (ParseError.mk problem) h.here
  unfold State.record
  rw [h.isHalted, h.allowed, h.attempts]
  split
  · exact h
  split
  · refine ⟨h.queue, h.last, h.errors, ?_, rfl, rfl, rfl, h.depth⟩
    simp only [List.map_append, List.map_cons, h.warnings, hproblem]
  -- the parse halts when it has no attempt left, and both have as many
  have herrors : (t.errors ++ [ParseError.mk problem t.here]).map ParseError.onLine =
      (s.errors ++ [ParseError.mk problem s.here]).map ParseError.onLine := by
    simp only [List.map_append, List.map_cons, h.errors, hproblem]
  dsimp only
  split
  · refine ⟨h.queue, h.last, ?_, h.warnings, rfl, rfl, rfl, h.depth⟩
    simp only [List.map_append, List.map_cons, h.errors, hproblem]
  · exact ⟨h.queue, h.last, herrors, h.warnings, rfl, rfl, rfl, h.depth⟩

/-- A step that both parses take under the same condition. -/
theorem ite {p : Prop} [Decidable p] {s' t' : State} (h : Parallel s t) (h' : Parallel s' t') :
    Parallel (if p then s else s') (if p then t else t') := by
  split
  · exact h
  · exact h'

/-- Both parses enter a parenthesis, or it is nested too deeply for both. -/
theorem enter (h : Parallel s t) : t.enter.1 = s.enter.1 ∧ Parallel s.enter.2 t.enter.2 := by
  unfold State.enter
  rw [h.depth]
  split
  · exact ⟨rfl, h.record _⟩
  · exact ⟨rfl, { h with depth := rfl }⟩

theorem skipBrackets (h : Parallel s t) : Parallel s.skipBrackets t.skipBrackets :=
  h.popBy fun q => bracketsLength_map Placed.outline_token q 0

theorem skipIndex (h : Parallel s t) : Parallel s.skipIndex t.skipIndex := by
  unfold State.skipIndex
  rw [h.front?]
  exact h.skipBrackets.ite h

theorem skipToClosing (h : Parallel s t) : Parallel s.skipToClosing t.skipToClosing :=
  h.popBy (closingLength_outline 0)

theorem skipLayout (h : Parallel s t) : Parallel s.skipLayout t.skipLayout := by
  refine h.popBy fun q => ?_
  rw [layoutLength, takeWhile_map Placed.outline_token q isLayout, List.length_map]
  rfl

/-- Both parses go over the same tokens up to the end of the line. -/
theorem skipLine (h : Parallel s t) : Parallel s.skipLine t.skipLine := by
  refine h.popBy fun q => ?_
  unfold lineLength
  rw [takeWhile_map Placed.outline_token q fun token => token ≠ .newline && token ≠ .endOfFile,
    List.length_map]

theorem skipHead (h : Parallel s t) : Parallel s.skipHead t.skipHead :=
  h.popBy (headLength_map Placed.outline_token)

/-- Both parses go over the same definition, with the block below its line. -/
theorem skipDefinition (h : Parallel s t) : Parallel s.skipDefinition t.skipDefinition := by
  have hline := h.skipLine
  -- the block below the line is looked for behind the line breaks
  have hbreaks : ∀ q : Queue,
      ((q.map Placed.outline).takeWhile fun placed => placed.token = .newline).length =
        (q.takeWhile fun placed => placed.token = .newline).length := by
    intro q
    rw [takeWhile_map Placed.outline_token q fun token => token = .newline, List.length_map]
  unfold State.skipDefinition
  dsimp only
  rw [hline.sees (g := fun q => (q.takeWhile fun placed => placed.token = .newline).length) hbreaks]
  generalize ((s.skipLine.queue).takeWhile fun placed => placed.token = .newline).length = breaks
  have hindent : ∀ q : Queue, startsWith ((q.map Placed.outline).drop breaks) .indent =
      startsWith (q.drop breaks) .indent := by
    intro q
    rw [← List.map_drop, startsWith_map Placed.outline_token]
  rw [hline.sees (g := fun q => startsWith (q.drop breaks) .indent) hindent]
  refine ite ?_ hline
  exact (hline.pop _).popBy fun q => blockLength_map Placed.outline_token q 1

/-- Both parses go into the same call. -/
theorem openCall (h : Parallel s t) : Parallel s.openCall t.openCall := by
  have hname := h.pop (Parser.name s.queue).1.length
  unfold State.openCall
  dsimp only
  rw [h.name.1]
  refine (hname.popBy (g := fun q => (generics q).1.length) fun q => ?_).pop 1
  rw [generics_map Placed.outline_token, List.length_map]

theorem close (h : Parallel s t) : Parallel s.close t.close := by
  unfold State.close
  rw [h.front?]
  exact ((h.pop 1).ite (h.record _)).leave

/-- Both parses have the same tokens in front of them, on the same lines. -/
theorem queue_cons (h : Parallel s t) {front : Placed} {rest : Queue}
    (hqueue : s.queue = front :: rest) :
    ∃ front' rest', t.queue = front' :: rest' ∧ front'.token = front.token ∧
      front'.span.onLine = front.span.onLine ∧
      rest'.map Placed.outline = rest.map Placed.outline := by
  have hmap := h.queue
  rw [hqueue, List.map_cons, List.map_eq_cons_iff] at hmap
  obtain ⟨front', rest', hqueue', hfront, hrest⟩ := hmap
  have htoken := congrArg Placed.token hfront
  have hline := congrArg (fun placed : Placed => placed.span.onLine) hfront
  exact ⟨front', rest', hqueue', htoken, hline, hrest⟩

/-- Where one parse has one token left, the other has one too. -/
theorem queue_singleton (h : Parallel s t) {front : Placed} (hqueue : s.queue = [front]) :
    ∃ front', t.queue = [front'] := by
  obtain ⟨front', rest', hqueue', -, -, hrest⟩ := h.queue_cons hqueue
  rw [List.map_nil, List.map_eq_nil_iff] at hrest
  exact ⟨front', by rw [hqueue', hrest]⟩

/-- Where one parse has two tokens in front, the other has the same two. -/
theorem queue_pair (h : Parallel s t) {first second : Placed} {rest : Queue}
    (hqueue : s.queue = first :: second :: rest) :
    ∃ first' second' rest', t.queue = first' :: second' :: rest' ∧
      first'.token = first.token ∧ first'.span.onLine = first.span.onLine ∧
      second'.token = second.token := by
  obtain ⟨first', rest', hqueue', htoken, hline, hrest⟩ := h.queue_cons hqueue
  rw [List.map_cons, List.map_eq_cons_iff] at hrest
  obtain ⟨second', rest'', rfl, hsecond, -⟩ := hrest
  have htoken' := congrArg Placed.token hsecond
  exact ⟨first', second', rest'', hqueue', htoken, hline, htoken'⟩

/-- Where one parse has no token left, the other has none either. -/
theorem queue_nil (h : Parallel s t) (hqueue : s.queue = []) : t.queue = [] := by
  have hmap := h.queue
  rwa [hqueue, List.map_nil, List.map_eq_nil_iff] at hmap

/-- Both parses read the same name of an argument. -/
theorem argumentName (h : Parallel s t) :
    t.argumentName.1.map Identifier.onLine = s.argumentName.1.map Identifier.onLine ∧
      Parallel s.argumentName.2 t.argumentName.2 := by
  unfold State.argumentName
  rcases hs : s.queue with _ | ⟨word, _ | ⟨op, rest⟩⟩
  · rw [h.queue_nil hs]
    exact ⟨rfl, h⟩
  · obtain ⟨word', ht⟩ := h.queue_singleton hs
    rw [ht]
    exact ⟨rfl, h⟩
  -- a name is read only from two tokens
  · obtain ⟨word', op', rest', ht, hword, hline, hop⟩ := h.queue_pair hs
    rw [ht]
    dsimp only
    rw [hword, hop]
    split
    · split
      · exact ⟨congrArg (fun span => some (Identifier.mk _ span)) hline, h.pop 2⟩
      · exact ⟨rfl, h⟩
    · exact ⟨rfl, h⟩

end Parallel

end Parser

end PineCheck
