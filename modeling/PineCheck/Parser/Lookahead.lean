import PineCheck.Parser.State

/-!
# PineCheck — shapes of token queues

What a parse can tell from the tokens ahead without taking any: where a name
ends, whether a call, a definition or a declaration follows, and how many tokens
to skip in order to get behind something.
-/

namespace PineCheck.Parser

/-- Whether a token is a mark of layout. -/
def isLayout : Token → Bool
  | .newline | .indent | .dedent => true
  | _ => false

/-- Whether a queue starts with a token. -/
def startsWith (q : Queue) (token : Token) : Bool :=
  q.head?.any fun placed => placed.token = token

/-! ## Names, types and declarations -/

/-- The words of a name behind its first one, each with the full stop before it,
and the queue behind the name. -/
def nameTail : Queue → Queue × Queue
  | dot :: word :: rest =>
    match dot.token, word.token with
    | .punctuation .dot, .identifier _ =>
      let (taken, rest) := nameTail rest
      (dot :: word :: taken, rest)
    -- a full stop without a word behind it is not part of the name
    | _, _ => ([], dot :: word :: rest)
  | q => ([], q)

/-- The name at the front of a queue and the queue behind it. -/
def name : Queue → Queue × Queue
  | [] => ([], [])
  | word :: rest =>
    match word.token with
    | .identifier _ =>
      let (taken, rest) := nameTail rest
      (word :: taken, rest)
    | _ => ([], word :: rest)

/-- The inside of a type argument list up to and with its closing bracket. -/
def genericTail? : Queue → Option (Queue × Queue)
  | [] => none
  | placed :: rest =>
    match placed.token with
    | .operator .greater => some ([placed], rest)
    | .identifier _ | .punctuation .dot | .punctuation .comma =>
      (genericTail? rest).map fun (taken, rest) => (placed :: taken, rest)
    | _ => none

/-- The type argument list at the front of a queue, such as `<float>`, and the
queue behind it. -/
def generics (q : Queue) : Queue × Queue :=
  match q with
  | [] => ([], [])
  | placed :: rest =>
    if placed.token = .operator .less then
      match genericTail? rest with
      | some (taken, rest) => (placed :: taken, rest)
      -- then `<` is a comparison
      | none => ([], q)
    else ([], q)

/-- Whether a queue starts with a call: a name, perhaps type arguments, and an
opening parenthesis. -/
def isCallAhead (q : Queue) : Bool :=
  match name q with
  | ([], _) => false
  | (_, rest) => startsWith (generics rest).2 (.punctuation .parenLeft)

/-- Whether an arrow stands behind the parenthesis that closes the outermost open
one. -/
def arrowBehind (depth : Nat) : Queue → Bool
  | [] => false
  | placed :: rest =>
    match placed.token with
    | .endOfFile => false
    | .punctuation .parenLeft => arrowBehind (depth + 1) rest
    | .punctuation .parenRight =>
      -- this parenthesis closes the outermost one
      if depth = 1 then startsWith rest (.operator .arrow) else arrowBehind (depth - 1) rest
    | _ => arrowBehind depth rest

/-- Whether a queue starts with the head of a function definition. -/
def isDefinitionAhead (q : Queue) : Bool :=
  match name q with
  | ([], _) => false
  | (_, rest) => startsWith rest (.punctuation .parenLeft) && arrowBehind 0 rest

/-- Whether an operator gives a variable a value. -/
def assigns : Token → Bool
  | .operator op =>
    match op with
    | .assignment | .reassignment => true
    | .plusAssign | .minusAssign | .timesAssign | .divideAssign | .moduloAssign => true
    | _ => false
  | _ => false

/-- The mark `[]` of an array type at the front of a queue, and the queue behind
it. -/
def arrayMark : Queue → Queue × Queue
  | left :: right :: rest =>
    if left.token = .punctuation .bracketLeft && right.token = .punctuation .bracketRight then
      ([left, right], rest)
    else ([], left :: right :: rest)
  | q => ([], q)

/-- Whether a queue starts with a variable and `=` or `:=`. -/
def startsAssignment : Queue → Bool
  | word :: op :: _ =>
    match word.token with
    | .identifier _ => op.token = .operator .assignment || op.token = .operator .reassignment
    | _ => false
  | _ => false

/-- The tokens of the type before the variable, if a queue starts with a
declaration: `name =`, `name :=`, `name +=` and so on, or `Type name =` and
`Type name :=`. -/
def declaredType? (q : Queue) : Option Queue :=
  match name q with
  | ([], _) => none
  | (words, rest) =>
    if rest.head?.any fun placed => assigns placed.token then
      -- a field, as in `a.b := 1`, is not declared
      if words.length = 1 then some [] else none
    else
      let (arguments, rest) := generics rest
      let (mark, rest) := arrayMark rest
      if startsAssignment rest then some (words ++ arguments ++ mark) else none

/-- The text of a name or a type. -/
def textOf (q : Queue) : String :=
  String.join (q.map fun placed =>
    match placed.token with
    | .identifier text => text
    | .punctuation .dot => "."
    | .operator .less => "<"
    | .operator .greater => ">"
    | .punctuation .comma => ","
    | .punctuation .bracketLeft => "["
    | .punctuation .bracketRight => "]"
    | _ => "")

/-! ## Line breaks inside parentheses -/

/-- Whether marks of layout with a line break among them lead to a token at the
start of a line. Such a token starts a new statement, also inside parentheses
that are still open. -/
def interrupts (hasBreak : Bool) : Queue → Bool
  | [] => false
  | placed :: rest =>
    match placed.token with
    | .newline => interrupts true rest
    | .indent | .dedent => interrupts hasBreak rest
    -- a closing parenthesis at the left margin still closes its list
    | .endOfFile | .punctuation .parenRight => false
    | _ => hasBreak && placed.span.column = 0

/-- The number of marks of layout at the front of a queue. -/
def layoutLength (q : Queue) : Nat :=
  (q.takeWhile fun placed => isLayout placed.token).length

/-! ## How much to skip -/

/-- The number of tokens up to the end of the line. -/
def lineLength (q : Queue) : Nat :=
  (q.takeWhile fun placed => placed.token ≠ .newline && placed.token ≠ .endOfFile).length

/-- The number of tokens of an indented block, from inside it up to and with its
end. -/
def blockLength (depth : Nat) : Queue → Nat
  | [] => 0
  | placed :: rest =>
    match placed.token with
    | .endOfFile => 0
    | .indent => blockLength (depth + 1) rest + 1
    | .dedent => if depth = 1 then 1 else blockLength (depth - 1) rest + 1
    | _ => blockLength depth rest + 1

/-- The number of tokens up to and with the arrow of a function definition. -/
def headLength : Queue → Nat
  | [] => 0
  | placed :: rest =>
    -- a head is only skipped if its arrow was seen, which comes before the end of the file
    if placed.token = .operator .arrow || placed.token = .endOfFile then 1
    else headLength rest + 1

/-- The number of tokens up to and with the parenthesis that closes an open one,
or up to the next statement. -/
def closingLength (depth : Nat) : Queue → Nat
  | [] => 0
  | placed :: rest =>
    -- what follows is left to the next statement, even if the parenthesis is never closed
    if interrupts false (placed :: rest) then 0
    else match placed.token with
      | .endOfFile => 0
      | .punctuation .parenLeft => closingLength (depth + 1) rest + 1
      | .punctuation .parenRight => if depth = 0 then 1 else closingLength (depth - 1) rest + 1
      | _ => closingLength depth rest + 1

/-- The number of tokens of a pair of brackets and of what stands between them. -/
def bracketsLength (depth : Nat) : Queue → Nat
  | [] => 0
  | placed :: rest =>
    match placed.token with
    | .endOfFile => 0
    | .punctuation .bracketLeft => bracketsLength (depth + 1) rest + 1
    | .punctuation .bracketRight =>
      -- the count starts at zero, in front of the bracket that opens
      if depth ≤ 1 then 1 else bracketsLength (depth - 1) rest + 1
    | _ => bracketsLength depth rest + 1

end PineCheck.Parser
