import PineCheck.Language.Name
import PineCheck.Language.ValueType
import PineCheck.Token

/-!
# PineCheck — the tree of a script

The tree is approximate: it holds the calls and the declarations of a script,
and of an expression only its first operand. What the operand is part of shows
in `Argument.isExpression`.
-/

namespace PineCheck

/-- The kinds of literals. -/
inductive LiteralKind where
  | string
  | number
  | boolean
  | color
deriving DecidableEq, Inhabited

/-- How a kind of literal is called. -/
def LiteralKind.name : LiteralKind → String
  | string => "string"
  | number => "number"
  | boolean => "boolean"
  | color => "color"

/-- A literal: as it is written, or the contents of a string. -/
structure Literal where
  kind : LiteralKind
  raw : String
  span : Span
deriving DecidableEq, Inhabited

/-- Whether a literal is a number without a point and without an exponent. -/
def Literal.isIntegral (literal : Literal) : Bool :=
  literal.kind = .number && !literal.raw.toList.any fun c => c = '.' || c = 'e' || c = 'E'

/-- A name where it is used. -/
structure Identifier where
  name : String
  span : Span
deriving DecidableEq, Inhabited

mutual

/-- What an argument or a variable is given. -/
inductive Value where
  | literal (literal : Literal)
  | identifier (identifier : Identifier)
  | call (call : Call)

/-- A call of a function. -/
structure Call where
  /-- The name with its namespaces. -/
  name : String
  arguments : List Argument
  span : Span

/-- An argument of a call. -/
structure Argument where
  name : Option Identifier
  value : Value
  /-- The number of arguments before this one. -/
  position : Nat
  /-- Whether the value is only the first operand of a longer expression. -/
  isExpression : Bool
  span : Span

end

instance : Inhabited Call := ⟨⟨"", [], default⟩⟩

namespace Value

/-- The span of a value. -/
def span : Value → Span
  | literal l => l.span
  | identifier i => i.span
  | call c => c.span

/-- The type of a value, as far as its shape tells. -/
def type : Value → ValueType
  | literal l =>
    match l.kind with
    | .string => .string
    | .number => if l.isIntegral then .int else .float
    | .boolean => .bool
    | .color => .color
  | identifier i => if Language.isSeries i.name then .seriesFloat else .identifier
  | call _ => .seriesFloat

end Value

namespace Call

/-- A name cut at its last full stop. -/
def splitName? (name : String) : Option (String × String) :=
  let reversed := name.toList.reverse
  match reversed.dropWhile (· ≠ '.') with
  | [] => none
  | _ :: front =>
    some (String.ofList front.reverse,
      String.ofList (reversed.takeWhile (· ≠ '.')).reverse)

/-- The namespace of the function that is called. -/
def namespace? (call : Call) : Option String :=
  (splitName? call.name).map Prod.fst

/-- The name of the function that is called, without its namespace. -/
def bareName (call : Call) : String :=
  ((splitName? call.name).map Prod.snd).getD call.name

/-- Whether a call has an argument with this name. -/
def hasNamed (call : Call) (name : String) : Bool :=
  call.arguments.any fun argument => argument.name.any fun given => given.name = name

end Call

mutual

/-- The calls inside a value, each before those inside it. -/
def Value.walk : Value → List Call
  | .literal _ => []
  | .identifier _ => []
  | .call call => call.walk

/-- A call and the calls inside its arguments, each before those inside it. -/
def Call.walk : Call → List Call
  | ⟨name, arguments, span⟩ => ⟨name, arguments, span⟩ :: Argument.walkAll arguments

/-- The calls inside arguments. -/
def Argument.walkAll : List Argument → List Call
  | [] => []
  | argument :: arguments => argument.walk ++ Argument.walkAll arguments

/-- The calls inside an argument. -/
def Argument.walk : Argument → List Call
  | ⟨_, value, _, _, _⟩ => value.walk

end

/-- A declaration of a variable, or a new value for one. -/
structure Declaration where
  name : Identifier
  typeName : Option String
  isVar : Bool
  isReassignment : Bool
  value : Option Value
  span : Span

/-- A statement of a script. -/
inductive Node where
  | call (call : Call)
  | declaration (declaration : Declaration)

/-- The span of a statement. -/
def Node.span : Node → Span
  | call c => c.span
  | declaration d => d.span

/-- The tree of a script. -/
structure Program where
  nodes : List Node
  span : Option Span

namespace Program

/-- The outermost calls of a script, those that declarations are given among
them. -/
def calls (program : Program) : List Call :=
  program.nodes.filterMap fun
    | .call call => some call
    -- a call that a variable is given counts as a statement
    | .declaration declaration =>
      match declaration.value with
      | some (.call call) => some call
      | _ => none

/-- The declarations of a script. -/
def declarations (program : Program) : List Declaration :=
  program.nodes.filterMap fun
    | .declaration declaration => some declaration
    | .call _ => none

end Program

end PineCheck
