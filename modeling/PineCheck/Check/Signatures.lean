import PineCheck.Diagnostic.Finding
import PineCheck.Documentation
import PineCheck.Language.Function
import PineCheck.Tree

/-!
# PineCheck — calls against signatures

A call of a function with a known signature is checked for the number of its
arguments and, if the number is right, for the type of each. Arguments that are
longer expressions have no known type, and calls of unknown functions are not
checked.
-/

namespace PineCheck.Check.Signatures

/-- The signature of a function: the built-in one, or else a documented one. -/
def signature? (docs : Option Documentation) (function : String) : Option Signature :=
  (Language.signature? function).or (docs.bind fun docs => docs.signature? function)

/-- The names of the required parameters that a call leaves out: those behind its
arguments that it does not name either. -/
def missing (call : Call) (signature : Signature) : List String :=
  -- named arguments are counted as if they stood in order
  let behind := signature.parameters.drop call.arguments.length
  (behind.filter fun p => p.isRequired && !call.hasNamed p.name).map Parameter.name

/-- The parameter that an argument is for. -/
def parameterOf? (signature : Signature) (argument : Argument) : Option Parameter :=
  match argument.name with
  | some name => signature.parameter? name.name
  | none => signature.parameters[argument.position]?

/-- The finding about an argument of the wrong type. -/
def checkArgument? (call : Call) (signature : Signature) (argument : Argument) :
    Option Finding :=
  -- only the first operand is known, and not the type of the whole
  if argument.isExpression then none
  else do
    let parameter ← parameterOf? signature argument
    let actual := argument.value.type
    if parameter.type.accepts actual then none
    else
      some ⟨.wrongType call.name parameter.name argument.position parameter.type actual,
        argument.span⟩

/-- The findings about a call of a function with this signature. -/
def checkCall (call : Call) (signature : Signature) : List Finding :=
  let given := call.arguments.length
  -- with the wrong number of arguments it is not clear which is for which parameter
  if given < signature.requiredCount then
    [⟨.missingArguments call.name signature.requiredCount given (missing call signature),
      call.span⟩]
  else if signature.totalCount < given then
    [⟨.tooManyArguments call.name signature.totalCount given, call.span⟩]
  else call.arguments.filterMap (checkArgument? call signature)

/-- The findings about calls. -/
def checkCalls (docs : Option Documentation) (calls : List Call) : List Finding :=
  calls.flatMap fun call =>
    match signature? docs call.name with
    | some signature => checkCall call signature
    | none => []

/-- The findings about every call of a script. -/
def check (docs : Option Documentation) (program : Program) : List Finding :=
  checkCalls docs (program.calls.flatMap Call.walk)

end PineCheck.Check.Signatures
