import PineCheck.Language.ValueType

/-!
# PineCheck — signatures

The parameters of a function, in order, with the type that each expects.
-/

namespace PineCheck

/-- A parameter of a function. -/
structure Parameter where
  name : String
  type : ValueType
  isRequired : Bool
deriving DecidableEq, Inhabited

/-- A function and its parameters. -/
structure Signature where
  name : String
  parameters : List Parameter
deriving DecidableEq, Inhabited

namespace Signature

/-- The number of parameters that every call has to give. -/
def requiredCount (s : Signature) : Nat :=
  s.parameters.countP Parameter.isRequired

/-- The number of all parameters. -/
def totalCount (s : Signature) : Nat :=
  s.parameters.length

/-- The parameter of this name. -/
def parameter? (s : Signature) (name : String) : Option Parameter :=
  s.parameters.find? fun p => p.name = name

end Signature

end PineCheck
