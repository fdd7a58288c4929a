import PineCheck.Json.Text
import PineCheck.Language.Signature

/-!
# PineCheck — documentation of functions

Documentation adds to what is built in: the parameters of further functions, and
their types as far as they are known. It is written in JSON.
-/

namespace PineCheck

/-- A parameter as it is documented. -/
structure DocumentedParameter where
  name : String
  type : Option String
  isRequired : Bool
deriving DecidableEq, Inhabited

/-- A function as it is documented. -/
structure DocumentedFunction where
  name : String
  description : Option String
  parameters : List DocumentedParameter
deriving DecidableEq, Inhabited

/-- Functions, each name once. Documentation that has not been read knows none. -/
structure Documentation where
  functions : List DocumentedFunction := []
  isLoaded : Bool := false
deriving Inhabited

namespace Documentation

/-- Adds a function, in place of an earlier one of its name. -/
def insert (functions : List DocumentedFunction) (function : DocumentedFunction) :
    List DocumentedFunction :=
  functions.filter (·.name ≠ function.name) ++ [function]

/-- The documentation of a list of functions. -/
def ofFunctions (functions : List DocumentedFunction) : Documentation :=
  { functions := functions.foldl insert [], isLoaded := true }

/-- The function of this name. -/
def function? (docs : Documentation) (name : String) : Option DocumentedFunction :=
  docs.functions.find? fun function => function.name = name

/-- The number of functions. -/
def size (docs : Documentation) : Nat :=
  docs.functions.length

/-- Whether a function has a parameter of this name. -/
def hasParameter (docs : Documentation) (function parameter : String) : Bool :=
  (docs.function? function).any fun f => f.parameters.any fun p => p.name = parameter

/-- The names of the parameters of a function. -/
def parametersOf? (docs : Documentation) (function : String) : Option (List String) :=
  (docs.function? function).map fun f => f.parameters.map DocumentedParameter.name

/-- A parameter whose type is known. -/
def typed? (p : DocumentedParameter) : Option Parameter := do
  let tag ← p.type
  let type ← ValueType.ofTag? tag
  some ⟨p.name, type, p.isRequired⟩

/-- The signature of a function all of whose parameters have a known type. -/
def signature? (docs : Documentation) (function : String) : Option Signature := do
  let f ← docs.function? function
  let parameters ← f.parameters.mapM typed?
  some ⟨f.name, parameters⟩

/-! ## Reading -/

open JsonText

/-- Reads a parameter. -/
def readParameter? (json : JsonText) : Option DocumentedParameter := do
  let record ← json.record? ["name", "type", "required"] .ignored
  let name ← fieldOr? record "name" asString? none
  let type ← fieldOr? record "type" (asOptional? asString?) (some none)
  let isRequired ← fieldOr? record "required" asBool? (some false)
  some ⟨name, type, isRequired⟩

/-- Reads a list of values. -/
def readList? {α : Type} (decode? : JsonText → Option α) (json : JsonText) : Option (List α) := do
  let elements ← json.asArray?
  elements.mapM decode?

/-- Reads a function. -/
def readFunction? (json : JsonText) : Option DocumentedFunction := do
  let record ← json.record? ["name", "description", "parameters"] .ignored
  let name ← fieldOr? record "name" asString? none
  let description ← fieldOr? record "description" (asOptional? asString?) (some none)
  let parameters ← fieldOr? record "parameters" (readList? readParameter?) (some [])
  some ⟨name, description, parameters⟩

/-- Reads documentation: an object with the functions and perhaps a version. -/
def readJson? (json : JsonText) : Option Documentation := do
  let record ← json.record? ["version", "functions"] .refused
  -- the version has to be a text, but nothing depends on it
  let _ ← fieldOr? record "version" (asOptional? asString?) (some none)
  let functions ← fieldOr? record "functions" (readList? readFunction?) none
  some (ofFunctions functions)

/-- The documentation in a text. -/
def read? (text : String) : Option Documentation := do
  let json ← JsonText.read? text
  readJson? json

/-- What is told about documentation that cannot be read. -/
def failure : String :=
  "documentation registry is not valid"

end Documentation

end PineCheck
