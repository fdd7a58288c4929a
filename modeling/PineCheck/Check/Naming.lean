import PineCheck.Diagnostic.Finding
import PineCheck.Documentation
import PineCheck.Language.Function
import PineCheck.Text.CallSite

/-!
# PineCheck — names of arguments

A named argument should use the current name of a parameter, and a name that is
not known should be written in lower case words joined by underscores.
-/

namespace PineCheck.Check.Naming

/-- The convention that a name follows, unless it is the usual one. -/
def classify (name : List Char) : Option Convention :=
  match name with
  | [] => none
  | first :: rest =>
    let hasUpper := name.any Char.isUpper
    let hasLower := name.any Char.isLower
    -- a single character shows no convention, whatever its case
    if rest = [] then some .singleCharacter
    else if hasUpper && !hasLower then some .allCaps
    else if first.isLower && hasUpper then some .camelCase
    else if first.isUpper then some .pascalCase
    else none

/-- Writes the words of a name behind the character `last` in lower case, with
underscores between them. -/
def snakeFrom (last : Option Char) : List Char → List Char
  | [] => []
  | c :: cs =>
    if c.isUpper then
      let lower := c.toLower
      -- no underscore at the front, nor behind one that is there already
      if last.any (· ≠ '_') then '_' :: lower :: snakeFrom (some lower) cs
      else lower :: snakeFrom (some lower) cs
    else c :: snakeFrom (some c) cs

/-- A name in lower case words joined by underscores. -/
def toSnakeCase (name : List Char) : List Char :=
  snakeFrom none name

/-- The usual way to write a name that follows another convention. -/
def suggest (convention : Convention) (name : List Char) : List Char :=
  match convention with
  | .allCaps => name.map Char.toLower
  | _ => toSnakeCase name

/-- Whether a function is known to have a parameter of this name. -/
def isKnown (docs : Option Documentation) (function parameter : String) : Bool :=
  Language.isCommonParameter parameter || Language.isFunctionParameter function parameter ||
    docs.any fun docs => docs.isLoaded && docs.hasParameter function parameter

/-- What is wrong with the name of an argument. -/
def cause? (docs : Option Documentation) (function parameter : String) : Option Cause :=
  match Language.renamedParameter? function parameter with
  | some replacement => some (.renamedParameter function parameter replacement)
  | none =>
    if isKnown docs function parameter then none
    else
      (classify parameter.toList).map fun convention =>
        let suggestion := String.ofList (suggest convention parameter.toList)
        .unusualName function parameter convention
          (if suggestion = parameter then none else some suggestion)

/-- The findings about the named arguments of a call site. -/
def checkSite (docs : Option Documentation) (script : List Char) (site : Text.CallSite) :
    List Finding :=
  -- the parameters of a definition are not arguments
  if site.isDefinition then []
  else
    (Text.namedArguments site.arguments).filterMap fun argument =>
      (cause? docs site.name argument.name).map fun cause =>
        ⟨cause, locate script argument.offset (byteLength argument.name.toList)⟩

/-- The findings about the names of arguments in a script. -/
def check (docs : Option Documentation) (script masked : List Char) : List Finding :=
  (Text.callSites masked).flatMap (checkSite docs script)

end PineCheck.Check.Naming
