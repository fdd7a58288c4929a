import PineCheck.Diagnostic.Finding
import PineCheck.Text.CallSite
import PineCheck.Text.Line

/-!
# PineCheck — the version of a script

A script should state the current version, and should call functions by their
current names.
-/

namespace PineCheck.Check.Compatibility

open Text

/-- What a line `//@version=…` states. -/
def statedVersion? (text : List Char) : Option (List Char) := do
  let rest ← dropWord? "//".toList (trimStart text)
  let rest ← dropWord? "@version".toList (trimStart rest)
  let rest ← dropWord? "=".toList (trimStart rest)
  some (trim rest)

/-- The natural number below `2 ^ 32` that a text stands for. A plus sign may
stand before it. -/
def readVersion? (text : List Char) : Option Nat :=
  let digits := if text.head? = some '+' then text.drop 1 else text
  if digits ≠ [] && digits.all Char.isDigit then
    let n := Decimal.ofDigits digits
    if n < 0x100000000 then some n else none
  else none

/-- The first line that states a version, and what it states. -/
def versionLine? (script : List Char) : Option (Line × List Char) :=
  (lines script).findSome? fun line => (statedVersion? line.text).map fun stated => (line, stated)

/-- The findings about the version that a script states. -/
def checkVersion (script : List Char) : List Finding :=
  match versionLine? script with
  | none => [⟨.noVersion, locate script 0 0⟩]
  | some (line, stated) =>
    match readVersion? stated with
    -- a version that cannot be read is not an old one
    | none => []
    | some version =>
      if version < Language.currentVersion then
        [⟨.outdatedVersion version, locate script line.offset (byteLength line.text)⟩]
      else []

/-- What is wrong with the name of a function. -/
def cause? (function : String) : Option Cause :=
  match Language.renamedFunction? function with
  | some replacement => some (.renamedFunction function replacement)
  | none => (Language.namespacedFunction? function).map (.missingNamespace function)

/-- The findings about the functions that a script calls and does not define. -/
def checkCalls (script masked : List Char) : List Finding :=
  let sites := callSites masked
  let defined := (sites.filter CallSite.isDefinition).map CallSite.name
  sites.filterMap fun site =>
    -- a script may define a function of an old name for itself, also further down
    if site.isDefinition || defined.contains site.name then none
    else
      (cause? site.name).map fun cause =>
        ⟨cause, locate script site.offset (byteLength site.name.toList)⟩

/-- The findings about the version of a script. -/
def check (script masked : List Char) : List Finding :=
  checkVersion script ++ checkCalls script masked

end PineCheck.Check.Compatibility
