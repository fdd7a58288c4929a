import PineCheck.Json.Text
import PineCheck.Parser.Statement

/-!
# PineCheck — options of a parse

The one thing that can be set about a parse, as a JSON record.
-/

namespace PineCheck.Parser

/-- What can be set about a parse. -/
structure Options where
  /-- How many errors the parse may go on behind. -/
  allowed : Nat := defaultAllowed
deriving DecidableEq, Inhabited

namespace Options

/-- The name of the only field of a record of options. -/
def fieldName : String :=
  "max-recovery-attempts"

/-- Reads options. A record without the field leaves it at its default. -/
def read? (text : String) : Option Options := do
  let json ← JsonText.read? text
  let record ← json.record? [fieldName] .refused
  let decode? (json : JsonText) : Option Nat := json.value?.bind Json.asWord?
  let allowed ← JsonText.fieldOr? record fieldName decode? (some defaultAllowed)
  some ⟨allowed⟩

/-- The record of options. -/
def record (options : Options) : Json :=
  .object [(fieldName, .nat options.allowed)]

end Options

end PineCheck.Parser
