import PineCheck.Diagnostic.Finding
import PineCheck.Rulebook
import PineCheck.Text.CallSite

/-!
# PineCheck — the declaration of a script

A script declares itself by a call of `indicator`, `strategy` or `study`. Its
short title must not be too long, and some of its arguments must be whole numbers
within limits. A rulebook can change the limits.
-/

namespace PineCheck.Check.Declaration

/-- Whether a call site declares a script. -/
def declaresScript (site : Text.CallSite) : Bool :=
  ["indicator", "strategy", "study"].contains site.name && !site.isDefinition

/-- The call sites that declare a script. -/
def declarations (masked : List Char) : List Text.CallSite :=
  (Text.callSites masked).filter declaresScript

/-- The settings of a rule. -/
def settingOf? (rules : Option Rulebook) (rule : Rule) : Option RuleSetting :=
  rules.bind fun rules => rules.setting? rule.code

/-! ## Numbers -/

/-- The whole numbers that are allowed for a parameter. -/
structure Limit where
  parameter : String
  rule : Rule
  min : Float
  max : Float

/-- The limits that a check is about. -/
def limits? : Check → Option (List Limit)
  | .precision => some [⟨"precision", .invalidPrecision, 0, 8⟩]
  | .maxBarsBack => some [⟨"max_bars_back", .invalidMaxBarsBack, 1, 5000⟩]
  | .drawingLimits =>
    some [⟨"max_lines_count", .invalidMaxLinesCount, 1, 500⟩,
      ⟨"max_labels_count", .invalidMaxLabelsCount, 1, 500⟩,
      ⟨"max_boxes_count", .invalidMaxBoxesCount, 1, 500⟩]
  | _ => none

/-- What a script gives for a parameter, if it is a number. -/
def measure? (rules : Option Rulebook) (limit : Limit) (raw : String) : Option Measurement :=
  (Decimal.readFloat? raw).map fun value =>
    let setting := settingOf? rules limit.rule
    { parameter := limit.parameter
      raw := raw
      value := value
      min := (setting.bind RuleSetting.min).getD limit.min
      max := (setting.bind RuleSetting.max).getD limit.max }

/-- The finding about a named argument of a declaration. -/
def checkNumber? (rules : Option Rulebook) (script : List Char) (limits : List Limit)
    (argument : Text.NamedArgument) : Option Finding := do
  -- an argument without limits of its own is none of this check
  let limit ← limits.find? fun limit => limit.parameter = argument.name
  let m ← measure? rules limit (String.ofList argument.value.text)
  if m.isFractional || m.isOutOfRange then
    some ⟨.badNumber limit.rule m,
      locate script argument.offset (argument.value.stop - argument.offset)⟩
  else none

/-- The findings about numbers in the declarations of a script. -/
def checkNumbers (rules : Option Rulebook) (script masked : List Char) (limits : List Limit) :
    List Finding :=
  (declarations masked).flatMap fun site =>
    (Text.namedArguments site.arguments).filterMap (checkNumber? rules script limits)

/-! ## Short titles -/

/-- How many characters a short title may have. -/
def shortTitleLimit : Nat := 10

/-- The short title of a declaration: the argument of that name, or else the
second one if the first two have no names. -/
def shortTitle? (site : Text.CallSite) : Option Text.Slice :=
  let named := Text.namedArguments site.arguments
  match named.find? fun argument => argument.name = "shorttitle" with
  | some argument => some argument.value
  | none =>
    -- a named argument starts where the part that it is read from does
    let isPositional (part : Text.Slice) : Bool :=
      !named.any fun argument => argument.offset = part.offset
    match Text.splitArguments site.arguments with
    | first :: second :: _ =>
      if isPositional first && isPositional second then some second else none
    | _ => none

/-- The finding about the short title of a declaration. -/
def checkShortTitle? (limit : Nat) (script : List Char) (site : Text.CallSite) :
    Option Finding := do
  let part ← shortTitle? site
  -- in the masked text the title is blank, so that it is read from the script
  let title ← Text.unquote? (Text.between script part.offset part.stop)
  if title.length ≤ limit then none
  else
    some ⟨.longShortTitle (String.ofList title) title.length limit,
      locate script part.offset (part.stop - part.offset)⟩

/-- The findings about short titles in the declarations of a script. -/
def checkShortTitles (rules : Option Rulebook) (script masked : List Char) : List Finding :=
  let setting := settingOf? rules .shortTitleTooLong
  let limit := (setting.bind RuleSetting.maxLength).getD shortTitleLimit
  (declarations masked).filterMap (checkShortTitle? limit script)

end PineCheck.Check.Declaration
