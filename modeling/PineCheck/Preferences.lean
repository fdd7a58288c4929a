import PineCheck.Check
import PineCheck.Toml.Document

/-!
# PineCheck — preferences

What a run is asked to do, as far as both the command line and a settings file
can say it. Either of them may leave every preference open; `Preferences.orElse`
puts the one before the other.
-/

namespace PineCheck

/-- How results are given. -/
inductive Format where
  | human
  | json
deriving DecidableEq, Inhabited

/-- The format that is called so. -/
def Format.ofName? (name : String) : Option Format :=
  match name with
  | "human" => some .human
  | "json" => some .json
  | _ => none

/-- The checks that can be asked for alone, under the names by which they are
asked for. -/
def Check.choices : List (String × Check) :=
  [("short-title", .shortTitle), ("precision", .precision), ("max-bars-back", .maxBarsBack),
   ("drawing-limits", .drawingLimits), ("naming", .naming), ("na-objects", .objectState),
   ("syntax-compatibility", .compatibility)]

/-- The check that is asked for by a name. -/
def Check.ofChoice? (name : String) : Option Check :=
  choices.lookup name

/-- What a run is asked to do. A preference that is open is `none`. -/
structure Preferences where
  /-- The path of a rulebook. -/
  rules : Option String := none
  /-- Whether to do without a rulebook. -/
  noRules : Option Bool := none
  /-- The path of documentation. -/
  docs : Option String := none
  /-- The only check to run. -/
  only : Option Check := none
  format : Option Format := none
  /-- Whether a warning makes a script fail. -/
  denyWarnings : Option Bool := none
  /-- How many errors a parse may go on behind. -/
  allowed : Option Nat := none
deriving DecidableEq, Inhabited

namespace Preferences

/-- Whether either of two switches is on. -/
def either (a b : Option Bool) : Option Bool :=
  some (a.getD false || b.getD false)

/-- Preferences where `first` counts before `second`. A switch that is on in one of
them stays on. -/
def orElse (first second : Preferences) : Preferences where
  rules := first.rules <|> second.rules
  noRules := either first.noRules second.noRules
  docs := first.docs <|> second.docs
  only := first.only <|> second.only
  format := first.format <|> second.format
  denyWarnings := either first.denyWarnings second.denyWarnings
  allowed := first.allowed <|> second.allowed

/-! ## Settings files -/

open Toml

/-- The value of a preference that is still open. It can be given only once. -/
def fill? {α : Type} (old new : Option α) : Option (Option α) :=
  match old, new with
  | none, some a => some (some a)
  | _, _ => none

/-- A text. -/
def asText? : Value → Option String
  | .text value => some value
  | _ => none

/-- The word of a choice. -/
def asChoice? : Value → Option String
  | .text word => some word
  | .table word => some word
  | _ => none

/-- A switch. -/
def asSwitch? : Value → Option Bool
  | .boolean value => some value
  | _ => none

/-- A number that is not negative. -/
def asCount? : Value → Option Nat
  | .integer (.ofNat n) => some n
  | _ => none

/-- Preferences with one more of them given by an entry of a settings file. -/
def withEntry? (p : Preferences) (key : String) (value : Value) : Option Preferences :=
  match key with
  | "rules" => (fill? p.rules (asText? value)).map fun rules => { p with rules }
  | "no_rules" => (fill? p.noRules (asSwitch? value)).map fun noRules => { p with noRules }
  | "docs" => (fill? p.docs (asText? value)).map fun docs => { p with docs }
  | "only" =>
    (fill? p.only ((asChoice? value).bind Check.ofChoice?)).map fun only => { p with only }
  | "format" =>
    (fill? p.format ((asChoice? value).bind Format.ofName?)).map fun format => { p with format }
  | "deny_warnings" =>
    (fill? p.denyWarnings (asSwitch? value)).map fun denyWarnings => { p with denyWarnings }
  | "max_recovery_attempts" =>
    (fill? p.allowed (asCount? value)).map fun allowed => { p with allowed }
  | _ => none

/-- Preferences with more of them given by the lines of a settings file, which are
entries. -/
def withItems? (p : Preferences) : List Item → Option Preferences
  | [] => some p
  | .entry key value :: items => do
    let p ← p.withEntry? key value
    p.withItems? items
  -- tables hold no preferences
  | .header _ :: _ => none

/-- The preferences in a settings file. A file with nothing but one header gives
one choice: the first key of the header says which, the last one is its word. -/
def ofItems? : List Item → Option Preferences
  | [.header (key :: next :: path)] =>
    Preferences.withEntry? {} key (.table ((next :: path).getLast?.getD next))
  | items => Preferences.withItems? {} items

/-- The preferences in the text of a settings file. -/
def read? (text : String) : Option Preferences := do
  let items ← Toml.read? text
  ofItems? items

end Preferences

end PineCheck
