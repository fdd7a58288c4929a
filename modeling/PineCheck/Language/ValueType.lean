/-!
# PineCheck — types of arguments

A type tag tells what an argument is and what a parameter expects. `accepts`
decides whether an argument may be passed for a parameter: a tag accepts itself,
and the tags for numbers accept some narrower ones.
-/

namespace PineCheck

/-- The type of an argument or of a parameter. -/
inductive ValueType where
  | int
  | float
  | bool
  | string
  | color
  | seriesInt
  | seriesFloat
  | seriesBool
  | seriesNumber
  | number
  | identifier
deriving DecidableEq, Inhabited

namespace ValueType

/-- Every type. -/
def all : List ValueType :=
  [int, float, bool, string, color, seriesInt, seriesFloat, seriesBool, seriesNumber, number,
   identifier]

/-- How a type is written. -/
def tag : ValueType → String
  | int => "int"
  | float => "float"
  | bool => "bool"
  | string => "string"
  | color => "color"
  | seriesInt => "series int"
  | seriesFloat => "series float"
  | seriesBool => "series bool"
  | seriesNumber => "series int/float"
  | number => "int/float"
  | identifier => "identifier"

/-- The type that is written so. -/
def ofTag? (tag : String) : Option ValueType :=
  all.find? fun type => type.tag = tag

/-- Whether an argument of type `actual` may be passed where `expected` is
expected. -/
def accepts (expected actual : ValueType) : Bool :=
  expected = actual ||
    match expected, actual with
    | seriesNumber, int | seriesNumber, float => true
    | seriesNumber, seriesInt | seriesNumber, seriesFloat => true
    | seriesInt, int => true
    | number, int | number, float => true
    | _, _ => false

end ValueType

end PineCheck
