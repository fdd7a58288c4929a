/-!
# PineCheck — the checks

There are ten checks. Three of them always run; each of the others runs when the
rulebook turns on one of the codes that it can report.
-/

namespace PineCheck

/-- One concern that scripts are checked for. -/
inductive Check where
  | signatures
  | objectState
  | naming
  | shortTitle
  | precision
  | maxBarsBack
  | drawingLimits
  | namespaceShadowing
  | lineContinuation
  | compatibility
deriving DecidableEq, Inhabited

namespace Check

/-- Every check, in the order in which they run. -/
def all : List Check :=
  [signatures, objectState, naming, shortTitle, precision, maxBarsBack, drawingLimits,
   namespaceShadowing, lineContinuation, compatibility]

/-- How a check is called. -/
def name : Check → String
  | signatures => "signatures"
  | objectState => "object-state"
  | naming => "naming"
  | shortTitle => "short-title"
  | precision => "precision"
  | maxBarsBack => "max-bars-back"
  | drawingLimits => "drawing-limits"
  | namespaceShadowing => "namespace-shadowing"
  | lineContinuation => "line-continuation"
  | compatibility => "syntax-compatibility"

/-- The check that is called so. -/
def ofName? (name : String) : Option Check :=
  all.find? fun check => check.name = name

/-- What the code for a failure of a check starts with. -/
def codeStart : Check → String
  | signatures => "SIGNATURE"
  | objectState => "NA_OBJECT"
  | naming => "NAMING"
  | shortTitle => "SHORT_TITLE"
  | precision => "PRECISION"
  | maxBarsBack => "MAX_BARS_BACK"
  | drawingLimits => "DRAWING_LIMITS"
  | namespaceShadowing => "NAMESPACE_SHADOWING"
  | lineContinuation => "LINE_CONTINUATION"
  | compatibility => "SYNTAX_COMPATIBILITY"

/-- Whether a check runs without being turned on. -/
def isAlwaysOn : Check → Bool
  | signatures | objectState | naming => true
  | _ => false

/-- Whether a check looks at the tree of a script, and not only at its text. -/
def readsTree : Check → Bool
  | signatures => true
  | _ => false

end Check

end PineCheck
