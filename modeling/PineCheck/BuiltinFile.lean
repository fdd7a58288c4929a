import PineCheck.Documentation
import PineCheck.Rulebook

/-!
# PineCheck — built-in files

A rulebook and documentation come with the program. They can be named like files
in the scheme `builtin:`.
-/

namespace PineCheck

/-- A file that comes with the program. -/
structure BuiltinFile where
  name : String
  content : String

namespace BuiltinFile

/-- What the names of built-in files start with. -/
def scheme : String := "builtin:"

/-- A text of lines that each end with a line feed. -/
def ofLines (lines : List String) : String :=
  String.join (lines.map (· ++ "\n"))

/-- The rulebook that comes with the program. -/
def rules : BuiltinFile where
  name := "rules.json"
  content := ofLines [
    "\x7b",
    "\t\"version\": \"6\",",
    "\t\"errorCodeDefinitions\": \x7b",
    "\t\t\"SHORT_TITLE_TOO_LONG\": \x7b",
    "\t\t\t\"description\": \"The shorttitle of indicator() or strategy() is longer " ++
      "than the platform allows.\",",
    "\t\t\t\"maxLength\": 10",
    "\t\t\x7d,",
    "\t\t\"INVALID_PRECISION\": \x7b",
    "\t\t\t\"description\": \"precision must be a whole number from 0 to 8.\",",
    "\t\t\t\"min\": 0,",
    "\t\t\t\"max\": 8",
    "\t\t\x7d,",
    "\t\t\"INVALID_MAX_BARS_BACK\": \x7b",
    "\t\t\t\"description\": \"max_bars_back must be a whole number from 1 to 5000.\",",
    "\t\t\t\"min\": 1,",
    "\t\t\t\"max\": 5000",
    "\t\t\x7d,",
    "\t\t\"INVALID_MAX_LINES_COUNT\": \x7b",
    "\t\t\t\"description\": \"max_lines_count must be a whole number from 1 to 500.\",",
    "\t\t\t\"min\": 1,",
    "\t\t\t\"max\": 500",
    "\t\t\x7d,",
    "\t\t\"INVALID_MAX_LABELS_COUNT\": \x7b",
    "\t\t\t\"description\": \"max_labels_count must be a whole number from 1 to 500.\",",
    "\t\t\t\"min\": 1,",
    "\t\t\t\"max\": 500",
    "\t\t\x7d,",
    "\t\t\"INVALID_MAX_BOXES_COUNT\": \x7b",
    "\t\t\t\"description\": \"max_boxes_count must be a whole number from 1 to 500.\",",
    "\t\t\t\"min\": 1,",
    "\t\t\t\"max\": 500",
    "\t\t\x7d,",
    "\t\t\"NAMESPACE_SHADOWING\": \x7b",
    "\t\t\t\"description\": \"A variable hides a built-in namespace.\"",
    "\t\t\x7d,",
    "\t\t\"INVALID_LINE_CONTINUATION\": \x7b",
    "\t\t\t\"description\": \"A wrapped line is indented by a multiple of four spaces.\"",
    "\t\t\x7d,",
    "\t\t\"DEPRECATED_FUNCTION\": \x7b",
    "\t\t\t\"description\": \"A function was renamed in a later version.\"",
    "\t\t\x7d,",
    "\t\t\"OUTDATED_VERSION\": \x7b",
    "\t\t\t\"description\": \"The //@version directive is older than the current version.\"",
    "\t\t\x7d,",
    "\t\t\"MISSING_VERSION_DIRECTIVE\": \x7b",
    "\t\t\t\"description\": \"The script does not declare its version.\"",
    "\t\t\x7d,",
    "\t\t\"MISSING_NAMESPACE\": \x7b",
    "\t\t\t\"description\": \"A function must be called through its namespace.\"",
    "\t\t\x7d",
    "\t\x7d",
    "\x7d"]

/-- The documentation that comes with the program. -/
def documentation : BuiltinFile where
  name := "documentation.json"
  content := ofLines [
    "\x7b",
    "\t\"version\": \"6\",",
    "\t\"functions\": [",
    "\t\t\x7b",
    "\t\t\t\"name\": \"table.cell\",",
    "\t\t\t\"description\": \"Defines a cell in the table and sets its attributes.\",",
    "\t\t\t\"parameters\": [",
    "\t\t\t\t\x7b \"name\": \"table_id\", \"type\": \"series table\", \"required\": true \x7d,",
    "\t\t\t\t\x7b \"name\": \"column\", \"type\": \"series int\", \"required\": true \x7d,",
    "\t\t\t\t\x7b \"name\": \"row\", \"type\": \"series int\", \"required\": true \x7d,",
    "\t\t\t\t\x7b \"name\": \"text\", \"type\": \"series string\" \x7d,",
    "\t\t\t\t\x7b \"name\": \"width\", \"type\": \"series int/float\" \x7d,",
    "\t\t\t\t\x7b \"name\": \"height\", \"type\": \"series int/float\" \x7d,",
    "\t\t\t\t\x7b \"name\": \"text_color\", \"type\": \"series color\" \x7d,",
    "\t\t\t\t\x7b \"name\": \"text_halign\", \"type\": \"series string\" \x7d,",
    "\t\t\t\t\x7b \"name\": \"text_valign\", \"type\": \"series string\" \x7d,",
    "\t\t\t\t\x7b \"name\": \"text_size\", \"type\": \"series string\" \x7d,",
    "\t\t\t\t\x7b \"name\": \"bgcolor\", \"type\": \"series color\" \x7d,",
    "\t\t\t\t\x7b \"name\": \"tooltip\", \"type\": \"series string\" \x7d,",
    "\t\t\t\t\x7b \"name\": \"text_font_family\", \"type\": \"series string\" \x7d,",
    "\t\t\t\t\x7b \"name\": \"text_formatting\", \"type\": \"const text_format\" \x7d",
    "\t\t\t]",
    "\t\t\x7d,",
    "\t\t\x7b",
    "\t\t\t\"name\": \"table.new\",",
    "\t\t\t\"description\": \"Creates a new table object.\",",
    "\t\t\t\"parameters\": [",
    "\t\t\t\t\x7b \"name\": \"position\", \"type\": \"series string\", \"required\": true \x7d,",
    "\t\t\t\t\x7b \"name\": \"columns\", \"type\": \"series int\", \"required\": true \x7d,",
    "\t\t\t\t\x7b \"name\": \"rows\", \"type\": \"series int\", \"required\": true \x7d,",
    "\t\t\t\t\x7b \"name\": \"bgcolor\", \"type\": \"series color\" \x7d,",
    "\t\t\t\t\x7b \"name\": \"frame_color\", \"type\": \"series color\" \x7d,",
    "\t\t\t\t\x7b \"name\": \"frame_width\", \"type\": \"series int\" \x7d,",
    "\t\t\t\t\x7b \"name\": \"border_color\", \"type\": \"series color\" \x7d,",
    "\t\t\t\t\x7b \"name\": \"border_width\", \"type\": \"series int\" \x7d,",
    "\t\t\t\t\x7b \"name\": \"force_overlay\", \"type\": \"const bool\" \x7d",
    "\t\t\t]",
    "\t\t\x7d,",
    "\t\t\x7b",
    "\t\t\t\"name\": \"label.new\",",
    "\t\t\t\"description\": \"Creates a new label object.\",",
    "\t\t\t\"parameters\": [",
    "\t\t\t\t\x7b \"name\": \"x\", \"type\": \"series int\", \"required\": true \x7d,",
    "\t\t\t\t\x7b \"name\": \"y\", \"type\": \"series int/float\", \"required\": true \x7d,",
    "\t\t\t\t\x7b \"name\": \"text\", \"type\": \"series string\" \x7d,",
    "\t\t\t\t\x7b \"name\": \"xloc\", \"type\": \"series string\" \x7d,",
    "\t\t\t\t\x7b \"name\": \"yloc\", \"type\": \"series string\" \x7d,",
    "\t\t\t\t\x7b \"name\": \"color\", \"type\": \"series color\" \x7d,",
    "\t\t\t\t\x7b \"name\": \"style\", \"type\": \"series string\" \x7d,",
    "\t\t\t\t\x7b \"name\": \"textcolor\", \"type\": \"series color\" \x7d,",
    "\t\t\t\t\x7b \"name\": \"size\", \"type\": \"series string\" \x7d,",
    "\t\t\t\t\x7b \"name\": \"textalign\", \"type\": \"series string\" \x7d,",
    "\t\t\t\t\x7b \"name\": \"tooltip\", \"type\": \"series string\" \x7d,",
    "\t\t\t\t\x7b \"name\": \"text_font_family\", \"type\": \"series string\" \x7d,",
    "\t\t\t\t\x7b \"name\": \"force_overlay\", \"type\": \"const bool\" \x7d",
    "\t\t\t]",
    "\t\t\x7d,",
    "\t\t\x7b",
    "\t\t\t\"name\": \"line.new\",",
    "\t\t\t\"description\": \"Creates a new line object.\",",
    "\t\t\t\"parameters\": [",
    "\t\t\t\t\x7b \"name\": \"x1\", \"type\": \"series int\", \"required\": true \x7d,",
    "\t\t\t\t\x7b \"name\": \"y1\", \"type\": \"series int/float\", \"required\": true \x7d,",
    "\t\t\t\t\x7b \"name\": \"x2\", \"type\": \"series int\", \"required\": true \x7d,",
    "\t\t\t\t\x7b \"name\": \"y2\", \"type\": \"series int/float\", \"required\": true \x7d,",
    "\t\t\t\t\x7b \"name\": \"xloc\", \"type\": \"series string\" \x7d,",
    "\t\t\t\t\x7b \"name\": \"extend\", \"type\": \"series string\" \x7d,",
    "\t\t\t\t\x7b \"name\": \"color\", \"type\": \"series color\" \x7d,",
    "\t\t\t\t\x7b \"name\": \"style\", \"type\": \"series string\" \x7d,",
    "\t\t\t\t\x7b \"name\": \"width\", \"type\": \"series int\" \x7d,",
    "\t\t\t\t\x7b \"name\": \"force_overlay\", \"type\": \"const bool\" \x7d",
    "\t\t\t]",
    "\t\t\x7d,",
    "\t\t\x7b",
    "\t\t\t\"name\": \"box.new\",",
    "\t\t\t\"description\": \"Creates a new box object.\",",
    "\t\t\t\"parameters\": [",
    "\t\t\t\t\x7b \"name\": \"left\", \"type\": \"series int\", \"required\": true \x7d,",
    "\t\t\t\t\x7b \"name\": \"top\", \"type\": \"series int/float\", \"required\": true \x7d,",
    "\t\t\t\t\x7b \"name\": \"right\", \"type\": \"series int\", \"required\": true \x7d,",
    "\t\t\t\t\x7b \"name\": \"bottom\", \"type\": \"series int/float\", \"required\": true \x7d,",
    "\t\t\t\t\x7b \"name\": \"border_color\", \"type\": \"series color\" \x7d,",
    "\t\t\t\t\x7b \"name\": \"border_width\", \"type\": \"series int\" \x7d,",
    "\t\t\t\t\x7b \"name\": \"border_style\", \"type\": \"series string\" \x7d,",
    "\t\t\t\t\x7b \"name\": \"extend\", \"type\": \"series string\" \x7d,",
    "\t\t\t\t\x7b \"name\": \"xloc\", \"type\": \"series string\" \x7d,",
    "\t\t\t\t\x7b \"name\": \"bgcolor\", \"type\": \"series color\" \x7d,",
    "\t\t\t\t\x7b \"name\": \"text\", \"type\": \"series string\" \x7d,",
    "\t\t\t\t\x7b \"name\": \"text_size\", \"type\": \"series string\" \x7d,",
    "\t\t\t\t\x7b \"name\": \"text_color\", \"type\": \"series color\" \x7d,",
    "\t\t\t\t\x7b \"name\": \"text_halign\", \"type\": \"series string\" \x7d,",
    "\t\t\t\t\x7b \"name\": \"text_valign\", \"type\": \"series string\" \x7d,",
    "\t\t\t\t\x7b \"name\": \"text_wrap\", \"type\": \"series string\" \x7d,",
    "\t\t\t\t\x7b \"name\": \"force_overlay\", \"type\": \"const bool\" \x7d",
    "\t\t\t]",
    "\t\t\x7d,",
    "\t\t\x7b",
    "\t\t\t\"name\": \"strategy.entry\",",
    "\t\t\t\"description\": \"Enters a position.\",",
    "\t\t\t\"parameters\": [",
    "\t\t\t\t\x7b \"name\": \"id\", \"type\": \"series string\", \"required\": true \x7d,",
    "\t\t\t\t\x7b \"name\": \"direction\", \"type\": \"series strategy_direction\", " ++
      "\"required\": true \x7d,",
    "\t\t\t\t\x7b \"name\": \"qty\", \"type\": \"series int/float\" \x7d,",
    "\t\t\t\t\x7b \"name\": \"limit\", \"type\": \"series int/float\" \x7d,",
    "\t\t\t\t\x7b \"name\": \"stop\", \"type\": \"series int/float\" \x7d,",
    "\t\t\t\t\x7b \"name\": \"oca_name\", \"type\": \"series string\" \x7d,",
    "\t\t\t\t\x7b \"name\": \"oca_type\", \"type\": \"input string\" \x7d,",
    "\t\t\t\t\x7b \"name\": \"comment\", \"type\": \"series string\" \x7d,",
    "\t\t\t\t\x7b \"name\": \"alert_message\", \"type\": \"series string\" \x7d,",
    "\t\t\t\t\x7b \"name\": \"disable_alert\", \"type\": \"series bool\" \x7d",
    "\t\t\t]",
    "\t\t\x7d,",
    "\t\t\x7b",
    "\t\t\t\"name\": \"request.security\",",
    "\t\t\t\"description\": \"Requests data from another symbol or timeframe.\",",
    "\t\t\t\"parameters\": [",
    "\t\t\t\t\x7b \"name\": \"symbol\", \"type\": \"series string\", \"required\": true \x7d,",
    "\t\t\t\t\x7b \"name\": \"timeframe\", \"type\": \"series string\", \"required\": true \x7d,",
    "\t\t\t\t\x7b \"name\": \"expression\", \"type\": \"variable\", \"required\": true \x7d,",
    "\t\t\t\t\x7b \"name\": \"gaps\", \"type\": \"simple barmerge_gaps\" \x7d,",
    "\t\t\t\t\x7b \"name\": \"lookahead\", \"type\": \"simple barmerge_lookahead\" \x7d,",
    "\t\t\t\t\x7b \"name\": \"ignore_invalid_symbol\", \"type\": \"input bool\" \x7d,",
    "\t\t\t\t\x7b \"name\": \"currency\", \"type\": \"series string\" \x7d,",
    "\t\t\t\t\x7b \"name\": \"calc_bars_count\", \"type\": \"simple int\" \x7d",
    "\t\t\t]",
    "\t\t\x7d,",
    "\t\t\x7b",
    "\t\t\t\"name\": \"plotshape\",",
    "\t\t\t\"description\": \"Plots visual shapes on the chart.\",",
    "\t\t\t\"parameters\": [",
    "\t\t\t\t\x7b \"name\": \"series\", \"type\": \"series bool\", \"required\": true \x7d,",
    "\t\t\t\t\x7b \"name\": \"title\", \"type\": \"const string\" \x7d,",
    "\t\t\t\t\x7b \"name\": \"style\", \"type\": \"input string\" \x7d,",
    "\t\t\t\t\x7b \"name\": \"location\", \"type\": \"input string\" \x7d,",
    "\t\t\t\t\x7b \"name\": \"color\", \"type\": \"series color\" \x7d,",
    "\t\t\t\t\x7b \"name\": \"offset\", \"type\": \"simple int\" \x7d,",
    "\t\t\t\t\x7b \"name\": \"text\", \"type\": \"const string\" \x7d,",
    "\t\t\t\t\x7b \"name\": \"textcolor\", \"type\": \"series color\" \x7d,",
    "\t\t\t\t\x7b \"name\": \"editable\", \"type\": \"input bool\" \x7d,",
    "\t\t\t\t\x7b \"name\": \"size\", \"type\": \"const string\" \x7d,",
    "\t\t\t\t\x7b \"name\": \"show_last\", \"type\": \"input int\" \x7d,",
    "\t\t\t\t\x7b \"name\": \"display\", \"type\": \"input plot_display\" \x7d,",
    "\t\t\t\t\x7b \"name\": \"force_overlay\", \"type\": \"const bool\" \x7d",
    "\t\t\t]",
    "\t\t\x7d,",
    "\t\t\x7b",
    "\t\t\t\"name\": \"ta.pivothigh\",",
    "\t\t\t\"description\": \"Returns the price of the pivot high point.\",",
    "\t\t\t\"parameters\": [",
    "\t\t\t\t\x7b \"name\": \"source\", \"type\": \"series int/float\" \x7d,",
    "\t\t\t\t\x7b \"name\": \"leftbars\", \"type\": \"series int/float\", \"required\": true \x7d,",
    "\t\t\t\t\x7b \"name\": \"rightbars\", \"type\": \"series int/float\", \"required\": true \x7d",
    "\t\t\t]",
    "\t\t\x7d,",
    "\t\t\x7b",
    "\t\t\t\"name\": \"ta.supertrend\",",
    "\t\t\t\"description\": \"The Supertrend indicator.\",",
    "\t\t\t\"parameters\": [",
    "\t\t\t\t\x7b \"name\": \"factor\", \"type\": \"series int/float\", \"required\": true \x7d,",
    "\t\t\t\t\x7b \"name\": \"atrPeriod\", \"type\": \"simple int\", \"required\": true \x7d",
    "\t\t\t]",
    "\t\t\x7d",
    "\t]",
    "\x7d"]

/-- The built-in files, sorted by name. -/
def all : List BuiltinFile :=
  [documentation, rules]

/-- The name of a built-in file with its scheme. -/
def path (file : BuiltinFile) : String :=
  scheme ++ file.name

/-- A path without slashes at its end, nor steps that stay where they are. -/
def trimPath (path : List Char) : List Char :=
  let rec trimReversed : List Char → List Char
    | '/' :: cs => trimReversed cs
    | '.' :: '/' :: cs => trimReversed ('/' :: cs)
    | cs => cs
  (trimReversed path.reverse).reverse

/-- The part of a path behind the scheme. -/
def behindScheme? (path : String) : Option String :=
  (Text.dropWord? scheme.toList path.toList).map String.ofList

/-- The built-in file that a path names. -/
def find? (path : String) : Option BuiltinFile := do
  let name ← behindScheme? path
  all.find? fun file => file.name.toList = trimPath name.toList

end BuiltinFile

/-- Why a rulebook or documentation cannot be loaded from a path. -/
inductive LoadError where
  | noBuiltinFile (path : String)
  | unreadable (path : String)
  | invalid (path : String)
deriving DecidableEq, Inhabited

/-- What is told about a path that cannot be loaded. -/
def LoadError.message : LoadError → String
  | noBuiltinFile path =>
    "no embedded file named '" ++ path ++ "' (available: "
      ++ ", ".intercalate (BuiltinFile.all.map BuiltinFile.path) ++ ")"
  | unreadable path => "failed to read '" ++ path ++ "'"
  | invalid path => "failed to load '" ++ path ++ "'"

/-- The contents of the files that can be read. -/
abbrev Files := String → Option String

/-- Loads something from a built-in file or from one that can be read. -/
def load {α : Type} (files : Files) (parse? : String → Option α) (path : String) :
    Except LoadError α :=
  let parse (content : String) : Except LoadError α :=
    match parse? content with
    | some a => .ok a
    | none => .error (.invalid path)
  match BuiltinFile.find? path with
  | some file => parse file.content
  | none =>
    -- the scheme is never looked up among other files
    if (BuiltinFile.behindScheme? path).isSome then .error (.noBuiltinFile path)
    else match files path with
      | some content => parse content
      | none => .error (.unreadable path)

/-- Loads a rulebook. -/
def loadRulebook (files : Files) (path : String) : Except LoadError Rulebook :=
  load files (fun text => (Rulebook.read text).toOption) path

/-- Loads documentation. -/
def loadDocumentation (files : Files) (path : String) : Except LoadError Documentation :=
  load files Documentation.read? path

end PineCheck
