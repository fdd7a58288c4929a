import PineCheck.Token

/-!
# PineCheck — the names of the language

Names with a meaning of their own: parameters that many functions share, names
that have changed, functions that have moved into a namespace, price series, and
the namespaces themselves.
-/

namespace PineCheck.Language

/-- The version of the language that scripts should be written in. -/
def currentVersion : Nat := 6

/-- Parameter names that are fine for every function. -/
def commonParameters : List String :=
  ["title", "shorttitle", "overlay", "format", "precision", "scale", "max_bars_back",
   "max_lines_count", "max_labels_count", "max_boxes_count", "max_polylines_count",
   "timeframe", "timeframe_gaps", "explicit_plot_zorder", "calc_bars_count",
   "dynamic_requests", "behind_chart", "pyramiding", "calc_on_order_fills",
   "calc_on_every_tick", "default_qty_type", "default_qty_value", "initial_capital",
   "currency", "slippage", "commission_type", "commission_value", "process_orders_on_close",
   "close_entries_rule", "margin_long", "margin_short", "risk_free_rate",
   "use_bar_magnifier", "source", "length", "series", "color", "linewidth", "style",
   "trackprice", "histbase", "offset", "join", "editable", "show_last", "display", "defval",
   "minval", "maxval", "step", "tooltip", "inline", "group", "confirm", "options", "id",
   "direction", "qty", "limit", "stop", "comment", "alert_message", "when", "text",
   "text_color", "text_size", "text_halign", "text_valign", "textcolor", "textalign",
   "bgcolor", "border_color", "border_width", "border_style", "frame_color", "frame_width",
   "xloc", "yloc", "extend", "size", "location", "position", "width", "height",
   "force_overlay", "transp", "gaps", "lookahead", "symbol", "expression", "mult"]

/-- Parameters with a new name: the function, the old name and the new one. -/
def renamedParameters : List (String × String × String) :=
  [
    ("table.cell", "textColor", "text_color"),
    ("table.cell", "textHalign", "text_halign"),
    ("table.cell", "textValign", "text_valign"),
    ("table.cell", "textSize", "text_size"),
    ("table.cell", "bgColor", "bgcolor"),
    ("table.new", "bgColor", "bgcolor"),
    ("table.new", "frameColor", "frame_color"),
    ("table.new", "frameWidth", "frame_width"),
    ("table.new", "borderColor", "border_color"),
    ("table.new", "borderWidth", "border_width"),
    ("box.new", "borderColor", "border_color"),
    ("box.new", "borderWidth", "border_width"),
    ("box.new", "borderStyle", "border_style"),
    ("box.new", "bgColor", "bgcolor"),
    ("box.new", "textColor", "text_color"),
    ("box.new", "textSize", "text_size"),
    ("label.new", "textColor", "textcolor"),
    ("label.new", "textAlign", "textalign"),
    ("plot", "lineWidth", "linewidth"),
    ("plot", "trackPrice", "trackprice"),
    ("plot", "showLast", "show_last"),
    ("indicator", "shortTitle", "shorttitle"),
    ("indicator", "maxBarsBack", "max_bars_back"),
    ("strategy", "shortTitle", "shorttitle"),
    ("strategy", "initialCapital", "initial_capital")
  ]

/-- Functions with a new name, and what to write in their place. -/
def renamedFunctions : List (String × String) :=
  [
    ("study", "indicator"),
    ("security", "request.security"),
    ("tostring", "str.tostring"),
    ("tonumber", "str.tonumber"),
    ("iff", "the ternary operator `?:`")
  ]

/-- Functions that have moved into the namespace `ta`. -/
def technicalFunctions : List String :=
  ["sma", "ema", "rma", "wma", "vwma", "rsi", "atr", "stdev", "highest", "lowest",
   "crossover", "crossunder", "cross", "change", "macd", "cci", "mom", "roc", "bb", "stoch",
   "sar", "supertrend", "pivothigh", "pivotlow", "valuewhen", "barssince", "cum",
   "correlation", "dmi", "vwap", "tr"]

/-- Functions that have moved into the namespace `math`. -/
def mathFunctions : List String :=
  ["abs", "max", "min", "round", "sqrt", "pow", "log", "exp", "floor", "ceil", "avg", "sum",
   "sign"]

/-- Identifiers for time series of prices or volume. -/
def seriesIdentifiers : List String :=
  ["open", "high", "low", "close", "volume", "hl2", "hlc3", "ohlc4", "hlcc4"]

/-- The built-in namespaces. -/
def namespaces : List String :=
  ["ta", "math", "str", "array", "matrix", "map", "color", "line", "label", "box", "table",
   "linefill", "polyline", "request", "strategy", "input", "syminfo", "timeframe",
   "barstate", "session", "chart", "runtime", "log", "ticker", "dividends", "earnings",
   "splits", "currency", "display", "shape", "location", "size", "position", "plot",
   "hline", "extend", "xloc", "yloc", "format", "scale", "alert", "order", "font", "text"]

/-- Whether a parameter name is fine for every function. -/
def isCommonParameter (name : String) : Bool :=
  commonParameters.contains name

/-- The new name of a parameter that a function used to have. -/
def renamedParameter? (function parameter : String) : Option String :=
  (renamedParameters.find? fun row => row.1 = function && row.2.1 = parameter).map (·.2.2)

/-- What to write in place of a function that has a new name. -/
def renamedFunction? (function : String) : Option String :=
  (renamedFunctions.find? fun row => row.1 = function).map Prod.snd

/-- The full name of a function that has moved into a namespace. -/
def namespacedFunction? (function : String) : Option String :=
  if technicalFunctions.contains function then some ("ta." ++ function)
  else if mathFunctions.contains function then some ("math." ++ function)
  else none

/-- Whether an identifier is a time series of prices or volume. -/
def isSeries (name : String) : Bool :=
  seriesIdentifiers.contains name

/-- Whether a name is a built-in namespace. -/
def isNamespace (name : String) : Bool :=
  namespaces.contains name

/-- Whether a name is a keyword. -/
def isKeyword (name : String) : Bool :=
  (Keyword.ofSpelling? name).isSome

end PineCheck.Language
