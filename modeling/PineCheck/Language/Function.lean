import PineCheck.Language.Signature

/-!
# PineCheck — the functions of the language

The signatures of the built-in functions, and the parameter names of those
built-in functions whose arguments have too many types for a signature.
-/

namespace PineCheck.Language

/-- A parameter that every call has to give. -/
def needs (name : String) (type : ValueType) : Parameter :=
  ⟨name, type, true⟩

/-- A parameter that a call may leave out. -/
def takes (name : String) (type : ValueType) : Parameter :=
  ⟨name, type, false⟩

/-- The functions with a signature. Functions with equal parameters stand
together. -/
def signatureTable : List (List String × List Parameter) :=
  [
    (["ta.sma", "ta.ema", "ta.rma", "ta.wma", "ta.vwma", "ta.rsi", "ta.cci", "ta.mom",
      "ta.roc", "ta.linreg_source"],
     [needs "source" .seriesNumber, needs "length" .seriesInt]),
    (["ta.stdev", "ta.dev", "ta.variance"],
     [needs "source" .seriesNumber, needs "length" .seriesInt, takes "biased" .bool]),
    (["ta.highest", "ta.lowest"],
     [needs "source" .seriesNumber, takes "length" .seriesInt]),
    (["ta.crossover", "ta.crossunder", "ta.cross"],
     [needs "source1" .seriesNumber, needs "source2" .seriesNumber]),
    (["ta.change"],
     [needs "source" .seriesNumber, takes "length" .seriesInt]),
    (["ta.atr"],
     [needs "length" .seriesInt]),
    (["ta.macd"],
     [needs "source" .seriesNumber, needs "fastlen" .seriesInt, needs "slowlen" .seriesInt,
      needs "siglen" .seriesInt]),
    (["ta.bb", "ta.kc"],
     [needs "series" .seriesNumber, needs "length" .seriesInt, needs "mult" .seriesNumber]),
    (["math.abs", "math.sqrt", "math.log", "math.exp", "math.floor", "math.ceil",
      "math.sign"],
     [needs "number" .seriesNumber]),
    (["math.round"],
     [needs "number" .seriesNumber, takes "precision" .seriesInt]),
    (["math.pow"],
     [needs "base" .seriesNumber, needs "exponent" .seriesNumber]),
    (["str.length", "str.upper", "str.lower"],
     [needs "source" .string]),
    (["color.new"],
     [needs "color" .color, needs "transp" .seriesNumber]),
    (["color.rgb"],
     [needs "red" .seriesNumber, needs "green" .seriesNumber, needs "blue" .seriesNumber,
      takes "transp" .seriesNumber]),
    (["input.int"],
     [needs "defval" .int, takes "title" .string, takes "minval" .int, takes "maxval" .int,
      takes "step" .int, takes "tooltip" .string, takes "inline" .string,
      takes "group" .string, takes "confirm" .bool, takes "display" .identifier]),
    (["input.float"],
     [needs "defval" .number, takes "title" .string, takes "minval" .number,
      takes "maxval" .number, takes "step" .number, takes "tooltip" .string,
      takes "inline" .string, takes "group" .string, takes "confirm" .bool,
      takes "display" .identifier]),
    (["input.bool"],
     [needs "defval" .bool, takes "title" .string, takes "tooltip" .string,
      takes "inline" .string, takes "group" .string, takes "confirm" .bool,
      takes "display" .identifier]),
    (["input.string"],
     [needs "defval" .string, takes "title" .string, takes "options" .identifier,
      takes "tooltip" .string, takes "inline" .string, takes "group" .string,
      takes "confirm" .bool, takes "display" .identifier]),
    (["indicator"],
     [needs "title" .string, takes "shorttitle" .string, takes "overlay" .bool,
      takes "format" .identifier, takes "precision" .int, takes "scale" .identifier,
      takes "max_bars_back" .int, takes "timeframe" .string, takes "timeframe_gaps" .bool,
      takes "explicit_plot_zorder" .bool, takes "max_lines_count" .int,
      takes "max_labels_count" .int, takes "max_boxes_count" .int,
      takes "calc_bars_count" .int, takes "max_polylines_count" .int,
      takes "dynamic_requests" .bool, takes "behind_chart" .bool]),
    (["strategy"],
     [needs "title" .string, takes "shorttitle" .string, takes "overlay" .bool,
      takes "format" .identifier, takes "precision" .int, takes "scale" .identifier,
      takes "pyramiding" .int, takes "calc_on_order_fills" .bool,
      takes "calc_on_every_tick" .bool, takes "max_bars_back" .int,
      takes "backtest_fill_limits_assumption" .int, takes "default_qty_type" .identifier,
      takes "default_qty_value" .number, takes "initial_capital" .number,
      takes "currency" .identifier, takes "slippage" .int,
      takes "commission_type" .identifier, takes "commission_value" .number,
      takes "process_orders_on_close" .bool, takes "close_entries_rule" .string,
      takes "margin_long" .number, takes "margin_short" .number,
      takes "explicit_plot_zorder" .bool, takes "max_lines_count" .int,
      takes "max_labels_count" .int, takes "max_boxes_count" .int,
      takes "calc_bars_count" .int, takes "risk_free_rate" .number,
      takes "use_bar_magnifier" .bool, takes "fill_orders_on_standard_ohlc" .bool,
      takes "max_polylines_count" .int]),
    (["plot"],
     [needs "series" .seriesNumber, takes "title" .string, takes "color" .color,
      takes "linewidth" .int, takes "style" .identifier, takes "trackprice" .bool,
      takes "histbase" .number, takes "offset" .int, takes "join" .bool,
      takes "editable" .bool, takes "show_last" .int, takes "display" .identifier,
      takes "format" .identifier, takes "precision" .int, takes "force_overlay" .bool]),
    (["hline"],
     [needs "price" .number, takes "title" .string, takes "color" .color,
      takes "linestyle" .identifier, takes "linewidth" .int, takes "editable" .bool,
      takes "display" .identifier]),
    (["bgcolor"],
     [needs "color" .color, takes "offset" .int, takes "editable" .bool,
      takes "show_last" .int, takes "title" .string, takes "display" .identifier,
      takes "force_overlay" .bool]),
    (["table.cell"],
     [needs "table_id" .identifier, needs "column" .seriesInt, needs "row" .seriesInt,
      takes "text" .string, takes "width" .seriesNumber, takes "height" .seriesNumber,
      takes "text_color" .color, takes "text_halign" .identifier,
      takes "text_valign" .identifier, takes "text_size" .identifier,
      takes "bgcolor" .color, takes "tooltip" .string, takes "text_font_family" .identifier,
      takes "text_formatting" .identifier])
  ]

/-- The parameter names of functions without a signature. -/
def parameterTable : List (List String × List String) :=
  [
    (["table.new"],
     ["position", "columns", "rows", "bgcolor", "frame_color", "frame_width",
      "border_color", "border_width", "force_overlay"]),
    (["label.new"],
     ["x", "y", "text", "xloc", "yloc", "color", "style", "textcolor", "size", "textalign",
      "tooltip", "text_font_family", "force_overlay", "text_formatting"]),
    (["line.new"],
     ["x1", "y1", "x2", "y2", "xloc", "extend", "color", "style", "width", "force_overlay"]),
    (["box.new"],
     ["left", "top", "right", "bottom", "border_color", "border_width", "border_style",
      "extend", "xloc", "bgcolor", "text", "text_size", "text_color", "text_halign",
      "text_valign", "text_wrap", "text_font_family", "force_overlay", "text_formatting"]),
    (["strategy.entry", "strategy.order"],
     ["id", "direction", "qty", "limit", "stop", "oco_name", "oco_type", "comment",
      "alert_message", "disable_alert"]),
    (["strategy.exit"],
     ["id", "from_entry", "qty", "qty_percent", "profit", "limit", "loss", "stop",
      "trail_price", "trail_points", "trail_offset", "oco_name", "comment",
      "comment_profit", "comment_loss", "comment_trailing", "alert_message", "alert_profit",
      "alert_loss", "alert_trailing", "disable_alert"]),
    (["strategy.close"],
     ["id", "comment", "qty", "qty_percent", "alert_message", "immediately",
      "disable_alert"]),
    (["request.security"],
     ["symbol", "timeframe", "expression", "gaps", "lookahead", "ignore_invalid_symbol",
      "currency", "calc_bars_count"]),
    (["plotshape"],
     ["series", "title", "style", "location", "color", "offset", "text", "textcolor",
      "editable", "size", "show_last", "display", "format", "precision", "force_overlay"]),
    (["fill"],
     ["plot1", "plot2", "hline1", "hline2", "color", "title", "editable", "show_last",
      "fillgaps", "display", "top_value", "bottom_value", "top_color", "bottom_color"]),
    (["alertcondition"],
     ["condition", "title", "message"])
  ]

/-- The entry of a table whose names hold `name`. -/
def lookUp? {α : Type} (table : List (List String × α)) (name : String) : Option α :=
  (table.find? fun row => row.1.contains name).map Prod.snd

/-- The signature of a built-in function. -/
def signature? (function : String) : Option Signature :=
  (lookUp? signatureTable function).map fun parameters => ⟨function, parameters⟩

/-- Whether a built-in function has a parameter of this name. -/
def isFunctionParameter (function parameter : String) : Bool :=
  (lookUp? signatureTable function).any (·.any fun p => p.name = parameter) ||
    (lookUp? parameterTable function).any (·.contains parameter)

/-- Whether a function is built in. -/
def isBuiltinFunction (function : String) : Bool :=
  (lookUp? signatureTable function).isSome || (lookUp? parameterTable function).isSome

end PineCheck.Language
