import PineCheck.Parser.Statement

/-!
# PineCheck — simple scripts and how they are written

The scripts of which the parser keeps everything: calls and declarations, one on
each line, whose expressions are literals, names and calls. The types here can
only hold what can be written: a `Word` is no keyword, a `Numeral` has digits, a
`Name` is no color. So every value of `List Statement` is the tree of a script.

* `print` writes a script, and `Statement.tokens` lists the tokens it is written
  with.
* `Statement.node` is the statement as the parser should give it, with all spans
  left out; `Node.unplaced` leaves out the spans of any statement.
* `Expr.induction` is induction on expressions, with one hypothesis for all
  arguments of a call, and `Hereditary` packs it up for properties of tokens.
-/

namespace PineCheck

-- ---------------------------------------------------------------------------
-- Trees without places
-- ---------------------------------------------------------------------------

mutual

/-- A value with all its spans left out. -/
def Value.unplaced : Value → Value
  | .literal literal => .literal { literal with span := default }
  | .identifier identifier => .identifier { identifier with span := default }
  | .call call => .call call.unplaced

/-- A call with all its spans left out. -/
def Call.unplaced : Call → Call
  | ⟨name, arguments, _⟩ => ⟨name, Argument.unplacedAll arguments, default⟩

/-- Arguments with all their spans left out. -/
def Argument.unplacedAll : List Argument → List Argument
  | [] => []
  | argument :: arguments => argument.unplaced :: Argument.unplacedAll arguments

/-- An argument with all its spans left out. -/
def Argument.unplaced : Argument → Argument
  | ⟨name, value, position, isExpression, _⟩ =>
    ⟨name.map fun name => { name with span := default }, value.unplaced, position,
      isExpression, default⟩

end

/-- A statement with all its spans left out. -/
def Node.unplaced : Node → Node
  | call c => .call c.unplaced
  | declaration d =>
    .declaration
      { d with
        name := { d.name with span := default }
        value := d.value.map Value.unplaced
        span := default }

namespace Script

-- ---------------------------------------------------------------------------
-- Words and names
-- ---------------------------------------------------------------------------

/-- A word that can be a name. -/
structure Word where
  text : String
  isWordStart : text.toList.head?.any Lexer.isWordStart = true := by decide
  isWordChar : text.toList.all Lexer.isWordChar = true := by decide
  notKeyword : Keyword.ofSpelling? text = none := by decide
  notBoolean : text ≠ "true" ∧ text ≠ "false" := by decide

/-- Words joined by full stops. -/
structure Chain where
  first : Word
  others : List Word

namespace Chain

/-- How a chain is written. -/
def chars (chain : Chain) : List Char :=
  chain.first.text.toList ++ chain.others.flatMap fun word => '.' :: word.text.toList

/-- The text of a chain. -/
def text (chain : Chain) : String :=
  String.ofList chain.chars

/-- The namespace of a chain: all its words but the last, if there are others. -/
def namespace? (chain : Chain) : Option String :=
  if chain.others = [] then none else some (Chain.text ⟨chain.first, chain.others.dropLast⟩)

/-- The tokens of a chain. -/
def tokens (chain : Chain) : List Token :=
  .identifier chain.first.text ::
    chain.others.flatMap fun word => [.punctuation .dot, .identifier word.text]

end Chain

/-- A chain that names something other than a color. -/
structure Name extends Chain where
  notColor : ¬(first.text = "color" ∧ others.length = 1)

/-- A type: a chain, perhaps with type arguments as in `map<string,float>`, and
perhaps with the mark of an array. -/
structure TypeName where
  chain : Chain
  arguments : Option (Chain × List Chain)
  isArray : Bool

namespace TypeName

/-- How the type arguments are written. -/
def argumentChars : Option (Chain × List Chain) → List Char
  | none => []
  | some (first, others) =>
    '<' :: (first.chars ++ (others.flatMap (fun chain => ',' :: chain.chars) ++ ['>']))

/-- The tokens of the type arguments. -/
def argumentTokens : Option (Chain × List Chain) → List Token
  | none => []
  | some (first, others) =>
    .operator .less :: (first.tokens ++
      (others.flatMap (fun chain => .punctuation .comma :: chain.tokens) ++ [.operator .greater]))

/-- How the mark of an array is written. -/
def markChars (isArray : Bool) : List Char :=
  if isArray then ['[', ']'] else []

/-- The tokens of the mark of an array. -/
def markTokens (isArray : Bool) : List Token :=
  if isArray then [.punctuation .bracketLeft, .punctuation .bracketRight] else []

/-- How a type is written. -/
def chars (type : TypeName) : List Char :=
  type.chain.chars ++ (argumentChars type.arguments ++ markChars type.isArray)

/-- The text of a type. -/
def text (type : TypeName) : String :=
  String.ofList type.chars

/-- The tokens of a type. -/
def tokens (type : TypeName) : List Token :=
  type.chain.tokens ++ (argumentTokens type.arguments ++ markTokens type.isArray)

end TypeName

-- ---------------------------------------------------------------------------
-- Literals
-- ---------------------------------------------------------------------------

/-- One or more decimal digits. -/
structure Digits where
  chars : List Char
  ne_nil : chars ≠ [] := by decide
  isDigit : chars.all Char.isDigit = true := by decide

/-- The exponent of a number: `e` or `E`, perhaps a sign, and digits. -/
structure Exponent where
  mark : Char
  isMark : mark = 'e' ∨ mark = 'E'
  sign : Option Char
  isSign : ∀ c ∈ sign, c = '+' ∨ c = '-'
  digits : Digits

/-- How an exponent is written. -/
def Exponent.chars (exponent : Exponent) : List Char :=
  exponent.mark :: (exponent.sign.toList ++ exponent.digits.chars)

/-- A decimal number. -/
structure Numeral where
  isNegative : Bool
  whole : Digits
  fraction : Option Digits
  exponent : Option Exponent

namespace Numeral

/-- How the digits behind the point are written, with the point. -/
def fractionChars (fraction : Option Digits) : List Char :=
  fraction.toList.flatMap fun digits => '.' :: digits.chars

/-- How a number is written. -/
def chars (numeral : Numeral) : List Char :=
  (if numeral.isNegative then ['-'] else []) ++ (numeral.whole.chars ++
    (fractionChars numeral.fraction ++ numeral.exponent.toList.flatMap Exponent.chars))

end Numeral

/-- The digits of a color, with or without a transparency. -/
structure ColorCode where
  digits : List Char
  isHexDigit : digits.all Lexer.isHexDigit = true := by decide
  length_eq : digits.length = 6 ∨ digits.length = 8 := by decide

/-- How a color is written. -/
def ColorCode.chars (code : ColorCode) : List Char :=
  '#' :: code.digits

/-- How a character is written in a string literal. -/
def escape (c : Char) : List Char :=
  if c = '\n' then ['\\', 'n']
  else if c = '\t' then ['\\', 't']
  else if c = '\r' then ['\\', 'r']
  else if c = '\\' || c = '"' then ['\\', c]
  else [c]

/-- How a string literal is written. -/
def quoteChars (contents : String) : List Char :=
  '"' :: (contents.toList.flatMap escape ++ ['"'])

-- ---------------------------------------------------------------------------
-- Expressions
-- ---------------------------------------------------------------------------

/-- An expression without arguments. -/
inductive Atom where
  | number (numeral : Numeral)
  | string (contents : String)
  | boolean (value : Bool)
  | color (code : ColorCode)
  | name (name : Name)

namespace Atom

/-- How an atom is written. -/
def chars : Atom → List Char
  | number numeral => numeral.chars
  | string contents => quoteChars contents
  | boolean value => (if value then "true" else "false").toList
  | color code => code.chars
  | name chain => chain.chars

/-- The tokens of an atom. -/
def tokens : Atom → List Token
  | number numeral => [.number (String.ofList numeral.chars)]
  | string contents => [.string contents]
  | boolean value => [.boolean value]
  | color code => [.color (String.ofList code.chars)]
  | name chain => chain.tokens

/-- The value that an atom stands for. -/
def value : Atom → Value
  | number numeral => .literal ⟨.number, String.ofList numeral.chars, default⟩
  | string contents => .literal ⟨.string, contents, default⟩
  | boolean value => .literal ⟨.boolean, if value then "true" else "false", default⟩
  | color code => .literal ⟨.color, String.ofList code.chars, default⟩
  | name chain => .identifier ⟨chain.text, default⟩

end Atom

/-- An expression: an atom or a call, whose arguments without names come before
those with names. -/
inductive Expr where
  | atom (atom : Atom)
  | call (function : Chain) (positional : List Expr) (named : List (Word × Expr))

/-- The arguments of a call in order, each with its name if it has one. -/
def arguments (positional : List Expr) (named : List (Word × Expr)) : List (Option Word × Expr) :=
  positional.map (Prod.mk none) ++ named.map fun (word, e) => (some word, e)

namespace Expr

section Fold

variable {α : Type} (atom : Atom → α) (call : Chain → List (Option Word × α) → α)

mutual

/-- Works out something about an expression from the same about its arguments. -/
def fold : Expr → α
  | .atom a => atom a
  | .call function positional named =>
    call function (foldPositional positional ++ foldNamed named)

/-- What is worked out about arguments without names. -/
def foldPositional : List Expr → List (Option Word × α)
  | [] => []
  | e :: es => (none, fold e) :: foldPositional es

/-- What is worked out about arguments with names. -/
def foldNamed : List (Word × Expr) → List (Option Word × α)
  | [] => []
  | (word, e) :: rest => (some word, fold e) :: foldNamed rest

end

end Fold

/-- How one argument is written. -/
def argumentChars : Option Word × List Char → List Char
  | (none, chars) => chars
  | (some word, chars) => word.text.toList ++ (" = ".toList ++ chars)

/-- How arguments are written, with a comma and a space between them. -/
def joinedChars : List (Option Word × List Char) → List Char
  | [] => []
  | [argument] => argumentChars argument
  | argument :: arguments => argumentChars argument ++ (", ".toList ++ joinedChars arguments)

/-- How an expression is written. -/
def chars : Expr → List Char :=
  fold Atom.chars fun function arguments =>
    function.chars ++ ('(' :: (joinedChars arguments ++ [')']))

/-- The tokens of one argument. -/
def argumentTokens : Option Word × List Token → List Token
  | (none, tokens) => tokens
  | (some word, tokens) => .identifier word.text :: .operator .assignment :: tokens

/-- The tokens of arguments, with a comma between them. -/
def joinedTokens : List (Option Word × List Token) → List Token
  | [] => []
  | [argument] => argumentTokens argument
  | argument :: arguments =>
    argumentTokens argument ++ .punctuation .comma :: joinedTokens arguments

/-- The tokens of an expression. -/
def tokens : Expr → List Token :=
  fold Atom.tokens fun function arguments =>
    function.tokens ++ (.punctuation .parenLeft :: (joinedTokens arguments ++
      [.punctuation .parenRight]))

/-- Arguments as the parser gives them, from the one at `position` on. -/
def placeArguments (position : Nat) : List (Option Word × Value) → List Argument
  | [] => []
  | (word, value) :: rest =>
    ⟨word.map fun word => ⟨word.text, default⟩, value, position, false, default⟩ ::
      placeArguments (position + 1) rest

/-- A call as the parser gives it. -/
def callOf (function : Chain) (arguments : List (Option Word × Value)) : Call :=
  ⟨function.text, placeArguments 0 arguments, default⟩

/-- An expression as the parser gives it. -/
def value : Expr → Value :=
  fold Atom.value fun function arguments => .call (callOf function arguments)

/-- How deep the calls of an expression are nested. -/
def height : Expr → Nat :=
  fold (fun _ => 0) fun _ arguments => (arguments.map Prod.snd).foldr max 0 + 1

/-- The functions that an expression calls, each before those in its arguments. -/
def functions : Expr → List Chain :=
  fold (fun _ => []) fun function arguments => function :: arguments.flatMap Prod.snd

end Expr

-- ---------------------------------------------------------------------------
-- Statements
-- ---------------------------------------------------------------------------

/-- A statement: a call, a declaration with `=`, or a new value with `:=`. -/
inductive Statement where
  | call (function : Chain) (positional : List Expr) (named : List (Word × Expr))
  | declare (isVar : Bool) (type : Option TypeName) (name : Word) (value : Expr)
  | reassign (type : Option TypeName) (name : Word) (value : Expr)

namespace Statement

/-- How a type before a name is written. -/
def typeChars (type : Option TypeName) : List Char :=
  type.toList.flatMap fun type => type.chars ++ [' ']

/-- The tokens of a type before a name. -/
def typeTokens (type : Option TypeName) : List Token :=
  type.toList.flatMap TypeName.tokens

/-- How a statement is written, with the end of its line. -/
def chars : Statement → List Char
  | call function positional named => (Expr.call function positional named).chars ++ ['\n']
  | declare isVar type name value =>
    (if isVar then "var ".toList else []) ++ (typeChars type ++ (name.text.toList ++
      (" = ".toList ++ (value.chars ++ ['\n']))))
  | reassign type name value =>
    typeChars type ++ (name.text.toList ++ (" := ".toList ++ (value.chars ++ ['\n'])))

/-- The tokens of a statement, with the end of its line. -/
def tokens : Statement → List Token
  | call function positional named => (Expr.call function positional named).tokens ++ [.newline]
  | declare isVar type name value =>
    (if isVar then [.keyword .varKw] else []) ++ (typeTokens type ++
      (.identifier name.text :: .operator .assignment :: (value.tokens ++ [.newline])))
  | reassign type name value =>
    typeTokens type ++
      (.identifier name.text :: .operator .reassignment :: (value.tokens ++ [.newline]))

/-- A statement as the parser should give it. -/
def node : Statement → Node
  | call function positional named =>
    .call (Expr.callOf function ((arguments positional named).map fun (word, e) => (word, e.value)))
  | declare isVar type name value =>
    .declaration
      { name := ⟨name.text, default⟩
        typeName := type.map TypeName.text
        isVar := isVar
        isReassignment := false
        value := some value.value
        span := default }
  | reassign type name value =>
    .declaration
      { name := ⟨name.text, default⟩
        typeName := type.map TypeName.text
        isVar := false
        isReassignment := true
        value := some value.value
        span := default }

/-- How deep the calls of a statement are nested. -/
def height : Statement → Nat
  | call function positional named => (Expr.call function positional named).height
  | declare _ _ _ value => value.height
  | reassign _ _ value => value.height

/-- The functions that a statement calls. -/
def functions : Statement → List Chain
  | call function positional named => (Expr.call function positional named).functions
  | declare _ _ _ value => value.functions
  | reassign _ _ value => value.functions

end Statement

/-- Writes a script. -/
def print (script : List Statement) : String :=
  String.ofList (script.flatMap Statement.chars)

-- ---------------------------------------------------------------------------
-- Induction on expressions
-- ---------------------------------------------------------------------------

namespace Expr

/-- What holds of atoms, and of a call if it holds of all its arguments, holds of
every expression. -/
@[elab_as_elim]
theorem induction {P : Expr → Prop} (atom : ∀ a, P (.atom a))
    (call : ∀ function positional named,
      (∀ argument ∈ arguments positional named, P argument.2) →
        P (.call function positional named)) (e : Expr) : P e := by
  refine @Expr.rec P (fun es => ∀ e ∈ es, P e) (fun named => ∀ argument ∈ named, P argument.2)
    (fun argument => P argument.2) atom ?_ ?_ ?_ ?_ ?_ ?_ e
  · intro function positional named hpositional hnamed
    refine call function positional named fun argument hmem => ?_
    rcases List.mem_append.mp hmem with hmem | hmem
    · obtain ⟨e, he, rfl⟩ := List.mem_map.mp hmem
      exact hpositional e he
    · obtain ⟨pair, hpair, rfl⟩ := List.mem_map.mp hmem
      exact hnamed pair hpair
  · exact fun _ h => absurd h List.not_mem_nil
  · exact fun e es he hes => List.forall_mem_cons.mpr ⟨he, hes⟩
  · exact fun _ h => absurd h List.not_mem_nil
  · exact fun pair pairs hpair hpairs => List.forall_mem_cons.mpr ⟨hpair, hpairs⟩
  · exact fun _ _ he => he

theorem foldPositional_eq_map {α : Type} (atom : Atom → α)
    (call : Chain → List (Option Word × α) → α) (es : List Expr) :
    foldPositional atom call es = es.map fun e => (none, fold atom call e) := by
  induction es with
  | nil => rfl
  | cons e es ih => rw [foldPositional, ih, List.map_cons]

theorem foldNamed_eq_map {α : Type} (atom : Atom → α)
    (call : Chain → List (Option Word × α) → α) (named : List (Word × Expr)) :
    foldNamed atom call named = named.map fun (word, e) => (some word, fold atom call e) := by
  induction named with
  | nil => rfl
  | cons argument named ih => rw [foldNamed, ih, List.map_cons]

/-- A call is worked out from its arguments in order. -/
theorem fold_call {α : Type} (atom : Atom → α) (call : Chain → List (Option Word × α) → α)
    (function : Chain) (positional : List Expr) (named : List (Word × Expr)) :
    fold atom call (.call function positional named) =
      call function
        ((arguments positional named).map fun (word, e) => (word, fold atom call e)) := by
  rw [fold, foldPositional_eq_map, foldNamed_eq_map, arguments, List.map_append, List.map_map,
    List.map_map]
  rfl

/-- The arguments of a call with something worked out about each. -/
abbrev mapArguments {α : Type} (f : Expr → α) (arguments : List (Option Word × Expr)) :
    List (Option Word × α) :=
  arguments.map fun (word, e) => (word, f e)

variable (function : Chain) (positional : List Expr) (named : List (Word × Expr))

theorem chars_call : (Expr.call function positional named).chars =
    function.chars ++
      ('(' :: (joinedChars (mapArguments chars (arguments positional named)) ++ [')'])) :=
  fold_call ..

theorem tokens_call : (Expr.call function positional named).tokens =
    function.tokens ++ (.punctuation .parenLeft ::
      (joinedTokens (mapArguments tokens (arguments positional named)) ++
        [.punctuation .parenRight])) :=
  fold_call ..

theorem value_call : (Expr.call function positional named).value =
    .call (callOf function (mapArguments value (arguments positional named))) :=
  fold_call ..

theorem height_call : (Expr.call function positional named).height =
    ((mapArguments height (arguments positional named)).map Prod.snd).foldr max 0 + 1 :=
  fold_call ..

theorem functions_call : (Expr.call function positional named).functions =
    function :: (arguments positional named).flatMap fun argument => argument.2.functions := by
  rw [functions, fold_call, List.flatMap_map]

end Expr

/-- A property of tokens that passes from the parts of an expression to the whole. -/
structure Hereditary (P : List Token → Prop) : Prop where
  nil : P []
  atom (a : Atom) : P a.tokens
  label {tokens : List Token} (word : Word) (h : P tokens) :
    P (.identifier word.text :: .operator .assignment :: tokens)
  comma {tokens others : List Token} (h : P tokens) (hothers : P others) :
    P (tokens ++ .punctuation .comma :: others)
  call {tokens : List Token} (function : Chain) (h : P tokens) :
    P (function.tokens ++ (.punctuation .parenLeft :: (tokens ++ [.punctuation .parenRight])))

namespace Hereditary

variable {P : List Token → Prop}

theorem joinedTokens (hP : Hereditary P) {arguments : List (Option Word × List Token)}
    (h : ∀ argument ∈ arguments, P argument.2) : P (Expr.joinedTokens arguments) := by
  have hargument : ∀ argument ∈ arguments, P (Expr.argumentTokens argument) := by
    rintro ⟨_ | word, tokens⟩ hmem
    · exact h _ hmem
    · exact hP.label word (h _ hmem)
  clear h
  induction arguments using Expr.joinedTokens.induct with
  | case1 => exact hP.nil
  | case2 argument => exact hargument argument (List.mem_singleton_self argument)
  | case3 argument arguments hne ih =>
    rw [List.forall_mem_cons] at hargument
    rw [Expr.joinedTokens]
    · exact hP.comma hargument.1 (ih hargument.2)
    · exact hne

/-- Such a property holds of the tokens of every expression. -/
theorem tokens (hP : Hereditary P) (e : Expr) : P e.tokens := by
  induction e using Expr.induction with
  | atom a => exact hP.atom a
  | call function positional named ih =>
    rw [Expr.tokens_call]
    refine hP.call function (hP.joinedTokens fun argument hmem => ?_)
    obtain ⟨argument, hargument, rfl⟩ := List.mem_map.mp hmem
    exact ih argument hargument

/-- It also holds of what stands between the parentheses of a call. -/
theorem inside (hP : Hereditary P) (given : List (Option Word × Expr)) :
    P (Expr.joinedTokens (Expr.mapArguments Expr.tokens given)) := by
  refine hP.joinedTokens fun argument hmem => ?_
  obtain ⟨argument, _, rfl⟩ := List.mem_map.mp hmem
  exact hP.tokens argument.2

end Hereditary

end Script

end PineCheck
