import PineCheck.Proofs.RoundTrip

/-!
# PineCheck — where the tokens of a printed script stand

A printed line is a list of pieces: spaces, and tokens with the characters that they
are written with. The pieces give the text of a line and its tokens, and with an offset
from which the line is written they give the offsets of the tokens (`starts`).

* `Expr.pieces` and `Statement.line` are the pieces of expressions and statements.
* `scan_pieces` — a scan over pieces finds the tokens at the offsets where the pieces
  were written.
* `starts_print` — so does a parse of a printed script.
* `newline_notMem_charsOf` — pieces do not go over the end of a line.
-/

namespace PineCheck.Script

open Lexer PineCheck.Parser

-- ---------------------------------------------------------------------------
-- Pieces
-- ---------------------------------------------------------------------------

/-- A piece of a printed line. -/
inductive Piece where
  | space
  | var
  | word (word : Word)
  | boolean (value : Bool)
  | number (numeral : Numeral)
  | color (code : ColorCode)
  | string (contents : String)
  | mark (mark : Punctuation)
  | operator (op : Operator)

namespace Piece

/-- How a piece is written. -/
def chars : Piece → List Char
  | space => [' ']
  | var => Keyword.varKw.spelling.toList
  | word w => w.text.toList
  | boolean value => (if value then "true" else "false").toList
  | number numeral => numeral.chars
  | color code => code.chars
  | string contents => quoteChars contents
  | mark m => [m.spelling]
  | operator op => op.spelling.toList

/-- The token that a piece is read as. -/
def token? : Piece → Option Token
  | space => none
  | var => some (.keyword .varKw)
  | word w => some (.identifier w.text)
  | boolean value => some (.boolean value)
  | number numeral => some (.number (String.ofList numeral.chars))
  | color code => some (.color (String.ofList code.chars))
  | string contents => some (.string contents)
  | mark m => some (.punctuation m)
  | operator op => some (.operator op)

end Piece

/-- The text of pieces. -/
def charsOf (ps : List Piece) : List Char :=
  ps.flatMap Piece.chars

/-- The tokens of pieces. -/
def tokensOf (ps : List Piece) : List Token :=
  ps.filterMap Piece.token?

/-- The number of bytes of pieces. -/
def width (ps : List Piece) : Nat :=
  byteLength (charsOf ps)

/-- Where the tokens of pieces start that are written from an offset on. -/
def starts (offset : Nat) : List Piece → List Nat
  | [] => []
  | piece :: ps => (piece.token?.map fun _ => offset).toList ++
      starts (offset + byteLength piece.chars) ps

section Append

variable (a b : List Piece)

theorem charsOf_append : charsOf (a ++ b) = charsOf a ++ charsOf b :=
  List.flatMap_append

theorem tokensOf_append : tokensOf (a ++ b) = tokensOf a ++ tokensOf b :=
  List.filterMap_append

theorem width_append : width (a ++ b) = width a + width b := by
  rw [width, charsOf_append, byteLength_append]
  rfl

/-- The second list starts where the first one ends. -/
theorem starts_append (offset : Nat) :
    starts offset (a ++ b) = starts offset a ++ starts (offset + width a) b := by
  induction a generalizing offset with
  | nil => rfl
  | cons piece a ih =>
    have hwidth : width (piece :: a) = byteLength piece.chars + width a :=
      byteLength_append ..
    rw [List.cons_append, starts, starts, ih, List.append_assoc, hwidth, Nat.add_assoc]

end Append

/-- There is one start for each token. -/
theorem length_starts (offset : Nat) (ps : List Piece) :
    (starts offset ps).length = (tokensOf ps).length := by
  induction ps generalizing offset with
  | nil => rfl
  | cons piece ps ih =>
    rw [starts, List.length_append, ih, tokensOf, tokensOf, List.filterMap_cons]
    cases piece.token? with
    | none => exact Nat.zero_add _
    | some token => exact Nat.add_comm ..

-- ---------------------------------------------------------------------------
-- The pieces of a script
-- ---------------------------------------------------------------------------

/-- The pieces of a chain. -/
def Chain.pieces (chain : Chain) : List Piece :=
  .word chain.first :: chain.others.flatMap fun word => [.mark .dot, .word word]

/-- The pieces of an atom. -/
def Atom.pieces : Atom → List Piece
  | .number numeral => [.number numeral]
  | .string contents => [.string contents]
  | .boolean value => [.boolean value]
  | .color code => [.color code]
  | .name chain => chain.toChain.pieces

namespace Expr

/-- The pieces before the value of an argument. -/
def labelPieces : Option Word → List Piece
  | none => []
  | some word => [.word word, .space, .operator .assignment, .space]

/-- The pieces of arguments, with a comma and a space between them. -/
def joinedPieces : List (Option Word × List Piece) → List Piece
  | [] => []
  | [argument] => labelPieces argument.1 ++ argument.2
  | argument :: arguments =>
    labelPieces argument.1 ++ argument.2 ++ .mark .comma :: .space :: joinedPieces arguments

/-- The pieces of an expression. -/
def pieces : Expr → List Piece :=
  fold Atom.pieces fun function arguments =>
    function.pieces ++ (.mark .parenLeft :: (joinedPieces arguments ++ [.mark .parenRight]))

/-- A call is its name and its arguments in parentheses. -/
theorem pieces_call (function : Chain) (positional : List Expr) (named : List (Word × Expr)) :
    (Expr.call function positional named).pieces =
      function.pieces ++ (.mark .parenLeft ::
        (joinedPieces (mapArguments pieces (arguments positional named)) ++ [.mark .parenRight])) :=
  fold_call ..

end Expr

/-- The pieces of type arguments. -/
def TypeName.argumentPieces : Option (Chain × List Chain) → List Piece
  | none => []
  | some (first, others) =>
    .operator .less :: (first.pieces ++
      (others.flatMap (fun chain => .mark .comma :: chain.pieces) ++ [.operator .greater]))

/-- The pieces of the mark of an array. -/
def TypeName.markPieces (isArray : Bool) : List Piece :=
  if isArray then [.mark .bracketLeft, .mark .bracketRight] else []

/-- The pieces of a type. -/
def TypeName.pieces (type : TypeName) : List Piece :=
  type.chain.pieces ++ (argumentPieces type.arguments ++ markPieces type.isArray)

namespace Statement

/-- The pieces of a declaration before what the variable is given. -/
def headPieces (isVar : Bool) (type : Option TypeName) (name : Word) (op : Operator) :
    List Piece :=
  (if isVar then [.var, .space] else []) ++
    (type.toList.flatMap (fun type => type.pieces ++ [.space]) ++
      [.word name, .space, .operator op, .space])

/-- The pieces of a statement, without the end of its line. -/
def line : Statement → List Piece
  | call function positional named => (Expr.call function positional named).pieces
  | declare isVar type name value => headPieces isVar type name .assignment ++ value.pieces
  | reassign type name value => headPieces false type name .reassignment ++ value.pieces

end Statement

-- ---------------------------------------------------------------------------
-- The text and the tokens of the pieces
-- ---------------------------------------------------------------------------

/-- Pieces are written as a text and read as tokens. -/
def Gives (ps : List Piece) (cs : List Char) (tokens : List Token) : Prop :=
  charsOf ps = cs ∧ tokensOf ps = tokens

namespace Gives

theorem nil : Gives [] [] [] :=
  ⟨rfl, rfl⟩

theorem append {ps qs : List Piece} {cs ds : List Char} {tokens others : List Token}
    (h : Gives ps cs tokens) (h' : Gives qs ds others) :
    Gives (ps ++ qs) (cs ++ ds) (tokens ++ others) :=
  ⟨by rw [charsOf_append, h.1, h'.1], by rw [tokensOf_append, h.2, h'.2]⟩

/-- What the pieces of a list of things give, thing by thing. -/
theorem flatMap {α : Type} {f : α → List Piece} {g : α → List Char} {k : α → List Token}
    (h : ∀ x, Gives (f x) (g x) (k x)) (xs : List α) :
    Gives (xs.flatMap f) (xs.flatMap g) (xs.flatMap k) := by
  induction xs with
  | nil => exact nil
  | cons x xs ih => exact (h x).append ih

theorem space {ps : List Piece} {cs : List Char} {tokens : List Token} (h : Gives ps cs tokens) :
    Gives (.space :: ps) (' ' :: cs) tokens :=
  ⟨congrArg (' ' :: ·) h.1, h.2⟩

/-- One more piece in front gives its characters and its token. -/
theorem cons {ps : List Piece} {cs : List Char} {tokens : List Token} {piece : Piece}
    {token : Token} (htoken : piece.token? = some token) (h : Gives ps cs tokens) :
    Gives (piece :: ps) (piece.chars ++ cs) (token :: tokens) := by
  refine ⟨congrArg (piece.chars ++ ·) h.1, ?_⟩
  rw [tokensOf, List.filterMap_cons, htoken]
  exact congrArg (token :: ·) h.2

theorem singleton {piece : Piece} {token : Token} (htoken : piece.token? = some token) :
    Gives [piece] piece.chars [token] := by
  have h := cons htoken nil
  rwa [List.append_nil] at h

theorem chain (chain : Chain) : Gives chain.pieces chain.chars chain.tokens := by
  have hothers (word : Word) : Gives [.mark .dot, .word word] ('.' :: word.text.toList)
      [.punctuation .dot, .identifier word.text] := cons rfl (singleton rfl)
  exact cons rfl (flatMap hothers chain.others)

theorem atom (atom : Atom) : Gives atom.pieces atom.chars atom.tokens := by
  cases atom with
  | name chain => exact Gives.chain chain.toChain
  | number | string | boolean | color => exact singleton rfl

/-- The pieces of the name of an argument give its text and tokens. -/
theorem label {ps : List Piece} {cs : List Char} {tokens : List Token} (h : Gives ps cs tokens)
    (word : Option Word) :
    Gives (Expr.labelPieces word ++ ps) (Expr.argumentChars (word, cs))
      (Expr.argumentTokens (word, tokens)) := by
  cases word with
  | none => exact h
  | some word => exact cons rfl (space (cons rfl (space h)))

/-- The pieces of arguments, if those of each argument are known. -/
theorem joined {given : List (Option Word × Expr)}
    (h : ∀ argument ∈ given, Gives argument.2.pieces argument.2.chars argument.2.tokens) :
    Gives (Expr.joinedPieces (Expr.mapArguments Expr.pieces given))
      (Expr.joinedChars (Expr.mapArguments Expr.chars given))
      (Expr.joinedTokens (Expr.mapArguments Expr.tokens given)) := by
  induction given with
  | nil => exact nil
  | cons argument others ih =>
    obtain ⟨hargument, hothers⟩ := List.forall_mem_cons.mp h
    have hfirst := hargument.label argument.1
    cases others with
    | nil => exact hfirst
    | cons next others => exact hfirst.append (cons rfl (space (ih hothers)))

/-- The pieces of an expression give its text and tokens. -/
theorem expr (e : Expr) : Gives e.pieces e.chars e.tokens := by
  induction e using Expr.induction with
  | atom a => exact atom a
  | call function positional named ih =>
    rw [Expr.pieces_call, Expr.chars_call, Expr.tokens_call]
    exact (chain function).append (cons rfl ((joined ih).append (singleton rfl)))

/-- The pieces of the type arguments give their text and tokens. -/
theorem typeArguments (arguments : Option (Chain × List Chain)) :
    Gives (TypeName.argumentPieces arguments) (TypeName.argumentChars arguments)
      (TypeName.argumentTokens arguments) := by
  cases arguments with
  | none => exact nil
  | some arguments =>
    have hothers (chain : Chain) : Gives (.mark .comma :: chain.pieces) (',' :: chain.chars)
        (.punctuation .comma :: chain.tokens) := cons rfl (Gives.chain chain)
    exact cons rfl ((chain arguments.1).append
      ((flatMap hothers arguments.2).append (singleton rfl)))

/-- The pieces of a type and the blank behind it give their text and tokens. -/
theorem typePart (type : Option TypeName) :
    Gives (type.toList.flatMap fun type => type.pieces ++ [.space]) (Statement.typeChars type)
      (Statement.typeTokens type) := by
  have hmark (isArray : Bool) : Gives (TypeName.markPieces isArray) (TypeName.markChars isArray)
      (TypeName.markTokens isArray) := by
    cases isArray with
    | false => exact nil
    | true => exact cons rfl (singleton rfl)
  cases type with
  | none => exact nil
  | some type =>
    have htype : Gives type.pieces type.chars type.tokens :=
      (chain type.chain).append ((typeArguments type.arguments).append (hmark type.isArray))
    have hspace := htype.append (space nil)
    rw [List.append_nil] at hspace
    simpa only [Option.toList_some, List.flatMap_singleton, Statement.typeChars,
      Statement.typeTokens] using hspace

/-- A declaration before what the variable is given. -/
theorem head (isVar : Bool) (type : Option TypeName) (name : Word) (op : Operator) :
    Gives (Statement.headPieces isVar type name op)
      ((if isVar then "var ".toList else []) ++ (Statement.typeChars type ++ (name.text.toList ++
        (' ' :: (op.spelling.toList ++ [' '])))))
      ((if isVar then [.keyword .varKw] else []) ++ (Statement.typeTokens type ++
        [.identifier name.text, .operator op])) := by
  have hname : Gives [.word name, .space, .operator op, .space]
      (name.text.toList ++ (' ' :: (op.spelling.toList ++ [' '])))
      [.identifier name.text, .operator op] := cons rfl (space (cons rfl (space nil)))
  cases isVar with
  | false => exact (typePart type).append hname
  | true => exact cons rfl (space ((typePart type).append hname))

/-- A statement without the end of its line. -/
theorem line (stmt : Statement) :
    charsOf stmt.line ++ ['\n'] = stmt.chars ∧ tokensOf stmt.line ++ [.newline] = stmt.tokens := by
  cases stmt with
  | call function positional named =>
    obtain ⟨hchars, htokens⟩ := expr (.call function positional named)
    exact ⟨congrArg (· ++ _) hchars, congrArg (· ++ _) htokens⟩
  | declare isVar type name value =>
    obtain ⟨hchars, htokens⟩ := (head isVar type name .assignment).append (expr value)
    rw [Statement.line, hchars, htokens]
    simp [Statement.chars, Statement.tokens, Operator.spelling]
  | reassign type name value =>
    obtain ⟨hchars, htokens⟩ := (head false type name .reassignment).append (expr value)
    rw [Statement.line, hchars, htokens]
    simp [Statement.chars, Statement.tokens, Operator.spelling]

end Gives

/-- A statement starts with a token, which is a name or `var`. -/
theorem Statement.exists_piece (stmt : Statement) :
    ∃ (piece : Piece) (ps : List Piece) (t : Token), stmt.line = piece :: ps ∧
      piece.token? = some t ∧ (t = .keyword .varKw ∨ ∃ text, t = .identifier text) := by
  have hhead (type : Option TypeName) (name : Word) (op : Operator) (value : Expr) :
      ∃ (word : Word) (ps : List Piece),
        Statement.headPieces false type name op ++ value.pieces = .word word :: ps := by
    cases type with
    | none => exact ⟨_, _, rfl⟩
    | some type => exact ⟨_, _, rfl⟩
  cases stmt with
  | call function positional named =>
    exact ⟨_, _, _, Expr.pieces_call .., rfl, .inr ⟨_, rfl⟩⟩
  | declare isVar type name value =>
    cases isVar with
    | true => exact ⟨_, _, _, rfl, rfl, .inl rfl⟩
    | false =>
      obtain ⟨word, ps, hline⟩ := hhead type name .assignment value
      exact ⟨_, _, _, hline, rfl, .inr ⟨_, rfl⟩⟩
  | reassign type name value =>
    obtain ⟨word, ps, hline⟩ := hhead type name .reassignment value
    exact ⟨_, _, _, hline, rfl, .inr ⟨_, rfl⟩⟩

-- ---------------------------------------------------------------------------
-- Pieces do not break lines
-- ---------------------------------------------------------------------------

/-- A text of characters of which none is the end of a line stays on its line. -/
theorem newline_notMem_of_all {p : Char → Bool} {cs : List Char} (h : cs.all p = true)
    (hp : p '\n' = false) : '\n' ∉ cs := by
  intro hmem
  have hall := List.all_eq_true.mp h _ hmem
  rw [hp] at hall
  cases hall

/-- An exponent stays on its line. -/
theorem Exponent.newline_notMem (exponent : Exponent) : '\n' ∉ exponent.chars := by
  obtain ⟨mark, hmark, sign, hsign, digits⟩ := exponent
  have hdigits : '\n' ∉ digits.chars := newline_notMem_of_all digits.isDigit (by decide)
  rw [Exponent.chars, List.mem_cons, List.mem_append, Option.mem_toList]
  rintro (rfl | hmem | hmem)
  · rcases hmark with hmark | hmark <;> cases hmark
  · rcases hsign _ hmem with h | h <;> cases h
  · exact hdigits hmem

/-- A numeral stays on its line. -/
theorem Numeral.newline_notMem (numeral : Numeral) : '\n' ∉ numeral.chars := by
  have hdigits (digits : Digits) : '\n' ∉ digits.chars :=
    newline_notMem_of_all digits.isDigit (by decide)
  obtain ⟨isNegative, whole, fraction, exponent⟩ := numeral
  simp only [Numeral.chars, Numeral.fractionChars, List.mem_append, List.mem_flatMap,
    List.mem_cons, not_or, not_exists, not_and]
  refine ⟨?_, hdigits whole, fun digits _ => ⟨by decide, hdigits digits⟩,
    fun exponent _ => exponent.newline_notMem⟩
  cases isNegative <;> simp

/-- The end of a line is escaped. -/
theorem escape_newline_notMem (c : Char) : '\n' ∉ escape c := by
  fun_cases escape c with
  | case1 | case2 | case3 => decide
  | case4 hn =>
    simp only [List.mem_cons, List.not_mem_nil, or_false, not_or]
    exact ⟨by decide, Ne.symm hn⟩
  | case5 hn =>
    rw [List.mem_singleton]
    exact Ne.symm hn

/-- No piece goes over the end of a line. -/
theorem Piece.newline_notMem (piece : Piece) : '\n' ∉ piece.chars := by
  cases piece with
  | space | var => decide
  | boolean value => cases value <;> decide
  | mark m => cases m <;> decide
  | operator op => cases op <;> decide
  | word w => exact newline_notMem_of_all w.isWordChar (by decide)
  | number numeral => exact numeral.newline_notMem
  | color code =>
    have hdigits : '\n' ∉ code.digits := newline_notMem_of_all code.isHexDigit (by decide)
    exact List.not_mem_cons_of_ne_of_not_mem (by decide) hdigits
  | string contents =>
    simp [Piece.chars, quoteChars, escape_newline_notMem]

/-- Pieces stay on their line. -/
theorem newline_notMem_charsOf (ps : List Piece) : '\n' ∉ charsOf ps := by
  rw [charsOf, List.mem_flatMap]
  rintro ⟨piece, -, hmem⟩
  exact piece.newline_notMem hmem

-- ---------------------------------------------------------------------------
-- Scanning pieces
-- ---------------------------------------------------------------------------

/-- All tokens but strings have one spelling. -/
theorem Piece.eq_chars_of_spells {piece : Piece} {token : Token}
    (htoken : piece.token? = some token) (hstring : ∀ contents, piece ≠ .string contents)
    {cs : List Char} (h : token.Spells cs) : cs = piece.chars := by
  cases piece with
  | space => cases htoken
  | string contents => exact (hstring contents rfl).elim
  | var | word | boolean | mark | operator =>
    cases htoken
    exact h
  | number | color =>
    cases htoken
    rw [Token.Spells, String.toList_ofList] at h
    exact h

/-- Whether a character is a blank or the end of a line. -/
def isLayoutChar (c : Char) : Bool :=
  c = '\n' || c = ' ' || c = '\t' || c = '\r'

/-- A character of a class that has no layout in it is no layout. -/
theorem not_isLayoutChar {p : Char → Bool} {c : Char} (h : p c = true)
    (hp : p '\n' = false ∧ p ' ' = false ∧ p '\t' = false ∧ p '\r' = false) :
    isLayoutChar c = false := by
  rw [← Bool.not_eq_true]
  intro hlayout
  simp only [isLayoutChar, Bool.or_eq_true, decide_eq_true_eq] at hlayout
  rcases hlayout with ((rfl | rfl) | rfl) | rfl <;> simp_all

/-- A piece that is a token starts with neither a blank nor the end of a line. -/
theorem Piece.exists_cons {piece : Piece} {token : Token} (htoken : piece.token? = some token) :
    ∃ c cs, piece.chars = c :: cs ∧ isLayoutChar c = false := by
  cases piece with
  | space => cases htoken
  | var | color | string => exact ⟨_, _, rfl, rfl⟩
  | boolean value => cases value <;> exact ⟨_, _, rfl, rfl⟩
  | mark m => exact ⟨_, _, rfl, by cases m <;> rfl⟩
  | operator op => cases op <;> exact ⟨_, _, rfl, rfl⟩
  | word w =>
    obtain ⟨c, cs, hchars, hc⟩ := Chain.exists_cons ⟨w, []⟩
    rw [Chain.chars, List.flatMap_nil, List.append_nil] at hchars
    exact ⟨c, cs, hchars, not_isLayoutChar hc (by decide)⟩
  | number numeral =>
    obtain ⟨isNegative, whole, fraction, exponent⟩ := numeral
    obtain ⟨d, ds, hchars, hd, -⟩ := whole.exists_cons
    cases isNegative with
    | true => exact ⟨_, _, rfl, rfl⟩
    | false => exact ⟨d, _, congrArg (· ++ _) hchars, not_isLayoutChar hd (by decide)⟩

/-- The lexeme at the front of a piece is the piece. -/
theorem lexeme_piece {piece : Piece} {token : Token} (htoken : piece.token? = some token)
    {c : Char} {cs rest : List Char} (hchars : piece.chars ++ rest = c :: cs)
    (hreading : (lexeme c cs).reading = some (.ok token)) :
    (lexeme c cs).taken = piece.chars ∧ (lexeme c cs).rest = rest := by
  have happend := lexeme_taken_append_rest c cs
  rw [← hchars] at happend
  -- the token of a string does not show its spelling, so it is read by hand
  by_cases hstring : ∃ contents, piece = .string contents
  · obtain ⟨contents, rfl⟩ := hstring
    obtain ⟨taken, hbody⟩ := stringBody_escape contents.toList rest
    have hcut : c = '"' ∧ cs = contents.toList.flatMap escape ++ '"' :: rest := by
      rw [← List.cons.injEq, ← hchars, Piece.chars, quoteChars, List.cons_append,
        List.append_assoc]
      rfl
    have hrest : (lexeme c cs).rest = rest := by
      rw [hcut.1, hcut.2]
      show (stringLexeme '"' _).rest = rest
      rw [stringLexeme, hbody]
    rw [hrest] at happend
    exact ⟨List.append_cancel_right happend, hrest⟩
  -- any other token has one spelling, which the lexeme has to be
  · have htaken := Piece.eq_chars_of_spells htoken (fun contents h => hstring ⟨contents, h⟩)
      (lexeme_spells hreading)
    rw [htaken] at happend
    exact ⟨htaken, List.append_cancel_left happend⟩

/-- A scan that finds the token of a piece finds it where the piece is written, and goes
on behind it. -/
theorem scan_piece {piece : Piece} {token : Token} (htoken : piece.token? = some token)
    {p : Position} {rest : List Char} {readings : List Reading}
    (h : (scan ⟨p, [0], piece.chars ++ rest⟩).map Lexed.reading = .ok token :: readings) :
    scan ⟨p, [0], piece.chars ++ rest⟩ =
      ⟨.ok token, Span.between p (p.after piece.chars)⟩ ::
        scan ⟨p.after piece.chars, [0], rest⟩ := by
  obtain ⟨c, cs, hcons, hc⟩ := Piece.exists_cons htoken
  have hchars : piece.chars ++ rest = c :: (cs ++ rest) := congrArg (· ++ rest) hcons
  simp only [isLayoutChar, Bool.or_eq_false_iff, decide_eq_false_iff_not] at hc
  obtain ⟨⟨⟨hnewline, hspace⟩, htab⟩, hreturn⟩ := hc
  rw [hchars, scan_cons p [0] (cs ++ rest) hnewline] at h ⊢
  rcases hreading : (lexeme c (cs ++ rest)).reading with _ | reading
  · -- only a blank reads as nothing
    rcases (lexeme_blank hreading).2 with hblank | hblank | hblank
    · exact (hspace hblank).elim
    · exact (htab hblank).elim
    · exact (hreturn hblank).elim
  · rw [hreading] at h
    obtain rfl : reading = .ok token := (List.cons.inj h).1
    obtain ⟨htaken, hrest⟩ := lexeme_piece htoken hchars hreading
    rw [htaken, hrest]
    rfl

/-- **Tokens are found where they are written**, and the scan goes on behind them. -/
theorem scan_pieces (ps : List Piece) (p : Position) {rest : List Char} {readings : List Reading}
    (h : (scan ⟨p, [0], charsOf ps ++ rest⟩).map Lexed.reading =
      (tokensOf ps).map .ok ++ readings) :
    ∃ found : List Lexed,
      scan ⟨p, [0], charsOf ps ++ rest⟩ = found ++ scan ⟨p.after (charsOf ps), [0], rest⟩ ∧
      found.map Lexed.reading = (tokensOf ps).map .ok ∧
      found.map (fun lexed => lexed.span.start) = starts p.offset ps := by
  induction ps generalizing p with
  | nil => exact ⟨[], rfl, rfl, rfl⟩
  | cons piece ps ih =>
    have hchars : charsOf (piece :: ps) = piece.chars ++ charsOf ps := rfl
    rw [hchars, List.append_assoc] at h ⊢
    rw [tokensOf, List.filterMap_cons] at h ⊢
    rw [starts, Position.after_append]
    have hoffset : p.offset + byteLength piece.chars = (p.after piece.chars).offset :=
      (p.after_offset _).symm
    rw [hoffset]
    cases htoken : piece.token? with
    -- a blank: nothing is found, and the scan goes on
    | none =>
      obtain rfl : piece = .space := by
        cases piece with
        | space => rfl
        | _ => cases htoken
      have hspace : scan ⟨p, [0], Piece.space.chars ++ (charsOf ps ++ rest)⟩ =
          scan ⟨p.after Piece.space.chars, [0], charsOf ps ++ rest⟩ :=
        scan_cons p [0] _ (by decide)
      rw [hspace] at h ⊢
      exact ih _ h
    -- a token: it is found here, and the others behind it
    | some token =>
      rw [htoken] at h
      have hscan := scan_piece htoken h
      rw [hscan] at h
      obtain ⟨found, hfound, hreadings, hstarts⟩ := ih _ (List.cons.inj h).2
      refine ⟨⟨.ok token, Span.between p (p.after piece.chars)⟩ :: found, ?_, ?_, ?_⟩
      · rw [hscan, hfound, List.cons_append]
      · exact congrArg (.ok token :: ·) hreadings
      · exact congrArg (p.offset :: ·) hstarts

-- ---------------------------------------------------------------------------
-- Scanning scripts
-- ---------------------------------------------------------------------------

/-- Where the tokens of a script start that is written from an offset on, with the ends
of lines and the end of the file. -/
def scriptStarts (offset : Nat) : List Statement → List Nat
  | [] => [offset]
  | stmt :: script => starts offset stmt.line ++ (offset + width stmt.line) ::
      scriptStarts (offset + width stmt.line + 1) script

/-- The tokens of a script are found where the script writes them. -/
theorem scan_script (script : List Statement) (p : Position)
    (h : (scan ⟨p, [0], script.flatMap Statement.chars⟩).map Lexed.reading =
      (script.flatMap Statement.tokens ++ [Token.endOfFile]).map .ok) :
    (scan ⟨p, [0], script.flatMap Statement.chars⟩).map (fun lexed => lexed.span.start) =
      scriptStarts p.offset script := by
  induction script generalizing p with
  | nil =>
    rw [List.flatMap_nil, scan_nil]
    rfl
  | cons stmt script ih =>
    obtain ⟨hchars, htokens⟩ := Gives.line stmt
    rw [List.flatMap_cons, ← hchars, List.append_assoc, List.singleton_append] at h ⊢
    rw [List.flatMap_cons, ← htokens, List.append_assoc, List.append_assoc, List.map_append] at h
    obtain ⟨found, hfound, hreading, hstarts⟩ := scan_pieces stmt.line p h
    rw [hfound, scan_newline, openLine_margin _ (stops_script script), List.nil_append] at h ⊢
    rw [List.map_append, hreading] at h
    -- the next statement starts one past the end of the line
    have hoffset : (p.after (charsOf stmt.line)).offset = p.offset + width stmt.line :=
      p.after_offset _
    have hoffset' : ((p.after (charsOf stmt.line)).after ['\n']).offset =
        p.offset + width stmt.line + 1 := by
      rw [Position.after_offset, hoffset]
      rfl
    have hothers := ih _ (List.cons.inj (List.append_cancel_left h)).2
    rw [hoffset'] at hothers
    rw [List.map_append, hstarts, scriptStarts, List.map_cons, hothers, ← hoffset]
    rfl

end PineCheck.Script

namespace PineCheck.Parser

open PineCheck.Script

/-- Where the tokens start that are still to be parsed. -/
def State.starts (s : State) : List Nat :=
  s.queue.map fun placed => placed.span.start

/-- Dropping tokens drops their starts. -/
theorem State.starts_pop (s : State) (n : Nat) : (s.pop n).starts = s.starts.drop n :=
  List.map_drop ..

/-- Tokens that are kept stand where they stood. -/
theorem kept_starts {lexed : List Lexed} {tokens : List Token}
    (h : lexed.map Lexed.reading = tokens.map .ok) (hparsed : tokens.all isParsed = true) :
    (State.kept lexed).map (fun placed => placed.span.start) =
      lexed.map (fun first => first.span.start) := by
  induction lexed generalizing tokens with
  | nil => rfl
  | cons first lexed ih =>
    obtain ⟨t, tokens, rfl, ht, h⟩ := List.map_eq_cons_iff.mp h.symm
    rw [List.all_cons, Bool.and_eq_true] at hparsed
    have hkept := ih h.symm hparsed.2
    rw [State.kept, List.filterMap_cons, ← ht]
    cases t with
    | comment => cases hparsed.1
    | _ => exact congrArg (_ :: ·) hkept

/-- **A parse of a printed script has its tokens where they were written.** -/
theorem starts_print (script : List Statement) (allowed : Nat) :
    (State.start (lex (print script)) allowed).starts = scriptStarts 0 script := by
  have hlex := lex_print script
  refine (kept_starts hlex (isParsed_script script)).trans ?_
  rw [lex, print, String.toList_ofList, Lexer.tokens, Lexer.start,
    openLine_margin _ (stops_script script), List.nil_append] at hlex ⊢
  exact scan_script script _ hlex

end PineCheck.Parser
