import PineCheck.Proofs.Indexed.Arguments
import PineCheck.Proofs.Indexed.Calls
import PineCheck.Proofs.Sites

/-!
# PineCheck — the masked text of a printed script

A mask changes nothing of a printed script but the insides of its strings, which become
spaces. `Expr.masked` and `Statement.masked` are how expressions and statements are
written then.

* `mask_print` — the mask of a printed script is what its statements are written as.
* `Balanced` texts are those whose parentheses are nested, with commas only inside of
  them or, with a flag, outside too. `Balanced.expr` and `Balanced.inside` are about
  expressions and argument lists.
* `Balanced.upToClosing?_append` and `Balanced.rawArguments_append` — the search for a
  closing parenthesis and the cut at commas both go past a balanced text.
-/

namespace PineCheck.Script

open Lexer (isWordChar)

-- ---------------------------------------------------------------------------
-- Masked texts
-- ---------------------------------------------------------------------------

/-- How an atom is written in a masked text. -/
def Atom.masked : Atom → List Char
  | .string contents =>
    '"' :: ((contents.toList.flatMap escape).flatMap Text.blanked ++ ['"'])
  | .number numeral => numeral.chars
  | .boolean value => (if value then "true" else "false").toList
  | .color code => code.chars
  | .name chain => chain.chars

namespace Expr

/-- How an expression is written in a masked text. -/
def masked : Expr → List Char :=
  fold Atom.masked fun function arguments =>
    function.chars ++ ('(' :: (joinedChars arguments ++ [')']))

/-- How the arguments of a call are written in a masked text. -/
abbrev insideMasked (given : List (Option Word × Expr)) : List Char :=
  joinedChars (mapArguments masked given)

/-- A call is masked part by part. -/
theorem masked_call (function : Chain) (positional : List Expr) (named : List (Word × Expr)) :
    (Expr.call function positional named).masked =
      function.chars ++ ('(' :: (insideMasked (arguments positional named) ++ [')'])) :=
  fold_call ..

end Expr

namespace Statement

/-- How a declaration is written before what the variable is given. -/
abbrev headChars (isVar : Bool) (type : Option TypeName) (name : Word) (op : Operator) :
    List Char :=
  charsOf (headPieces isVar type name op)

/-- How a statement is written in a masked text, without the end of its line. -/
def masked : Statement → List Char
  | call function positional named => (Expr.call function positional named).masked
  | declare isVar type name value => headChars isVar type name .assignment ++ value.masked
  | reassign type name value => headChars false type name .reassignment ++ value.masked

end Statement

-- ---------------------------------------------------------------------------
-- Bare characters
-- ---------------------------------------------------------------------------

/-- Characters that start strings and comments, that separate arguments and names from
each other, or that are blank. -/
def separators : List Char :=
  ['/', '"', '\'', '(', ')', '[', ']', ',', '=', ' ', '\t', '\n', '\x0c', '\r']

/-- Whether a character is none of these. All characters of names are bare, and all of
literals other than strings. -/
def isBare (c : Char) : Bool :=
  c ∉ separators

/-- A class of characters without separators is bare. -/
theorem isBare_of {p : Char → Bool} (hp : separators.all (fun d => !p d) = true) {c : Char}
    (h : p c = true) : isBare c = true := by
  refine decide_eq_true fun hmem => ?_
  have hc := List.all_eq_true.mp hp c hmem
  rw [h] at hc
  exact Bool.false_ne_true hc

/-- A bare character is none of the separators. -/
theorem ne_of_isBare {c d : Char} (h : isBare c = true) (hd : separators.contains d = true) :
    c ≠ d := by
  rintro rfl
  exact of_decide_eq_true h (List.contains_iff_mem.mp hd)

/-- The mask keeps bare characters. -/
theorem isPlain_of_isBare {c : Char} (h : isBare c = true) : isPlain c = true := by
  simp [isPlain, ne_of_isBare h (d := '/') rfl, ne_of_isBare h (d := '"') rfl,
    ne_of_isBare h (d := '\'') rfl]

/-- Texts of bare characters. -/
def Bare (cs : List Char) : Prop :=
  ∀ c ∈ cs, isBare c = true

instance (cs : List Char) : Decidable (Bare cs) :=
  inferInstanceAs (Decidable (∀ c ∈ cs, isBare c = true))

namespace Bare

theorem nil : Bare [] :=
  nofun

theorem append {a b : List Char} (ha : Bare a) (hb : Bare b) : Bare (a ++ b) :=
  List.forall_mem_append.mpr ⟨ha, hb⟩

theorem cons {c : Char} (hc : isBare c = true) {cs : List Char} (h : Bare cs) : Bare (c :: cs) :=
  List.forall_mem_cons.mpr ⟨hc, h⟩

/-- A text of one class is bare if the class is. -/
theorem of_all {p : Char → Bool} (hp : separators.all (fun d => !p d) = true) {cs : List Char}
    (h : cs.all p = true) : Bare cs :=
  fun c hc => isBare_of hp (List.all_eq_true.mp h c hc)

theorem word (word : Word) : Bare word.text.toList :=
  of_all (by decide) word.isWordChar

theorem chain (chain : Chain) : Bare chain.chars := by
  refine (word chain.first).append fun c hc => ?_
  obtain ⟨other, -, hc⟩ := List.mem_flatMap.mp hc
  exact cons (by decide) (word other) c hc

theorem digits (digits : Digits) : Bare digits.chars :=
  of_all (by decide) digits.isDigit

theorem exponent (exponent : Exponent) : Bare exponent.chars := by
  refine cons ?_ (append (fun c hc => ?_) (digits exponent.digits))
  · rcases exponent.isMark with h | h <;> rw [h] <;> decide
  · rcases exponent.isSign c (Option.mem_toList.mp hc) with rfl | rfl <;> decide

/-- So are numbers. -/
theorem numeral (numeral : Numeral) : Bare numeral.chars := by
  refine append ?_ ((digits numeral.whole).append (append ?_ ?_))
  · cases numeral.isNegative with
    | true => exact cons (by decide) nil
    | false => exact nil
  · intro c hc
    obtain ⟨fraction, -, hc⟩ := List.mem_flatMap.mp hc
    exact cons (by decide) (digits fraction) c hc
  · intro c hc
    obtain ⟨e, -, hc⟩ := List.mem_flatMap.mp hc
    exact exponent e c hc

theorem color (code : ColorCode) : Bare code.chars :=
  cons (by decide) (of_all (by decide) code.isHexDigit)

/-- So are truth values. -/
theorem boolean (value : Bool) : Bare (if value then "true" else "false").toList := by
  cases value with
  | true => exact of_all (by decide) (show ['t', 'r', 'u', 'e'].all isWordChar = true by decide)
  | false =>
    exact of_all (by decide) (show ['f', 'a', 'l', 's', 'e'].all isWordChar = true by decide)

end Bare

-- ---------------------------------------------------------------------------
-- Masking
-- ---------------------------------------------------------------------------

/-- The mask makes one text of another, whatever follows it. -/
def Masks (cs masked : List Char) : Prop :=
  ∀ rest, Text.maskFrom .code (cs ++ rest) = masked ++ Text.maskFrom .code rest

namespace Masks

theorem nil : Masks [] [] :=
  fun _ => rfl

/-- The mask is in code behind a text, so that it goes over the next one in the same way. -/
theorem append {a b a' b' : List Char} (ha : Masks a a') (hb : Masks b b') :
    Masks (a ++ b) (a' ++ b') := by
  intro rest
  rw [List.append_assoc, ha, hb, List.append_assoc]

theorem plain {cs : List Char} (h : ∀ c ∈ cs, isPlain c = true) : Masks cs cs :=
  maskFrom_plain_append h

theorem bare {cs : List Char} (h : Bare cs) : Masks cs cs :=
  plain fun c hc => isPlain_of_isBare (h c hc)

/-- A plain character is kept before what is made of the rest. -/
theorem cons {c : Char} (hc : isPlain c = true) {cs masked : List Char} (h : Masks cs masked) :
    Masks (c :: cs) (c :: masked) := by
  intro rest
  rw [List.cons_append, maskFrom_plain hc, h]
  rfl

/-- A string keeps its quotes, whatever it holds. -/
theorem string (contents : String) :
    Masks (quoteChars contents) (Atom.masked (.string contents)) := by
  intro rest
  obtain ⟨taken, hbody⟩ := stringBody_escape contents.toList rest
  have hmask := maskFrom_string (.inl rfl) (contents.toList.flatMap escape ++ '"' :: rest)
  rw [hbody] at hmask
  obtain ⟨inner, rfl, hmask⟩ := hmask
  -- what the lexer takes of the string is what was written
  have htaken : (Lexer.stringLexeme '"' _).taken ++ (Lexer.stringLexeme '"' _).rest = _ :=
    Lexer.lexeme_taken_append_rest '"' (contents.toList.flatMap escape ++ '"' :: rest)
  rw [Lexer.stringLexeme, hbody] at htaken
  have hinner : inner ++ '"' :: rest = contents.toList.flatMap escape ++ '"' :: rest := by
    simpa using htaken
  rw [List.append_cancel_right hinner] at hmask
  show Text.maskFrom .code ('"' :: (contents.toList.flatMap escape ++ ['"'] ++ rest)) = _
  rw [List.append_assoc, Text.maskFrom]
  show '"' :: Text.maskFrom (.string '"') (contents.toList.flatMap escape ++ '"' :: rest) = _
  rw [hmask, Atom.masked, List.cons_append, List.append_assoc]
  rfl

/-- Of the atoms only strings are changed, and only between their quotes. -/
theorem atom (a : Atom) : Masks a.chars a.masked := by
  cases a with
  | number numeral => exact bare (.numeral numeral)
  | string contents => exact string contents
  | boolean value => exact bare (.boolean value)
  | color code => exact bare (.color code)
  | name chain => exact bare (.chain chain.toChain)

/-- The name of an argument is kept. -/
theorem label {cs masked : List Char} (h : Masks cs masked) (word : Option Word) :
    Masks (Expr.argumentChars (word, cs)) (Expr.argumentChars (word, masked)) := by
  cases word with
  | none => exact h
  | some word =>
    exact (bare (.word word)).append (cons (by decide) (cons (by decide) (cons (by decide) h)))

/-- Arguments are masked one after the other. -/
theorem joined {given : List (Option Word × Expr)}
    (h : ∀ argument ∈ given, Masks argument.2.chars argument.2.masked) :
    Masks (Expr.joinedChars (Expr.mapArguments Expr.chars given)) (Expr.insideMasked given) := by
  induction given with
  | nil => exact nil
  | cons argument others ih =>
    obtain ⟨hargument, hothers⟩ := List.forall_mem_cons.mp h
    have hfirst := hargument.label argument.1
    cases others with
    | nil => exact hfirst
    | cons next others =>
      exact hfirst.append (cons (by decide) (cons (by decide) (ih hothers)))

/-- An expression is masked as its atoms are. -/
theorem expr (e : Expr) : Masks e.chars e.masked := by
  induction e using Expr.induction with
  | atom a => exact atom a
  | call function positional named ih =>
    rw [Expr.chars_call, Expr.masked_call]
    exact (bare (.chain function)).append
      (cons (by decide) ((joined ih).append (cons (by decide) nil)))

/-- Masking keeps the length of a text. -/
theorem byteLength_eq {cs masked : List Char} (h : Masks cs masked) :
    byteLength masked = byteLength cs := by
  have hmask := h []
  rw [List.append_nil, Text.maskFrom, List.append_nil] at hmask
  rw [← hmask, Indexed.byteLength_maskFrom]

end Masks

/-- Characters that stand before the value in a declaration. -/
def isHeadChar (c : Char) : Bool :=
  isBare c || [',', '[', ']', ' ', '='].contains c

/-- The mask keeps the characters of a head. -/
theorem isPlain_of_isHeadChar {c : Char} (h : isHeadChar c = true) : isPlain c = true := by
  rcases Bool.or_eq_true_iff.mp h with h | h
  · exact isPlain_of_isBare h
  · exact List.all_eq_true.mp (by decide : [',', '[', ']', ' ', '='].all isPlain = true) c
      (List.contains_iff_mem.mp h)

/-- No parenthesis opens in a head. -/
theorem ne_parenLeft_of_isHeadChar {c : Char} (h : isHeadChar c = true) : c ≠ '(' := by
  rintro rfl
  exact absurd h (by decide)

/-- Bare characters may stand in a head. -/
theorem isHeadChar_of_bare {cs : List Char} (h : Bare cs) : cs.all isHeadChar = true := by
  rw [List.all_eq_true]
  exact fun c hc => Bool.or_eq_true_iff.mpr (.inl (h c hc))

/-- The type of a declaration is made of such characters, angle brackets and square brackets among
them. -/
theorem isHeadChar_type (type : Option TypeName) :
    (Statement.typeChars type).all isHeadChar = true := by
  have hchain (chain : Chain) := isHeadChar_of_bare (.chain chain)
  cases type with
  | none => rfl
  | some type =>
    have hmark : (TypeName.markChars type.isArray).all isHeadChar = true := by
      cases type.isArray <;> decide
    have harguments : (TypeName.argumentChars type.arguments).all isHeadChar = true := by
      cases type.arguments with
      | none => rfl
      | some arguments =>
        -- between the type arguments stand commas
        have hothers : (arguments.2.flatMap fun chain => ',' :: chain.chars).all isHeadChar =
            true := by
          rw [List.all_flatMap, List.all_eq_true]
          exact fun chain _ => hchain chain
        show (isHeadChar '<' && (arguments.1.chars ++ (_ ++ ['>'])).all isHeadChar) = true
        rw [List.all_append, List.all_append, hchain, hothers]
        rfl
    show ((type.chars ++ [' ']) ++ []).all isHeadChar = true
    rw [List.append_nil, List.all_append, TypeName.chars, List.all_append, List.all_append, hchain,
      harguments, hmark]
    rfl

/-- A declaration has an equals sign and a space before the value, and nothing special
before those. -/
theorem headChars_eq (isVar : Bool) (type : Option TypeName) (name : Word) {op : Operator}
    (hop : op = .assignment ∨ op = .reassignment) :
    ∃ front, Statement.headChars isVar type name op = front ++ ['=', ' '] ∧
      front.all isHeadChar = true := by
  have hvar : (if isVar then "var ".toList else []).all isHeadChar = true := by
    cases isVar with
    | true => exact (by decide : ['v', 'a', 'r', ' '].all isHeadChar = true)
    | false => rfl
  obtain ⟨front, hfront, hchars⟩ : ∃ front : List Char, front.all isHeadChar = true ∧
      ∀ spelling : List Char, (if isVar then "var ".toList else []) ++
        (Statement.typeChars type ++ (name.text.toList ++ (' ' :: (spelling ++ [' '])))) =
          front ++ (spelling ++ [' ']) := by
    refine ⟨(if isVar then "var ".toList else []) ++ (Statement.typeChars type ++
      (name.text.toList ++ [' '])), ?_, fun spelling => by simp only [List.append_assoc]; rfl⟩
    rw [List.all_append, List.all_append, List.all_append, hvar, isHeadChar_type,
      isHeadChar_of_bare (.word name)]
    rfl
  -- the operator is what comes last, `=` or `:=`
  rw [Statement.headChars, (Gives.head isVar type name op).1, hchars]
  rcases hop with rfl | rfl
  · exact ⟨front, rfl, hfront⟩
  · refine ⟨front ++ [':'], by rw [List.append_assoc]; rfl, ?_⟩
    rw [List.all_append, hfront]
    rfl

/-- The head of a declaration is kept. -/
theorem Masks.head (isVar : Bool) (type : Option TypeName) (name : Word) {op : Operator}
    (hop : op = .assignment ∨ op = .reassignment) :
    Masks (Statement.headChars isVar type name op) (Statement.headChars isVar type name op) := by
  obtain ⟨front, hchars, hfront⟩ := headChars_eq isVar type name hop
  rw [hchars]
  exact (plain fun c hc => isPlain_of_isHeadChar (List.all_eq_true.mp hfront c hc)).append
    (cons (by decide) (cons (by decide) nil))

/-- A statement is masked as its value or its call is. -/
theorem Masks.statement (stmt : Statement) : Masks (charsOf stmt.line) stmt.masked := by
  cases stmt with
  | call function positional named =>
    have h := expr (.call function positional named)
    rwa [← (Gives.expr (.call function positional named)).1] at h
  | declare isVar type name value =>
    rw [Statement.line, charsOf_append, (Gives.expr value).1]
    exact (head isVar type name (.inl rfl)).append (expr value)
  | reassign type name value =>
    rw [Statement.line, charsOf_append, (Gives.expr value).1]
    exact (head false type name (.inr rfl)).append (expr value)

/-- **The mask of a printed script keeps all of it but the insides of strings.** -/
theorem mask_print (script : List Statement) :
    Text.mask (print script).toList = script.flatMap fun stmt => stmt.masked ++ ['\n'] := by
  have hscript : Masks (script.flatMap Statement.chars)
      (script.flatMap fun stmt => stmt.masked ++ ['\n']) := by
    induction script with
    | nil => exact .nil
    | cons stmt script ih =>
      rw [List.flatMap_cons, List.flatMap_cons, ← (Gives.line stmt).1]
      exact ((Masks.statement stmt).append (.cons (by decide) .nil)).append ih
  have hmask := hscript []
  rw [List.append_nil, Text.maskFrom, List.append_nil] at hmask
  rw [Text.mask, print, String.toList_ofList, hmask]

-- ---------------------------------------------------------------------------
-- Balanced texts
-- ---------------------------------------------------------------------------

/-- Whether a character is neither a bracket nor, unless commas are allowed, a comma. -/
def isLoose (commas : Bool) (c : Char) : Bool :=
  (c ≠ '(' && c ≠ ')' && c ≠ '[' && c ≠ ']') && (commas || c ≠ ',')

/-- Texts whose parentheses are nested and closed. Commas stand inside of parentheses,
and with `commas` outside of them too. -/
inductive Balanced : Bool → List Char → Prop where
  | nil {commas : Bool} : Balanced commas []
  | loose {commas : Bool} {c : Char} {cs : List Char} (hc : isLoose commas c = true)
      (h : Balanced commas cs) : Balanced commas (c :: cs)
  | nest {commas : Bool} {inside cs : List Char} (hinside : Balanced true inside)
      (h : Balanced commas cs) : Balanced commas ('(' :: (inside ++ ')' :: cs))

namespace Balanced

variable {commas : Bool}

/-- Balanced texts can be put together. -/
theorem append {a b : List Char} (ha : Balanced commas a) (hb : Balanced commas b) :
    Balanced commas (a ++ b) := by
  induction ha with
  | nil => exact hb
  | loose hc _ ih => exact .loose hc (ih hb)
  | @nest _ inside cs hinside _ _ ih =>
    rw [List.cons_append, List.append_assoc, List.cons_append]
    exact .nest hinside (ih hb)

/-- Where no commas are allowed, they may be. -/
theorem allow {cs : List Char} (h : Balanced false cs) : Balanced true cs := by
  generalize hcommas : false = commas at h
  induction h with
  | nil => exact .nil
  | loose hc _ ih =>
    subst hcommas
    rw [isLoose, Bool.false_or, Bool.and_eq_true] at hc
    exact .loose (by rw [isLoose, hc.1]; rfl) (ih rfl)
  | nest hinside _ _ ih => exact .nest hinside (ih hcommas)

/-- A text without parentheses is balanced. -/
theorem all_loose {cs : List Char} (h : cs.all (isLoose commas) = true) : Balanced commas cs := by
  induction cs with
  | nil => exact .nil
  | cons c cs ih =>
    rw [List.all_cons, Bool.and_eq_true] at h
    exact .loose h.1 (ih h.2)

/-- So is a bare text. -/
theorem bare {cs : List Char} (h : Bare cs) : Balanced commas cs := by
  refine all_loose (List.all_eq_true.mpr fun c hc => ?_)
  have hne {d : Char} (hd : separators.contains d = true) : c ≠ d := ne_of_isBare (h c hc) hd
  simp [isLoose, hne (d := '(') rfl, hne (d := ')') rfl, hne (d := '[') rfl, hne (d := ']') rfl,
    hne (d := ',') rfl]

/-- So is a masked atom: a string has lost everything between its quotes. -/
theorem atom (a : Atom) : Balanced commas a.masked := by
  cases a with
  | number numeral => exact bare (.numeral numeral)
  | boolean value => exact bare (.boolean value)
  | color code => exact bare (.color code)
  | name chain => exact bare (.chain chain.toChain)
  | string contents =>
    refine .loose (by cases commas <;> decide) (append (all_loose ?_) ?_)
    · rw [List.all_flatMap, List.all_eq_true]
      intro c _
      rw [List.all_eq_true]
      intro d hd
      obtain rfl := (List.mem_replicate.mp hd).2
      cases commas <;> decide
    · exact .loose (by cases commas <;> decide) .nil

/-- The name of an argument does not unbalance it. -/
theorem label {cs : List Char} (h : Balanced commas cs) (word : Option Word) :
    Balanced commas (Expr.argumentChars (word, cs)) := by
  cases word with
  | none => exact h
  | some word =>
    have hequals : " = ".toList.all (isLoose commas) = true := by
      cases commas <;> decide
    exact (bare (.word word)).append ((all_loose hequals).append h)

/-- An argument list is balanced if each argument is. -/
theorem joined {given : List (Option Word × Expr)}
    (h : ∀ argument ∈ given, Balanced false argument.2.masked) :
    Balanced true (Expr.insideMasked given) := by
  induction given with
  | nil => exact .nil
  | cons argument others ih =>
    obtain ⟨hargument, hothers⟩ := List.forall_mem_cons.mp h
    have hfirst := hargument.allow.label argument.1
    cases others with
    | nil => exact hfirst
    | cons next others =>
      exact hfirst.append (.loose (by decide) (.loose (by decide) (ih hothers)))

/-- A masked expression is balanced, with no commas outside of its parentheses. -/
theorem expr (e : Expr) : Balanced false e.masked := by
  induction e using Expr.induction with
  | atom a => exact atom a
  | call function positional named ih =>
    rw [Expr.masked_call]
    exact (bare (.chain function)).append (.nest (joined ih) .nil)

/-- With loose commas, the arguments of a call are balanced together. -/
theorem inside (given : List (Option Word × Expr)) : Balanced true (Expr.insideMasked given) :=
  joined fun argument _ => expr argument.2

/-- The search for a closing parenthesis goes past a balanced text. -/
theorem upToClosing?_append {cs : List Char} (h : Balanced commas cs) {depth : Int}
    (hdepth : 0 < depth) (rest : List Char) :
    Text.upToClosing? '(' ')' depth (cs ++ rest) =
      (Text.upToClosing? '(' ')' depth rest).map fun (inside, behind) =>
        (cs ++ inside, behind) := by
  induction h generalizing depth rest with
  | nil => exact Option.map_id'.symm
  | @loose commas c cs hc _ ih =>
    have hopen : c ≠ '(' := by
      rintro rfl
      exact absurd hc (by cases commas <;> decide)
    have hclose : c ≠ ')' := by
      rintro rfl
      exact absurd hc (by cases commas <;> decide)
    rw [List.cons_append, Text.upToClosing?]
    simp only [hopen, hclose, decide_false, Bool.false_and, Bool.false_eq_true, if_false]
    rw [ih hdepth, Option.map_map]
    rfl
  -- an inner pair of parentheses opens and closes one level deeper
  | @nest commas inside cs _ _ ihinside ih =>
    have hone : depth + 1 ≠ 1 := by omega
    rw [List.cons_append, List.append_assoc, List.cons_append, Text.upToClosing?]
    simp only [Char.reduceEq, decide_false, Bool.false_and, Bool.false_eq_true,
      if_false, if_true]
    rw [ihinside (by omega), Text.upToClosing?]
    simp only [hone, decide_false, Bool.and_false, Bool.false_eq_true, if_false, if_true,
      Char.reduceEq, Int.add_sub_cancel]
    rw [ih hdepth, Option.map_map, Option.map_map, Option.map_map]
    congr 1
    funext found
    cases found
    simp

/-- The cut at commas goes past a balanced text, outside of parentheses if it has no
commas there. -/
theorem rawArguments_append {cs : List Char} (h : Balanced commas cs) {depth : Int}
    (hdepth : 0 ≤ depth) (hcommas : commas = true → depth ≠ 0) (rest : List Char) :
    Text.rawArguments depth (cs ++ rest) =
      Indexed.joinFirst cs (Text.rawArguments depth rest) := by
  induction h generalizing depth rest with
  | nil => exact (Indexed.joinFirst_nil (Indexed.rawArguments_ne_nil depth rest)).symm
  | @loose commas c cs hc _ ih =>
    have hcut : ¬(c = ',' ∧ depth = 0) := by
      rintro ⟨rfl, rfl⟩
      cases commas with
      | true => exact hcommas rfl rfl
      | false => exact absurd hc (by decide)
    -- neither parenthesis, so the depth stays
    have hafter : Indexed.depthAfter depth c = depth := by
      simp only [isLoose, Bool.and_eq_true, decide_eq_true_eq] at hc
      simp [Indexed.depthAfter, hc.1]
    rw [List.cons_append, Indexed.rawArguments_cons, hafter, ih hdepth hcommas,
      Indexed.joinFirst_joinFirst, if_neg (by simpa using hcut)]
    rfl
  | @nest commas inside cs _ _ ihinside ih =>
    -- between the parentheses the depth is positive, so that no comma cuts
    have hinner : depth + 1 ≠ 0 := by omega
    have hopen : Indexed.depthAfter depth '(' = depth + 1 := rfl
    have hclose : Indexed.depthAfter (depth + 1) ')' = depth := Int.add_sub_cancel ..
    rw [List.cons_append, List.append_assoc, List.cons_append, Indexed.rawArguments_cons, hopen,
      ihinside (by omega) fun _ => hinner, Indexed.rawArguments_cons, hclose, ih hdepth hcommas]
    simp only [Char.reduceEq, decide_false, Bool.false_and, Bool.false_eq_true, if_false,
      Indexed.joinFirst_joinFirst]
    simp

end Balanced

end PineCheck.Script
