import PineCheck.Proofs.Script

/-!
# PineCheck — what the tokens ahead tell

Before the parser takes anything it looks at the tokens ahead: where does a name
end, does a call follow, or a definition, or a declaration? Here are the answers
for the tokens that names, types and calls are written with, whatever stands
behind them.

* `name_chain`, `generics_arguments` and `arrayMark_mark` find the parts of a name
  or a type, and `textOf_chain` and `textOf_type` give back its text.
* `isCallAhead_chain` tells a call from a name.
* `isDefinitionAhead_call` tells a call from the head of a definition. The parser
  looks for an arrow behind the closing parenthesis, so the argument here is that
  it gets past what stands between the parentheses: `Skips`. Where none closes,
  it gets to the end of the file (`isDefinitionAhead_open`).
* `declaredType?_eq` and `declaredType?_call` tell declarations from calls.
-/

namespace PineCheck.Parser

-- ---------------------------------------------------------------------------
-- Names ahead
-- ---------------------------------------------------------------------------

/-- What stands behind known tokens. -/
theorem tokens_drop {q : Queue} {tokens rest : List Token}
    (h : q.map Placed.token = tokens ++ rest) :
    (q.drop tokens.length).map Placed.token = rest := by
  rw [List.map_drop, h, List.drop_left]

theorem tokens_take {q : Queue} {tokens rest : List Token}
    (h : q.map Placed.token = tokens ++ rest) :
    (q.take tokens.length).map Placed.token = tokens := by
  rw [List.map_take, h, List.take_left]

/-- What a token adds to the text of a name or a type. -/
def tokenText : Token → String
  | .identifier text => text
  | .punctuation .dot => "."
  | .operator .less => "<"
  | .operator .greater => ">"
  | .punctuation .comma => ","
  | .punctuation .bracketLeft => "["
  | .punctuation .bracketRight => "]"
  | _ => ""

/-- The text of a piece of a queue comes from its tokens alone. -/
theorem textOf_eq (q : Queue) :
    textOf q = String.join ((q.map Placed.token).map tokenText) := by
  rw [textOf, List.map_map]
  rfl

open Script

/-- The characters of a chain are those of its tokens. -/
theorem join_chain (chain : Chain) :
    (String.join (chain.tokens.map tokenText)).toList = chain.chars := by
  obtain ⟨first, others⟩ := chain
  have hothers : ((others.flatMap fun word => [Token.punctuation .dot, .identifier word.text]).map
      tokenText).flatMap String.toList = others.flatMap fun word => '.' :: word.text.toList := by
    induction others with
    | nil => rfl
    | cons word others ih => simpa [tokenText] using ih
  simp [Chain.tokens, Chain.chars, String.toList_join, tokenText, hothers]

/-- A dotted name has a token for each word and one for each dot. -/
theorem length_chain (chain : Chain) : chain.tokens.length = 2 * chain.others.length + 1 := by
  obtain ⟨first, others⟩ := chain
  induction others with
  | nil => rfl
  | cons word others ih =>
    simp only [Chain.tokens, List.flatMap_cons, List.length_cons, List.length_append] at ih ⊢
    simp only [List.length_nil]
    omega

/-- The words behind the first one of a dotted name are found. -/
theorem nameTail_others {q : Queue} {others : List Word} {t : Token} {rest : List Token}
    (h : q.map Placed.token =
      (others.flatMap fun word => [.punctuation .dot, .identifier word.text]) ++ t :: rest)
    (ht : t ≠ .punctuation .dot) :
    nameTail q = (q.take (2 * others.length), q.drop (2 * others.length)) := by
  induction others generalizing q with
  -- the token behind the name is no dot
  | nil =>
    obtain ⟨placed, queue, rfl, rfl, _⟩ := List.map_eq_cons_iff.mp h
    cases queue with
    | nil => rfl
    | cons next queue =>
      rw [nameTail]
      split
      · next hdot _ => exact absurd hdot ht
      · rfl
  -- a dot and a word go with the name
  | cons word others ih =>
    obtain ⟨dot, queue, rfl, hdot, h⟩ := List.map_eq_cons_iff.mp h
    obtain ⟨next, queue, rfl, hnext, h⟩ := List.map_eq_cons_iff.mp h
    rw [nameTail, hdot, hnext, ih h]
    rfl

/-- The name at the front of a queue is the chain of which its tokens are. -/
theorem name_chain {q : Queue} {chain : Chain} {t : Token} {rest : List Token}
    (h : q.map Placed.token = chain.tokens ++ t :: rest) (ht : t ≠ .punctuation .dot) :
    name q = (q.take chain.tokens.length, q.drop chain.tokens.length) := by
  obtain ⟨word, queue, rfl, hword, h⟩ := List.map_eq_cons_iff.mp h
  rw [name, hword, nameTail_others h ht, length_chain]
  rfl

/-- The text of a dotted name is joined from its tokens. -/
theorem textOf_chain {q : Queue} {chain : Chain} {rest : List Token}
    (h : q.map Placed.token = chain.tokens ++ rest) :
    textOf (q.take chain.tokens.length) = chain.text := by
  have htokens : (q.take chain.tokens.length).map Placed.token = chain.tokens :=
    tokens_take h
  rw [textOf_eq, htokens, Chain.text, ← join_chain, String.ofList_toList]

/-- Without a bracket there are no type arguments. -/
theorem generics_eq_nil {q : Queue} {t : Token} {rest : List Token}
    (h : q.map Placed.token = t :: rest) (ht : t ≠ .operator .less) : generics q = ([], q) := by
  obtain ⟨placed, queue, rfl, rfl, _⟩ := List.map_eq_cons_iff.mp h
  rw [generics, if_neg ht]

/-- A queue starts with its first token and no other. -/
theorem startsWith_eq {q : Queue} {t : Token} {rest : List Token}
    (h : q.map Placed.token = t :: rest) (token : Token) :
    startsWith q token = decide (t = token) := by
  obtain ⟨placed, queue, rfl, rfl, _⟩ := List.map_eq_cons_iff.mp h
  rfl

/-- A chain is the name of a call if a parenthesis opens behind it. -/
theorem isCallAhead_chain {q : Queue} {chain : Chain} {t : Token} {rest : List Token}
    (h : q.map Placed.token = chain.tokens ++ t :: rest)
    (ht : t ≠ .punctuation .dot ∧ t ≠ .operator .less) :
    isCallAhead q = decide (t = .punctuation .parenLeft) := by
  have hdrop : (q.drop chain.tokens.length).map Placed.token = t :: rest :=
    tokens_drop h
  rw [isCallAhead, name_chain h ht.1]
  obtain ⟨word, queue, rfl, _, _⟩ := List.map_eq_cons_iff.mp h
  show startsWith (generics (List.drop _ (word :: queue))).2 (.punctuation .parenLeft) = _
  rw [generics_eq_nil hdrop ht.2, startsWith_eq hdrop]

/-- A name and a parenthesis announce a call. -/
theorem isCallAhead_call {q : Queue} {function : Chain} {rest : List Token}
    (h : q.map Placed.token = function.tokens ++ .punctuation .parenLeft :: rest) :
    isCallAhead q = true := by
  rw [isCallAhead_chain h ⟨nofun, nofun⟩]
  exact decide_eq_true rfl

-- ---------------------------------------------------------------------------
-- Types ahead
-- ---------------------------------------------------------------------------

/-- Whether a token can stand between the brackets of type arguments. -/
def inGenerics : Token → Bool
  | .identifier _ | .punctuation .dot | .punctuation .comma => true
  | _ => false

/-- The type arguments are found up to the `>` that ends them. -/
theorem genericTail?_eq {q : Queue} {inside rest : List Token}
    (hinside : inside.all inGenerics = true)
    (h : q.map Placed.token = inside ++ .operator .greater :: rest) :
    genericTail? q = some (q.take (inside.length + 1), q.drop (inside.length + 1)) := by
  induction inside generalizing q with
  | nil =>
    obtain ⟨placed, queue, rfl, hplaced, _⟩ := List.map_eq_cons_iff.mp h
    rw [genericTail?, hplaced]
    rfl
  | cons t inside ih =>
    rw [List.all_cons, Bool.and_eq_true] at hinside
    obtain ⟨placed, queue, rfl, rfl, hqueue⟩ := List.map_eq_cons_iff.mp h
    have hgoes : genericTail? (placed :: queue) =
        (genericTail? queue).map fun found => (placed :: found.1, found.2) := by
      rw [genericTail?]
      split <;> simp_all [inGenerics]
    rw [hgoes, ih hinside.2 hqueue]
    rfl

/-- A dotted name can stand among type arguments. -/
theorem inGenerics_chain (chain : Chain) : chain.tokens.all inGenerics = true := by
  simp [Chain.tokens, List.all_flatMap, inGenerics]

/-- The type arguments of a type are found as a whole. -/
theorem generics_arguments {q : Queue} {arguments : Option (Chain × List Chain)} {t : Token}
    {rest : List Token} (h : q.map Placed.token = TypeName.argumentTokens arguments ++ t :: rest)
    (ht : t ≠ .operator .less) :
    generics q = (q.take (TypeName.argumentTokens arguments).length,
      q.drop (TypeName.argumentTokens arguments).length) := by
  cases arguments with
  | none => exact generics_eq_nil h ht
  | some arguments =>
    obtain ⟨first, others⟩ := arguments
    obtain ⟨placed, queue, rfl, hplaced, h⟩ := List.map_eq_cons_iff.mp h
    -- between `<` and `>` stand names and commas only
    have hinside : (first.tokens ++
        others.flatMap fun chain => .punctuation .comma :: chain.tokens).all inGenerics = true := by
      simp [List.all_flatMap, inGenerics, inGenerics_chain]
    have hqueue : queue.map Placed.token = (first.tokens ++
        others.flatMap fun chain => .punctuation .comma :: chain.tokens) ++
          .operator .greater :: (t :: rest) := by
      simpa using h
    have hlength : (TypeName.argumentTokens (some (first, others))).length = (first.tokens ++
        others.flatMap fun chain => .punctuation .comma :: chain.tokens).length + 2 := by
      simp [TypeName.argumentTokens, Nat.add_assoc]
    rw [generics, if_pos hplaced, genericTail?_eq hinside hqueue, hlength]
    rfl

/-- The mark of an array is found as a whole. -/
theorem arrayMark_mark {q : Queue} {isArray : Bool} {t : Token} {rest : List Token}
    (h : q.map Placed.token = TypeName.markTokens isArray ++ t :: rest)
    (ht : t ≠ .punctuation .bracketLeft) :
    arrayMark q = (q.take (TypeName.markTokens isArray).length,
      q.drop (TypeName.markTokens isArray).length) := by
  cases isArray with
  | true =>
    obtain ⟨left, queue, rfl, hleft, h⟩ := List.map_eq_cons_iff.mp h
    obtain ⟨right, queue, rfl, hright, h⟩ := List.map_eq_cons_iff.mp h
    simp [arrayMark, hleft, hright, TypeName.markTokens]
  | false =>
    obtain ⟨placed, queue, rfl, rfl, h⟩ := List.map_eq_cons_iff.mp h
    cases queue with
    | nil => rfl
    | cons next queue => simp [arrayMark, ht, TypeName.markTokens]

/-- The characters of a type are those of its tokens. -/
theorem join_type (type : TypeName) :
    (String.join (type.tokens.map tokenText)).toList = type.chars := by
  obtain ⟨chain, arguments, isArray⟩ := type
  have hchain := fun chain : Chain => (String.toList_join ▸ join_chain chain :
    (chain.tokens.map tokenText).flatMap String.toList = chain.chars)
  have harguments : ((TypeName.argumentTokens arguments).map tokenText).flatMap String.toList =
      TypeName.argumentChars arguments := by
    cases arguments with
    | none => rfl
    | some arguments =>
      obtain ⟨first, others⟩ := arguments
      have hothers : ((others.flatMap fun chain => Token.punctuation .comma :: chain.tokens).map
          tokenText).flatMap String.toList = others.flatMap fun chain => ',' :: chain.chars := by
        rw [List.map_flatMap, List.flatMap_assoc]
        simp [tokenText, hchain]
      simp [TypeName.argumentTokens, TypeName.argumentChars, tokenText, hchain, hothers]
  have hmark : ((TypeName.markTokens isArray).map tokenText).flatMap String.toList =
      TypeName.markChars isArray := by
    cases isArray <;> rfl
  rw [String.toList_join, TypeName.tokens, TypeName.chars, List.map_append, List.map_append,
    List.flatMap_append, List.flatMap_append, hchain, harguments, hmark]

/-- The text of a type is joined from its tokens. -/
theorem textOf_type {q : Queue} {type : TypeName} {rest : List Token}
    (h : q.map Placed.token = type.tokens ++ rest) :
    textOf (q.take type.tokens.length) = type.text := by
  have htokens : (q.take type.tokens.length).map Placed.token = type.tokens :=
    tokens_take h
  rw [textOf_eq, htokens, TypeName.text, ← join_type, String.ofList_toList]

-- ---------------------------------------------------------------------------
-- Definitions ahead
-- ---------------------------------------------------------------------------

/-- In the search for an arrow the parser gets past these tokens as they open and
close parentheses in pairs. -/
def Skips (tokens : List Token) : Prop :=
  ∀ (depth : Nat) (q : Queue) (rest : List Token), q.map Placed.token = tokens ++ rest →
    arrowBehind (depth + 1) q = arrowBehind (depth + 1) (q.drop tokens.length)

namespace Skips

theorem nil : Skips [] :=
  fun _ _ _ _ => rfl

/-- Two stretches that are skipped are skipped together. -/
theorem append {tokens others : List Token} (h : Skips tokens) (hothers : Skips others) :
    Skips (tokens ++ others) := by
  intro depth q rest hq
  rw [List.append_assoc] at hq
  have hdrop : (q.drop tokens.length).map Placed.token = others ++ rest :=
    tokens_drop hq
  rw [h depth q _ hq, hothers depth _ _ hdrop, List.drop_drop, List.length_append]

/-- A token that is no parenthesis is passed over. -/
theorem cons {t : Token} {tokens : List Token} (hend : t ≠ .endOfFile)
    (hleft : t ≠ .punctuation .parenLeft) (hright : t ≠ .punctuation .parenRight)
    (h : Skips tokens) : Skips (t :: tokens) := by
  intro depth q rest hq
  obtain ⟨placed, queue, rfl, rfl, hqueue⟩ := List.map_eq_cons_iff.mp hq
  rw [List.length_cons, List.drop_succ_cons, ← h depth queue rest hqueue, arrowBehind]
  split
  · contradiction
  · contradiction
  · contradiction
  · rfl

/-- Stretches that are each skipped are skipped together. -/
theorem flatMap {α : Type} {xs : List α} {f : α → List Token} (h : ∀ x ∈ xs, Skips (f x)) :
    Skips (xs.flatMap f) := by
  induction xs with
  | nil => exact nil
  | cons x xs ih =>
    rw [List.forall_mem_cons] at h
    exact h.1.append (ih h.2)

/-- Parentheses are passed over with what stands between them. -/
theorem parentheses {tokens : List Token} (h : Skips tokens) :
    Skips (.punctuation .parenLeft :: (tokens ++ [.punctuation .parenRight])) := by
  intro depth q rest hq
  obtain ⟨left, queue, rfl, hleft, hq⟩ := List.map_eq_cons_iff.mp hq
  replace hq := hq.trans (List.append_assoc tokens [.punctuation .parenRight] rest)
  have hdrop : (queue.drop tokens.length).map Placed.token = .punctuation .parenRight :: rest := by
    rw [List.map_drop, hq, List.drop_left]
    rfl
  obtain ⟨right, behind, hbehind, hright, _⟩ := List.map_eq_cons_iff.mp hdrop
  have hlength : queue.drop (tokens.length + 1) = behind := by
    rw [← List.drop_drop, hbehind, List.drop_one, List.tail_cons]
  rw [arrowBehind, hleft]
  show arrowBehind (depth + 1 + 1) queue = _
  rw [h (depth + 1) queue _ hq, hbehind, arrowBehind, hright, List.length_cons, List.drop_succ_cons,
    List.length_append, List.length_singleton, hlength]
  exact if_neg (by omega)

theorem chain (chain : Chain) : Skips chain.tokens := by
  refine cons nofun nofun nofun (flatMap fun word _ => ?_)
  exact cons nofun nofun nofun (cons nofun nofun nofun nil)

/-- The tokens of an expression close every parenthesis that they open. -/
theorem hereditary : Hereditary Skips where
  nil := nil
  atom a := by
    cases a with
    | number | string | boolean | color => exact cons nofun nofun nofun nil
    | name name => exact chain name.toChain
  label _ h := cons nofun nofun nofun (cons nofun nofun nofun h)
  comma h hothers := h.append (cons nofun nofun nofun hothers)
  call function h := (chain function).append (parentheses h)

/-- A type is skipped. -/
theorem type (type : Option TypeName) : Skips (Statement.typeTokens type) := by
  have harguments (arguments : Option (Chain × List Chain)) :
      Skips (TypeName.argumentTokens arguments) := by
    cases arguments with
    | none => exact nil
    | some arguments =>
      have hothers : Skips (arguments.2.flatMap fun chain => .punctuation .comma :: chain.tokens) :=
        flatMap fun next _ => cons nofun nofun nofun (chain next)
      exact cons nofun nofun nofun ((chain arguments.1).append
        (hothers.append (cons nofun nofun nofun nil)))
  have hmark (isArray : Bool) : Skips (TypeName.markTokens isArray) := by
    cases isArray with
    | false => exact nil
    | true => exact cons nofun nofun nofun (cons nofun nofun nofun nil)
  cases type with
  | none => exact nil
  | some type =>
    rw [Statement.typeTokens, Option.toList_some, List.flatMap_singleton]
    exact (chain type.chain).append ((harguments type.arguments).append (hmark type.isArray))

/-- So do the tokens of a statement. -/
theorem statement (stmt : Statement) : Skips stmt.tokens := by
  have hgiven (name : Word) (op : Operator) (value : Expr) :
      Skips (.identifier name.text :: .operator op :: (value.tokens ++ [.newline])) :=
    cons nofun nofun nofun (cons nofun nofun nofun
      ((hereditary.tokens value).append (cons nofun nofun nofun nil)))
  cases stmt with
  | call function positional named =>
    exact (hereditary.tokens _).append (cons nofun nofun nofun nil)
  | declare isVar type name value =>
    have hdeclared := (Skips.type type).append (hgiven name .assignment value)
    cases isVar with
    | false => exact hdeclared
    | true => exact cons nofun nofun nofun hdeclared
  | reassign type name value => exact (Skips.type type).append (hgiven name .reassignment value)

end Skips

/-- The head of a definition is a name before a parenthesis. -/
theorem isDefinitionAhead_chain {q : Queue} {chain : Chain} {t : Token} {rest : List Token}
    (h : q.map Placed.token = chain.tokens ++ t :: rest) (hdot : t ≠ .punctuation .dot)
    (hparen : t ≠ .punctuation .parenLeft) : isDefinitionAhead q = false := by
  have hdrop : (q.drop chain.tokens.length).map Placed.token = t :: rest :=
    tokens_drop h
  rw [isDefinitionAhead, name_chain h hdot]
  obtain ⟨word, queue, rfl, _, _⟩ := List.map_eq_cons_iff.mp h
  show (startsWith (List.drop _ (word :: queue)) (.punctuation .parenLeft) && _) = false
  rw [startsWith_eq hdrop, decide_eq_false hparen, Bool.false_and]

/-- A call without an arrow behind its parenthesis is not the head of a definition. -/
theorem isDefinitionAhead_of_arrowBehind {q : Queue} {function : Chain} {rest : List Token}
    (h : q.map Placed.token = function.tokens ++ .punctuation .parenLeft :: rest)
    (harrow : ∀ queue : Queue, queue.map Placed.token = rest → arrowBehind 1 queue = false) :
    isDefinitionAhead q = false := by
  have hdrop : (q.drop function.tokens.length).map Placed.token =
      .punctuation .parenLeft :: rest :=
    tokens_drop h
  have hbehind : arrowBehind 0 (q.drop function.tokens.length) = false := by
    obtain ⟨left, queue, hqueue, hleft, hrest⟩ := List.map_eq_cons_iff.mp hdrop
    rw [hqueue, arrowBehind, hleft]
    exact harrow queue hrest
  rw [isDefinitionAhead, name_chain h nofun]
  obtain ⟨word, queue, rfl, _, _⟩ := List.map_eq_cons_iff.mp h
  show (_ && arrowBehind 0 (List.drop _ (word :: queue))) = false
  rw [hbehind, Bool.and_false]

/-- A call that ends its line is not the head of a definition. -/
theorem isDefinitionAhead_call {q : Queue} {function : Chain} {inside rest : List Token}
    (h : q.map Placed.token = function.tokens ++ (.punctuation .parenLeft ::
      (inside ++ .punctuation .parenRight :: .newline :: rest)))
    (hinside : Skips inside) : isDefinitionAhead q = false := by
  refine isDefinitionAhead_of_arrowBehind h fun queue hqueue => ?_
  obtain ⟨right, behind, hbehind, hright, hnewline⟩ := List.map_eq_cons_iff.mp (tokens_drop hqueue)
  rw [hinside 0 queue _ hqueue, hbehind, arrowBehind, hright]
  show startsWith behind (.operator .arrow) = false
  rw [startsWith_eq hnewline]
  rfl

/-- A call that is open up to the end of the file is not the head of a definition. -/
theorem isDefinitionAhead_open {q : Queue} {function : Chain} {inside : List Token}
    (h : q.map Placed.token =
      function.tokens ++ .punctuation .parenLeft :: (inside ++ [.endOfFile]))
    (hinside : Skips inside) : isDefinitionAhead q = false := by
  refine isDefinitionAhead_of_arrowBehind h fun queue hqueue => ?_
  obtain ⟨last, behind, hbehind, hlast, -⟩ := List.map_eq_cons_iff.mp (tokens_drop hqueue)
  rw [hinside 0 queue _ hqueue, hbehind, arrowBehind, hlast]

-- ---------------------------------------------------------------------------
-- Declarations ahead
-- ---------------------------------------------------------------------------

/-- What stands behind a name that is given nothing tells whether the name is a
type. -/
theorem declaredType?_chain {q : Queue} {chain : Chain} {t : Token} {rest : List Token}
    (h : q.map Placed.token = chain.tokens ++ t :: rest) (hdot : t ≠ .punctuation .dot)
    (ht : assigns t = false) :
    declaredType? q =
      let (arguments, rest) := generics (q.drop chain.tokens.length)
      let (mark, rest) := arrayMark rest
      if startsAssignment rest then some (q.take chain.tokens.length ++ arguments ++ mark)
      else none := by
  have hdrop : (q.drop chain.tokens.length).map Placed.token = t :: rest :=
    tokens_drop h
  have hassigns : ((q.drop chain.tokens.length).head?.any fun placed => assigns placed.token) =
      false := by
    obtain ⟨placed, queue, hqueue, rfl, _⟩ := List.map_eq_cons_iff.mp hdrop
    rw [hqueue, List.head?_cons, Option.any_some, ht]
  rw [declaredType?, name_chain h hdot]
  obtain ⟨word, queue, rfl, _, _⟩ := List.map_eq_cons_iff.mp h
  show (if (List.drop _ (word :: queue)).head?.any _ = true then _ else _) = _
  rw [hassigns]
  rfl

/-- A call is not a declaration. -/
theorem declaredType?_call {q : Queue} {function : Chain} {rest : List Token}
    (h : q.map Placed.token = function.tokens ++ .punctuation .parenLeft :: rest) :
    declaredType? q = none := by
  have hdrop : (q.drop function.tokens.length).map Placed.token =
      .punctuation .parenLeft :: rest :=
    tokens_drop h
  have hassign : startsAssignment (q.drop function.tokens.length) = false := by
    obtain ⟨left, queue, hqueue, hleft, _⟩ := List.map_eq_cons_iff.mp hdrop
    rw [hqueue]
    cases queue with
    | nil => rfl
    | cons next queue => rw [startsAssignment, hleft]
  rw [declaredType?_chain h nofun rfl, generics_eq_nil hdrop nofun]
  simp only [@arrayMark_mark _ false _ _ hdrop nofun]
  exact if_neg (by simpa [TypeName.markTokens] using hassign)

/-- Behind the name of a type stand its arguments, its mark or a variable. -/
theorem behind_type (type : TypeName) (name : Word) (rest : List Token) :
    ∃ t rest', TypeName.argumentTokens type.arguments ++ (TypeName.markTokens type.isArray ++
      .identifier name.text :: rest) = t :: rest' ∧ t ≠ .punctuation .dot ∧
        t ≠ .punctuation .parenLeft ∧ assigns t = false := by
  obtain ⟨chain, _ | arguments, _ | _⟩ := type
  · exact ⟨_, _, rfl, nofun, nofun, rfl⟩
  · exact ⟨_, _, rfl, nofun, nofun, rfl⟩
  · exact ⟨_, _, rfl, nofun, nofun, rfl⟩
  · exact ⟨_, _, rfl, nofun, nofun, rfl⟩

/-- A type, a name and an operator announce a declaration. -/
theorem declaredType?_type {q : Queue} {type : TypeName} {name : Word} {op : Token}
    {rest : List Token}
    (h : q.map Placed.token = type.tokens ++ (.identifier name.text :: op :: rest))
    (hop : op = .operator .assignment ∨ op = .operator .reassignment) :
    declaredType? q = some (q.take type.tokens.length) := by
  obtain ⟨t, rest', hbehind, hdot, -, hassigns⟩ := behind_type type name (op :: rest)
  have hchain : q.map Placed.token = type.chain.tokens ++ t :: rest' := by
    rw [h, TypeName.tokens, List.append_assoc, List.append_assoc, hbehind]
  have harguments : (q.drop type.chain.tokens.length).map Placed.token =
      TypeName.argumentTokens type.arguments ++ (TypeName.markTokens type.isArray ++
        .identifier name.text :: op :: rest) := by
    rw [tokens_drop hchain, hbehind]
  obtain ⟨u, rest'', hmark, hu⟩ : ∃ u rest'', TypeName.markTokens type.isArray ++
      .identifier name.text :: op :: rest = u :: rest'' ∧ u ≠ .operator .less := by
    cases type.isArray
    · exact ⟨_, _, rfl, nofun⟩
    · exact ⟨_, _, rfl, nofun⟩
  have hmarked : ((q.drop type.chain.tokens.length).drop
      (TypeName.argumentTokens type.arguments).length).map Placed.token =
        TypeName.markTokens type.isArray ++ .identifier name.text :: op :: rest :=
    tokens_drop harguments
  -- behind the type stand the name and the operator
  have hstarts : startsAssignment (((q.drop type.chain.tokens.length).drop
      (TypeName.argumentTokens type.arguments).length).drop
        (TypeName.markTokens type.isArray).length) = true := by
    obtain ⟨word, queue, hqueue, hword, hrest⟩ := List.map_eq_cons_iff.mp (tokens_drop hmarked)
    obtain ⟨next, queue, rfl, rfl, _⟩ := List.map_eq_cons_iff.mp hrest
    rw [hqueue, startsAssignment, hword]
    rcases hop with hop | hop
    · rw [hop]; rfl
    · rw [hop]; rfl
  rw [declaredType?_chain hchain hdot hassigns,
    generics_arguments (harguments.trans (by rw [hmark])) hu]
  simp only [arrayMark_mark hmarked nofun, hstarts, if_true]
  rw [TypeName.tokens, List.length_append, List.length_append, List.take_add, List.take_add,
    List.append_assoc]

/-- The tokens of a type that is written are its own. -/
theorem typeTokens_some (type : TypeName) : Statement.typeTokens (some type) = type.tokens :=
  List.flatMap_singleton ..

/-- The type of a declaration is found as a whole. -/
theorem declaredType?_eq {q : Queue} {type : Option TypeName} {name : Word} {op : Token}
    {rest : List Token}
    (h : q.map Placed.token =
      Statement.typeTokens type ++ (.identifier name.text :: op :: rest))
    (hop : op = .operator .assignment ∨ op = .operator .reassignment) :
    declaredType? q = some (q.take (Statement.typeTokens type).length) := by
  cases type with
  -- without a type the operator follows the name
  | none =>
    obtain ⟨word, queue, rfl, hword, hrest⟩ := List.map_eq_cons_iff.mp h
    obtain ⟨next, queue, rfl, rfl, _⟩ := List.map_eq_cons_iff.mp hrest
    have hassigns : assigns next.token = true := by
      rcases hop with hop | hop
      · rw [hop]; rfl
      · rw [hop]; rfl
    have hname : Parser.name (word :: next :: queue) = ([word], next :: queue) :=
      @name_chain _ ⟨name, []⟩ _ _ h (by rintro hdot; simp [hdot, assigns] at hassigns)
    rw [declaredType?, hname]
    exact if_pos hassigns
  | some type =>
    rw [typeTokens_some] at h ⊢
    exact declaredType?_type h hop

/-- A declaration without `var` is not the head of a definition. -/
theorem isDefinitionAhead_declaration {q : Queue} {type : Option TypeName} {name : Word}
    {op : Token} {rest : List Token}
    (h : q.map Placed.token =
      Statement.typeTokens type ++ (.identifier name.text :: op :: rest))
    (hop : op = .operator .assignment ∨ op = .operator .reassignment) :
    isDefinitionAhead q = false := by
  cases type with
  | none =>
    rcases hop with rfl | rfl
    · exact @isDefinitionAhead_chain _ ⟨name, []⟩ _ _ h nofun nofun
    · exact @isDefinitionAhead_chain _ ⟨name, []⟩ _ _ h nofun nofun
  | some type =>
    obtain ⟨t, rest', hbehind, hdot, hparen, -⟩ := behind_type type name (op :: rest)
    have hchain : q.map Placed.token = type.chain.tokens ++ t :: rest' := by
      rw [h, typeTokens_some, TypeName.tokens, List.append_assoc, List.append_assoc, hbehind]
    exact isDefinitionAhead_chain hchain hdot hparen

/-- The text of the type of a declaration, if it has one. -/
theorem typeName_eq {q : Queue} {type : Option TypeName} {rest : List Token}
    (h : q.map Placed.token = Statement.typeTokens type ++ rest) :
    (if q.take (Statement.typeTokens type).length = [] then none
      else some (textOf (q.take (Statement.typeTokens type).length))) =
        type.map TypeName.text := by
  cases type with
  | none => rfl
  | some type =>
    rw [typeTokens_some] at h ⊢
    rw [textOf_type h, if_neg]
    · rfl
    · obtain ⟨word, queue, rfl, _, _⟩ := List.map_eq_cons_iff.mp h
      exact List.cons_ne_nil _ _

-- ---------------------------------------------------------------------------
-- Colors
-- ---------------------------------------------------------------------------

/-- A word that is dropped stood in front. -/
theorem dropWord?_eq_some {word cs rest : List Char} (h : Text.dropWord? word cs = some rest) :
    cs = word ++ rest := by
  fun_induction Text.dropWord? word cs with
  | case1 cs => exact Option.some.inj h
  | case2 => exact nomatch h
  | case3 w ws cs ih => rw [ih h, List.cons_append]
  | case4 => exact nomatch h

theorem word_ne_dot (word : Word) : ∀ c ∈ word.text.toList, c ≠ '.' := by
  rintro c hc rfl
  exact absurd (List.all_eq_true.mp word.isWordChar _ hc) (by decide)

/-- A chain that starts like a color starts with the word `color`, and all but the
full stop behind it is the rest. -/
theorem chain_eq_color {chain : Chain} {member : List Char}
    (h : chain.chars = "color.".toList ++ member) :
    chain.first.text = "color" ∧
      '.' :: member = chain.others.flatMap fun word => '.' :: word.text.toList := by
  obtain ⟨first, others⟩ := chain
  -- both sides are cut at their first full stop
  have hfirst : first.text.toList = "color".toList := by
    have hcut := congrArg (List.takeWhile (· ≠ '.')) h
    rw [Chain.chars, List.takeWhile_append_of_pos (by simpa using word_ne_dot first)] at hcut
    have hothers :
        (others.flatMap fun word => '.' :: word.text.toList).takeWhile (· ≠ '.') = [] := by
      cases others <;> rfl
    rw [hothers, List.append_nil] at hcut
    exact hcut
  have hword : first.text = "color" := String.toList_inj.mp hfirst
  rw [Chain.chars, hfirst] at h
  have hcut : "color.".toList ++ member = "color".toList ++ '.' :: member := by
    simp
  exact ⟨hword, (List.append_cancel_left (h.trans hcut)).symm⟩

/-- A name is not taken for a color. -/
theorem isColorConstant_name (name : Name) : isColorConstant name.text = false := by
  have htext : name.text.toList = name.chars := String.toList_ofList
  rw [isColorConstant, htext]
  cases hdrop : Text.dropWord? "color.".toList name.chars with
  | none => rfl
  | some member =>
    obtain ⟨hfirst, hmember⟩ := chain_eq_color (dropWord?_eq_some hdrop)
    clear hdrop
    obtain ⟨⟨first, _ | ⟨word, _ | ⟨next, others⟩⟩⟩, hcolor⟩ := name
    · exact nomatch hmember
    · exact absurd ⟨hfirst, rfl⟩ hcolor
    · have hdot : '.' ∈ member := by
        rw [(List.cons.inj hmember).2]
        simp
      show (!member.contains '.') = false
      rw [List.contains_iff_mem.mpr hdot, Bool.not_true]

end PineCheck.Parser
