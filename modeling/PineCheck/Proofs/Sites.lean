import PineCheck.Proofs.Pieces

/-!
# PineCheck — the calls of a printed script and where they stand

A `Site` is a call as it can be seen in a text and in a tree: the name of the function,
the offset at which the call starts, and the names and offsets of its named arguments.
`Expr.sites` tells the sites of an expression that is written from an offset on, by
counting bytes.

* `finds` — the calls inside a value that is parsed from an expression are the sites of
  the expression, in the same order.
* `Script.sites_parse` — so are the calls of a printed script that is parsed.
-/

namespace PineCheck.Script

-- ---------------------------------------------------------------------------
-- Sites
-- ---------------------------------------------------------------------------

/-- A call and where it stands. For every named argument, `named` holds the name, the
offset of the name, and the offset of the argument. -/
structure Site where
  name : String
  offset : Nat
  named : List (String × Nat × Nat)
deriving DecidableEq

/-- What is worked out about an expression: its pieces, and its sites if it is written
from an offset on. -/
structure Laid where
  pieces : List Piece
  sites : Nat → List Site

namespace Laid

/-- Where the value of an argument starts. -/
def valueStart (offset : Nat) (argument : Option Word × Laid) : Nat :=
  offset + width (Expr.labelPieces argument.1)

/-- The offset behind an argument and the comma and the space that follow it. -/
def next (offset : Nat) (argument : Option Word × Laid) : Nat :=
  valueStart offset argument + width argument.2.pieces + 2

/-- The named arguments among arguments that are written from an offset on. -/
def named (offset : Nat) : List (Option Word × Laid) → List (String × Nat × Nat)
  | [] => []
  | argument :: given =>
    (argument.1.map fun word => (word.text, offset, offset)).toList ++
      named (next offset argument) given

/-- The sites in arguments that are written from an offset on. -/
def inner (offset : Nat) : List (Option Word × Laid) → List Site
  | [] => []
  | argument :: given =>
    argument.2.sites (valueStart offset argument) ++ inner (next offset argument) given

/-- A call whose arguments are laid out. -/
def call (function : Chain) (given : List (Option Word × Laid)) : Laid where
  pieces := function.pieces ++ (.mark .parenLeft ::
    (Expr.joinedPieces (given.map fun (word, laid) => (word, laid.pieces)) ++ [.mark .parenRight]))
  sites offset :=
    ⟨function.text, offset, named (offset + width function.pieces + 1) given⟩ ::
      inner (offset + width function.pieces + 1) given

end Laid

namespace Expr

/-- How an expression is laid out. -/
def laid : Expr → Laid :=
  fold (fun atom => ⟨atom.pieces, fun _ => []⟩) Laid.call

/-- The sites of an expression that is written from an offset on. -/
def sites (e : Expr) (offset : Nat) : List Site :=
  e.laid.sites offset

theorem laid_call (function : Chain) (positional : List Expr) (named : List (Word × Expr)) :
    (Expr.call function positional named).laid =
      Laid.call function (mapArguments laid (arguments positional named)) :=
  fold_call ..

/-- Laying out an expression keeps its pieces. -/
theorem pieces_laid (e : Expr) : e.laid.pieces = e.pieces := by
  induction e using Expr.induction with
  | atom a => rfl
  | call function positional named ih =>
    have hgiven : (mapArguments laid (arguments positional named)).map
        (fun (word, laid) => (word, laid.pieces)) =
          mapArguments pieces (arguments positional named) := by
      rw [List.map_map]
      exact List.map_congr_left fun argument hmem => congrArg (Prod.mk _) (ih argument hmem)
    rw [laid_call, pieces_call, Laid.call, hgiven]

end Expr

/-- The sites of a statement that is written from an offset on. -/
def Statement.sites (offset : Nat) : Statement → List Site
  | call function positional named => (Expr.call function positional named).sites offset
  | declare isVar type name value =>
    value.sites (offset + width (headPieces isVar type name .assignment))
  | reassign type name value =>
    value.sites (offset + width (headPieces false type name .reassignment))

/-- The sites of a script that is written from an offset on. -/
def sites (offset : Nat) : List Statement → List Site
  | [] => []
  | stmt :: script => stmt.sites offset ++ sites (offset + width stmt.line + 1) script

end PineCheck.Script

namespace PineCheck

open Script

/-- The name of an argument, if it has one, with where the name stands and where the
argument starts. -/
def Argument.label? (argument : Argument) : Option (String × Nat × Nat) :=
  argument.name.map fun name => (name.name, name.span.start, argument.span.start)

/-- A call of a tree and where it stands. -/
def Call.site (call : Call) : Site :=
  ⟨call.name, call.span.start, call.arguments.filterMap Argument.label?⟩

namespace Parser

-- ---------------------------------------------------------------------------
-- Expressions
-- ---------------------------------------------------------------------------

/-- The calls inside the value that is parsed from an expression are its sites. -/
def Finds (e : Expr) : Prop :=
  ∀ (fuel : Nat) (s : State) (setting : Setting) (t : Token) (rest : List Token) (offset : Nat),
    s.tokens = e.tokens ++ t :: rest → Closes setting t → s.isHalted = false →
    s.depth + e.height ≤ State.maxDepth → 2 * e.tokens.length ≤ fuel →
    starts offset e.pieces <+: s.starts →
      ∀ v flag, (primary fuel s).1 = some (v, flag) → v.walk.map Call.site = e.sites offset

/-- What is behind a front part of the starts. -/
theorem starts_behind {s : State} {a b : List Piece} {offset n : Nat}
    (h : starts offset (a ++ b) <+: s.starts) (hn : n = (tokensOf a).length) :
    starts (offset + width a) b <+: (s.pop n).starts := by
  obtain ⟨rest, hrest⟩ := h
  rw [starts_append, List.append_assoc] at hrest
  rw [State.starts_pop, ← hrest, hn, ← length_starts offset a, List.drop_left]
  exact List.prefix_append _ _

/-- A front part of the starts has front parts. -/
theorem starts_front {s : State} {a b : List Piece} {offset : Nat}
    (h : starts offset (a ++ b) <+: s.starts) : starts offset a <+: s.starts := by
  rw [starts_append] at h
  exact (List.prefix_append _ _).trans h

/-- Where the next token starts. -/
theorem start_here {s : State} {offset : Nat} {piece : Piece} {token : Token} {ps : List Piece}
    (h : starts offset (piece :: ps) <+: s.starts) (htoken : piece.token? = some token) :
    s.here.start = offset := by
  obtain ⟨rest, hrest⟩ := h
  rw [starts, htoken] at hrest
  obtain ⟨placed, queue, hqueue, hstart, -⟩ := List.map_eq_cons_iff.mp hrest.symm
  rw [State.here, hqueue]
  exact hstart

theorem start_through (s t : Span) : (s.through t).start = s.start := by
  unfold Span.through
  split <;> rfl

/-- The value of an expression is that of its first operand. -/
theorem expression_fst {fuel : Nat} {setting : Setting} {s : State} {v : Value} {flag : Bool}
    (h : (expression (fuel + 1) setting s).1 = some (v, flag)) :
    ∃ flag', (primary fuel s).1 = some (v, flag') := by
  rw [expression] at h
  rcases hprimary : primary fuel s with ⟨_ | ⟨v', flag'⟩, calls, s'⟩
  · rw [hprimary] at h
    cases h
  · rw [hprimary] at h
    cases h
    exact ⟨flag', rfl⟩

/-- An expression that is parsed at the front of its pieces has its calls where its text has call
sites. -/
theorem expression_sites {e : Expr} (he : Finds e) {fuel : Nat} {s : State} {setting : Setting}
    {t : Token} {rest : List Token} {offset : Nat} (h : s.tokens = e.tokens ++ t :: rest)
    (ht : Closes setting t) (hhalted : s.isHalted = false)
    (hdepth : s.depth + e.height ≤ State.maxDepth) (hfuel : 2 * e.tokens.length < fuel)
    (hstarts : starts offset e.pieces <+: s.starts) {v : Value} {flag : Bool}
    (hv : (expression fuel setting s).1 = some (v, flag)) :
    v.walk.map Call.site = e.sites offset := by
  obtain ⟨fuel, rfl⟩ : ∃ n, fuel = n + 1 := ⟨fuel - 1, by omega⟩
  obtain ⟨flag', hprimary⟩ := expression_fst hv
  exact he fuel s setting t rest offset h ht hhalted hdepth (by omega) hstarts v flag' hprimary

-- ---------------------------------------------------------------------------
-- Arguments
-- ---------------------------------------------------------------------------

/-- The name of an argument stands where the argument starts. -/
theorem span_argumentName {s : State} {name : Identifier} (h : s.argumentName.1 = some name) :
    name.span = s.here := by
  revert h
  unfold State.argumentName
  split
  · next word op rest hqueue =>
    split
    · split
      · rintro ⟨⟩
        rw [State.here, hqueue]
        rfl
      · exact nofun
    · exact nofun
  · exact nofun

/-- The arguments that are parsed have the names and the sites that were written. -/
structure SitesOf (offset : Nat) (given : List (Option Word × Expr)) (found : List Argument) :
    Prop where
  named : found.filterMap Argument.label? = Laid.named offset (Expr.mapArguments Expr.laid given)
  inner : (Argument.walkAll found).map Call.site =
    Laid.inner offset (Expr.mapArguments Expr.laid given)

/-- One argument in front of others. -/
theorem SitesOf.cons {offset : Nat} {word : Option Word} {e : Expr}
    {given : List (Option Word × Expr)} {argument : Argument} {found : List Argument}
    (hlabel : argument.label? = word.map fun word => (word.text, offset, offset))
    (hvalue : argument.value.walk.map Call.site =
      e.sites (offset + width (Expr.labelPieces word)))
    (h : SitesOf (Laid.next offset (word, e.laid)) given found) :
    SitesOf offset ((word, e) :: given) (argument :: found) := by
  refine ⟨?_, ?_⟩
  · rw [List.filterMap_cons, hlabel]
    show _ = (word.map fun word => (word.text, offset, offset)).toList ++ _
    rw [← h.named]
    cases word <;> rfl
  · obtain ⟨name, value, position, isExpression, span⟩ := argument
    rw [Argument.walkAll, Argument.walk, List.map_append, h.inner]
    exact congrArg (· ++ _) hvalue

theorem length_labelPieces (word : Option Word) :
    labelLength word = (tokensOf (Expr.labelPieces word)).length := by
  cases word <;> rfl

/-- The first argument has the name and the sites that were written. -/
theorem arguments_sites_first {word : Option Word} {e : Expr} (he : Finds e)
    {given : List (Option Word × Expr)} {fuel position : Nat} {hasNamed : Bool}
    (afterComma : Bool) {s : State} {t : Token} {rest : List Token} {offset : Nat}
    (h : s.tokens = Expr.argumentTokens (word, e.tokens) ++ t :: rest)
    (ht : Closes .arguments t) (hnamed : hasNamed = true → word.isSome = true)
    (hhalted : s.isHalted = false) (hdepth : s.depth + e.height ≤ State.maxDepth)
    (hfuel : 2 * e.tokens.length < fuel)
    (hstarts : starts offset (Expr.labelPieces word ++ e.pieces) <+: s.starts)
    (hothers : SitesOf (Laid.next offset (word, e.laid)) given
      (arguments fuel word.isSome (t = .punctuation .comma) (position + 1)
        (if t = .punctuation .comma then (s.pop (Expr.argumentTokens (word, e.tokens)).length).pop 1
          else s.pop (Expr.argumentTokens (word, e.tokens)).length)).1) :
    SitesOf offset ((word, e) :: given)
      (arguments (fuel + 1) hasNamed afterComma position s).1 := by
  obtain ⟨name, v, hname, hlabel, -, hv, heq⟩ :=
    arguments_first (parses e) position afterComma h (.inl ht) hnamed hhalted hdepth hfuel
  rw [heq]
  refine .cons ?_ ?_ hothers
  · cases word with
    | none =>
      obtain rfl : name = none := by simpa using hname
      rfl
    | some word =>
      -- name and argument both start at the first token
      obtain ⟨name, rfl, hname⟩ := Option.map_eq_some_iff.mp hname
      have hhere : s.here.start = offset := start_here hstarts rfl
      have hspan := span_argumentName hlabel
      have htext : name.name = word.text := (Identifier.mk.inj (Option.some.inj hname)).1
      rw [Argument.label?, Option.map_some, htext, hspan, State.spanFrom, start_through, hhere]
      rfl
  · have hvalue : (s.pop (labelLength word)).tokens = e.tokens ++ t :: rest := by
      rw [State.tokens_pop, h]
      cases word <;> rfl
    exact expression_sites he hvalue ht hhalted hdepth hfuel
      (starts_behind hstarts (length_labelPieces word)) hv

/-- The pieces between the parentheses of a call. -/
abbrev insidePieces (given : List (Option Word × Expr)) : List Piece :=
  Expr.joinedPieces (Expr.mapArguments Expr.pieces given)

/-- **The arguments of a call have the names and the sites that were written.** -/
theorem arguments_sites {given : List (Option Word × Expr)}
    (hgiven : ∀ argument ∈ given, Finds argument.2) {fuel position : Nat}
    {hasNamed afterComma : Bool} {s : State} {rest : List Token} {offset : Nat}
    (h : s.tokens = insideTokens given ++ .punctuation .parenRight :: rest)
    (hordered : Ordered hasNamed given) (hcomma : afterComma = true → given ≠ [])
    (hhalted : s.isHalted = false)
    (hdepth : ∀ argument ∈ given, s.depth + argument.2.height ≤ State.maxDepth)
    (hfuel : 2 * (insideTokens given).length + 2 ≤ fuel)
    (hstarts : starts offset (insidePieces given) <+: s.starts) :
    SitesOf offset given (arguments fuel hasNamed afterComma position s).1 := by
  induction given generalizing fuel position hasNamed afterComma s offset with
  | nil =>
    obtain ⟨fuel, rfl⟩ : ∃ n, fuel = n + 1 := ⟨fuel - 1, by omega⟩
    obtain rfl : afterComma = false := by
      cases afterComma with
      | false => rfl
      | true => exact absurd rfl (hcomma rfl)
    rw [arguments_close h hhalted]
    exact ⟨rfl, rfl⟩
  | cons argument given ih =>
    obtain ⟨word, e⟩ := argument
    obtain ⟨fuel, rfl⟩ : ∃ n, fuel = n + 1 := ⟨fuel - 1, by omega⟩
    obtain ⟨(he : Finds e), hgiven⟩ := List.forall_mem_cons.mp hgiven
    obtain ⟨(hheight : s.depth + e.height ≤ State.maxDepth), hdepth⟩ :=
      List.forall_mem_cons.mp hdepth
    obtain ⟨hnamed, hordered⟩ := List.pairwise_cons.mp hordered
    replace hnamed := hnamed _ List.mem_cons_self
    have hlength := length_argumentTokens word e.tokens
    cases given with
    | nil =>
      replace hfuel : 2 * (Expr.argumentTokens (word, e.tokens)).length + 2 ≤ fuel + 1 := hfuel
      obtain ⟨fuel, rfl⟩ : ∃ n, fuel = n + 1 := ⟨fuel - 1, by omega⟩
      refine arguments_sites_first he afterComma h .parenRight hnamed hhalted hheight (by omega)
        hstarts ?_
      have hclose : arguments (fuel + 1) word.isSome false (position + 1)
          (s.pop (Expr.argumentTokens (word, e.tokens)).length) = ([], [], _) :=
        arguments_close (State.tokens_behind h) hhalted
      show SitesOf _ [] (arguments (fuel + 1) word.isSome false (position + 1)
          (s.pop (Expr.argumentTokens (word, e.tokens)).length)).1
      rw [hclose]
      exact ⟨rfl, rfl⟩
    | cons next given =>
      replace h : s.tokens = Expr.argumentTokens (word, e.tokens) ++ .punctuation .comma ::
        (insideTokens (next :: given) ++ .punctuation .parenRight :: rest) :=
          h.trans (List.append_assoc ..)
      have hinside := length_insideTokens_cons word e next given
      have hbehind := tokens_behind_argument word e next given h
      replace hstarts : starts offset ((Expr.labelPieces word ++ e.pieces) ++
          ([.mark .comma, .space] ++ insidePieces (next :: given))) <+: s.starts := hstarts
      have hothers : starts (Laid.next offset (word, e.laid)) (insidePieces (next :: given)) <+:
          ((s.pop (Expr.argumentTokens (word, e.tokens)).length).pop 1).starts := by
        have hlength : (Expr.argumentTokens (word, e.tokens)).length =
            (tokensOf (Expr.labelPieces word ++ e.pieces)).length := by
          rw [((Gives.expr e).label word).2]
        have h := starts_behind (starts_behind hstarts hlength) rfl
        rw [Laid.next, Laid.valueStart, Expr.pieces_laid]
        rwa [width_append, ← Nat.add_assoc] at h
      exact arguments_sites_first he afterComma h .comma hnamed hhalted hheight (by omega)
        (starts_front hstarts)
        (ih hgiven hbehind hordered (fun _ => List.cons_ne_nil _ _) hhalted hdepth (by omega)
          hothers)

-- ---------------------------------------------------------------------------
-- Calls
-- ---------------------------------------------------------------------------

/-- A call whose arguments have their sites has its sites. -/
theorem call_sites {function : Chain} {positional : List Expr} {named : List (Word × Expr)}
    (hgiven : ∀ argument ∈ Script.arguments positional named, Finds argument.2) {fuel : Nat}
    {s : State} {rest : List Token} {offset : Nat}
    (h : s.tokens = (Expr.call function positional named).tokens ++ rest)
    (hhalted : s.isHalted = false)
    (hdepth : s.depth + (Expr.call function positional named).height ≤ State.maxDepth)
    (hfuel : 2 * (Expr.call function positional named).tokens.length ≤ fuel + 1)
    (hstarts : starts offset (Expr.call function positional named).pieces <+: s.starts) :
    (call fuel s).1.walk.map Call.site = (Expr.call function positional named).sites offset := by
  replace h := tokens_call_append h
  rw [length_call] at hfuel
  rw [Expr.pieces_call] at hstarts
  obtain ⟨fuel, rfl⟩ : ∃ n, fuel = n + 1 := ⟨fuel - 1, by omega⟩
  have hinside := tokens_inside h
  obtain ⟨hlower, hroom⟩ := room_inside hdepth (function.tokens.length + 1)
  have hhere : s.here.start = offset := start_here hstarts rfl
  have hbehind : starts (offset + width function.pieces + 1)
      (insidePieces (Script.arguments positional named)) <+:
        (s.pop (function.tokens.length + 1)).deeper.starts := by
    have hlength : function.tokens.length = (tokensOf function.pieces).length := by
      rw [(Gives.chain function).2]
    rw [← State.pop_pop]
    have h : starts offset (function.pieces ++ ([.mark .parenLeft] ++
      (insidePieces (Script.arguments positional named) ++ [.mark .parenRight]))) <+: s.starts :=
        hstarts
    exact starts_front (starts_behind (starts_behind h hlength) rfl)
  have hfound : SitesOf _ _ (arguments fuel false false 0 _).1 :=
    arguments_sites hgiven hinside (ordered_arguments positional named) nofun hhalted hroom
      (by omega) hbehind
  rw [call_eq h hlower, Expr.sites, Expr.laid_call]
  show Call.site ⟨function.text, _, _⟩ :: (Argument.walkAll _).map Call.site = _
  rw [hfound.inner, Call.site, hfound.named, State.spanFrom, start_through, hhere]
  rfl

/-- **The calls inside the value of an expression are the sites of the expression.** -/
theorem finds (e : Expr) : Finds e := by
  induction e using Expr.induction with
  | atom a =>
    intro fuel s setting t rest offset h ht hhalted hdepth hfuel _ v flag hv
    obtain ⟨v', hvalue, hprimary⟩ :=
      parses (.atom a) fuel s setting t rest h ht hhalted hdepth hfuel
    obtain ⟨rfl, -⟩ : v' = v ∧ false = flag := by simpa [hprimary] using hv
    cases v' with
    | literal | identifier => rfl
    | call found => cases a <;> exact nomatch hvalue
  | call function positional named ih =>
    intro fuel s setting t rest offset h ht hhalted hdepth hfuel hstarts v flag hv
    obtain ⟨fuel, rfl⟩ : ∃ n, fuel = n + 1 := by
      have := length_tokens_pos (.call function positional named)
      exact ⟨fuel - 1, by omega⟩
    have hsites := call_sites ih h hhalted hdepth hfuel hstarts
    obtain ⟨found, -, hcall⟩ := call_parse (fun argument _ => parses argument.2) h hhalted hdepth
      hfuel
    have hskip : (s.pop (Expr.call function positional named).tokens.length).skipIndex =
        s.pop (Expr.call function positional named).tokens.length :=
      State.skipIndex_eq (State.tokens_behind h) ht.ne_bracketLeft
    rw [primary_call (tokens_call_append h) hcall hskip] at hv
    cases hv
    rwa [hcall] at hsites

-- ---------------------------------------------------------------------------
-- Statements
-- ---------------------------------------------------------------------------

/-- What a variable is given is the value of an expression. -/
theorem assignedValue_fst {s : State} {v : Value} (h : (assignedValue s).1 = some v) :
    (s.expression .statement).1 = some (v, false) := by
  revert h
  unfold assignedValue
  split
  iterate 7 exact nofun
  rcases s.expression .statement with ⟨_ | ⟨v', _ | _⟩, calls, s'⟩
  · exact nofun
  · rintro ⟨⟩
    rfl
  · cases v' <;> exact nofun

/-- The value of a declaration is what stands behind its head. -/
theorem declaration_value {s : State} {isVar : Bool} {type : Option TypeName} {name : Word}
    {op : Token} {e : Expr} {rest : List Token}
    (h : s.tokens = declarationTokens isVar type name op e ++ rest)
    (hop : op = .operator .assignment ∨ op = .operator .reassignment) {found : Declaration}
    (hfound : (declaration s).1 = [.declaration found]) :
    found.value = (assignedValue
      (s.pop ((declarationTokens isVar type name op e).length - e.tokens.length))).1 := by
  obtain ⟨skipped, hskip, htyped, hlength⟩ := skip_var h
  have hnamed : (s.pop (skipped + (Statement.typeTokens type).length)).tokens =
      .identifier name.text :: op :: (e.tokens ++ rest) := by
    rw [← State.pop_pop, State.tokens_behind htyped]
  obtain ⟨word, queue, hqueue, hword, hrest⟩ := List.map_eq_cons_iff.mp hnamed
  obtain ⟨next, queue, rfl, -, -⟩ := List.map_eq_cons_iff.mp hrest
  obtain ⟨token, span⟩ := word
  obtain rfl : token = .identifier name.text := hword
  rw [hlength, Nat.add_sub_cancel]
  rw [declaration] at hfound
  simp only [front_declaration h, hskip] at hfound
  rw [declaredType?_eq htyped hop] at hfound
  simp only [State.length_take_queue htyped, State.pop_pop, hqueue] at hfound
  cases hfound
  rfl

/-- A call that fills a line has its sites. -/
theorem call_line_sites {s : State} {function : Chain} {positional : List Expr}
    {named : List (Word × Expr)} {rest : List Token} {offset : Nat} {found : Call} {s' : State}
    (h : s.tokens = (Expr.call function positional named).tokens ++ .newline :: rest)
    (hhalted : s.isHalted = false)
    (hdepth : s.depth + (Expr.call function positional named).height ≤ State.maxDepth)
    (hstarts : starts offset (Expr.call function positional named).pieces <+: s.starts)
    (hfound : call (fuelFor s.queue) s = (found, [], s')) :
    found.walk.map Call.site = (Expr.call function positional named).sites offset := by
  have hlength : s.queue.length = (Expr.call function positional named).tokens.length +
      (rest.length + 1) := by
    rw [← State.length_tokens, h, List.length_append, List.length_cons]
  have hsites : (call (fuelFor s.queue) s).1.walk.map Call.site = _ :=
    call_sites (fun argument _ => finds argument.2) h hhalted hdepth (by rw [fuelFor]; omega)
      hstarts
  rwa [hfound] at hsites

/-- What a variable is given has the sites of the expression. -/
theorem assignedValue_sites {s : State} {e : Expr} {rest : List Token} {offset : Nat} {v : Value}
    (h : s.tokens = e.tokens ++ .newline :: rest) (hhalted : s.isHalted = false)
    (hdepth : s.depth + e.height ≤ State.maxDepth) (hstarts : starts offset e.pieces <+: s.starts)
    (hv : (assignedValue s).1 = some v) : v.walk.map Call.site = e.sites offset := by
  have hlength : e.tokens.length ≤ s.queue.length := by
    rw [← State.length_tokens, h, List.length_append]
    omega
  exact expression_sites (finds e) h .newline hhalted hdepth (by rw [fuelFor]; omega) hstarts
    (assignedValue_fst hv)

/-- The sites of the calls of nodes. -/
def nodeSites (nodes : List Node) : List Site :=
  ((Program.calls ⟨nodes, none⟩).flatMap Call.walk).map Call.site

theorem nodeSites_call (found : Call) (nodes : List Node) :
    nodeSites (.call found :: nodes) = found.walk.map Call.site ++ nodeSites nodes :=
  List.map_append

theorem nodeSites_declaration {found : Declaration} {v : Value} (h : found.value = some v)
    (nodes : List Node) :
    nodeSites (.declaration found :: nodes) = v.walk.map Call.site ++ nodeSites nodes := by
  rw [nodeSites, calls_declaration h, List.map_append]
  rfl

/-- A declaration has the sites of what the variable is given. -/
theorem declaration_sites {s : State} {isVar : Bool} {type : Option TypeName} {name : Word}
    {op : Operator} {e : Expr} {rest : List Token} {offset : Nat} {node : Node} {s' : State}
    (h : s.tokens = declarationTokens isVar type name (.operator op) e ++ .newline :: rest)
    (hop : Token.operator op = .operator .assignment ∨ Token.operator op = .operator .reassignment)
    (hhalted : s.isHalted = false) (hdepth : s.depth + e.height ≤ State.maxDepth)
    (hstarts : starts offset (Statement.headPieces isVar type name op ++ e.pieces) <+: s.starts)
    (hnode : statement s = ([node], s')) (nodes : List Node) :
    nodeSites (node :: nodes) =
      e.sites (offset + width (Statement.headPieces isVar type name op)) ++ nodeSites nodes := by
  have hhead : declarationTokens isVar type name (.operator op) e =
      tokensOf (Statement.headPieces isVar type name op) ++ e.tokens := by
    rw [(Gives.head isVar type name op).2, declarationTokens, List.append_assoc, List.append_assoc]
    rfl
  obtain ⟨found, hfound, hdeclaration⟩ := declaration_parse h hop hhalted hdepth
  rw [statement_eq_declaration h hop, hdeclaration] at hnode
  obtain rfl : .declaration found = node := (List.cons.inj (Prod.mk.inj hnode).1).1
  obtain ⟨v, hv, -⟩ :=
    Option.map_eq_some_iff.mp (congrArg Declaration.value (Node.declaration.inj hfound))
  have hassigned := declaration_value h hop (congrArg Prod.fst hdeclaration)
  rw [hv, hhead, List.length_append, Nat.add_sub_cancel] at hassigned
  have hvalue : (s.pop (tokensOf (Statement.headPieces isVar type name op)).length).tokens =
      e.tokens ++ .newline :: rest := by
    rw [hhead, List.append_assoc] at h
    exact State.tokens_behind h
  rw [nodeSites_declaration hv, assignedValue_sites hvalue hhalted hdepth
    (starts_behind hstarts rfl) hassigned.symm]

/-- The nodes of a statement have its sites. -/
theorem statement_sites (stmt : Statement) {s : State} {rest : List Token} {offset : Nat}
    {node : Node} {s' : State} (h : s.tokens = stmt.tokens ++ rest) (hhalted : s.isHalted = false)
    (hdepth : s.depth + stmt.height ≤ State.maxDepth)
    (hstarts : starts offset stmt.line <+: s.starts) (hnode : statement s = ([node], s'))
    (nodes : List Node) :
    nodeSites (node :: nodes) = stmt.sites offset ++ nodeSites nodes := by
  have hline : ∀ line, stmt.tokens = line ++ [.newline] → s.tokens = line ++ .newline :: rest := by
    intro line hline
    rw [h, hline, List.append_assoc, List.singleton_append]
  cases stmt with
  | call function positional named =>
    replace h := hline _ rfl
    obtain ⟨found, -, hcall⟩ := call_line h hhalted hdepth
    rw [statement_eq_call h hhalted hcall] at hnode
    obtain rfl : .call found = node := (List.cons.inj (Prod.mk.inj hnode).1).1
    rw [nodeSites_call, call_line_sites h hhalted hdepth hstarts hcall]
    rfl
  | declare isVar type name value =>
    exact declaration_sites (hline _ (declarationTokens_append rfl).symm) (.inl rfl) hhalted
      hdepth hstarts hnode nodes
  | reassign type name value =>
    exact declaration_sites (hline _ (@declarationTokens_append false _ _ _ _ _ _ rfl).symm)
      (.inr rfl) hhalted hdepth hstarts hnode nodes

/-- **The calls of a script have its sites.** -/
theorem statements_sites (script : List Statement) {fuel : Nat} {s : State} {offset : Nat}
    (h : s.tokens = script.flatMap Statement.tokens ++ [.endOfFile])
    (hhalted : s.isHalted = false)
    (hdepth : ∀ stmt ∈ script, s.depth + stmt.height ≤ State.maxDepth)
    (hfuel : s.tokens.length ≤ fuel) (hstarts : s.starts = scriptStarts offset script) :
    nodeSites (statements fuel s).1 = Script.sites offset script := by
  induction script generalizing fuel s offset with
  | nil =>
    rw [h] at hfuel
    obtain ⟨fuel, rfl⟩ : ∃ n, fuel = n + 1 := ⟨fuel - 1, by simp at hfuel; omega⟩
    rw [statements_end h hhalted]
    rfl
  | cons stmt script ih =>
    rw [List.forall_mem_cons] at hdepth
    rw [List.flatMap_cons, List.append_assoc] at h
    obtain ⟨fuel, rfl, hless⟩ := exists_fuel_statement stmt h hfuel
    have hbehind : (s.pop stmt.tokens.length).tokens =
        script.flatMap Statement.tokens ++ [.endOfFile] :=
      State.tokens_behind h
    have hline : stmt.tokens.length = (starts offset stmt.line).length + 1 := by
      rw [length_starts, ← (Gives.line stmt).2, List.length_append, List.length_singleton]
    have hnext : (s.pop stmt.tokens.length).starts =
        scriptStarts (offset + width stmt.line + 1) script := by
      rw [State.starts_pop, hstarts, hline, scriptStarts, ← List.drop_drop, List.drop_left]
      rfl
    have hfront : starts offset stmt.line <+: s.starts := by
      rw [hstarts]
      exact List.prefix_append _ _
    obtain ⟨node, line, -, htokens, hstatement⟩ := statement_parse stmt h hhalted hdepth.1
    have hstep : statements (fuel + 2) s =
        (node :: (statements fuel (s.pop stmt.tokens.length)).1, _) :=
      statements_line h htokens hhalted hstatement rfl
    rw [hstep, statement_sites stmt h hhalted hdepth.1 hfront hstatement,
      ih hbehind hhalted hdepth.2 hless hnext]
    rfl

end Parser

namespace Script

open PineCheck.Parser

/-- **The calls of a printed script have the sites at which they were written.** -/
theorem sites_parse (script : List Statement) (allowed : Nat)
    (h : ∀ stmt ∈ script, stmt.height ≤ 127) :
    ((parse (print script) allowed).program.calls.flatMap Call.walk).map Call.site =
      sites 0 script := by
  obtain ⟨hkept, -⟩ := kept_eq (lex_print script) (isParsed_script script)
  let start := State.start (lex (print script)) allowed
  have htokens : start.tokens = script.flatMap Statement.tokens ++ [.endOfFile] := hkept
  have hdepth : ∀ stmt ∈ script, start.depth + stmt.height ≤ State.maxDepth := by
    intro stmt hmem
    exact (Nat.zero_add _).trans_le (h stmt hmem)
  have hfuel : start.tokens.length ≤ start.queue.length + 1 := by
    rw [State.length_tokens]
    exact Nat.le_succ _
  have hsites := statements_sites script htokens rfl hdepth hfuel (starts_print script allowed)
  obtain ⟨nodes, -, hstatements⟩ := statements_parse script htokens rfl hdepth hfuel
  rw [hstatements] at hsites
  rw [parse, parseTokens, hstatements]
  exact hsites

end Script

end PineCheck
