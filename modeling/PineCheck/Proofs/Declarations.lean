import PineCheck.Proofs.Statements

/-!
# PineCheck — the tokens of a declaration

A declaration is made where the parse meets its tokens: perhaps `var`, the tokens of a type,
and then the variable and the operator that gives it a value, one right behind the other.
`Declares` tells this of a queue, and `exists_declares` that every declaration of a list of
statements comes from a queue that the parse has reached.
-/

namespace PineCheck.Parser

-- ---------------------------------------------------------------------------
-- Tokens before the variable
-- ---------------------------------------------------------------------------

/-- Whether a token can stand before the variable of a declaration. -/
def isHead : Token → Bool
  | .keyword .varKw | .keyword .varipKw | .identifier _ => true
  | .punctuation .dot | .punctuation .comma => true
  | .punctuation .bracketLeft | .punctuation .bracketRight => true
  | .operator .less | .operator .greater => true
  | _ => false

/-- The rest of a dotted name can stand in the head of a declaration. -/
theorem isHead_of_mem_nameTail (q : Queue) : ∀ p ∈ (nameTail q).1, isHead p.token = true := by
  fun_induction nameTail q with
  | case1 dot word rest text hword hdot taken behind heq ih =>
    rw [heq] at ih
    refine List.forall_mem_cons.mpr ⟨by rw [hdot]; rfl, ?_⟩
    exact List.forall_mem_cons.mpr ⟨by rw [hword]; rfl, ih⟩
  | case2 => exact List.forall_mem_nil _
  | case3 => exact List.forall_mem_nil _

/-- A dotted name can stand in the head of a declaration. -/
theorem isHead_of_mem_name (q : Queue) : ∀ p ∈ (name q).1, isHead p.token = true := by
  fun_cases name q with
  | case2 word rest text hword taken behind heq =>
    have hrest := isHead_of_mem_nameTail rest
    rw [heq] at hrest
    exact List.forall_mem_cons.mpr ⟨by rw [hword]; rfl, hrest⟩
  | case1 => exact List.forall_mem_nil _
  | case3 => exact List.forall_mem_nil _

/-- Type arguments can stand in the head of a declaration, up to the `>` that ends them. -/
theorem isHead_of_genericTail? {q taken rest : Queue} (h : genericTail? q = some (taken, rest)) :
    ∀ p ∈ taken, isHead p.token = true := by
  induction q generalizing taken with
  | nil => cases h
  | cons placed q ih =>
    have hnext (h : (genericTail? q).map (fun found => (placed :: found.1, found.2)) =
        some (taken, rest)) (hplaced : isHead placed.token = true) :
        ∀ p ∈ taken, isHead p.token = true := by
      obtain ⟨found, hfound, heq⟩ := Option.map_eq_some_iff.mp h
      cases heq
      exact List.forall_mem_cons.mpr ⟨hplaced, ih hfound⟩
    rw [genericTail?] at h
    split at h
    · next hplaced =>
      cases h
      exact List.forall_mem_singleton.mpr (by rw [hplaced]; rfl)
    · next hplaced => exact hnext h (by rw [hplaced]; rfl)
    · next hplaced => exact hnext h (by rw [hplaced]; rfl)
    · next hplaced => exact hnext h (by rw [hplaced]; rfl)
    · cases h

/-- Type arguments can stand in the head of a declaration. -/
theorem isHead_of_mem_generics (q : Queue) : ∀ p ∈ (generics q).1, isHead p.token = true := by
  fun_cases generics q with
  | case2 placed rest hless taken behind heq =>
    exact List.forall_mem_cons.mpr ⟨by rw [hless]; rfl, isHead_of_genericTail? heq⟩
  | case1 => exact List.forall_mem_nil _
  | case3 => exact List.forall_mem_nil _
  | case4 => exact List.forall_mem_nil _

/-- An array mark can stand in the head of a declaration. -/
theorem isHead_of_mem_arrayMark (q : Queue) : ∀ p ∈ (arrayMark q).1, isHead p.token = true := by
  fun_cases arrayMark q with
  | case1 left right rest hmark =>
    rw [Bool.and_eq_true, decide_eq_true_eq, decide_eq_true_eq] at hmark
    refine List.forall_mem_cons.mpr ⟨by rw [hmark.1]; rfl, ?_⟩
    exact List.forall_mem_singleton.mpr (by rw [hmark.2]; rfl)
  | case2 => exact List.forall_mem_nil _
  | case3 => exact List.forall_mem_nil _

/-- A declared type can stand in the head of a declaration. -/
theorem isHead_of_mem_declaredType {q type : Queue} (h : declaredType? q = some type) :
    ∀ p ∈ type, isHead p.token = true := by
  obtain ⟨_, _, _, _, -, -, -, htype⟩ := declaredType?_eq_some h
  rcases htype with rfl | ⟨words, arguments, mark, behind, behind', rfl, hname, hgenerics, hmark⟩
  · exact List.forall_mem_nil _
  have hwords := isHead_of_mem_name q
  have harguments := isHead_of_mem_generics behind
  have hmarks := isHead_of_mem_arrayMark behind'
  rw [hname] at hwords
  rw [hgenerics] at harguments
  rw [hmark] at hmarks
  exact List.forall_mem_append.mpr ⟨List.forall_mem_append.mpr ⟨hwords, harguments⟩, hmarks⟩

-- ---------------------------------------------------------------------------
-- Declarations
-- ---------------------------------------------------------------------------

/-- The tokens of a declaration at the front of a queue. -/
structure Declares (q : Queue) (d : Declaration) (head : Queue) (op : Placed) (rest : Queue) :
    Prop where
  cut : q = head ++ ⟨.identifier d.name.name, d.name.span⟩ :: op :: rest
  head : ∀ p ∈ head, isHead p.token = true
  assigned : d.isReassignment = false → op.token = .operator .assignment
  /-- The declaration starts where its first token does. -/
  starts : ∀ first ∈ q.head?, d.span.start = first.span.start ∧ d.span.column = first.span.column

/-- A span up to a later one starts where it does. -/
theorem through_start_column (s t : Span) :
    (s.through t).start = s.start ∧ (s.through t).column = s.column := by
  rw [Span.through]
  split
  · exact ⟨rfl, rfl⟩
  · exact ⟨rfl, rfl⟩

/-- A declaration may have a keyword in front of its type. -/
theorem exists_keyword {s : State} {isVar : Bool}
    (h : isVar = true → s.front? = some (.keyword .varKw) ∨ s.front? = some (.keyword .varipKw)) :
    ∃ keyword, s.queue = keyword ++ (if isVar then s.pop 1 else s).queue ∧
      ∀ p ∈ keyword, isHead p.token = true := by
  cases isVar with
  | false => exact ⟨[], rfl, List.forall_mem_nil _⟩
  | true =>
    obtain ⟨token, hfront, htoken⟩ : ∃ token, s.front? = some token ∧ isHead token = true := by
      rcases h rfl with hfront | hfront
      · exact ⟨_, hfront, rfl⟩
      · exact ⟨_, hfront, rfl⟩
    obtain ⟨front, behind, hqueue, rfl⟩ := exists_queue_of_front? hfront
    refine ⟨[front], ?_, List.forall_mem_singleton.mpr htoken⟩
    rw [if_pos rfl, State.pop, hqueue]
    rfl

/-- A declaration is cut into its head, its operator and the rest. -/
theorem declaration_declares {s : State} {d : Declaration}
    (h : .declaration d ∈ (declaration s).1) :
    ∃ head op rest, Declares s.queue d head op rest := by
  revert h
  fun_cases declaration s with
  | case1 => exact fun h => absurd h List.not_mem_nil
  | case3 => exact fun h => absurd h List.not_mem_nil
  | case2 start isVar s₁ type htype typeName s₂ name span op rest hq isReassignment value calls s₃
      hvalue later s₄ hlater node =>
    intro h
    have hnode : d = node := Node.declaration.inj (List.mem_singleton.mp h)
    rw [hnode]
    have hhead := isHead_of_mem_declaredType htype
    obtain ⟨word, op', rest', text, hcut, -⟩ := declaredType?_eq_some htype
    have hbehind : s₂.queue = word :: op' :: rest' := by
      show (s₁.queue).drop type.length = _
      rw [hcut, List.drop_left]
    cases hbehind.symm.trans hq
    have hassigned : node.isReassignment = false → op.token = .operator .assignment :=
      fun h => of_not_not (of_decide_eq_false h)
    -- the declaration starts with its first token, be that a keyword, a type or the name
    have hstarts : ∀ first ∈ s.queue.head?,
        node.span.start = first.span.start ∧ node.span.column = first.span.column := by
      intro first hfirst
      have hstart : start = first.span := by
        show (s.queue.head?.map Placed.span).getD s.last = _
        rw [hfirst]
        rfl
      rw [← hstart]
      exact through_start_column start s₄.last
    obtain ⟨keyword, hkeyword, hwords⟩ := @exists_keyword s isVar fun h => by
      simpa only [isVar, Bool.or_eq_true, decide_eq_true_eq] using h
    refine ⟨keyword ++ type, op, rest, ?_, List.forall_mem_append.mpr ⟨hwords, hhead⟩, hassigned,
      hstarts⟩
    rw [hkeyword, List.append_assoc]
    exact congrArg (keyword ++ ·) hcut

/-- No call is a declaration. -/
theorem notMem_map_call {d : Declaration} (calls : List Call) :
    Node.declaration d ∉ calls.map .call := by
  intro h
  obtain ⟨_, _, heq⟩ := List.mem_map.mp h
  cases heq

/-- A declaration of a statement stands in front of it. -/
theorem statement_declares {s : State} {d : Declaration} (h : .declaration d ∈ (statement s).1) :
    ∃ head op rest, Declares s.queue d head op rest := by
  have hdeclaration := @declaration_declares s d
  revert h
  fun_cases statement s with
  | case7 withCalls nodes calls s' heq | case8 withCalls nodes calls s' heq
  | case10 withCalls _ _ _ nodes calls s' heq =>
    intro h
    rw [heq] at hdeclaration
    exact hdeclaration ((List.mem_append.mp h).resolve_right (notMem_map_call calls))
  | case11 withCalls _ _ _ calls s' _ | case12 withCalls _ _ calls s' _ =>
    exact fun h => absurd h (notMem_map_call calls)
  | _ => exact fun h => absurd h List.not_mem_nil

/-- **Every declaration is made of its tokens.** The parse has reached them when it makes the
declaration. -/
theorem exists_declares (fuel : Nat) (s : State) {d : Declaration}
    (h : .declaration d ∈ (statements fuel s).1) :
    ∃ s', Reaches s s' ∧ ∃ head op rest, Declares s'.queue d head op rest := by
  revert h
  fun_induction statements fuel s with
  | case8 fuel s _ token _ _ _ _ hfront nodes s₁ hnodes others s₂ hothers ih =>
    intro h
    have hto := (statement_yields s).reaches
    rw [hnodes] at hto
    rw [hothers] at ih
    rcases List.mem_append.mp h with h | h
    · exact ⟨s, .refl s, statement_declares (by rwa [hnodes])⟩
    · obtain ⟨s', hreaches, hdeclares⟩ := ih h
      exact ⟨s', hto.trans hreaches, hdeclares⟩
  | case5 fuel s _ _ ih | case6 fuel s _ _ ih | case7 fuel s _ _ ih =>
    intro h
    obtain ⟨s', hreaches, hdeclares⟩ := ih h
    exact ⟨s', (Reaches.pop s 1).trans hreaches, hdeclares⟩
  | _ => exact fun h => absurd h List.not_mem_nil

end PineCheck.Parser
