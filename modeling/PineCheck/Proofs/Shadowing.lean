import PineCheck.Proofs.CodeTokens
import PineCheck.Proofs.Decomposition
import PineCheck.Proofs.PlainHeads

/-!
# PineCheck — which declarations that hide a namespace are reported

A declaration at the left margin hides a namespace when its variable has the name of one. The
parse finds declarations among the tokens, wherever these stand, and the check reads lines of
the masked script word by word. So the check sees a declaration only if that `IsPlain`: its
type is a row of words, with type arguments and the mark of an array right behind a word, and
all up to the equals sign stands on one line, with nothing but spaces and tabs between. A type
that is itself in a namespace hides the declaration from the check, and so do a space before
type arguments and a comment that goes over several lines.

`Written` says where a declaration stands in a script without errors, and in its mask.

Main results:

* `check_reports_shadowing` — of the declarations that hide a namespace in a script without
  errors, those that are plain are reported with the span of the variable, and no others.
* `check_misses_shadowing` — one with a type in a namespace, which is not reported.
-/

namespace PineCheck

open PineCheck.Parser (Placed Queue State isHead)
open Text (mask isSpace isWhite Line)
open Check.Shadowing (startsAssignment checkLine?)

/-- A declaration is written so that its line can be read word by word: in the masked script a
plain head stands before the variable, on one line, and behind spaces and tabs an equals sign
follows. -/
def Declaration.IsPlain (masked : List Char) (d : Declaration) : Prop :=
  ∃ front head gap behind,
    masked = front ++ (head ++ (d.name.name.toList ++ (gap ++ '=' :: behind))) ∧
      byteLength front = d.span.start ∧ byteLength (front ++ head) = d.name.span.start ∧
      PlainHead head ∧ '\n' ∉ head ∧ ∀ c ∈ gap, isSpace c = true

-- ---------------------------------------------------------------------------
-- Where a declaration stands
-- ---------------------------------------------------------------------------

/-- The variable of a declaration is found behind the tokens of its head. The text before it
that belongs to the declaration starts with the first token. -/
theorem Reads.exists_variable {script masked : List Char} {pre head queue : Queue} {p : Placed}
    (h : Reads script [] [] masked (pre ++ (head ++ p :: queue)))
    (hhead : ∀ q ∈ head, isHead q.token = true) (hp : isCode p.token = true) :
    ∃ start front before covered text later, masked = front ++ (covered ++ (text ++ later)) ∧
      Found script before (front ++ covered) text later p queue ∧ Covered covered ∧
      Mirrors start front ∧
      ∀ first ∈ (head ++ p :: queue).head?, ∃ inside, first.span = stretch start inside := by
  cases head with
  | nil =>
    obtain ⟨skipped, front, text, later, hlater, hfound, -⟩ := h.found hp
    refine ⟨skipped, front, skipped, [], text, later, hlater, ?_,
      covered_of_notMem List.not_mem_nil, hfound.mirrors, ?_⟩
    · simpa using hfound
    · rintro first ⟨⟩
      exact ⟨text, hfound.span⟩
  | cons first head =>
    obtain ⟨hfirst, hhead⟩ := List.forall_mem_cons.mp hhead
    obtain ⟨skipped, front, text, later, rfl, hfound, -⟩ := h.found (isCode_of_isHead hfirst)
    obtain ⟨skipped', front', text', later', rfl, hfound', hcovered⟩ :=
      hfound.reads.exists_head hhead hp
    refine ⟨skipped, front, skipped ++ (text ++ skipped'), text ++ front', text', later',
      by simp only [List.append_assoc], ?_, (covered_of_notMem hfound.whole).append hcovered,
      hfound.mirrors, ?_⟩
    · simpa only [List.nil_append, List.append_assoc] using hfound'
    · rintro first ⟨⟩
      exact ⟨text, hfound.span⟩

/-- Where a declaration stands in a script, and in its mask. -/
structure Written (source : String) (d : Declaration)
    (before rest front head gap behind : List Char) : Prop where
  script : source.toList = before ++ (d.name.name.toList ++ rest)
  masked : mask source.toList =
    front ++ (head ++ (d.name.name.toList ++ (gap ++ '=' :: behind)))
  span : d.name.span = stretch before d.name.name.toList
  place : byteLength before = byteLength (front ++ head)
  start : byteLength front = d.span.start
  margin : d.span.column = 0 → front = [] ∨ front.getLast? = some '\n'
  covered : Covered head
  gap : Gap gap
  sharp : behind.head? ≠ some '='

/-- Without errors of the parse there are none of the lexer. -/
theorem isClean_of_errors {source : String} {allowed : Nat}
    (h : (parse source allowed).errors = []) : IsClean (lex source) := by
  rw [errors_parse] at h
  have hstart := (start_reaches_finalState (lex source) allowed).clean (finalState_clean h)
  intro t ht fault hfault
  have hmem : ⟨.lexical fault, t.span⟩ ∈ (State.start (lex source) allowed).errors :=
    List.mem_filterMap.mpr ⟨t, ht, by rw [hfault]⟩
  rw [hstart.1] at hmem
  cases hmem

/-- **A declaration stands in the script** that it was read from. -/
theorem exists_written {source : String} {allowed : Nat} {d : Declaration}
    (herrors : (parse source allowed).errors = [])
    (hmem : d ∈ (parse source allowed).program.declarations) (hnew : d.isReassignment = false) :
    ∃ before rest front head gap behind, Written source d before rest front head gap behind := by
  have hnode : Node.declaration d ∈ (parse source allowed).program.nodes := by
    obtain ⟨node, hnode, heq⟩ := List.mem_filterMap.mp hmem
    cases node with
    | call => cases heq
    | declaration => exact Option.some.inj heq ▸ hnode
  rw [parse, parseTokens_eq] at hnode
  obtain ⟨s, hreaches, head, op, later, declares⟩ := Parser.exists_declares _ _ hnode
  obtain ⟨pre, hpre⟩ := hreaches.queue_suffix
  have hreads : Reads source.toList [] [] (mask source.toList)
      (State.start (lex source) allowed).queue := reads_start (isClean_of_errors herrors)
  rw [← hpre, declares.cut] at hreads
  obtain ⟨start, front, before, covered, text, behind, hmask, hfound, hcovered, hmirrors, hfirst⟩ :=
    hreads.exists_variable declares.head rfl
  rw [← declares.cut] at hfirst
  -- the operator is an equals sign, since nothing is assigned again
  have hop := declares.assigned hnew
  obtain ⟨skipped, gap, text', behind', rfl, hassigned, hgap⟩ :=
    @Reads.found _ _ _ _ [] _ _ hfound.reads (by rw [hop]; rfl)
  obtain rfl : text = d.name.name.toList := hfound.spells
  obtain rfl : text' = ['='] := by
    have hspells := hassigned.spells
    rw [hop] at hspells
    exact hspells
  obtain ⟨rest, tokens, hscript, -⟩ := hfound.reads.exists_run
  obtain ⟨first, hfront⟩ : ∃ first, first ∈ s.queue.head? := by
    rw [declares.cut]
    cases head with
    | nil => exact ⟨_, rfl⟩
    | cons first head => exact ⟨first, rfl⟩
  -- the declaration starts with the first token that was found
  obtain ⟨inside, hspan⟩ := hfirst first hfront
  obtain ⟨hstart, hcolumn⟩ := declares.starts first hfront
  rw [hspan] at hstart hcolumn
  refine ⟨before, rest, front, covered, gap, behind', ?_, hmask, hfound.span,
    hfound.mirrors.length.symm, ?_, fun h => ?_, hcovered, hgap rfl, hassigned.sharp hop⟩
  · rw [hscript, List.append_assoc]
  · rw [hstart, stretch_start, hmirrors.length]
  · exact (column_eq_zero_iff front).mp (hmirrors.column (hcolumn.symm.trans h))

-- ---------------------------------------------------------------------------
-- Declarations and lines
-- ---------------------------------------------------------------------------

namespace Text.Lined

variable {number offset : Nat} {cs : List Char} {lines : List Line}

/-- What stands in front of a return stands in the text of its line. -/
theorem exists_left_of_returned {text returned inside left : List Char}
    (bare : returned = [] ∨ returned = ['\r']) (h : text ++ returned = inside ++ left)
    (hends : inside.getLast? ≠ some '\r') : ∃ left, text = inside ++ left := by
  rcases bare with rfl | rfl
  · exact ⟨left, by rw [← h, List.append_nil]⟩
  · rcases List.eq_nil_or_concat left with rfl | ⟨left, last, rfl⟩
    · refine absurd ?_ hends
      rw [← List.append_nil inside, ← h, List.getLast?_concat]
    · rw [List.concat_eq_append, ← List.append_assoc] at h
      exact ⟨left, (List.append_inj' h rfl).1⟩

/-- A piece of a text that starts a line and does not go over its end stands at the front of
that line. -/
theorem exists_line (lined : Lined number offset cs lines) {front inside behind : List Char}
    (hcut : cs = front ++ (inside ++ behind)) (hfront : front = [] ∨ front.getLast? = some '\n')
    (hwhole : '\n' ∉ inside) (hends : inside.getLast? ≠ some '\r') :
    ∃ line ∈ lines, line.offset = offset + byteLength front ∧
      ∃ left, line.text = inside ++ left := by
  induction lined generalizing front with
  | @last number offset text returned whole bare =>
    rcases hfront with rfl | hlast
    · exact ⟨_, List.mem_singleton_self _, rfl, exists_left_of_returned bare hcut hends⟩
    · -- the last line has no line break
      have hmem : '\n' ∈ text ++ returned :=
        hcut ▸ List.mem_append_left _ (List.mem_of_getLast? hlast)
      exact absurd hmem fun h => (List.mem_append.mp h).elim whole (notMem_returned bare)
  | @line number offset text returned rest later whole bare next ih =>
    have hraw : '\n' ∉ text ++ returned := fun h =>
      (List.mem_append.mp h).elim whole (notMem_returned bare)
    have hcut : (text ++ returned) ++ '\n' :: rest = front ++ (inside ++ behind) := by
      rw [← hcut]
      simp only [List.append_assoc, List.singleton_append]
    rcases hfront with rfl | hlast
    · rw [List.nil_append] at hcut
      obtain ⟨left, hleft, -⟩ := exists_append_of_notMem hcut.symm hwhole
      exact ⟨_, List.mem_cons_self, rfl, exists_left_of_returned bare hleft hends⟩
    · -- the piece stands behind this line
      obtain ⟨front, rfl⟩ := List.getLast?_eq_some_iff.mp hlast
      rw [List.append_assoc front, List.singleton_append] at hcut
      -- the front goes over this line and its break
      obtain ⟨more, rfl, hbehind⟩ := exists_append_of_notMem hcut hraw
      cases more with
      | nil =>
        obtain ⟨line, hline, hoffset, hleft⟩ := ih (List.cons.inj hbehind).2 (.inl rfl)
        refine ⟨line, List.mem_cons_of_mem _ hline, ?_, hleft⟩
        rw [hoffset]
        simp
      | cons c more =>
        obtain ⟨rfl, hrest⟩ := List.cons.inj hbehind
        obtain ⟨line, hline, hoffset, hleft⟩ := @ih (more ++ ['\n']) (by simpa using hrest)
          (.inr List.getLast?_concat)
        refine ⟨line, List.mem_cons_of_mem _ hline, ?_, hleft⟩
        rw [hoffset]
        simp [byteLength_append, byteLength_cons, Nat.add_assoc]

end Text.Lined

/-- Where a line stands in a text: behind the start or a line break. -/
theorem exists_margin_of_line {cs : List Char} {line : Line} (hline : line ∈ Text.lines cs) :
    ∃ front behind, cs = front ++ (line.text ++ behind) ∧ byteLength front = line.offset ∧
      (front = [] ∨ front.getLast? = some '\n') ∧ '\n' ∉ line.text := by
  have hstart : Position.after {} [] = ⟨0, 1, 0⟩ := rfl
  obtain ⟨hwhole, front, behind, hcut, hfront⟩ :=
    (Text.lines_lined cs).standsAt hstart line hline
  have hoffset := Position.after_offset {} front
  rw [hfront] at hoffset
  exact ⟨front, behind, hcut, (hoffset.trans (Nat.zero_add _)).symm,
    (column_eq_zero_iff front).mp (by rw [hfront]), hwhole⟩

/-- What stands before a line ends in a line break. -/
theorem eq_nil_or_ends_of_margin {front more : List Char}
    (h : front ++ more = [] ∨ (front ++ more).getLast? = some '\n') :
    more = [] ∨ ∃ inside, more = inside ++ ['\n'] := by
  rcases List.eq_nil_or_concat more with rfl | ⟨inside, last, rfl⟩
  · exact .inl rfl
  · rw [List.concat_eq_append, ← List.append_assoc, List.getLast?_concat] at h
    rcases h with hnil | hlast
    · exact absurd hnil (List.append_ne_nil_of_right_ne_nil _ (List.cons_ne_nil last []))
    · exact .inr ⟨inside, by rw [List.concat_eq_append, Option.some.inj hlast]⟩

/-- Two texts that each start with blanks are cut alike. -/
theorem eq_of_blanks {blanks blanks' rest rest' : List Char}
    (h : blanks ++ rest = blanks' ++ rest') (hblanks : ∀ c ∈ blanks, isWhite c = true)
    (hblanks' : ∀ c ∈ blanks', isWhite c = true) (hrest : rest.head?.any isWhite = false)
    (hrest' : rest'.head?.any isWhite = false) : blanks = blanks' ∧ rest = rest' := by
  have htake {blanks rest : List Char} (hblanks : ∀ c ∈ blanks, isWhite c = true)
      (hrest : rest.head?.any isWhite = false) : (blanks ++ rest).takeWhile isWhite = blanks := by
    rw [List.takeWhile_append_of_pos hblanks]
    cases rest with
    | nil => exact List.append_nil blanks
    | cons c cs => rw [List.takeWhile_cons_of_neg (by simpa using hrest), List.append_nil]
  obtain rfl : blanks = blanks' := by
    rw [← htake hblanks hrest, h, htake hblanks' hrest']
  exact ⟨rfl, List.append_cancel_left h⟩

theorem Gap.isWhite {gap : List Char} (h : Gap gap) : ∀ c ∈ gap, isWhite c = true := by
  intro c hc
  rcases h.blank c hc with rfl | rfl | rfl | rfl <;> rfl

theorem isWhite_of_isSpace {c : Char} (h : isSpace c = true) : isWhite c = true := by
  rcases Lexer.eq_of_isSpace h with rfl | rfl <;> rfl

/-- No white space starts an assignment. -/
theorem isWhite_of_startsAssignment {op : List Char} (h : startsAssignment op = true)
    (rest : List Char) : (op ++ rest).head?.any isWhite = false := by
  revert h
  fun_cases startsAssignment op with
  | case1 => exact fun _ => rfl
  | case2 => exact fun _ => rfl
  | case3 => rintro ⟨⟩

namespace Written

variable {source : String} {d : Declaration} {before rest front head gap behind : List Char}

/-- The location of the variable is its span. -/
theorem locate_eq (h : Written source d before rest front head gap behind) :
    locate source.toList (byteLength (front ++ head)) (byteLength d.name.name.toList) =
      d.name.span := by
  rw [h.script, ← h.place, locate_stretch, h.span]

/-- The gap ends at the first character that is not white, so there is one way to cut it off. -/
theorem eq_gap (h : Written source d before rest front head gap behind)
    {gap' behind' : List Char} (heq : gap ++ '=' :: behind = gap' ++ behind')
    (hgap : ∀ c ∈ gap', isSpace c = true) (hbehind : behind'.head?.any isWhite = false) :
    gap = gap' ∧ '=' :: behind = behind' :=
  eq_of_blanks heq h.gap.isWhite (fun c hc => isWhite_of_isSpace (hgap c hc)) rfl hbehind

/-- Behind the variable stands white space or the equals sign, and nothing else. -/
theorem behind_ne (h : Written source d before rest front head gap behind) {c : Char}
    (hc : (isWhite c || c = '=') = false) (others : List Char) :
    gap ++ '=' :: behind ≠ c :: others := by
  rw [Bool.or_eq_false_iff] at hc
  intro heq
  cases hgap : gap with
  -- without a gap the equals sign follows at once
  | nil =>
    rw [hgap] at heq
    exact absurd (List.cons.inj heq).1.symm (of_decide_eq_false hc.2)
  | cons d gap =>
    rw [hgap] at heq
    have hd := h.gap.isWhite d (hgap ▸ List.mem_cons_self)
    rw [(List.cons.inj heq).1, hc.1] at hd
    cases hd

/-- The variable starts behind the head of its declaration. -/
theorem start_eq (h : Written source d before rest front head gap behind) :
    d.name.span.start = byteLength (front ++ head) := by
  rw [h.span, stretch_start, h.place]

/-- The text before the variable has one cut into what stands before a line and a plain head
on that line, and this is where the declaration starts. -/
theorem eq_front (h : Written source d before rest front head gap behind)
    (hcolumn : d.span.column = 0) {front' head' : List Char}
    (heq : front ++ head = front' ++ head') (hhead : PlainHead head') (hwhole : '\n' ∉ head')
    (hmargin : front' = [] ∨ front'.getLast? = some '\n') : front = front' := by
  rcases List.append_eq_append_iff.mp heq with ⟨more, rfl, hmore⟩ | ⟨more, rfl, hmore⟩
  case inl =>
    rcases eq_nil_or_ends_of_margin hmargin with rfl | ⟨inside, rfl⟩
    · rw [List.append_nil]
    · -- the head of the declaration would go over a line break, and on with a blank behind it
      have hnext := h.covered inside head' (by rw [hmore]; simp)
      cases hhead with
      | nil => rcases hnext with hnext | hnext <;> cases hnext
      | cons isWord =>
        obtain ⟨c, cs, rfl, hstart, -⟩ := isWord.exists_cons
        rcases hnext with hnext | hnext
        · cases hnext
          cases hstart
        · cases hnext
          cases hstart
  case inr =>
    rcases eq_nil_or_ends_of_margin (h.margin hcolumn) with rfl | ⟨inside, rfl⟩
    · rw [List.append_nil]
    · -- the plain head would go over a line break
      exact absurd (by rw [hmore]; simp) hwhole

/-- A declaration is plain if its own head is, and its own gap holds nothing but spaces and
tabs. -/
theorem isPlain_iff (h : Written source d before rest front head gap behind) :
    d.IsPlain (mask source.toList) ↔
      PlainHead head ∧ '\n' ∉ head ∧ ∀ c ∈ gap, isSpace c = true := by
  constructor
  case mpr =>
    rintro ⟨hhead, hwhole, hgap⟩
    exact ⟨front, head, gap, behind, h.masked, h.start, h.start_eq.symm, hhead, hwhole, hgap⟩
  case mp =>
    rintro ⟨front', head', gap', behind', hmask, hstart, hplace, hhead, hwhole, hgap⟩
    -- the two cuts are the same, since they have the same places
    obtain rfl : front' = front :=
      eq_of_byteLength_eq hmask h.masked (hstart.trans h.start.symm)
    have heq := h.masked.symm.trans hmask
    rw [List.append_cancel_left_eq] at heq
    obtain rfl : head = head' := by
      have hsize := h.start_eq.symm.trans hplace.symm
      rw [byteLength_append, byteLength_append, Nat.add_left_cancel_iff] at hsize
      exact eq_of_byteLength_eq rfl heq hsize
    rw [List.append_cancel_left_eq, List.append_cancel_left_eq] at heq
    obtain ⟨rfl, -⟩ := h.eq_gap heq hgap rfl
    exact ⟨hhead, hwhole, hgap⟩

/-- A declaration at the margin that hides a namespace is found if it is plain. -/
theorem exists_finding (h : Written source d before rest front head gap behind)
    (hcolumn : d.span.column = 0) (hnamespace : Language.isNamespace d.name.name = true)
    (hplain : d.IsPlain (mask source.toList)) :
    ∃ finding ∈ Check.Shadowing.check source.toList (mask source.toList),
      finding.span = d.name.span := by
  obtain ⟨hhead, hwhole, hgap⟩ := h.isPlain_iff.mp hplain
  have hname : IsWord d.name.name.toList :=
    (isWord_of_isNamespace (by rwa [String.ofList_toList])).1
  -- all of the declaration up to the equals sign stands at the front of one line
  have hcut : mask source.toList =
      front ++ ((head ++ (d.name.name.toList ++ (gap ++ ['=']))) ++ behind) := by
    rw [h.masked]
    simp
  have hwhole' : '\n' ∉ head ++ (d.name.name.toList ++ (gap ++ ['='])) := by
    simp only [List.mem_append, List.mem_singleton, not_or]
    refine ⟨hwhole, fun hmem => ?_, fun hmem => ?_, by decide⟩
    · exact absurd (hname.chars _ hmem) (by decide)
    · exact absurd (hgap _ hmem) (by decide)
  have hends : (head ++ (d.name.name.toList ++ (gap ++ ['=']))).getLast? ≠ some '\r' := by
    simp
  obtain ⟨line, hline, hoffset, left, htext⟩ :=
    (Text.lines_lined _).exists_line hcut (h.margin hcolumn) hwhole' hends
  rw [Nat.zero_add] at hoffset
  -- behind the equals sign on its line there is no other one
  have hsharp : left.head? ≠ some '=' := by
    obtain ⟨lineFront, later, hline', hlength, -⟩ := exists_margin_of_line hline
    obtain rfl := eq_of_byteLength_eq hline' hcut (hlength.trans hoffset)
    rw [hline', htext, List.append_assoc, List.append_cancel_left_eq, List.append_cancel_left_eq]
      at hcut
    cases left with
    | nil => exact nofun
    | cons c left =>
      have hfirst := h.sharp
      rw [← hcut] at hfirst
      exact hfirst
  simp only [List.append_assoc, List.singleton_append] at htext
  have hfound : checkLine? source.toList line = _ :=
    checkLine?_of_head htext hhead (by rwa [String.ofList_toList]) hgap hsharp
  refine ⟨_, List.mem_filterMap.mpr ⟨line, hline, hfound⟩, ?_⟩
  rw [shadowed, hoffset, ← byteLength_append, h.locate_eq]

/-- A declaration is plain if its variable is read behind a plain head of a line. -/
theorem isPlain_of_cut (h : Written source d before rest front head gap behind)
    (hcolumn : d.span.column = 0) {front' head' arguments mark' gap' op later : List Char}
    (hcut : mask source.toList = front' ++ (head' ++ (d.name.name.toList ++
      (arguments ++ (mark' ++ (gap' ++ (op ++ later)))))))
    (hplace : byteLength (front' ++ head') = byteLength before)
    (hmargin : front' = [] ∨ front'.getLast? = some '\n') (hhead : PlainHead head')
    (hwhole : '\n' ∉ head') (harguments : IsTypeArguments arguments) (hmark : IsArrayMark mark')
    (hgap : ∀ c ∈ gap', isSpace c = true) (hop : startsAssignment op = true) :
    d.IsPlain (mask source.toList) := by
  have hsame : front ++ head = front' ++ head' :=
    eq_of_byteLength_eq (h.masked.trans (List.append_assoc _ _ _).symm)
      (hcut.trans (List.append_assoc _ _ _).symm) (h.place.symm.trans hplace.symm)
  obtain rfl := h.eq_front hcolumn hsame hhead hwhole hmargin
  obtain rfl := List.append_cancel_left hsame
  -- behind the variable there are blanks and the equals sign, and no mark of a type
  have hbehind := h.masked.symm.trans hcut
  rw [List.append_cancel_left_eq, List.append_cancel_left_eq, List.append_cancel_left_eq]
    at hbehind
  obtain rfl : arguments = [] := by
    rcases harguments with rfl | ⟨inside, -, rfl⟩
    · rfl
    · exact absurd hbehind (h.behind_ne (by decide) _)
  obtain rfl : mark' = [] := by
    rcases hmark with rfl | rfl
    · rfl
    · exact absurd hbehind (h.behind_ne (by decide) _)
  rw [List.nil_append, List.nil_append] at hbehind
  obtain ⟨rfl, -⟩ := h.eq_gap hbehind hgap (isWhite_of_startsAssignment hop later)
  exact h.isPlain_iff.mpr ⟨hhead, hwhole, hgap⟩

/-- What is found at the place of the variable is about the variable, and the declaration is
plain. -/
theorem of_finding (h : Written source d before rest front head gap behind)
    (hcolumn : d.span.column = 0) {finding : Finding}
    (hfinding : finding ∈ Check.Shadowing.check source.toList (mask source.toList))
    (hspan : finding.span = d.name.span) :
    finding.cause = .shadowedNamespace d.name.name ∧ d.IsPlain (mask source.toList) := by
  obtain ⟨line, hline, hfound⟩ := List.mem_filterMap.mp hfinding
  obtain ⟨head', name, arguments, mark', gap', op, htext, rfl, hhead, hname, harguments, hmark,
    hgap, hop⟩ := exists_of_checkLine? hfound
  obtain ⟨front', later, hcut, hoffset, hmargin, hwhole⟩ := exists_margin_of_line hline
  rw [htext] at hcut hwhole
  simp only [List.append_assoc] at hcut
  -- the finding is the same stretch of the script as the variable
  obtain ⟨before', rest', hscript, hlength, -⟩ :=
    Text.mask_word (hcut.trans (List.append_assoc _ _ _).symm) hname.ne_nil
      (space_notMem_word hname.chars)
  rw [shadowed, ← hoffset, ← byteLength_append, ← hlength, hscript, locate_stretch, h.span] at hspan
  -- the same start, and so the same text in front
  obtain rfl : before' = before := by
    have hplace := congrArg Span.start hspan
    rw [stretch_start, stretch_start] at hplace
    exact eq_of_byteLength_eq hscript h.script hplace
  -- the same end, and so the same name
  obtain rfl : name = d.name.name.toList := by
    have hstop := congrArg Span.stop hspan
    rw [stretch_stop, stretch_stop, Nat.add_left_cancel_iff] at hstop
    exact eq_of_byteLength_eq rfl (List.append_cancel_left (hscript.symm.trans h.script)) hstop
  exact ⟨congrArg Cause.shadowedNamespace String.ofList_toList,
    h.isPlain_of_cut hcolumn hcut hlength.symm hmargin hhead
      (fun hmem => hwhole (List.mem_append_left _ hmem)) harguments hmark hgap hop⟩

end Written

-- ---------------------------------------------------------------------------
-- What is reported
-- ---------------------------------------------------------------------------

/-- **Which hidden namespaces are reported.** In a script that is parsed without errors, let a
declaration at the left margin give a first value to a variable with the name of a namespace.
Whatever is reported at the place of the variable is that it hides the namespace, and this is
reported exactly if the declaration is plain. -/
theorem check_reports_shadowing {source : String} {allowed : Nat} {d : Declaration}
    (settings : Settings) (herrors : (parse source allowed).errors = [])
    (hmem : d ∈ (parse source allowed).program.declarations) (hnew : d.isReassignment = false)
    (hcolumn : d.span.column = 0) (hnamespace : Language.isNamespace d.name.name = true) :
    (∀ finding ∈ (runSingle .namespaceShadowing source settings).findings,
      finding.span = d.name.span → finding.cause = .shadowedNamespace d.name.name) ∧
    ((∃ finding ∈ (runSingle .namespaceShadowing source settings).findings,
      finding.span = d.name.span) ↔ d.IsPlain (mask source.toList)) := by
  obtain ⟨before, rest, front, head, gap, behind, hwritten⟩ := exists_written herrors hmem hnew
  rw [Check.namespaceShadowing.runSingle_findings source settings rfl]
  refine ⟨fun finding hfinding hspan => (hwritten.of_finding hcolumn hfinding hspan).1, ?_, ?_⟩
  · rintro ⟨finding, hfinding, hspan⟩
    exact (hwritten.of_finding hcolumn hfinding hspan).2
  · exact fun hplain => hwritten.exists_finding hcolumn hnamespace hplain

/-- A variable with a type behind another declaration, in a script that is not in ASCII. -/
theorem check_reports_shadowing_sample :
    let script := "s = \"é\"\nvar array<int> ta\t= na // 1\n"
    ∃ d ∈ (parse script 10).program.declarations,
      d.IsPlain (mask script.toList) ∧
      ∃ finding ∈ (runSingle .namespaceShadowing script {}).findings,
        finding.span = d.name.span ∧ finding.cause = .shadowedNamespace d.name.name := by
  intro script
  have hfound : (parse script 10).errors = [] ∧ ∃ d ∈ (parse script 10).program.declarations,
      d.isReassignment = false ∧ d.span.column = 0 ∧ Language.isNamespace d.name.name = true ∧
      ∃ finding ∈ (runSingle .namespaceShadowing script {}).findings,
        finding.span = d.name.span := by
    decide +kernel
  obtain ⟨herrors, d, hmem, hnew, hcolumn, hnamespace, finding, hfinding, hspan⟩ := hfound
  have hreports := check_reports_shadowing {} herrors hmem hnew hcolumn hnamespace
  exact ⟨d, hmem, hreports.2.mp ⟨finding, hfinding, hspan⟩, finding, hfinding, hspan,
    hreports.1 finding hfinding hspan⟩

/-- **A type in a namespace hides the variable from the check.** The script is parsed without
errors and declares a variable with the name of a namespace at the left margin, and nothing is
reported. -/
theorem check_misses_shadowing :
    let script := "chart.point ta = na\n"
    (parse script 10).errors = [] ∧
    (∃ d ∈ (parse script 10).program.declarations,
      d.isReassignment = false ∧ d.span.column = 0 ∧ d.name.name = "ta" ∧
      Language.isNamespace d.name.name = true) ∧
    (runSingle .namespaceShadowing script {}).findings = [] := by
  decide +kernel

end PineCheck
