import PineCheck.Proofs.Surroundings

/-!
# PineCheck — call sites lie in each other

Call sites are found one by one: for every name that stands before a parenthesis, the
parenthesis that closes it is looked for anew. Still the argument lists fit together as the
brackets of a well-formed text would, also in a text whose parentheses do not match.

The `excess` of a text is how many more parentheses open in it than close. From an opening
parenthesis to where it is closed the excess never falls below zero, and there it is zero
(`excess_nonneg`, `excess_of_upToClosing?`). So if a parenthesis opens in an argument list
that is closed, the rest of the list closes more than it opens, and the one that opens in
it is closed in it (`byteLength_insideOf_le_of_closed`). This tells of any two parentheses
that what is inside them is apart, or one inside the other (`insideOf_parts`).

Main result:

* `callSites_laminar` — call sites are in order, each stands where it is said to stand, and
  the argument lists of any two are apart or one lies in the other.
-/

namespace PineCheck

open Text (CallSite Slice)
open Indexed (isNameChar)

-- ---------------------------------------------------------------------------
-- Parentheses
-- ---------------------------------------------------------------------------

/-- How many more parentheses open in a text than close. -/
def excess (cs : List Char) : Int :=
  cs.count '(' - cs.count ')'

@[simp] theorem excess_nil : excess [] = 0 := rfl

theorem excess_append (a b : List Char) : excess (a ++ b) = excess a + excess b := by
  simp only [excess, List.count_append]
  omega

/-- One character changes the depth by its excess. -/
theorem parenthesesAfter_eq (depth : Int) (c : Char) :
    parenthesesAfter depth c = depth + excess [c] := by
  rw [parenthesesAfter, excess, List.count_singleton, List.count_singleton]
  by_cases hopen : c = '('
  · subst hopen
    rfl
  · by_cases hclose : c = ')'
    · subst hclose
      rfl
    · simp [hopen, hclose]

/-- The depth behind a text, one character on. -/
theorem parenthesesAfter_add (depth : Int) (c : Char) (cs : List Char) :
    parenthesesAfter depth c + excess cs = depth + excess (c :: cs) := by
  rw [parenthesesAfter_eq, Int.add_assoc, ← excess_append, List.singleton_append]

/-- The text up to the parenthesis that brings the depth down to zero, or all of a text in
which there is none. -/
def insideOf (depth : Int) (cs : List Char) : List Char :=
  ((Text.upToClosing? '(' ')' depth cs).map Prod.fst).getD cs

/-- Where no parenthesis closes, all of the text is inside. -/
theorem insideOf_of_none {depth : Int} {cs : List Char}
    (h : Text.upToClosing? '(' ')' depth cs = none) : insideOf depth cs = cs := by
  rw [insideOf, h]
  rfl

/-- Where a parenthesis closes, the inside ends in front of it. -/
theorem insideOf_of_some {depth : Int} {cs inside rest : List Char}
    (h : Text.upToClosing? '(' ')' depth cs = some (inside, rest)) :
    insideOf depth cs = inside := by
  rw [insideOf, h]
  rfl

/-- The inside of a text, one character on. -/
theorem insideOf_cons (depth : Int) (c : Char) (cs : List Char) :
    insideOf depth (c :: cs) =
      if c = ')' && depth = 1 then [] else c :: insideOf (parenthesesAfter depth c) cs := by
  rw [insideOf, upToClosing?_cons]
  split
  · rfl
  · rw [insideOf]
    cases Text.upToClosing? '(' ')' (parenthesesAfter depth c) cs <;> rfl

/-- Up to the closing parenthesis no more parentheses close than are open. -/
theorem excess_nonneg {depth : Int} (hdepth : 1 ≤ depth) {cs front : List Char}
    (h : front <+: insideOf depth cs) : 0 < depth + excess front := by
  induction cs generalizing depth front with
  | nil =>
    rw [List.prefix_nil.mp h, excess_nil]
    omega
  | cons c cs ih =>
    rw [insideOf_cons] at h
    split at h
    · rw [List.prefix_nil.mp h, excess_nil]
      omega
    · next hopen =>
      rcases List.prefix_cons_iff.mp h with rfl | ⟨later, rfl, hlater⟩
      · rw [excess_nil]
        omega
      -- the depth stays at one at least, since no parenthesis has closed the first one
      · have hafter : 1 ≤ parenthesesAfter depth c := by
          simp only [Bool.and_eq_true, decide_eq_true_eq] at hopen
          rw [parenthesesAfter]
          split
          · omega
          split
          · next hclose =>
            have hdeep : depth ≠ 1 := fun h => hopen ⟨hclose, h⟩
            omega
          · exact hdepth
        have hrest := ih hafter hlater
        rwa [parenthesesAfter_add] at hrest

/-- At the closing parenthesis as many have been closed as were open. -/
theorem excess_of_upToClosing? {depth : Int} {cs inside rest : List Char}
    (h : Text.upToClosing? '(' ')' depth cs = some (inside, rest)) :
    depth + excess inside = 1 := by
  induction cs generalizing depth inside with
  | nil => cases h
  | cons c cs ih =>
    rw [upToClosing?_cons] at h
    split at h
    · next hclose =>
      cases h
      simp only [Bool.and_eq_true, decide_eq_true_eq] at hclose
      rw [hclose.2, excess_nil]
      rfl
    · obtain ⟨⟨later, rest'⟩, hfound, heq⟩ := Option.map_eq_some_iff.mp h
      cases heq
      have hrest := ih hfound
      rwa [parenthesesAfter_add] at hrest

/-- The inside is no longer than the text. -/
theorem byteLength_insideOf_le (depth : Int) (cs : List Char) :
    byteLength (insideOf depth cs) ≤ byteLength cs := by
  cases hup : Text.upToClosing? '(' ')' depth cs with
  | none => rw [insideOf_of_none hup]
  | some found =>
    obtain ⟨inside, rest⟩ := found
    obtain ⟨_, _, hcut⟩ := Indexed.upToClosing?_append hup
    rw [insideOf_of_some hup, hcut, byteLength_append]
    exact Nat.le_add_right ..

/-- A parenthesis that opens in a closed argument list is closed in it. -/
theorem byteLength_insideOf_le_of_closed {inner front inside behind : List Char}
    (h : Text.upToClosing? '(' ')' 1 inner = some (front ++ '(' :: inside, behind)) :
    byteLength (insideOf 1 (inside ++ behind)) ≤ byteLength inside := by
  have hwhole := excess_of_upToClosing? h
  have hfront : 0 < 1 + excess front :=
    excess_nonneg (Int.le_refl 1) (insideOf_of_some h ▸ List.prefix_append front _)
  have hopen : excess ['('] = 1 := rfl
  rw [excess_append, ← List.singleton_append, excess_append, hopen] at hwhole
  -- the rest of the list closes more than it opens
  cases hup : Text.upToClosing? '(' ')' 1 inside with
  | none =>
    have hpos : 0 < 1 + excess inside :=
      excess_nonneg (Int.le_refl 1) (by rw [insideOf_of_none hup])
    omega
  | some found =>
    obtain ⟨closed, later⟩ := found
    obtain ⟨_, _, hcut⟩ := Indexed.upToClosing?_append hup
    rw [insideOf_of_some (upToClosing?_append_of_eq_some hup _), hcut, byteLength_append]
    exact Nat.le_add_right ..

/-- Of two parentheses, the second one opens behind the inside of the first one, or its own
inside lies in that. -/
theorem insideOf_parts (path inner : List Char) :
    byteLength (insideOf 1 (path ++ '(' :: inner)) ≤ byteLength path ∨
      byteLength path + 1 + byteLength (insideOf 1 inner) ≤
        byteLength (insideOf 1 (path ++ '(' :: inner)) := by
  have hone : Char.utf8Size '(' = 1 := rfl
  cases hup : Text.upToClosing? '(' ')' 1 (path ++ '(' :: inner) with
  | none =>
    -- the first parenthesis is not closed: all that follows is inside
    have hle := byteLength_insideOf_le 1 inner
    rw [insideOf_of_none hup, byteLength_append, byteLength_cons, hone]
    right
    omega
  | some found =>
    obtain ⟨inside, closed⟩ := found
    obtain ⟨behind, rfl, hclosed⟩ := Indexed.upToClosing?_append hup
    rw [insideOf_of_some hup]
    rcases List.append_eq_append_iff.mp hclosed with ⟨later, rfl, hout⟩ | ⟨later, rfl, -⟩
    · -- the second parenthesis opens before the first one is closed
      cases later with
      | nil => cases (List.cons.inj hout).1
      | cons c nested =>
        rw [List.cons_append] at hout
        obtain ⟨rfl, rfl⟩ := List.cons.inj hout
        have hle := byteLength_insideOf_le_of_closed hup
        rw [byteLength_append, byteLength_cons, hone]
        right
        omega
    · rw [byteLength_append]
      left
      omega

-- ---------------------------------------------------------------------------
-- Where a call site stands
-- ---------------------------------------------------------------------------

/-- Where a call site stands in a text: its name behind `before`, the parenthesis behind
`blanks`, and `behind` what is left behind its arguments. -/
structure Text.CallSite.Stands (text : List Char) (site : CallSite)
    (before blanks behind : List Char) : Prop where
  cut : text =
    before ++ (site.name.toList ++ (blanks ++ '(' :: (site.arguments.text ++ behind)))
  offset : site.offset = byteLength before
  start : site.arguments.offset =
    site.offset + byteLength site.name.toList + byteLength blanks + 1
  /-- A name does not start inside another one. -/
  free : before.getLast?.any isNameChar = false
  blanks : ∀ c ∈ blanks, Text.isSpace c = true
  /-- No more parentheses close in the arguments than open, seen from their front. -/
  covered : ∀ front, front <+: site.arguments.text → front.count ')' ≤ front.count '('
  closed : site.isClosed = true → behind.head? = some ')' ∧
    site.arguments.text.count ')' = site.arguments.text.count '('
  unclosed : site.isClosed = false → behind = []

/-- The parts of a call site that is found at the front of a text. -/
theorem callSiteAt?_eq_some {offset : Nat} {cs : List Char} {site : CallSite}
    (h : Text.callSiteAt? offset cs = some site) :
    ∃ blanks inner, cs = site.name.toList ++ (blanks ++ '(' :: inner) ∧
      (∀ c ∈ site.name.toList, isNameChar c = true) ∧ (∀ c ∈ blanks, Text.isSpace c = true) ∧
      site.offset = offset ∧
      site.arguments =
        ⟨offset + byteLength site.name.toList + byteLength blanks + 1, insideOf 1 inner⟩ ∧
      site.isClosed = (Text.upToClosing? '(' ')' 1 inner).isSome := by
  obtain ⟨blanks, inner, htail, hblanks, hoffset, hstart, hinside⟩ :=
    Indexed.exists_of_callSiteAt? h
  have hcut := Indexed.nameTail_append cs
  have hchars := fun c => Indexed.isNameChar_of_mem_nameTail cs (c := c)
  rw [htail] at hcut hchars
  refine ⟨blanks, inner, hcut.symm, hchars, hblanks, hoffset, ?_⟩
  rw [← hstart]
  rcases hinside with ⟨rest, hup, hclosed⟩ | ⟨hup, hinner, hclosed⟩
  · rw [insideOf_of_some hup, hup]
    exact ⟨rfl, hclosed⟩
  · rw [insideOf_of_none hup, hup, ← hinner]
    exact ⟨rfl, hclosed⟩

/-- A call site that is found behind a text in which no name goes on stands there. -/
theorem exists_stands {before cs : List Char} {site : CallSite}
    (h : Text.callSiteAt? (byteLength before) cs = some site)
    (hfree : before.getLast?.any isNameChar = false) :
    ∃ blanks behind, site.Stands (before ++ cs) before blanks behind := by
  obtain ⟨blanks, inner, rfl, -, hblanks, hoffset, harguments, hclosed⟩ := callSiteAt?_eq_some h
  have hcovered (front : List Char) (hfront : front <+: site.arguments.text) :
      front.count ')' ≤ front.count '(' := by
    rw [harguments] at hfront
    have hpos := excess_nonneg (Int.le_refl 1) hfront
    rw [excess] at hpos
    omega
  have hstart : site.arguments.offset =
      site.offset + byteLength site.name.toList + byteLength blanks + 1 := by
    rw [harguments, hoffset]
  cases hup : Text.upToClosing? '(' ')' 1 inner with
  -- not closed: nothing is behind the arguments
  | none =>
    have htext : site.arguments.text = inner := by
      rw [harguments, insideOf_of_none hup]
    rw [hup] at hclosed
    refine ⟨blanks, [], by rw [htext, List.append_nil], hoffset, hstart, hfree, hblanks, hcovered,
      fun htrue => ?_, fun _ => rfl⟩
    rw [hclosed] at htrue
    cases htrue
  -- closed: the parenthesis stands behind the arguments, which are balanced
  | some found =>
    obtain ⟨inside, rest⟩ := found
    obtain ⟨behind, rfl, hcut⟩ := Indexed.upToClosing?_append hup
    have htext : site.arguments.text = inside := by
      rw [harguments, insideOf_of_some hup]
    have hwhole := excess_of_upToClosing? hup
    rw [excess] at hwhole
    rw [hup] at hclosed
    refine ⟨blanks, ')' :: behind, by rw [htext, hcut], hoffset, hstart, hfree, hblanks, hcovered,
      fun _ => ⟨rfl, by rw [htext]; omega⟩, fun hfalse => ?_⟩
    rw [hclosed] at hfalse
    cases hfalse

-- ---------------------------------------------------------------------------
-- Two call sites
-- ---------------------------------------------------------------------------

/-- The second of two slices stands behind the first one, or lies in it. -/
def Text.Slice.Parts (a b : Slice) : Prop :=
  a.stop ≤ b.offset ∨ a.offset ≤ b.offset ∧ b.stop ≤ a.stop

/-- A name that starts further on than another one starts behind the parenthesis of that. -/
theorem exists_behind_parenthesis {name blanks inner front rest : List Char} {d : Char}
    (hname : ∀ c ∈ name, isNameChar c = true) (hblanks : ∀ c ∈ blanks, Text.isSpace c = true)
    (hcut : name ++ (blanks ++ '(' :: inner) = front ++ d :: rest)
    (hstart : Text.startsName front.getLast? d = true) (hfront : name ≠ [] → front ≠ []) :
    ∃ middle, inner = middle ++ d :: rest := by
  have hd : Lexer.isWordStart d = true := (Bool.and_eq_true_iff.mp hstart).1
  induction name generalizing front with
  | nil =>
    -- neither a space nor the parenthesis starts a name
    have hspace : d ∉ blanks := by
      intro hmem
      have hword := Lexer.isWordChar_of_isWordStart hd
      rw [Lexer.isWordChar_of_isSpace (hblanks d hmem)] at hword
      cases hword
    obtain ⟨more, -, hmore⟩ := exists_append_of_notMem (List.nil_append _ ▸ hcut) hspace
    cases more with
    | nil =>
      obtain rfl := (List.cons.inj hmore).1
      cases hd
    | cons c middle => exact ⟨middle, (List.cons.inj hmore).2⟩
  | cons n name ih =>
    cases front with
    | nil => exact absurd rfl (hfront (List.cons_ne_nil n name))
    | cons c front =>
      rw [List.cons_append, List.cons_append] at hcut
      obtain ⟨rfl, htail⟩ := List.cons.inj hcut
      have hnext : front ≠ [] → Text.startsName front.getLast? d = true := by
        intro hne
        rwa [List.getLast?_cons_of_ne_nil hne] at hstart
      have hn := hname n List.mem_cons_self
      -- the second name does not start at the second character of the first, where a name goes on
      have hne : front ≠ [] := by
        rintro rfl
        rw [List.getLast?_singleton, Indexed.startsName_eq, Option.any_some, hn, Bool.not_true,
          Bool.and_false] at hstart
        cases hstart
      exact ih (fun c hc => hname c (List.mem_cons_of_mem n hc)) htail (hnext hne) fun _ => hne

/-- The arguments of a call site that is found behind another one are behind the arguments of
that, or lie in them. -/
theorem parts_of_callSiteAt? {offset : Nat} {front rest : List Char} {d : Char}
    {site later : CallSite} (h : Text.callSiteAt? offset (front ++ d :: rest) = some site)
    (hlater : Text.callSiteAt? (offset + byteLength front) (d :: rest) = some later)
    (hfront : front ≠ []) (hstart : Text.startsName front.getLast? d = true) :
    site.arguments.Parts later.arguments := by
  obtain ⟨blanks, inner, hcut, hname, hblanks, -, harguments, -⟩ := callSiteAt?_eq_some h
  obtain ⟨blanks', inner', hcut', -, -, -, harguments', -⟩ := callSiteAt?_eq_some hlater
  obtain ⟨middle, hinner⟩ :=
    exists_behind_parenthesis hname hblanks hcut.symm hstart fun _ => hfront
  have hone : Char.utf8Size '(' = 1 := rfl
  -- where the second name starts, seen from the first parenthesis
  have hplace := congrArg byteLength hcut
  rw [hinner] at hplace
  simp only [byteLength_append, byteLength_cons, hone] at hplace
  -- the path from the one parenthesis to the other
  have hpath : inner = (middle ++ (later.name.toList ++ blanks')) ++ '(' :: inner' := by
    rw [hinner, hcut', List.append_assoc, List.append_assoc]
  have hparts := insideOf_parts (middle ++ (later.name.toList ++ blanks')) inner'
  rw [← hpath] at hparts
  simp only [byteLength_append] at hparts
  rw [Slice.Parts, Slice.stop, Slice.stop, harguments, harguments']
  dsimp only
  omega

-- ---------------------------------------------------------------------------
-- All call sites
-- ---------------------------------------------------------------------------

/-- The search goes on behind one more character. -/
theorem callSitesFrom_concat (before : List Char) (c : Char) (cs : List Char) :
    Text.callSitesFrom (before ++ [c]).getLast? (byteLength (before ++ [c])) cs =
      Text.callSitesFrom (some c) (byteLength before + c.utf8Size) cs := by
  rw [List.getLast?_concat, byteLength_append, byteLength_cons, byteLength_nil, Nat.add_zero]

/-- Where the call sites are found, seen from a place inside the text. -/
theorem exists_of_mem_callSitesFrom {before cs : List Char} {site : CallSite}
    (h : site ∈ Text.callSitesFrom before.getLast? (byteLength before) cs) :
    ∃ front d rest, cs = front ++ d :: rest ∧
      Text.startsName (before ++ front).getLast? d = true ∧
      Text.callSiteAt? (byteLength (before ++ front)) (d :: rest) = some site := by
  induction cs generalizing before with
  | nil => cases h
  | cons c cs ih =>
    rw [Text.callSitesFrom, List.mem_append] at h
    rcases h with h | h
    · split at h
      · next hstart =>
        exact ⟨[], c, cs, rfl, by rw [List.append_nil]; exact hstart,
          by rw [List.append_nil]; exact Option.mem_toList.mp h⟩
      · cases h
    · rw [← callSitesFrom_concat] at h
      obtain ⟨front, d, rest, rfl, hstart, hfound⟩ := ih h
      rw [List.append_assoc, List.singleton_append] at hstart hfound
      exact ⟨c :: front, d, rest, rfl, hstart, hfound⟩

/-- A call site and all those that are found behind it. -/
theorem pairwise_callSitesFrom (before cs : List Char) :
    (Text.callSitesFrom before.getLast? (byteLength before) cs).Pairwise fun a b =>
      a.offset < b.offset ∧ a.arguments.Parts b.arguments := by
  induction cs generalizing before with
  | nil => exact .nil
  | cons c cs ih =>
    have hrest := ih (before ++ [c])
    rw [callSitesFrom_concat] at hrest
    rw [Text.callSitesFrom]
    refine List.pairwise_append.mpr ⟨?_, hrest, fun a ha b hb => ?_⟩
    · split
      · cases Text.callSiteAt? (byteLength before) (c :: cs) with
        | none => exact .nil
        | some site => exact List.pairwise_singleton _ site
      · exact .nil
    · split at ha
      · next hstart =>
        have hsite := Option.mem_toList.mp ha
        rw [← callSitesFrom_concat] at hb
        obtain ⟨front, d, rest, rfl, hstart', hlater⟩ := exists_of_mem_callSitesFrom hb
        rw [List.append_assoc, List.singleton_append] at hstart' hlater
        rw [List.getLast?_append_of_ne_nil before (List.cons_ne_nil c front)] at hstart'
        -- the later site starts further on, and its arguments fit those of the first
        have hparts : a.arguments.Parts b.arguments :=
          parts_of_callSiteAt? hsite (by rwa [← byteLength_append]) (List.cons_ne_nil c front)
            hstart'
        have hpos := c.utf8Size_pos
        obtain ⟨-, -, -, -, -, hoffset, -⟩ := callSiteAt?_eq_some hsite
        obtain ⟨-, -, -, -, -, hoffset', -⟩ := callSiteAt?_eq_some hlater
        rw [byteLength_append, byteLength_cons] at hoffset'
        exact ⟨by omega, hparts⟩
      · cases ha

/-- **Call sites lie in each other, or apart.** They are in order, each stands where it is
said to stand, with as many parentheses closed in its arguments as are open, and of any two
the arguments of the later one are behind those of the earlier one or lie in them. -/
theorem callSites_laminar (text : List Char) :
    (Text.callSites text).Pairwise (fun a b => a.offset < b.offset) ∧
      (∀ site ∈ Text.callSites text,
        (∃ before blanks behind, site.Stands text before blanks behind) ∧
        site.arguments.offset ≤ site.arguments.stop ∧
        site.arguments.stop ≤ byteLength text ∧
        (site.isClosed = false → site.arguments.stop = byteLength text)) ∧
      (Text.callSites text).Pairwise fun a b => a.arguments.Parts b.arguments := by
  have hpairs : (Text.callSites text).Pairwise fun a b =>
      a.offset < b.offset ∧ a.arguments.Parts b.arguments := pairwise_callSitesFrom [] text
  refine ⟨hpairs.imp fun h => h.1, fun site hsite => ?_, hpairs.imp fun h => h.2⟩
  obtain ⟨before, d, rest, rfl, hstart, hfound⟩ := @exists_of_mem_callSitesFrom [] text site hsite
  rw [List.nil_append] at hstart hfound
  rw [Indexed.startsName_eq, Bool.and_eq_true, Bool.not_eq_true'] at hstart
  obtain ⟨blanks, behind, hstands⟩ := exists_stands hfound hstart.2
  have hone : Char.utf8Size '(' = 1 := rfl
  have hlength := congrArg byteLength hstands.cut
  have hoffset := hstands.offset
  have hopen := hstands.start
  simp only [byteLength_append, byteLength_cons, hone] at hlength
  refine ⟨⟨before, blanks, behind, hstands⟩, Nat.le_add_right .., ?_, fun hopened => ?_⟩
  -- the arguments end within the text
  · rw [Slice.stop, byteLength_append, byteLength_cons]
    omega
  · rw [hstands.unclosed hopened, byteLength_nil] at hlength
    rw [Slice.stop, byteLength_append, byteLength_cons]
    omega

end PineCheck
