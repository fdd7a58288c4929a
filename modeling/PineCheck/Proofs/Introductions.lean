import PineCheck.Proofs.Indexed.Calls

/-!
# PineCheck — what stands before an argument

An argument stands behind a parenthesis, a comma or an equals sign, with nothing but
blanks between. These marks are code, also in a masked script, and blanks do not open a
string. So every argument that is found in the masked script begins in code: there the
script has the same character, and from there on it is masked as if it began there.

* `Introduced.of_mem_splitArguments`, `Introduced.value` — the parts of an argument list
  and the values of named arguments are introduced by a mark.
* `Introduced.begins_in_code` — what is introduced in a masked script begins in code.
-/

namespace PineCheck

open Text (Slice Region mask maskFrom maskChar isAsciiBlank)

-- ---------------------------------------------------------------------------
-- Marks
-- ---------------------------------------------------------------------------

/-- Whether a character is a mark that an argument can stand behind. -/
def introduces (c : Char) : Bool :=
  c = '(' || c = ',' || c = '='

/-- A slice is a piece of a text, and stands behind a mark and blanks. -/
def Introduced (text : List Char) (s : Slice) : Prop :=
  ∃ before mark blanks behind, text = before ++ mark :: (blanks ++ (s.text ++ behind)) ∧
    byteLength (before ++ mark :: blanks) = s.offset ∧ introduces mark = true ∧
    ∀ c ∈ blanks, isAsciiBlank c = true

theorem utf8Size_of_introduces {c : Char} (h : introduces c = true) : c.utf8Size = 1 := by
  simp only [introduces, Bool.or_eq_true, decide_eq_true_eq] at h
  rcases h with (rfl | rfl) | rfl <;> rfl

namespace Introduced

variable {text : List Char} {s : Slice}

/-- An introduced slice stays so when it is trimmed. -/
theorem trim (h : Introduced text s) : Introduced text s.trim := by
  obtain ⟨before, mark, blanks, behind, htext, hoffset, hmark, hblanks⟩ := h
  have hsplit : s.text = s.text.takeWhile isAsciiBlank ++ s.text.dropWhile isAsciiBlank :=
    List.takeWhile_append_dropWhile.symm
  obtain ⟨tail, hcore, -⟩ := Indexed.dropEndWhile_spec isAsciiBlank (s.text.dropWhile isAsciiBlank)
  have hfront : ∀ c ∈ s.text.takeWhile isAsciiBlank, isAsciiBlank c = true :=
    fun c hc => List.mem_takeWhile_imp hc
  rw [Slice.trim, Slice.dropWhile]
  refine ⟨before, mark, blanks ++ s.text.takeWhile isAsciiBlank, tail ++ behind, ?_, ?_, hmark, ?_⟩
  · rw [htext, List.append_assoc, ← List.append_assoc _ tail, ← hcore,
      ← List.append_assoc (s.text.takeWhile _), ← hsplit]
  · dsimp only
    rw [← hoffset]
    simp only [byteLength_append, byteLength_cons]
    omega
  · intro c hc
    rcases List.mem_append.mp hc with hc | hc
    · exact hblanks c hc
    · exact hfront c hc

/-- What stands behind a mark in a piece of a text is introduced by it. -/
theorem behind {i : Nat} {front rest : List Char} {mark : Char}
    (h : Introduced text ⟨i, front ++ mark :: rest⟩) (hmark : introduces mark = true) :
    Introduced text ⟨i + byteLength front + 1, rest⟩ := by
  obtain ⟨before, first, blanks, behind, htext, hoffset, -⟩ := h
  refine ⟨before ++ first :: (blanks ++ front), mark, [], behind, by simp [htext], ?_, hmark, nofun⟩
  dsimp only at hoffset ⊢
  rw [← hoffset]
  simp only [byteLength_append, byteLength_cons, byteLength_nil, utf8Size_of_introduces hmark]
  omega

theorem front {i : Nat} {front rest : List Char} (h : Introduced text ⟨i, front ++ rest⟩) :
    Introduced text ⟨i, front⟩ := by
  obtain ⟨before, mark, blanks, behind, htext, hoffset, hmark, hblanks⟩ := h
  exact ⟨before, mark, blanks, _, by rw [htext, List.append_assoc], hoffset, hmark, hblanks⟩

/-- The parts of an introduced argument list are introduced. -/
theorem of_mem_splitArguments (h : Introduced text s) {part : Slice}
    (hpart : part ∈ Text.splitArguments s) : Introduced text part :=
  Indexed.forall_mem_splitArguments (P := Introduced text) (fun _ => Introduced.trim)
    (fun _ _ _ h => ⟨h.front, h.behind (by decide)⟩) h part hpart

/-- The value of a named argument is introduced by its equals sign. -/
theorem value {part : Slice} {argument : Text.NamedArgument} (h : Introduced text part)
    (hargument : Text.namedArgument? part = some argument) :
    Introduced text argument.value := by
  obtain ⟨front, value, hpart, -, hvalue⟩ := Indexed.exists_equals_of_namedArgument? hargument
  have hslice : Introduced text ⟨part.offset, front ++ '=' :: value⟩ := by rwa [← hpart]
  rw [hvalue, ← Nat.add_assoc]
  exact (hslice.behind (by decide)).trim

/-- The arguments of every call site stand behind its parenthesis. -/
theorem of_mem_callSites {site : Text.CallSite} (h : site ∈ Text.callSites text) :
    Introduced text site.arguments := by
  obtain ⟨before, behind, htext, hoffset, -⟩ := Indexed.exists_parenthesis_of_mem_callSites h
  refine ⟨before, '(', [], behind, htext, ?_, rfl, nofun⟩
  rw [hoffset]
  exact byteLength_append ..

end Introduced

-- ---------------------------------------------------------------------------
-- Regions
-- ---------------------------------------------------------------------------

/-- A character that is left by the mask stands for itself, or behind what stands for the
first character. -/
theorem masked_append_cases {c d : Char} {masked rest a b : List Char}
    (hmasked : masked = [c] ∨ masked = Text.blanked c) (h : masked ++ rest = a ++ d :: b)
    (hd : d ≠ ' ') :
    (a = [] ∧ masked = [c] ∧ c = d ∧ rest = b) ∨
      ∃ later, a = masked ++ later ∧ rest = later ++ d :: b := by
  rcases hmasked with rfl | rfl
  · cases a with
    | nil =>
      obtain ⟨rfl, rfl⟩ := List.cons.inj h
      exact .inl ⟨rfl, rfl, rfl, rfl⟩
    | cons x later =>
      obtain ⟨rfl, hrest⟩ := List.cons.inj h
      exact .inr ⟨later, rfl, hrest⟩
  · exact .inr (exists_append_of_notMem h fun hmem => hd (List.eq_of_mem_replicate hmem))

theorem maskChar_mark {region : Region} {c : Char} {next : Option Char}
    (hmark : introduces c = true) (h : (maskChar region c next).1 = [c]) :
    (maskChar region c next).2 = .code := by
  have hne : c ≠ '"' ∧ c ≠ '\'' ∧ c ≠ '\n' ∧ Text.blanked c ≠ [c] := by
    simp only [introduces, Bool.or_eq_true, decide_eq_true_eq] at hmark
    rcases hmark with (rfl | rfl) | rfl <;> decide
  obtain ⟨hdouble, hsingle, hbreak, hblanked⟩ := hne
  revert h
  fun_cases maskChar region c next <;> simp_all

/-- A mark is left by the mask in code only. -/
theorem maskFrom_mark {region : Region} {cs a b : List Char} {mark : Char}
    (h : maskFrom region cs = a ++ mark :: b) (hmark : introduces mark = true) :
    ∃ before behind, cs = before ++ mark :: behind ∧ byteLength before = byteLength a ∧
      maskFrom .code behind = b := by
  induction cs generalizing region a with
  | nil => simp [maskFrom] at h
  | cons c cs ih =>
    have hcases := Indexed.maskChar_cases region c cs.head?
    have hlength := Indexed.byteLength_maskChar region c cs.head?
    have hcode := @maskChar_mark region c cs.head?
    rw [maskFrom] at h
    generalize maskChar region c cs.head? = found at h hcases hlength hcode
    obtain ⟨masked, next⟩ := found
    have hspace : mark ≠ ' ' := by
      rintro rfl
      cases hmark
    rcases masked_append_cases hcases h hspace with ⟨rfl, hmasked, rfl, rfl⟩ | ⟨later, rfl, hrest⟩
    · rw [show next = .code from hcode hmark hmasked]
      exact ⟨[], cs, rfl, rfl, rfl⟩
    · obtain ⟨before, behind, rfl, hbefore, hmask⟩ := ih hrest
      refine ⟨c :: before, behind, rfl, ?_, hmask⟩
      rw [byteLength_cons, byteLength_append, hbefore, ← hlength]

/-- Whether a region is outside of strings. -/
def Text.Region.isOutside : Region → Bool
  | .string _ | .escaped _ => false
  | _ => true

/-- What is masked by blanks opens no string. -/
theorem isOutside_maskChar {region : Region} {c : Char} {next : Option Char}
    (hregion : region.isOutside = true)
    (h : ∀ d ∈ (maskChar region c next).1, isAsciiBlank d = true) :
    (maskChar region c next).2.isOutside = true := by
  revert h
  fun_cases maskChar region c next with
  | case3 _ _ hquote =>
    -- the quote is left
    intro h
    have hblank := h c List.mem_cons_self
    simp only [Bool.or_eq_true, decide_eq_true_eq] at hquote
    rcases hquote with rfl | rfl <;> cases hblank
  | _ => simp_all [Text.Region.isOutside]

/-- Apart from blanks and the quotes of strings only code is left by the mask. -/
theorem eq_code_of_maskChar {region : Region} {c : Char} {next : Option Char}
    (hregion : region ≠ .string c) (hc : isAsciiBlank c = false)
    (h : (maskChar region c next).1 = [c]) : region = .code := by
  have hne : c ≠ '\n' ∧ Text.blanked c ≠ [c] := by
    refine ⟨?_, fun hblanked => ?_⟩
    · rintro rfl
      cases hc
    · have hspace : c = ' ' := List.eq_of_mem_replicate (hblanked ▸ List.mem_cons_self)
      rw [hspace] at hc
      cases hc
  obtain ⟨hbreak, hblanked⟩ := hne
  revert h
  fun_cases maskChar region c next <;> simp_all

/-- Blanks in front of a character outside of strings are no string, so that the character
stands in code. -/
theorem maskFrom_blanks {region : Region} {cs blanks b : List Char} {d : Char}
    (h : maskFrom region cs = blanks ++ d :: b) (hregion : region.isOutside = true)
    (hblanks : ∀ c ∈ blanks, isAsciiBlank c = true) (hd : isAsciiBlank d = false) :
    ∃ before behind, cs = before ++ d :: behind ∧ byteLength before = byteLength blanks ∧
      maskFrom .code (d :: behind) = d :: b := by
  induction cs generalizing region blanks with
  | nil => simp [maskFrom] at h
  | cons c cs ih =>
    have hwhole := h
    have hcases := Indexed.maskChar_cases region c cs.head?
    have hlength := Indexed.byteLength_maskChar region c cs.head?
    have houtside := @isOutside_maskChar region c cs.head? hregion
    have hcode := @eq_code_of_maskChar region c cs.head? (by rintro rfl; cases hregion)
    rw [maskFrom] at h
    generalize maskChar region c cs.head? = found at h hcases hlength houtside hcode
    obtain ⟨masked, next⟩ := found
    have hspace : d ≠ ' ' := by
      rintro rfl
      cases hd
    rcases masked_append_cases hcases h hspace with ⟨rfl, hmasked, rfl, rfl⟩ | ⟨later, rfl, hrest⟩
    · rw [hcode hd hmasked] at hwhole
      exact ⟨[], cs, rfl, rfl, hwhole⟩
    · have hmasked : ∀ e ∈ masked, isAsciiBlank e = true :=
        fun e he => hblanks e (List.mem_append_left _ he)
      obtain ⟨before, behind, rfl, hbefore, hmask⟩ := ih hrest (houtside hmasked)
        fun e he => hblanks e (List.mem_append_right _ he)
      refine ⟨c :: before, behind, rfl, ?_, hmask⟩
      rw [byteLength_cons, byteLength_append, hbefore, ← hlength]

/-- **What is introduced in a masked script begins in code.** -/
theorem Introduced.begins_in_code {script rest : List Char} {s : Slice} {c : Char}
    (h : Introduced (mask script) s) (htext : s.text = c :: rest)
    (hc : isAsciiBlank c = false) :
    ∃ before behind later, script = before ++ c :: behind ∧ byteLength before = s.offset ∧
      maskFrom .code (c :: behind) = s.text ++ later := by
  obtain ⟨before, mark, blanks, behind, hmask, hoffset, hmark, hblanks⟩ := h
  obtain ⟨front, left, hscript, hfront, hcode⟩ := maskFrom_mark hmask hmark
  rw [htext, List.cons_append] at hcode
  obtain ⟨quiet, later, hleft, hquiet, hmasked⟩ := maskFrom_blanks hcode rfl hblanks hc
  refine ⟨front ++ mark :: quiet, later, behind, ?_, ?_, ?_⟩
  · rw [hscript, hleft, List.append_assoc, List.cons_append]
  · rw [← hoffset]
    simp only [byteLength_append, byteLength_cons, hfront, hquiet]
  · rw [hmasked, htext, List.cons_append]

end PineCheck
