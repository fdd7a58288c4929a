import PineCheck.Proofs.Introductions
import PineCheck.Proofs.Labels
import PineCheck.Proofs.Quotation

/-!
# PineCheck — what stands around the name of an argument

The name of an argument is changed for another word. Names and parentheses in front of it are
read up to a character that is in no name, so that no call site before the word takes it in.
The parenthesis of such a site is closed before the word, or where it would be closed behind
any other word. Masking looks one character ahead and takes all words for code. So a script
has the same labels around any word in this place.

* `uniform_labelsFrom` — the labels of a text around a word before an equals sign are uniform.
* `exists_mask_around` — a word may be changed in a script and in the masked script alike.
* `exists_uniform_labels` — the labels of a script around the name of an argument are uniform.
-/

namespace PineCheck

open Lexer (isWordStart isWordChar)
open Text (Slice CallSite Region mask maskFrom maskChar isAsciiBlank isSpace skipSpaces)
open Indexed (isNameChar)

-- ---------------------------------------------------------------------------
-- Names and parentheses before a word
-- ---------------------------------------------------------------------------

/-- The name at the front of a text that does not end a name ends inside of the text. -/
theorem nameTail_append_of_endsName {cs : List Char} (h : EndsName cs) (hne : cs ≠ [])
    (rest : List Char) :
    Text.nameTail (cs ++ rest) = ((Text.nameTail cs).1, (Text.nameTail cs).2 ++ rest) := by
  fun_induction Text.nameTail cs with
  | case1 => exact absurd rfl hne
  | case2 c cs hc taken behind heq ih =>
    have hcs : cs ≠ [] := by
      rintro rfl
      have hname : isNameChar c = false := h
      simp_all [isNameChar]
    rw [List.cons_append, Text.nameTail, List.head?_append_of_ne_nil _ hcs, if_pos hc,
      ih (@EndsName.of_suffix cs [c] h) hcs, heq]
  | case3 c cs hc =>
    rw [List.cons_append, Text.nameTail, if_neg]
    cases cs with
    | nil =>
      have hname : isNameChar c = false := h
      simp_all [isNameChar]
    | cons d ds => exact hc

/-- The depth of parentheses behind a character. -/
def parenthesesAfter (depth : Int) (c : Char) : Int :=
  if c = '(' then depth + 1 else if c = ')' then depth - 1 else depth

theorem upToClosing?_cons (depth : Int) (c : Char) (cs : List Char) :
    Text.upToClosing? '(' ')' depth (c :: cs) =
      if c = ')' && depth = 1 then some ([], c :: cs)
      else (Text.upToClosing? '(' ')' (parenthesesAfter depth c) cs).map fun (inside, rest) =>
        (c :: inside, rest) := rfl

/-- A parenthesis that is closed in the front of a text is closed there. -/
theorem upToClosing?_append_of_eq_some {depth : Int} {cs inside behind : List Char}
    (h : Text.upToClosing? '(' ')' depth cs = some (inside, behind)) (rest : List Char) :
    Text.upToClosing? '(' ')' depth (cs ++ rest) = some (inside, behind ++ rest) := by
  induction cs generalizing depth inside with
  | nil => cases h
  | cons c cs ih =>
    rw [upToClosing?_cons] at h
    rw [List.cons_append, upToClosing?_cons]
    split at h
    · next hclose =>
      cases h
      rw [if_pos hclose, List.cons_append]
    · next hclose =>
      obtain ⟨⟨inner, later⟩, hinner, hfound⟩ := Option.map_eq_some_iff.mp h
      cases hfound
      rw [if_neg hclose, ih hinner]
      rfl

/-- A parenthesis that is not closed in the front of a text may be closed behind it. -/
theorem upToClosing?_append_of_eq_none {depth : Int} {cs : List Char}
    (h : Text.upToClosing? '(' ')' depth cs = none) (rest : List Char) :
    Text.upToClosing? '(' ')' depth (cs ++ rest) =
      (Text.upToClosing? '(' ')' (cs.foldl parenthesesAfter depth) rest).map
        fun (inside, behind) => (cs ++ inside, behind) := by
  induction cs generalizing depth with
  | nil => exact Option.map_id'.symm
  | cons c cs ih =>
    rw [upToClosing?_cons] at h
    rw [List.cons_append, upToClosing?_cons]
    split at h
    · cases h
    · next hclose =>
      rw [if_neg hclose, ih (Option.map_eq_none_iff.mp h), Option.map_map]
      rfl

/-- A word opens and closes no parentheses. -/
theorem IsWord.upToClosing?_append {word : List Char} (hword : IsWord word) (depth : Int)
    (rest : List Char) :
    Text.upToClosing? '(' ')' depth (word ++ rest) =
      (Text.upToClosing? '(' ')' depth rest).map fun (inside, behind) =>
        (word ++ inside, behind) := by
  have hchars := hword.chars
  clear hword
  induction word with
  | nil => exact Option.map_id'.symm
  | cons c word ih =>
    obtain ⟨hc, hchars⟩ := List.forall_mem_cons.mp hchars
    have hopen : c ≠ '(' := ne_of_isWordChar hc (by decide)
    have hclose : c ≠ ')' := ne_of_isWordChar hc (by decide)
    have hdepth : parenthesesAfter depth c = depth := by
      rw [parenthesesAfter, if_neg hopen, if_neg hclose]
    rw [List.cons_append, upToClosing?_cons, hdepth, ih hchars, if_neg (by simp [hclose]),
      Option.map_map]
    rfl

/-- Whether an arrow follows before a word does not depend on the word. -/
theorem arrowFollows_append (front : List Char) {word : List Char} (hword : IsWord word)
    (behind : List Char) :
    Text.arrowFollows (front ++ (word ++ behind)) = Text.arrowFollows front := by
  obtain ⟨w, ws, rfl, -, hchars⟩ := hword.exists_cons
  have hw := hchars w List.mem_cons_self
  have hequals : w ≠ '=' := ne_of_isWordChar hw (by decide)
  have harrow : w ≠ '>' := ne_of_isWordChar hw (by decide)
  rw [Text.arrowFollows, (spaces_append_word front hword behind).2, Text.arrowFollows]
  rcases skipSpaces front with _ | ⟨c, _ | ⟨d, cs⟩⟩
  · simp [hequals]
  · simp [harrow]
  · by_cases hc : c = '='
    · by_cases hd : d = '>'
      · simp [hc, hd]
      · simp [hd]
    · simp [hc]

-- ---------------------------------------------------------------------------
-- Call sites around a word
-- ---------------------------------------------------------------------------

/-- The labels behind the parenthesis of a call site. -/
def labelsBehind (name : String) (start : Nat) (inner : List Char) : List Label :=
  match Text.upToClosing? '(' ')' 1 inner with
  | some (inside, rest) =>
    if Text.arrowFollows (rest.drop 1) then [] else labelsIn name ⟨start, inside⟩
  | none => labelsIn name ⟨start, inner⟩

/-- A name and a parenthesis behind it are a call site, unless the name is a keyword. -/
theorem labelsAt_eq {cs inner : List Char}
    (h : skipSpaces (Text.nameTail cs).2 = '(' :: inner) (offset : Nat) :
    labelsAt offset cs =
      if (Keyword.ofSpelling? (String.ofList (Text.nameTail cs).1)).isSome then []
      else labelsBehind (String.ofList (Text.nameTail cs).1)
        (offset + byteLength (Text.nameTail cs).1 +
          byteLength ((Text.nameTail cs).2.takeWhile isSpace) + 1) inner := by
  rw [labelsAt, Text.callSiteAt?]
  simp only [h, String.toList_ofList]
  split
  · rfl
  · rw [labelsBehind]
    rcases Text.upToClosing? '(' ')' 1 inner with _ | ⟨inside, rest⟩ <;> simp [labelsOf]

theorem labelsAt_eq_nil {cs : List Char}
    (h : (skipSpaces (Text.nameTail cs).2).head? ≠ some '(') (offset : Nat) :
    labelsAt offset cs = [] := by
  have hnone : Text.callSiteAt? offset cs = none := by
    rw [Text.callSiteAt?]
    dsimp only
    split
    · next inner hinner => exact absurd (congrArg List.head? hinner) h
    · rfl
  rw [labelsAt, hnone]
  rfl

/-- The labels behind a parenthesis before a word: it is closed before the word, or behind
it, or not at all. -/
theorem uniform_labelsBehind (name : String) (start : Nat) {inner behind : List Char}
    (hinner : EndsName inner) (hbehind : EndsWord behind) :
    Uniform (start + byteLength inner) fun word =>
      labelsBehind name start (inner ++ (word ++ behind)) := by
  cases hclosed : Text.upToClosing? '(' ')' 1 inner with
  | some found =>
    -- the word stands behind the call site
    obtain ⟨inside, rest⟩ := found
    obtain ⟨later, rfl, hcut⟩ := Indexed.upToClosing?_append hclosed
    have hlabels (word : List Char) (hword : IsWord word) :
        labelsBehind name start (inner ++ (word ++ behind)) =
          if Text.arrowFollows later then [] else labelsIn name ⟨start, inside⟩ := by
      rw [labelsBehind, upToClosing?_append_of_eq_some hclosed]
      show (if Text.arrowFollows (later ++ (word ++ behind)) then _ else _) = _
      rw [arrowFollows_append later hword]
    refine Uniform.congr ?_ hlabels
    split
    · exact .nil
    · refine .before fun label hlabel => ?_
      have hinside := labelsIn_inside hlabel
      rw [Slice.stop] at hinside
      dsimp only at hinside
      rw [hcut, byteLength_append]
      omega
  | none =>
    have hcloses (word : List Char) (hword : IsWord word) :
        Text.upToClosing? '(' ')' 1 (inner ++ (word ++ behind)) =
          (Text.upToClosing? '(' ')' (inner.foldl parenthesesAfter 1) behind).map
            fun (inside, rest) => (inner ++ (word ++ inside), rest) := by
      rw [upToClosing?_append_of_eq_none hclosed, hword.upToClosing?_append, Option.map_map]
      rfl
    -- the word stands in the argument list, and from there on all depends on the depth alone
    cases hfound : Text.upToClosing? '(' ')' (inner.foldl parenthesesAfter 1) behind with
    | none =>
      refine (uniform_labelsIn name start hinner hbehind).congr fun word hword => ?_
      rw [labelsBehind, hcloses word hword, hfound]
      rfl
    | some found =>
      obtain ⟨inside, rest⟩ := found
      obtain ⟨later, rfl, hcut⟩ := Indexed.upToClosing?_append hfound
      have hlabels (word : List Char) (hword : IsWord word) :
          labelsBehind name start (inner ++ (word ++ behind)) =
            if Text.arrowFollows later then []
            else labelsIn name ⟨start, inner ++ (word ++ inside)⟩ := by
        rw [labelsBehind, hcloses word hword, hfound]
        rfl
      refine Uniform.congr ?_ hlabels
      split
      · exact .nil
      · rw [hcut] at hbehind
        exact uniform_labelsIn name start hinner hbehind.of_prefix

/-- The labels of a call site that starts before a word. -/
theorem uniform_labelsAt (offset : Nat) {cs behind : List Char} (hends : EndsName cs)
    (hne : cs ≠ []) (hbehind : EndsWord behind) :
    Uniform (offset + byteLength cs) fun word => labelsAt offset (cs ++ (word ++ behind)) := by
  have hname := nameTail_append_of_endsName hends hne
  have hcut := Indexed.nameTail_append cs
  generalize Text.nameTail cs = found at hname hcut
  obtain ⟨name, tail⟩ := found
  have hspaces : tail.takeWhile isSpace ++ skipSpaces tail = tail :=
    List.takeWhile_append_dropWhile
  by_cases hopen : (skipSpaces tail).head? = some '('
  · obtain ⟨inner, hinner⟩ : ∃ inner, skipSpaces tail = '(' :: inner :=
      List.head?_eq_some_iff.mp hopen
    rw [hinner] at hspaces
    have hlabels (word : List Char) (hword : IsWord word) :
        labelsAt offset (cs ++ (word ++ behind)) =
          if (Keyword.ofSpelling? (String.ofList name)).isSome then []
          else labelsBehind (String.ofList name)
            (offset + byteLength name + byteLength (tail.takeWhile isSpace) + 1)
            (inner ++ (word ++ behind)) := by
      obtain ⟨htake, hskip⟩ := spaces_append_word tail hword behind
      have hparen : skipSpaces (Text.nameTail (cs ++ (word ++ behind))).2 =
          '(' :: (inner ++ (word ++ behind)) := by
        rw [hname, hskip, hinner]
        rfl
      rw [labelsAt_eq hparen, hname, htake]
    refine Uniform.congr ?_ hlabels
    generalize tail.takeWhile isSpace = spaces at hspaces
    obtain rfl : name ++ (spaces ++ ['(']) ++ inner = cs := by
      rw [← hcut, ← hspaces]
      simp
    have hplace : offset + byteLength (name ++ (spaces ++ ['(']) ++ inner) =
        offset + byteLength name + byteLength spaces + 1 + byteLength inner := by
      have hone : byteLength ['('] = 1 := rfl
      simp only [byteLength_append, hone]
      omega
    rw [hplace]
    split
    · exact .nil
    · exact uniform_labelsBehind _ _ hends.of_suffix hbehind
  · refine Uniform.nil.congr fun word hword => labelsAt_eq_nil ?_ offset
    rw [hname, (spaces_append_word tail hword behind).2]
    cases hskip : skipSpaces tail with
    | nil => exact hword.head?_ne (by decide) behind
    | cons c cs =>
      rw [hskip] at hopen
      exact hopen

/-- The labels of a text around a word, behind which an equals sign stands. -/
theorem uniform_labelsFrom {front spaces : List Char} (hfront : EndsName front)
    (hspaces : ∀ c ∈ spaces, isSpace c = true) (previous : Option Char) (offset : Nat)
    (rest : List Char) :
    Uniform (offset + byteLength front) fun word =>
      labelsFrom previous offset (front ++ (word ++ (spaces ++ '=' :: rest))) := by
  have hbehind : EndsWord (spaces ++ '=' :: rest) := by
    cases spaces with
    | nil => rfl
    | cons c cs => exact Lexer.isWordChar_of_isSpace (hspaces c List.mem_cons_self)
  induction front generalizing previous offset with
  | nil =>
    -- the word itself is no call site, as an equals sign follows it
    refine (Uniform.behind (labelsFrom none (byteLength spaces) ('=' :: rest))).congr
      fun word hword => ?_
    have hquiet : '(' ∉ word ++ spaces := by
      intro hmem
      rcases List.mem_append.mp hmem with hmem | hmem
      · exact ne_of_isWordChar (hword.chars _ hmem) (by decide) rfl
      · exact absurd (hspaces _ hmem) (by decide)
    rw [← labelsFrom_moved, labelsFrom, List.nil_append, ← List.append_assoc,
      Script.callSitesFrom_quiet hquiet (.cons (by decide) rest), byteLength_append, byteLength_nil,
      ← Nat.add_assoc]
    rfl
  | cons c cs ih =>
    have hlater := ih (@EndsName.of_suffix cs [c] hfront) (some c) (offset + c.utf8Size)
    rw [Nat.add_assoc, ← byteLength_cons] at hlater
    refine Uniform.congr ?_ fun word _ => labelsFrom_cons previous offset c _
    refine Uniform.append ?_ hlater
    split
    · exact uniform_labelsAt offset hfront (List.cons_ne_nil c cs) hbehind
    · exact .nil

-- ---------------------------------------------------------------------------
-- The mask around a word
-- ---------------------------------------------------------------------------

/-- The quotes of strings are quotes. -/
def Text.Region.isReal : Region → Bool
  | .string quote | .escaped quote => quote = '"' || quote = '\''
  | _ => true

theorem isReal_maskChar {region : Region} (h : region.isReal = true) (c : Char)
    (next : Option Char) : (maskChar region c next).2.isReal = true := by
  fun_cases maskChar region c next <;> simp_all [Text.Region.isReal]

/-- A character before a word is masked in the same way before all words. -/
theorem maskChar_isWordChar (region : Region) (c : Char) {w : Char} (hw : isWordChar w = true) :
    maskChar region c (some w) = maskChar region c (some '_') := by
  have hslash : w ≠ '/' := ne_of_isWordChar hw (by decide)
  have hstar : w ≠ '*' := ne_of_isWordChar hw (by decide)
  have hbreak : w ≠ '\n' := ne_of_isWordChar hw (by decide)
  cases region <;> simp [maskChar, hslash, hstar, hbreak]

/-- The mask of a text before a word does not depend on the word. -/
theorem exists_maskFrom_append {region : Region} (hregion : region.isReal = true)
    (front : List Char) :
    ∃ masked later, byteLength masked = byteLength front ∧ Region.isReal later = true ∧
      ∀ word behind, IsWord word → maskFrom region (front ++ (word ++ behind)) =
        masked ++ maskFrom later (word ++ behind) := by
  induction front generalizing region with
  | nil => exact ⟨[], region, rfl, hregion, fun _ _ _ => rfl⟩
  | cons c cs ih =>
    let found := maskChar region c (cs ++ ['_']).head?
    obtain ⟨masked, later, hlength, hreal, hmask⟩ :=
      ih (isReal_maskChar hregion c (cs ++ ['_']).head?)
    refine ⟨found.1 ++ masked, later, ?_, hreal, fun word behind hword => ?_⟩
    · rw [byteLength_append, hlength, Indexed.byteLength_maskChar, byteLength_cons]
    · -- only the last character of the front sees the word
      have hnext : maskChar region c (cs ++ (word ++ behind)).head? = found := by
        cases cs with
        | cons d ds => rfl
        | nil =>
          obtain ⟨w, ws, rfl, -, hchars⟩ := hword.exists_cons
          exact maskChar_isWordChar region c (hchars w List.mem_cons_self)
      rw [List.cons_append, maskFrom, hnext]
      dsimp only
      rw [hmask word behind hword, List.append_assoc]

/-- A word that is left by the mask stands in code. -/
theorem eq_code_of_maskFrom_word {region : Region} {word behind rest : List Char}
    (hregion : region.isReal = true) (hword : IsWord word)
    (h : maskFrom region (word ++ behind) = word ++ rest) : region = .code := by
  obtain ⟨w, ws, rfl, -, hchars⟩ := hword.exists_cons
  have hw := hchars w List.mem_cons_self
  have hstring : region ≠ .string w := by
    rintro rfl
    simp only [Text.Region.isReal, Bool.or_eq_true, decide_eq_true_eq] at hregion
    rcases hregion with rfl | rfl <;> exact absurd hw (by decide)
  have hmasked := Indexed.maskChar_cases region w (ws ++ behind).head?
  refine eq_code_of_maskChar hstring (isAsciiBlank_of_isWordChar hw)
    (hmasked.resolve_right fun hblanked => ?_)
  have hhead : ((maskChar region w (ws ++ behind).head?).1 ++ _).head? = some w :=
    congrArg List.head? h
  rw [hblanked] at hhead
  rw [List.head?_append, Text.head?_blanked] at hhead
  exact ne_of_isWordChar hw (by decide) (Option.some.inj hhead).symm

theorem IsWord.maskFrom_append {word : List Char} (hword : IsWord word) (behind : List Char) :
    maskFrom .code (word ++ behind) = word ++ maskFrom .code behind :=
  maskFrom_plain_append (fun c hc => isPlain_of_isWordChar (hword.chars c hc)) behind

/-- A word of a masked script is one of the script, and may be changed in both alike. -/
theorem exists_mask_around {script front word behind : List Char}
    (h : mask script = front ++ (word ++ behind)) (hword : IsWord word) :
    ∃ before rest, script = before ++ (word ++ rest) ∧ byteLength before = byteLength front ∧
      ∀ other, IsWord other →
        mask (before ++ (other ++ rest)) = front ++ (other ++ behind) := by
  obtain ⟨before, rest, rfl, hbefore, -⟩ :=
    Text.mask_word h hword.ne_nil (space_notMem_word hword.chars)
  obtain ⟨masked, region, hlength, hreal, hall⟩ := @exists_maskFrom_append .code rfl before
  have hwhole := (hall word rest hword).symm.trans h
  obtain rfl : masked = front := eq_of_byteLength_eq rfl hwhole (hlength.trans hbefore)
  have hleft := List.append_cancel_left hwhole
  obtain rfl := eq_code_of_maskFrom_word hreal hword hleft
  rw [hword.maskFrom_append] at hleft
  refine ⟨before, rest, rfl, hbefore, fun other hother => ?_⟩
  rw [← List.append_cancel_left hleft, ← hother.maskFrom_append]
  exact hall other rest hother

-- ---------------------------------------------------------------------------
-- The name of an argument
-- ---------------------------------------------------------------------------

/-- An argument stands behind a character that is in no name. -/
theorem endsName_of_introduces (before : List Char) {mark : Char} {blanks : List Char}
    (hmark : introduces mark = true) (hblanks : ∀ c ∈ blanks, isAsciiBlank c = true) :
    EndsName (before ++ mark :: blanks) := by
  have hname {c : Char} (hc : isAsciiBlank c = true ∨ introduces c = true) :
      isNameChar c = false := by
    simp only [isAsciiBlank, introduces, Bool.or_eq_true, decide_eq_true_eq] at hc
    rcases hc with ((((rfl | rfl) | rfl) | rfl) | rfl) | ((rfl | rfl) | rfl) <;> rfl
  have hlast := List.getLast_mem (List.cons_ne_nil mark blanks)
  rw [EndsName, List.getLast?_append_of_ne_nil _ (List.cons_ne_nil mark blanks),
    List.getLast?_eq_some_getLast (List.cons_ne_nil mark blanks), Option.any_some]
  rcases List.mem_cons.mp hlast with hlast | hlast
  · rw [hlast]
    exact hname (.inr hmark)
  · exact hname (.inl (hblanks _ hlast))

/-- **The labels around the name of an argument do not depend on it.** The name stands at
the same offset in the script, and any word may stand there. -/
theorem exists_uniform_labels {script word behind : List Char} {site : CallSite} {part : Slice}
    (hsite : site ∈ Text.callSites (mask script))
    (hpart : part ∈ Text.splitArguments site.arguments)
    (hword : Text.word? part.text = some (word, behind)) (hnames : namesArgument behind = true) :
    ∃ before rest, script = before ++ (word ++ rest) ∧ byteLength before = part.offset ∧
      Uniform (byteLength before) fun other =>
        labelsFrom none 0 (mask (before ++ (other ++ rest))) := by
  obtain ⟨front, mark, blanks, later, hmask, hoffset, hmark, hblanks⟩ :=
    (Introduced.of_mem_callSites hsite).of_mem_splitArguments hpart
  obtain ⟨value, hvalue, -⟩ := namesArgument_iff.mp hnames
  have hspaces : ∀ c ∈ behind.takeWhile isSpace, isSpace c = true :=
    fun c hc => List.mem_takeWhile_imp hc
  have hbehind : behind = behind.takeWhile isSpace ++ '=' :: value := by
    rw [← hvalue]
    exact List.takeWhile_append_dropWhile.symm
  generalize behind.takeWhile isSpace = spaces at hspaces hbehind
  have hcut : mask script =
      (front ++ mark :: blanks) ++ (word ++ (spaces ++ '=' :: (value ++ later))) := by
    rw [hmask, (Indexed.word?_eq_some hword).1, hbehind]
    simp
  obtain ⟨before, rest, hscript, hbefore, hall⟩ := exists_mask_around hcut (.of_word? hword)
  have huniform := uniform_labelsFrom (endsName_of_introduces front hmark hblanks) hspaces none 0
    (value ++ later)
  rw [Nat.zero_add, ← hbefore] at huniform
  refine ⟨before, rest, hscript, hbefore.trans hoffset, huniform.congr fun other hother => ?_⟩
  rw [hall other hother]

end PineCheck
