import PineCheck.Proofs.Indexed.Lines
import PineCheck.Proofs.Labels
import PineCheck.Proofs.Reporting

/-!
# PineCheck — words before an assignment

The check of namespaces does not know of declarations: it goes over the words of a line up to
an assignment, and takes the last word for the variable. Here it is told from the characters
what it reads. Before the variable there is a `PlainHead`: a row of words, with type arguments
and the mark of an array right behind a word, and nothing but spaces and tabs between.

Main results:

* `lastWord?_of_head`, `checkLine?_of_head` — behind every plain head the variable is read, and
  one with the name of a namespace is found.
* `exists_of_lastWord?`, `exists_of_checkLine?` — whatever is read and found stands behind a
  plain head.
-/

namespace PineCheck

open Lexer (isWordStart isWordChar)
open Text (Line isSpace skipSpaces)
open Check.Shadowing (startsAssignment skipTypeArguments? skipArrayMark? lastWord? assignedName?
  checkLine?)

-- ---------------------------------------------------------------------------
-- Heads of declarations
-- ---------------------------------------------------------------------------

/-- Type arguments in angle brackets, or none. -/
def IsTypeArguments (cs : List Char) : Prop :=
  cs = [] ∨ ∃ inside, '>' ∉ inside ∧ cs = '<' :: (inside ++ ['>'])

/-- The mark of an array, or none. -/
def IsArrayMark (cs : List Char) : Prop :=
  cs = [] ∨ cs = ['[', ']']

/-- A text before a variable that is read word by word. Type arguments and the mark of an array
stand right behind a word, and something stands between two words. -/
inductive PlainHead : List Char → Prop
  | nil : PlainHead []
  | cons {word arguments mark spaces rest : List Char} (isWord : IsWord word)
      (isArguments : IsTypeArguments arguments) (isMark : IsArrayMark mark)
      (isSpaces : ∀ c ∈ spaces, isSpace c = true) (apart : arguments ++ (mark ++ spaces) ≠ [])
      (next : PlainHead rest) :
      PlainHead (word ++ (arguments ++ (mark ++ (spaces ++ rest))))

-- ---------------------------------------------------------------------------
-- Reading a head
-- ---------------------------------------------------------------------------

/-- Spaces in front are skipped. -/
theorem lastWord?_spaces {spaces : List Char} (h : ∀ c ∈ spaces, isSpace c = true)
    (last : Option (List Char × List Char)) (rest : List Char) :
    lastWord? last (spaces ++ rest) = lastWord? last rest := by
  have hskip : skipSpaces (spaces ++ rest) = skipSpaces rest :=
    List.dropWhile_append_of_pos h
  rw [Indexed.lastWord?_eq, Indexed.lastWord?_eq last rest, hskip]

/-- Type arguments are skipped as a whole. -/
theorem skipTypeArguments?_append {arguments rest : List Char} (h : IsTypeArguments arguments)
    (hrest : arguments = [] → rest.head? ≠ some '<') :
    skipTypeArguments? (arguments ++ rest) = some rest := by
  rcases h with rfl | ⟨inside, hinside, rfl⟩
  · have hrest := hrest rfl
    rw [List.nil_append]
    fun_cases skipTypeArguments? rest with
    | case1 => exact absurd rfl hrest
    | case2 => exact absurd rfl hrest
    | case3 => rfl
  · have hdrop : ('<' :: (inside ++ ['>']) ++ rest).dropWhile (· ≠ '>') = '>' :: rest := by
      have hall : ∀ c ∈ '<' :: inside, (decide (c ≠ '>')) = true := by
        intro c hc
        refine decide_eq_true ?_
        rcases List.mem_cons.mp hc with rfl | hc
        · decide
        · exact ne_of_mem_of_not_mem hc hinside
      have hcut : '<' :: (inside ++ ['>']) ++ rest = '<' :: inside ++ '>' :: rest := by simp
      rw [hcut, List.dropWhile_append_of_pos hall]
      rfl
    rw [List.cons_append, skipTypeArguments?, ← List.cons_append, hdrop]

/-- An array mark is skipped as a whole. -/
theorem skipArrayMark?_append {mark rest : List Char} (h : IsArrayMark mark)
    (hrest : mark = [] → rest.head? ≠ some '[') :
    skipArrayMark? (mark ++ rest) = some rest := by
  rcases h with rfl | rfl
  · have hrest := hrest rfl
    rw [List.nil_append]
    fun_cases skipArrayMark? rest with
    | case1 => exact absurd rfl hrest
    | case2 => exact absurd rfl hrest
    | case3 => rfl
  · rfl

/-- The first character behind a piece of a head or behind the variable. -/
def Goes (cs : List Char) : Prop :=
  ∀ c ∈ cs.head?, isSpace c = true ∨ isWordStart c = true ∨ c = '='

/-- A head goes on with a space, a word or an equals sign, and with nothing else. -/
theorem Goes.head?_ne {cs : List Char} (h : Goes cs) {c : Char}
    (hc : (isSpace c || isWordStart c || c = '=') = false) : cs.head? ≠ some c := by
  intro hhead
  rcases h c hhead with hgoes | hgoes | hgoes <;> simp [hgoes] at hc

/-- One word of a head is read. -/
theorem lastWord?_word {word arguments mark rest : List Char} (hword : IsWord word)
    (harguments : IsTypeArguments arguments) (hmark : IsArrayMark mark) (hgoes : Goes rest)
    (hends : (arguments ++ (mark ++ rest)).head?.any isWordChar = false)
    (last : Option (List Char × List Char)) :
    lastWord? last (word ++ (arguments ++ (mark ++ rest))) =
      lastWord? (some (word, word ++ (arguments ++ (mark ++ rest)))) rest := by
  obtain ⟨c, cs, hcons, hstart, hchars⟩ := hword.exists_cons
  have hc := hchars c List.mem_cons_self
  have hskip : skipSpaces (word ++ (arguments ++ (mark ++ rest))) =
      word ++ (arguments ++ (mark ++ rest)) := by
    have hspace : ¬ isSpace c = true := by
      intro hspace
      rw [Lexer.isWordChar_of_isSpace hspace] at hc
      cases hc
    rw [hcons]
    exact List.dropWhile_cons_of_neg hspace
  -- a word starts no assignment
  have hnot : startsAssignment (word ++ (arguments ++ (mark ++ rest))) = false := by
    have hequals := hword.head?_ne (d := '=') (by decide) (arguments ++ (mark ++ rest))
    have hcolon := hword.head?_ne (d := ':') (by decide) (arguments ++ (mark ++ rest))
    generalize word ++ (arguments ++ (mark ++ rest)) = text at hequals hcolon
    fun_cases startsAssignment text with
    | case1 => exact absurd rfl hequals
    | case2 => exact absurd rfl hcolon
    | case3 => rfl
  have hangle : arguments = [] → (mark ++ rest).head? ≠ some '<' := by
    intro _
    rcases hmark with rfl | rfl
    · exact hgoes.head?_ne (by decide)
    · exact nofun
  rw [Indexed.lastWord?_eq, hskip, hnot, if_neg Bool.false_ne_true, hword.word?_append hends]
  dsimp only [Option.bind_some]
  rw [skipTypeArguments?_append harguments hangle]
  dsimp only [Option.bind_some]
  rw [skipArrayMark?_append hmark fun _ => hgoes.head?_ne (by decide)]
  rfl

/-- A head goes on behind spaces. -/
theorem Goes.spaces {spaces rest : List Char} (h : ∀ c ∈ spaces, isSpace c = true)
    (hrest : Goes rest) : Goes (spaces ++ rest) := by
  cases spaces with
  | nil => exact hrest
  | cons c cs =>
    rintro d ⟨⟩
    exact .inl (h c List.mem_cons_self)

/-- A plain head, or the name behind it, starts a word. -/
theorem PlainHead.exists_head? {head name : List Char} (h : PlainHead head) (hname : IsWord name)
    (rest : List Char) :
    ∃ c, (head ++ (name ++ rest)).head? = some c ∧ isWordStart c = true := by
  cases h with
  | nil =>
    obtain ⟨c, cs, rfl, hstart, -⟩ := hname.exists_cons
    exact ⟨c, rfl, hstart⟩
  | cons isWord =>
    obtain ⟨c, cs, rfl, hstart, -⟩ := isWord.exists_cons
    exact ⟨c, rfl, hstart⟩

/-- A plain head goes on with a word. -/
theorem PlainHead.goes {head name : List Char} (h : PlainHead head) (hname : IsWord name)
    (rest : List Char) : Goes (head ++ (name ++ rest)) := by
  obtain ⟨c, hc, hstart⟩ := h.exists_head? hname rest
  intro d hd
  rw [hc] at hd
  cases hd
  exact .inr (.inl hstart)

/-- The variable behind a plain head is read. -/
theorem lastWord?_of_head {head name gap behind : List Char} (h : PlainHead head)
    (hname : IsWord name) (hgap : ∀ c ∈ gap, isSpace c = true) (hsharp : behind.head? ≠ some '=')
    (last : Option (List Char × List Char)) :
    lastWord? last (head ++ (name ++ (gap ++ '=' :: behind))) =
      some (name, name ++ (gap ++ '=' :: behind)) := by
  have hgoes : Goes (gap ++ '=' :: behind) := .spaces hgap (by rintro _ ⟨⟩; exact .inr (.inr rfl))
  induction h generalizing last with
  -- the variable is the last word before the equals sign
  | nil =>
    have hends : (gap ++ '=' :: behind).head?.any isWordChar = false := by
      cases gap with
      | nil => rfl
      | cons c cs => exact Lexer.isWordChar_of_isSpace (hgap c List.mem_cons_self)
    have hread := lastWord?_word hname (.inl rfl) (.inl rfl) hgoes hends last
    have hassigns : startsAssignment ('=' :: behind) = true := decide_eq_true hsharp
    rw [List.nil_append, List.nil_append] at hread
    rw [List.nil_append, hread, lastWord?_spaces hgap, Indexed.lastWord?_eq,
      show skipSpaces ('=' :: behind) = '=' :: behind from rfl, if_pos hassigns]
  | @cons word arguments mark spaces rest isWord isArguments isMark isSpaces apart next ih =>
    have hrest : Goes (spaces ++ (rest ++ (name ++ (gap ++ '=' :: behind)))) :=
      .spaces isSpaces (next.goes hname _)
    -- the word ends with itself, since something stands between it and the next one
    have hends : (arguments ++ (mark ++ (spaces ++
        (rest ++ (name ++ (gap ++ '=' :: behind)))))).head?.any isWordChar = false := by
      rcases isArguments with rfl | ⟨inside, -, rfl⟩
      · rcases isMark with rfl | rfl
        · cases spaces with
          | nil => exact absurd rfl apart
          | cons c cs => exact Lexer.isWordChar_of_isSpace (isSpaces c List.mem_cons_self)
        · rfl
      · rfl
    simp only [List.append_assoc]
    rw [lastWord?_word isWord isArguments isMark hrest hends, lastWord?_spaces isSpaces, ih]

-- ---------------------------------------------------------------------------
-- What has been read
-- ---------------------------------------------------------------------------

/-- What is skipped as type arguments is in angle brackets. -/
theorem exists_of_skipTypeArguments? {cs rest : List Char} (h : skipTypeArguments? cs = some rest) :
    ∃ arguments, IsTypeArguments arguments ∧ cs = arguments ++ rest := by
  unfold skipTypeArguments? at h
  split at h
  · next tail =>
    have hcut : ('<' :: tail).takeWhile (· ≠ '>') ++ ('<' :: tail).dropWhile (· ≠ '>') =
        '<' :: tail := List.takeWhile_append_dropWhile
    have hinside : '>' ∉ tail.takeWhile (· ≠ '>') := by
      intro hmem
      have hkept := List.mem_takeWhile_imp hmem
      cases hkept
    split at h
    · cases h
    · next c rest' hdrop =>
      cases h
      -- the first character that is left closes the type arguments
      have hhead : c ∈ (('<' :: tail).dropWhile (· ≠ '>')).head? := by
        rw [hdrop]
        rfl
      have hc : c = '>' :=
        of_not_not (of_decide_eq_false (Indexed.not_of_mem_head?_dropWhile hhead))
      rw [hdrop, hc, List.takeWhile_cons_of_pos (by decide)] at hcut
      refine ⟨'<' :: (tail.takeWhile (· ≠ '>') ++ ['>']), .inr ⟨_, hinside, rfl⟩, ?_⟩
      rw [← hcut]
      simp
  · cases h
    exact ⟨[], .inl rfl, rfl⟩

/-- What is skipped as an array mark is one. -/
theorem exists_of_skipArrayMark? {cs rest : List Char} (h : skipArrayMark? cs = some rest) :
    ∃ mark, IsArrayMark mark ∧ cs = mark ++ rest := by
  revert h
  fun_cases skipArrayMark? cs with
  | case1 =>
    rintro ⟨⟩
    exact ⟨['[', ']'], .inr rfl, rfl⟩
  | case2 => exact nofun
  | case3 =>
    rintro ⟨⟩
    exact ⟨[], .inl rfl, rfl⟩

/-- What is read as the variable stands behind a plain head and before an assignment. -/
theorem exists_of_lastWord? {cs : List Char} {last : Option (List Char × List Char)}
    {found : List Char × List Char} (h : lastWord? last cs = some found) :
    (∃ gap op, cs = gap ++ op ∧ (∀ c ∈ gap, isSpace c = true) ∧ startsAssignment op = true ∧
      last = some found) ∨
    ∃ spaces head arguments mark gap op,
      cs = spaces ++ (head ++ found.2) ∧
      found.2 = found.1 ++ (arguments ++ (mark ++ (gap ++ op))) ∧
      (∀ c ∈ spaces, isSpace c = true) ∧ PlainHead head ∧ IsWord found.1 ∧
      IsTypeArguments arguments ∧ IsArrayMark mark ∧ (∀ c ∈ gap, isSpace c = true) ∧
      startsAssignment op = true := by
  induction hn : cs.length using Nat.strong_induction_on generalizing cs last with
  | _ n ih =>
  have hcut : cs.takeWhile isSpace ++ skipSpaces cs = cs := List.takeWhile_append_dropWhile
  have hspaces : ∀ c ∈ cs.takeWhile isSpace, isSpace c = true :=
    fun c hc => List.mem_takeWhile_imp hc
  rw [Indexed.lastWord?_eq] at h
  generalize cs.takeWhile isSpace = spaces at hcut hspaces
  generalize skipSpaces cs = text at hcut h
  split at h
  · next hassigns => exact .inl ⟨spaces, text, hcut.symm, hspaces, hassigns, h⟩
  · obtain ⟨⟨word, behind⟩, hword, h⟩ := Option.bind_eq_some_iff.mp h
    obtain ⟨untyped, htype, h⟩ := Option.bind_eq_some_iff.mp h
    obtain ⟨rest, hmark, h⟩ := Option.bind_eq_some_iff.mp h
    obtain ⟨rfl, -, -, hends⟩ := Indexed.word?_eq_some hword
    have isWord := IsWord.of_word? hword
    obtain ⟨arguments, harguments, rfl⟩ := exists_of_skipTypeArguments? htype
    obtain ⟨mark, isMark, rfl⟩ := exists_of_skipArrayMark? hmark
    -- the search goes on in a shorter text
    have hshorter : rest.length < n := by
      have hpos := List.length_pos_iff.mpr isWord.ne_nil
      rw [← hn, ← hcut]
      simp only [List.length_append]
      omega
    rcases ih rest.length hshorter h rfl with
      ⟨gap, op, rfl, hgap, hop, hlast⟩ | ⟨between, head, arguments', mark', gap, op, rfl, hfound,
        hbetween, hhead, hname, harguments', hmark', hgap, hop⟩
    · -- this word is the variable
      cases hlast
      exact .inr ⟨spaces, [], arguments, mark, gap, op, hcut.symm, rfl, hspaces, .nil, isWord,
        harguments, isMark, hgap, hop⟩
    · -- the variable stands further on, and not right behind this word
      have hapart : arguments ++ (mark ++ between) ≠ [] := by
        intro hnil
        simp only [List.append_eq_nil_iff] at hnil
        obtain ⟨rfl, rfl, rfl⟩ := hnil
        obtain ⟨c, hc, hstart⟩ := hhead.exists_head? hname (arguments' ++ (mark' ++ (gap ++ op)))
        rw [← hfound] at hc
        rw [List.nil_append, List.nil_append, List.nil_append, hc, Option.any_some,
          Lexer.isWordChar_of_isWordStart hstart] at hends
        cases hends
      refine .inr ⟨spaces, word ++ (arguments ++ (mark ++ (between ++ head))), arguments', mark',
        gap, op, ?_, hfound, hspaces, .cons isWord harguments isMark hbetween hapart hhead, hname,
        harguments', hmark', hgap, hop⟩
      rw [← hcut]
      simp only [List.append_assoc]

-- ---------------------------------------------------------------------------
-- What is found in a line
-- ---------------------------------------------------------------------------

/-- The names of namespaces are words, and none of them is a keyword. -/
theorem isWord_of_isNamespace {name : List Char}
    (h : Language.isNamespace (String.ofList name) = true) :
    IsWord name ∧ Language.isKeyword (String.ofList name) = false := by
  have hall : ∀ namespaced ∈ Language.namespaces,
      namespaced.toList.head?.any isWordStart = true ∧
      namespaced.toList.all isWordChar = true ∧ Language.isKeyword namespaced = false := by
    decide +kernel
  obtain ⟨hstart, hchars, hkeyword⟩ := hall _ (List.contains_iff_mem.mp h)
  rw [String.toList_ofList] at hstart hchars
  exact ⟨⟨hstart, List.all_eq_true.mp hchars⟩, hkeyword⟩

/-- The finding about a variable behind a head in a line. -/
def shadowed (script : List Char) (line : Line) (head name : List Char) : Finding :=
  ⟨.shadowedNamespace (String.ofList name),
    locate script (line.offset + byteLength head) (byteLength name)⟩

/-- A variable with the name of a namespace is found behind every plain head. -/
theorem checkLine?_of_head {script head name gap behind : List Char} {line : Line}
    (htext : line.text = head ++ (name ++ (gap ++ '=' :: behind))) (hhead : PlainHead head)
    (hnamespace : Language.isNamespace (String.ofList name) = true)
    (hgap : ∀ c ∈ gap, isSpace c = true) (hsharp : behind.head? ≠ some '=') :
    checkLine? script line = some (shadowed script line head name) := by
  obtain ⟨hname, hkeyword⟩ := isWord_of_isNamespace hnamespace
  have hindented : line.isIndented = false := by
    obtain ⟨c, hc, hstart⟩ := hhead.exists_head? hname (gap ++ '=' :: behind)
    have hchar := Lexer.isWordChar_of_isWordStart hstart
    rw [Line.isIndented, htext, hc, Option.any_some, isSpace, Bool.or_eq_false_iff]
    exact ⟨decide_eq_false (ne_of_isWordChar hchar (by decide)),
      decide_eq_false (ne_of_isWordChar hchar (by decide))⟩
  have hassigned : assignedName? line.text = some (name, byteLength head) := by
    rw [assignedName?, htext, lastWord?_of_head hhead hname hgap hsharp]
    show (if _ then _ else _) = _
    rw [hkeyword, if_neg Bool.false_ne_true, byteLength_append, Nat.add_sub_cancel]
  rw [checkLine?, hindented, if_neg Bool.false_ne_true, hassigned]
  exact if_pos hnamespace

/-- Whatever is found in a line is a variable behind a plain head at its front. -/
theorem exists_of_checkLine? {script : List Char} {line : Line} {finding : Finding}
    (h : checkLine? script line = some finding) :
    ∃ head name arguments mark gap op,
      line.text = head ++ (name ++ (arguments ++ (mark ++ (gap ++ op)))) ∧
      finding = shadowed script line head name ∧ PlainHead head ∧ IsWord name ∧
      IsTypeArguments arguments ∧ IsArrayMark mark ∧ (∀ c ∈ gap, isSpace c = true) ∧
      startsAssignment op = true := by
  obtain ⟨hindented, name, offset, hassigned, -, rfl⟩ := Check.Shadowing.checkLine?_eq_some h
  obtain ⟨⟨word, found⟩, hlast, hassigned⟩ := Option.bind_eq_some_iff.mp hassigned
  dsimp only at hassigned
  split at hassigned
  · cases hassigned
  · cases hassigned
    rcases exists_of_lastWord? hlast with ⟨_, _, -, -, -, hnone⟩ | ⟨spaces, head, arguments,
      mark, gap, op, htext, hfound, hspaces, hhead, hname, harguments, hmark, hgap, hop⟩
    · cases hnone
    · dsimp only at htext hfound
      -- a line that is not indented starts with the head
      obtain rfl : spaces = [] := by
        cases spaces with
        | nil => rfl
        | cons c spaces =>
          rw [Line.isIndented, htext] at hindented
          exact absurd ((hspaces c List.mem_cons_self).symm.trans hindented) (by decide)
      rw [List.nil_append] at htext
      refine ⟨head, name, arguments, mark, gap, op, by rw [htext, hfound], ?_, hhead, hname,
        harguments, hmark, hgap, hop⟩
      rw [htext, byteLength_append, Nat.add_sub_cancel]
      rfl

end PineCheck
