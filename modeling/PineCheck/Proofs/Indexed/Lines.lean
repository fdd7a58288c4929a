import PineCheck.Check.Continuation
import PineCheck.Check.Shadowing
import PineCheck.Proofs.Indexed.CallSites
import PineCheck.Proofs.Indexed.Location

/-!
# PineCheck — checks of lines by byte offsets

Two checks look at single lines of the masked text. One finds the variable that a line
gives a value, jumping over types in angle brackets and marks of arrays. The other one
counts parentheses from line to line in 32 bits, and looks at the last byte and the
last word of a line.

Main results:

* `shadowing_eq` — the variables that hide a namespace are found without going wrong.
* `continuation_eq` — so are the wrapped lines.
-/

namespace PineCheck.Indexed

open Check
open Text (Line)

-- ---------------------------------------------------------------------------
-- Definitions
-- ---------------------------------------------------------------------------

/-- The offset behind the type arguments that may stand at an offset. -/
def typeArgumentsEnd (text : List Char) (i : Nat) : Checked (Option Nat) :=
  if testAt (· = '<') text i then do
    let rest ← slice text i (byteLength text)
    .ok ((find? (· = '>') rest).map fun k => i + (k + 1))
  else .ok (some i)

/-- The offset behind the mark of an array that may stand at an offset. -/
def arrayMarkEnd? (text : List Char) (i : Nat) : Option Nat :=
  if testAt (· = '[') text i then if testAt (· = ']') text (i + 1) then some (i + 2) else none
  else some i

/-- The last of the words before an assignment, from an offset on. -/
def assignedFrom (text : List Char) : Nat → Nat → Option Range → Checked (Option Range)
  | 0, _, _ => .error .unfinished
  | fuel + 1, i, last =>
    let start := spacesEnd text i
    if testAt (· = '=') text start && !testAt (· = '=') text (start + 1)
        || testAt (· = ':') text start && testAt (· = '=') text (start + 1) then .ok last
    else
      match wordEnd? text start with
      | none => .ok none
      | some stop => do
        match ← typeArgumentsEnd text stop with
        | none => .ok none
        | some untyped =>
          match arrayMarkEnd? text untyped with
          | none => .ok none
          | some next => assignedFrom text fuel next (some ⟨start, stop⟩)

/-- The variable that a line gives a value, and its offset in the line. -/
def assignedName (text : List Char) : Checked (Option (List Char × Nat)) := do
  match ← assignedFrom text (byteLength text + 1) 0 none with
  | none => .ok none
  | some range =>
    let name ← slice text range.start range.stop
    .ok (if Language.isKeyword (String.ofList name) then none else some (name, range.start))

/-- The finding about a variable that hides a namespace on a line. -/
def shadowingOn (script : List Char) (line : Line) : Checked (List Finding) :=
  if line.isIndented then .ok []
  else do
    match ← assignedName line.text with
    | none => .ok []
    | some (name, offset) =>
      if Language.isNamespace (String.ofList name) then
        let span ← location script (line.offset + offset) (byteLength name)
        .ok [⟨.shadowedNamespace (String.ofList name), span⟩]
      else .ok []

/-- The findings about variables that hide a namespace in a script. -/
def shadowing (script masked : List Char) : Checked (List Finding) :=
  collect (shadowingOn script) (Text.lines masked)

/-- How many parentheses and brackets are open behind bytes. -/
def openFrom (depth : Int) : List UInt8 → Checked Int
  | [] => .ok depth
  | b :: bytes => do
    if onByte (fun c => c = '(' || c = '[') b then openFrom (← counter (depth + 1)) bytes
    else if onByte (fun c => c = ')' || c = ']') b then
      openFrom (max (← counter (depth - 1)) 0) bytes
    else openFrom depth bytes

/-- The offset at which the word at the end of a text starts. -/
def lastWordStart (text : List Char) : Nat :=
  match (utf8 text).reverse.findIdx? (!onByte Lexer.isWordChar ·) with
  | some k => (utf8 text).length - k
  | none => 0

/-- Whether a line without white space at its end goes on below. -/
def goesOnBelow (text : List Char) : Checked Bool :=
  match (utf8 text).getLast? with
  | none => .ok false
  | some b =>
    if onByte ",+-*/%?:<".toList.contains b then .ok true
    else if onByte (· = '>') b then .ok !"=>".toList.isSuffixOf text
    else if onByte (· = '=') b then .ok false
    else do
      let start := lastWordStart text
      let word ← slice text start (byteLength text)
      .ok ((word = "and".toList || word = "or".toList) && 0 < start)

/-- The finding about the next line behind the line with an index. -/
def nextLine (script : List Char) (lines : List Line) (i : Nat) (line : Line) :
    Checked (List Finding) :=
  if i + 1 ≤ lines.length then
    match (lines.drop (i + 1)).find? (!·.isBlank) with
    | none => .ok []
    | some next =>
      let indentation := next.indentation
      if indentation = 0 || indentation % 4 ≠ 0 then .ok []
      else do
        let span ← location script next.offset (byteLength next.text)
        .ok [⟨.badContinuation next.number line.number indentation, span⟩]
  else .error (.outOfBounds (i + 1))

/-- The finding about a line with an index, if it goes on below. There are `depth`
parentheses open behind it. -/
def wrappedAt (script : List Char) (lines : List Line) (i : Nat) (depth : Int) (line : Line) :
    Checked (List Finding) :=
  if 0 < depth then .ok []
  else do
    if ← goesOnBelow (Text.trimEnd line.text) then nextLine script lines i line else .ok []

/-- The findings about lines from an index on, with `depth` parentheses open before
them. -/
def wrappedFrom (script : List Char) (lines : List Line) (i : Nat) (depth : Int) :
    List Line → Checked (List Finding)
  | [] => .ok []
  | line :: later => do
    let depth ← openFrom depth (utf8 line.text)
    let here ← wrappedAt script lines i depth line
    let rest ← wrappedFrom script lines (i + 1) depth later
    .ok (here ++ rest)

/-- The findings about wrapped lines in a script. -/
def continuation (script masked : List Char) : Checked (List Finding) :=
  wrappedFrom script (Text.lines masked) 0 0 (Text.lines masked)

-- ---------------------------------------------------------------------------
-- Assigned variables
-- ---------------------------------------------------------------------------

/-- The bytes tell whether an assignment starts. -/
theorem startsAssignment_eq {text rest : List Char} {i : Nat} (h : Follows text i rest) :
    (testAt (· = '=') text i && !testAt (· = '=') text (i + 1)
      || testAt (· = ':') text i && testAt (· = '=') text (i + 1)) =
      Shadowing.startsAssignment rest := by
  rw [h.testChar '=' (by decide), h.testChar ':' (by decide)]
  match rest, h with
  | [], _ => rfl
  | c :: cs, h =>
    by_cases hequals : c = '='
    · subst hequals
      rw [(h.tail (by decide)).testChar '=' (by decide)]
      simp [Shadowing.startsAssignment]
    · by_cases hcolon : c = ':'
      · subst hcolon
        rw [(h.tail (by decide)).testChar '=' (by decide)]
        cases cs with
        | nil => rfl
        | cons d ds => by_cases hd : d = '=' <;> simp [Shadowing.startsAssignment, hd]
      · simp [Shadowing.startsAssignment, hequals, hcolon]

/-- The end of the type arguments is found in the bytes where it is found in the text. -/
theorem typeArgumentsEnd_cases {text rest : List Char} {i : Nat} (h : Follows text i rest) :
    (Shadowing.skipTypeArguments? rest = none ∧ typeArgumentsEnd text i = .ok none) ∨
      ∃ untyped k, Shadowing.skipTypeArguments? rest = some untyped ∧
        typeArgumentsEnd text i = .ok (some k) ∧ Follows text k untyped := by
  rw [typeArgumentsEnd, h.testChar '<' (by decide)]
  match rest, h with
  | [], h => exact .inr ⟨[], i, rfl, rfl, h⟩
  | c :: cs, h =>
    by_cases hc : c = '<'
    · subst hc
      rw [if_pos (by simp), h.slice_to_end, Shadowing.skipTypeArguments?]
      simp only [bind, Except.bind]
      rcases find?_cases '>' ('<' :: cs) with ⟨hdrop, hfind⟩ | ⟨after, hdrop, hcs, hfind⟩
      · exact .inl ⟨by rw [hdrop], by rw [hfind]; rfl⟩
      · refine .inr ⟨after, _, by rw [hdrop], by rw [hfind]; rfl, ?_⟩
        rw [hcs] at h
        exact h.append.tail (by decide)
    · refine .inr ⟨c :: cs, i, ?_, by simp [hc], h⟩
      simp [Shadowing.skipTypeArguments?, hc]

/-- The end of an array mark is found in the bytes where it is found in the text. -/
theorem arrayMarkEnd?_cases {text rest : List Char} {i : Nat} (h : Follows text i rest) :
    (Shadowing.skipArrayMark? rest = none ∧ arrayMarkEnd? text i = none) ∨
      ∃ behind k, Shadowing.skipArrayMark? rest = some behind ∧
        arrayMarkEnd? text i = some k ∧ Follows text k behind := by
  rw [arrayMarkEnd?, h.testChar '[' (by decide)]
  match rest, h with
  | [], h => exact .inr ⟨[], i, rfl, rfl, h⟩
  | c :: cs, h =>
    by_cases hc : c = '['
    · subst hc
      have hnext := h.tail (by decide)
      rw [if_pos (by simp), hnext.testChar ']' (by decide)]
      match cs, hnext with
      | [], _ => exact .inl ⟨rfl, rfl⟩
      | d :: ds, hnext =>
        by_cases hd : d = ']'
        · subst hd
          exact .inr ⟨ds, i + 2, rfl, rfl, hnext.tail (by decide)⟩
        · exact .inl ⟨by simp [Shadowing.skipArrayMark?, hd], by simp [hd]⟩
    · exact .inr ⟨c :: cs, i, by simp [Shadowing.skipArrayMark?, hc], by simp [hc], h⟩

/-- One step of the search for the name that is assigned. -/
theorem lastWord?_eq (last : Option (List Char × List Char)) (cs : List Char) :
    Shadowing.lastWord? last cs =
      if Shadowing.startsAssignment (Text.skipSpaces cs) then last
      else (Text.word? (Text.skipSpaces cs)).bind fun (word, behind) =>
        (Shadowing.skipTypeArguments? behind).bind fun untyped =>
          (Shadowing.skipArrayMark? untyped).bind fun rest =>
            Shadowing.lastWord? (some (word, Text.skipSpaces cs)) rest := by
  rw [Shadowing.lastWord?]
  dsimp only
  split
  · rfl
  · split
    · next hword => rw [hword]; rfl
    · next hword =>
      rw [hword]
      dsimp only [Option.bind_some]
      split
      · next htype => rw [htype]; rfl
      · next htype =>
        rw [htype]
        dsimp only [Option.bind_some]
        split
        · next hmark => rw [hmark]; rfl
        · next hmark => rw [hmark]; rfl

/-- The range of a word that is given with the text from it on. -/
def rangeFrom (text : List Char) (found : List Char × List Char) : Range :=
  ⟨byteLength text - byteLength found.2, byteLength text - byteLength found.2 + byteLength found.1⟩

/-- A word and the text from it on stand in a text. -/
def StandsAt (text : List Char) (found : List Char × List Char) : Prop :=
  ∃ i behind, Follows text i found.2 ∧ found.2 = found.1 ++ behind

/-- The range of a word that stands at a place. -/
theorem rangeFrom_eq {text word rest : List Char} {i : Nat} (h : Follows text i rest) :
    rangeFrom text (word, rest) = ⟨i, i + byteLength word⟩ := by
  have hstart : byteLength text - byteLength rest = i := by
    rw [h.length_eq, Nat.add_sub_cancel]
  rw [rangeFrom, hstart]

/-- The last word before an assignment is found where it stands. -/
theorem assignedFrom_eq {text cs : List Char} {i fuel : Nat} (h : Follows text i cs)
    (hfuel : cs.length < fuel) {last : Option (List Char × List Char)}
    (hlast : ∀ found ∈ last, StandsAt text found) :
    assignedFrom text fuel i (last.map (rangeFrom text)) =
        .ok ((Shadowing.lastWord? last cs).map (rangeFrom text)) ∧
      ∀ found ∈ Shadowing.lastWord? last cs, StandsAt text found := by
  induction fuel generalizing i cs last with
  | zero => omega
  | succ fuel ih =>
    have hplace := h.skipSpaces
    have hlength := Shadowing.length_skipSpaces_le cs
    rw [assignedFrom, lastWord?_eq]
    simp only [startsAssignment_eq hplace]
    split
    · exact ⟨rfl, hlast⟩
    · rw [hplace.wordEnd?]
      cases hword : Text.word? (Text.skipSpaces cs) with
      | none => exact ⟨rfl, by rintro _ ⟨⟩⟩
      | some found =>
        obtain ⟨word, behind⟩ := found
        -- each of the three steps leaves less of the line, so the fuel lasts
        have hshorter := Shadowing.length_word?_lt hword
        obtain ⟨hcs, -⟩ := word?_eq_some hword
        have hbehind : Follows text (spacesEnd text i + byteLength word) behind :=
          (hcs ▸ hplace).append
        simp only [Option.map_some, Option.bind_some]
        rcases typeArgumentsEnd_cases hbehind with
          ⟨hskip, hend⟩ | ⟨untyped, k, hskip, hend, huntyped⟩
        · rw [hskip, hend]
          exact ⟨rfl, by rintro _ ⟨⟩⟩
        · have htype := Shadowing.length_skipTypeArguments?_le hskip
          rw [hskip, hend]
          simp only [Option.bind_some, bind, Except.bind]
          rcases arrayMarkEnd?_cases huntyped with ⟨hskip, hend⟩ | ⟨rest, k, hskip, hend, hrest⟩
          · rw [hskip, hend]
            exact ⟨rfl, by rintro _ ⟨⟩⟩
          · have hmark := Shadowing.length_skipArrayMark?_le hskip
            rw [hskip, hend]
            -- the word that was found is the last one so far
            have hnext := @ih rest k hrest (by omega) (some (word, Text.skipSpaces cs))
              (by rintro _ ⟨⟩; exact ⟨_, behind, hplace, hcs⟩)
            rw [Option.map_some, rangeFrom_eq hplace] at hnext
            exact hnext

/-- A character takes a byte at least. -/
theorem length_le_byteLength (cs : List Char) : cs.length ≤ byteLength cs := by
  induction cs with
  | nil => exact Nat.le.refl
  | cons c cs ih =>
    have hpos := c.utf8Size_pos
    rw [List.length_cons, byteLength_cons]
    omega

/-- The name that is assigned on a line is found without a fault. -/
theorem assignedName_eq (text : List Char) :
    assignedName text = .ok (Shadowing.assignedName? text) := by
  obtain ⟨hfrom, hstands⟩ := @assignedFrom_eq text text 0 (byteLength text + 1)
    (Follows.start text) (Nat.lt_succ_of_le (length_le_byteLength text)) none (by rintro _ ⟨⟩)
  rw [Option.map_none] at hfrom
  rw [assignedName, Shadowing.assignedName?, hfrom]
  cases hword : Shadowing.lastWord? none text with
  | none => rfl
  | some found =>
    obtain ⟨name, rest⟩ := found
    obtain ⟨i, behind, hplace, hrest⟩ := hstands _ hword
    have hslice : slice text i (i + byteLength name) = .ok name :=
      Follows.slice (hrest ▸ hplace)
    simp only [bind, Except.bind, Option.map_some, Option.bind_some, rangeFrom_eq hplace, hslice]
    rw [hplace.length_eq, Nat.add_sub_cancel]

/-- The shadowing check runs on a line without a fault. -/
theorem shadowingOn_eq (script : List Char) (line : Line) :
    shadowingOn script line = .ok (Shadowing.checkLine? script line).toList := by
  rw [shadowingOn, Shadowing.checkLine?, assignedName_eq]
  cases line.isIndented with
  | true => rfl
  | false =>
    cases Shadowing.assignedName? line.text with
    | none => rfl
    | some found =>
      obtain ⟨name, offset⟩ := found
      simp only [bind, Except.bind, Option.bind_some, location_eq, Bool.false_eq_true, ↓reduceIte]
      split <;> rfl

/-- **The check of namespaces never goes wrong**, and it finds what is found by going
through the characters. -/
theorem shadowing_eq (script masked : List Char) :
    shadowing script masked = .ok (Shadowing.check script masked) := by
  rw [Shadowing.check, List.filterMap_eq_flatMap_toList]
  exact collect_eq fun line _ => shadowingOn_eq script line

-- ---------------------------------------------------------------------------
-- Parentheses
-- ---------------------------------------------------------------------------

/-- The bytes of longer characters change no depth. -/
theorem openFrom_high (depth : Int) {bytes : List UInt8} (h : ∀ b ∈ bytes, IsHigh b)
    (rest : List UInt8) : openFrom depth (bytes ++ rest) = openFrom depth rest := by
  induction bytes with
  | nil => rfl
  | cons b bytes ih =>
    have hb := h b List.mem_cons_self
    rw [List.cons_append, openFrom, onByte_of_isHigh onlyAscii_opening hb,
      onByte_of_isHigh onlyAscii_closing hb]
    exact ih fun d hd => h d (List.mem_cons_of_mem b hd)

/-- The depth behind a text, character by character. -/
theorem openAfter_cons (depth : Nat) (c : Char) (cs : List Char) :
    Continuation.openAfter depth (c :: cs) =
      Continuation.openAfter
        (if c = '(' || c = '[' then depth + 1
          else if c = ')' || c = ']' then depth - 1 else depth) cs := rfl

/-- The depth grows by one for each byte at most. -/
theorem openAfter_le (depth : Nat) (cs : List Char) :
    Continuation.openAfter depth cs ≤ depth + byteLength cs := by
  induction cs generalizing depth with
  | nil => exact Nat.le.refl
  | cons c cs ih =>
    have hpos := c.utf8Size_pos
    rw [openAfter_cons, byteLength_cons]
    refine Nat.le_trans (ih _) ?_
    split
    · omega
    · split <;> omega

/-- Parentheses are counted without overflow. -/
theorem openFrom_eq {depth : Nat} {cs : List Char} (h : depth + byteLength cs < counterLimit) :
    openFrom depth (utf8 cs) = .ok (Continuation.openAfter depth cs) := by
  induction cs generalizing depth with
  | nil => rfl
  | cons c cs ih =>
    have hpos := c.utf8Size_pos
    rw [byteLength_cons] at h
    rw [utf8_cons, openAfter_cons]
    rcases utf8EncodeChar_cases c with ⟨hascii, b, hbytes, _⟩ | ⟨hhigh, hbytes⟩
    · have hb : b ∈ String.utf8EncodeChar c := by
        rw [hbytes]
        exact List.mem_singleton_self b
      rw [hbytes, List.singleton_append, openFrom, onByte_of_mem onlyAscii_opening hb,
        onByte_of_mem onlyAscii_closing hb]
      split
      · rw [counter_eq (by omega) (by omega)]
        exact_mod_cast ih (by omega)
      · split
        · rw [counter_eq (by omega) (by omega)]
          -- a closing too many leaves the depth at 0 on both sides
          have hmax : max ((depth : Int) - 1) 0 = ((depth - 1 : Nat) : Int) := by omega
          simp only [bind, Except.bind, hmax]
          exact ih (by omega)
        · exact ih (by omega)
    · rw [openFrom_high _ hbytes, ih (by omega), if_neg, if_neg]
      · exact Bool.eq_false_iff.mp (onlyAscii_closing.eq_false hhigh)
      · exact Bool.eq_false_iff.mp (onlyAscii_opening.eq_false hhigh)

-- ---------------------------------------------------------------------------
-- Ends of lines
-- ---------------------------------------------------------------------------

/-- The last byte of a character. -/
theorem exists_utf8EncodeChar_concat (c : Char) :
    ∃ b ∈ String.utf8EncodeChar c, ∃ bytes, String.utf8EncodeChar c = bytes ++ [b] := by
  obtain ⟨_, _, _, hbytes⟩ := exists_utf8EncodeChar_cons c
  have hne : String.utf8EncodeChar c ≠ [] := by simp [hbytes]
  exact ⟨_, List.getLast_mem hne, _, (List.dropLast_append_getLast hne).symm⟩

/-- A character of a word leaves the start of the word where it is. -/
theorem lastWordStart_concat (cs : List Char) (c : Char) :
    lastWordStart (cs ++ [c]) =
      if Lexer.isWordChar c then lastWordStart cs else byteLength (cs ++ [c]) := by
  have hutf8 : utf8 (cs ++ [c]) = utf8 cs ++ String.utf8EncodeChar c := by
    rw [utf8_append, utf8_cons, utf8_nil, List.append_nil]
  obtain ⟨b, hb, bytes, hbytes⟩ := exists_utf8EncodeChar_concat c
  rw [← length_utf8, lastWordStart, lastWordStart, hutf8, hbytes, List.reverse_append,
    List.reverse_append, List.reverse_singleton, List.singleton_append, List.cons_append,
    List.findIdx?_cons, onByte_of_mem onlyAscii_isWordChar hb]
  cases hc : Lexer.isWordChar c with
  | true =>
    -- a character of a word is a single byte
    have hone := String.length_utf8EncodeChar c
    rw [utf8Size_of_lt (onlyAscii_isWordChar c hc), hbytes, List.length_append,
      List.length_singleton] at hone
    obtain rfl : bytes = [] := List.eq_nil_of_length_eq_zero (by omega)
    rw [List.reverse_nil, List.nil_append, List.nil_append]
    cases (utf8 cs).reverse.findIdx? (!onByte Lexer.isWordChar ·) with
    | none => rfl
    | some k => simp
  | false => simp

/-- The word at the end of a text starts between characters. -/
theorem lastWordStart_eq (text : List Char) :
    lastWordStart text = byteLength (Text.dropEndWhile Lexer.isWordChar text) := by
  induction text using List.reverseRecOn with
  | nil => rfl
  | append_singleton cs c ih =>
    rw [lastWordStart_concat, dropEndWhile_append_singleton]
    split
    · exact ih
    · rfl

/-- The last word can be cut off. -/
theorem slice_lastWordStart (text : List Char) :
    slice text (lastWordStart text) (byteLength text) =
      .ok (text.reverse.takeWhile Lexer.isWordChar).reverse := by
  rw [lastWordStart_eq]
  exact Follows.slice_to_end ⟨_, (dropEndWhile_append Lexer.isWordChar text).symm, rfl⟩

/-- The last byte of a text is one of its last character. -/
theorem exists_getLast?_utf8 (front : List Char) (c : Char) :
    ∃ b ∈ String.utf8EncodeChar c, (utf8 (front ++ [c])).getLast? = some b := by
  obtain ⟨b, hb, bytes, hbytes⟩ := exists_utf8EncodeChar_concat c
  refine ⟨b, hb, ?_⟩
  rw [utf8_append, utf8_cons, utf8_nil, List.append_nil, hbytes, ← List.append_assoc,
    List.getLast?_concat]

/-- A text that ends in `>` ends in an arrow if `=` is before it. -/
theorem isSuffixOf_arrow (front : List Char) :
    "=>".toList.isSuffixOf (front ++ ['>']) = decide (front.getLast? = some '=') := by
  have harrow : "=>".toList = ['='] ++ ['>'] := rfl
  rw [Bool.eq_iff_iff, harrow, List.isSuffixOf_iff_suffix, List.suffix_append_self_iff,
    List.singleton_suffix_iff_getLast?_eq_some, decide_eq_true_iff]

/-- The last word starts behind the front of the line if something stands before it. -/
theorem lastWordStart_pos (text : List Char) :
    0 < lastWordStart text ↔ text.reverse.dropWhile Lexer.isWordChar ≠ [] := by
  rw [lastWordStart_eq, Nat.pos_iff_ne_zero, ne_eq, byteLength_eq_zero_iff, Text.dropEndWhile,
    List.reverse_eq_nil_iff]

/-- The last byte of a line and the word at its end tell whether it goes on below. -/
theorem goesOnBelow_eq (text : List Char) :
    goesOnBelow (Text.trimEnd text) = .ok (Continuation.goesOn text) := by
  rw [Continuation.goesOn]
  generalize Text.trimEnd text = line
  rcases List.eq_nil_or_concat line with rfl | ⟨front, last, hline⟩
  · rfl
  · rw [List.concat_eq_append] at hline
    obtain ⟨b, hb, hlast⟩ := exists_getLast?_utf8 front last
    have hreverse : line.reverse = last :: front.reverse := by simp [hline]
    have hoperators : onByte ",+-*/%?:<".toList.contains b = ",+-*/%?:<".toList.contains last :=
      onByte_of_mem (onlyAscii_contains (by decide)) hb
    have harrow : onByte (· = '>') b = decide (last = '>') :=
      onByte_of_mem (onlyAscii_eq (by decide)) hb
    have hequals : onByte (· = '=') b = decide (last = '=') :=
      onByte_of_mem (onlyAscii_eq (by decide)) hb
    rw [goesOnBelow, hline, hlast, ← hline, hreverse]
    simp only [hoperators, harrow, hequals, decide_eq_true_iff]
    -- the tests are made in the same order on both sides
    by_cases hoperator : ",+-*/%?:<".toList.contains last = true
    · rw [if_pos hoperator, if_pos hoperator]
    rw [if_neg hoperator, if_neg hoperator]
    by_cases hgreater : last = '>'
    · rw [if_pos hgreater, if_pos hgreater, hline, hgreater, isSuffixOf_arrow, List.head?_reverse,
        decide_not]
    rw [if_neg hgreater, if_neg hgreater]
    by_cases hassign : last = '='
    · subst hassign
      rfl
    -- none of the marks: the last word decides
    rw [if_neg hassign, slice_lastWordStart, ← hreverse]
    simp only [bind, Except.bind, lastWordStart_pos]

/-- The check of the next line runs without a fault. -/
theorem nextLine_eq (script : List Char) {lines later : List Line} {line : Line} {i : Nat}
    (h : lines.drop i = line :: later) :
    nextLine script lines i line = .ok (Continuation.checkNext? script line later).toList := by
  have hi : i + 1 ≤ lines.length := by
    have hlength := congrArg List.length h
    rw [List.length_drop, List.length_cons] at hlength
    omega
  have hlater : lines.drop (i + 1) = later := by
    rw [← List.tail_drop, h, List.tail_cons]
  rw [nextLine, if_pos hi, hlater, Continuation.checkNext?]
  cases later.find? (!·.isBlank) with
  | none => rfl
  | some next =>
    simp only [location_eq, bind, Except.bind, Option.bind]
    split <;> rfl

/-- The check of a line and its next one runs without a fault. -/
theorem wrappedAt_eq (script : List Char) {lines later : List Line} {line : Line} {i : Nat}
    (h : lines.drop i = line :: later) (depth : Nat) :
    wrappedAt script lines i depth line = .ok
      (if depth = 0 && Continuation.goesOn line.text then
        (Continuation.checkNext? script line later).toList else []) := by
  rw [wrappedAt, goesOnBelow_eq]
  by_cases hdepth : depth = 0
  · rw [if_neg (by omega), hdepth, decide_eq_true rfl, Bool.true_and]
    simp only [bind, Except.bind]
    split
    · exact nextLine_eq script h
    · rfl
  · rw [if_pos (by omega), decide_eq_false hdepth]
    rfl

/-- The lines from an index on are checked without going wrong. The depth before them and
the lengths of the lines bound the depths that are counted. -/
theorem wrappedFrom_eq (script : List Char) {lines rest : List Line} {i depth : Nat}
    (hrest : lines.drop i = rest)
    (hsize : depth + byteLength (rest.flatMap Line.text) < counterLimit) :
    wrappedFrom script lines i depth rest = .ok (Continuation.checkLines script depth rest) := by
  induction rest generalizing i depth with
  | nil => rfl
  | cons line later ih =>
    rw [List.flatMap_cons, byteLength_append] at hsize
    have hopen := openAfter_le depth line.text
    have hlater : lines.drop (i + 1) = later := by
      rw [← List.tail_drop, hrest, List.tail_cons]
    have hnext := @ih (i + 1) (Continuation.openAfter depth line.text) hlater (by omega)
    rw [wrappedFrom, Continuation.checkLines, openFrom_eq (by omega)]
    simp only [bind, Except.bind, wrappedAt_eq script hrest, hnext]

/-- **The check of wrapped lines never goes wrong**, and it finds what is found by going
through the characters. -/
theorem continuation_eq (script : List Char) {masked : List Char}
    (hsize : byteLength masked < counterLimit) :
    continuation script masked = .ok (Continuation.check script masked) := by
  have hlines := byteLength_lines masked
  exact @wrappedFrom_eq script _ _ 0 0 List.drop_zero (by omega)

end PineCheck.Indexed
