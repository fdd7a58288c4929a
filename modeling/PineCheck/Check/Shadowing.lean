import PineCheck.Diagnostic.Finding
import PineCheck.Text.CallSite
import PineCheck.Text.Line

/-!
# PineCheck — variables that hide a namespace

A variable at the left margin with the name of a built-in namespace hides every
function in it.
-/

namespace PineCheck.Check.Shadowing

open Text

/-- Leaves out the type arguments behind a word, which reach to the first `>`. -/
def skipTypeArguments? (cs : List Char) : Option (List Char) :=
  match cs with
  | '<' :: _ =>
    match cs.dropWhile (· ≠ '>') with
    | [] => none
    | _ :: rest => some rest
  | cs => some cs

/-- Leaves out the mark `[]` of an array type. Any other bracket is refused. -/
def skipArrayMark? (cs : List Char) : Option (List Char) :=
  match cs with
  | '[' :: ']' :: rest => some rest
  | '[' :: _ => none
  | cs => some cs

/-- Type arguments are taken off the front of a text. -/
theorem length_skipTypeArguments?_le {cs rest : List Char}
    (h : skipTypeArguments? cs = some rest) : rest.length ≤ cs.length := by
  unfold skipTypeArguments? at h
  split at h
  · rename_i tail
    have hdrop := (List.dropWhile_suffix (l := '<' :: tail) fun c => decide (c ≠ '>')).length_le
    split at h
    · simp at h
    · rename_i c rest' heq
      rw [heq] at hdrop
      simp only [Option.some.injEq] at h
      subst h
      simp only [List.length_cons] at *
      omega
  · simp only [Option.some.injEq] at h
    exact h ▸ Nat.le_refl _

/-- So is the mark of an array type. -/
theorem length_skipArrayMark?_le {cs rest : List Char} (h : skipArrayMark? cs = some rest) :
    rest.length ≤ cs.length := by
  unfold skipArrayMark? at h
  split at h
  · simp only [Option.some.injEq] at h
    subst h
    simp only [List.length_cons]
    omega
  · simp at h
  · simp only [Option.some.injEq] at h
    exact h ▸ Nat.le_refl _

/-- A word takes a character at least, so that the words before an assignment come to an end. -/
theorem length_word?_lt {cs word rest : List Char} (h : word? cs = some (word, rest)) :
    rest.length < cs.length := by
  unfold word? at h
  split at h
  · simp at h
  · rename_i c tail
    split at h
    · rename_i hc
      have hw := Lexer.isWordChar_of_isWordStart hc
      simp only [Option.some.injEq, Prod.mk.injEq] at h
      have hdrop := (List.dropWhile_suffix (l := tail) Lexer.isWordChar).length_le
      rw [← h.2, List.dropWhile_cons_of_pos hw, List.length_cons]
      omega
    · simp at h

theorem length_skipSpaces_le (cs : List Char) : (skipSpaces cs).length ≤ cs.length :=
  (List.dropWhile_suffix _).length_le

/-- Whether `=` or `:=` stands at the front of a text. -/
def startsAssignment (cs : List Char) : Bool :=
  match cs with
  -- a comparison gives no value
  | '=' :: rest => rest.head? ≠ some '='
  | ':' :: '=' :: _ => true
  | _ => false

set_option linter.unusedVariables false in
/-- The last of the words before an assignment. Between the words there may be
type arguments and array marks. Each word comes with the text from it on. -/
def lastWord? (last : Option (List Char × List Char)) (cs : List Char) :
    Option (List Char × List Char) :=
  let text := skipSpaces cs
  if startsAssignment text then last
  else
    match hword : word? text with
    | none => none
    | some (word, behind) =>
      match htype : skipTypeArguments? behind with
      | none => none
      | some untyped =>
        match hmark : skipArrayMark? untyped with
        | none => none
        | some rest => lastWord? (some (word, text)) rest
termination_by cs.length
decreasing_by
  have h₁ := length_word?_lt hword
  have h₂ := length_skipTypeArguments?_le htype
  have h₃ := length_skipArrayMark?_le hmark
  have h₄ : text.length ≤ cs.length := length_skipSpaces_le cs
  omega

/-- The variable that a line gives a value, and its offset in the line. -/
def assignedName? (text : List Char) : Option (List Char × Nat) := do
  let (name, rest) ← lastWord? none text
  if Language.isKeyword (String.ofList name) then none
  else some (name, byteLength text - byteLength rest)

/-- The finding about a line. -/
def checkLine? (script : List Char) (line : Line) : Option Finding :=
  -- a variable of a block hides nothing outside of it
  if line.isIndented then none
  else do
    let (name, offset) ← assignedName? line.text
    if Language.isNamespace (String.ofList name) then
      some ⟨.shadowedNamespace (String.ofList name),
        locate script (line.offset + offset) (byteLength name)⟩
    else none

/-- The findings about variables that hide a namespace in a script. -/
def check (script masked : List Char) : List Finding :=
  (lines masked).filterMap (checkLine? script)

end PineCheck.Check.Shadowing
