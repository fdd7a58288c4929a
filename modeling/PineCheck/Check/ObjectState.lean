import PineCheck.Diagnostic.Finding
import PineCheck.Text.CallSite
import PineCheck.Text.Line

/-!
# PineCheck — objects that hold nothing

An object of a declared type may hold `na`, that is nothing; reading one of its
fields fails then. The check goes through the lines of a script in order and
keeps, for every object, the changes between holding `na` and holding a value.
Branches do not matter: the last change above a line counts.

* `declaredTypes` lists the types that a script declares.
* `changes` lists the changes of all objects in order of their lines.
* `directAccesses` finds fields of objects that hold `na`; `historyAccesses`
  finds fields of earlier values of any object that ever changes.
-/

namespace PineCheck.Check.ObjectState

open Text

/-! ## Reading lines -/

/-- Whether a text is one word. -/
def isWord (cs : List Char) : Bool :=
  match word? cs with
  | some (_, []) => true
  | _ => false

/-- Whether a text is made of words joined by full stops. -/
def isName (cs : List Char) : Bool :=
  (splitAll (· = '.') cs).all isWord

/-- The type that a line starts to declare. -/
def typeHeader? (text : List Char) : Option (List Char) := do
  let text := trim text
  let text := trimStart ((dropWord? "export ".toList text).getD text)
  let rest ← dropWord? "type ".toList text
  let (name, _) ← word? (trimStart rest)
  some name

/-- The types that are declared by lines at the left margin. -/
def declaredTypes (lines : List Line) : List (List Char) :=
  lines.filterMap fun line =>
    if line.isBlank || line.isIndented then none else typeHeader? line.text

/-- Both sides of the assignment on a line. The first equals sign decides: in a
comparison, an arrow or an operator such as `+=` it is no assignment. -/
def splitAssignment? (text : List Char) : Option (List Char × List Char) :=
  let before := text.takeWhile (· ≠ '=')
  match text.dropWhile (· ≠ '=') with
  | [] => none
  | _ :: right =>
    if right.head? = some '=' || right.head? = some '>' then none
    else match before.getLast? with
      -- the colon of `:=` belongs to the operator
      | some ':' => some (before.dropLast, right)
      | some c => if "!<>+-*/%".toList.contains c then none else some (before, right)
      | none => some (before, right)

/-- The types whose variables hold no objects. -/
def isPrimitive (type : List Char) : Bool :=
  ["int", "float", "bool", "string", "color"].contains (String.ofList type)

/-- Whether a type is from a library, such as `lib.Pivot`. -/
def isQualified (type : List Char) : Bool :=
  type.contains '.' && isName type

/-- The type in `Type.new(...)` or `lib.Type.new(...)`. -/
def constructedType? (text : List Char) : Option (List Char) :=
  let isOpening (c : Char) : Bool := c = '(' || c = '<'
  if text.any isOpening then
    let head := trimEnd (text.takeWhile (!isOpening ·))
    match dropWord? "wen.".toList head.reverse with
    | some type => if isName type.reverse then some type.reverse else none
    | none => none
  else none

/-! ## Changes -/

/-- An object is given `na` or a value. -/
structure Change where
  object : List Char
  line : Nat
  /-- Whether the object holds `na` from here on. -/
  isNa : Bool
  typeName : List Char
  isVar : Bool
deriving DecidableEq, Inhabited

/-- The left side of an assignment: whether it starts with `var`, the type if one
is given, and the object. -/
def target? (left : List Char) : Option (Bool × Option (List Char) × List Char) :=
  match words left with
  | [keyword, type, object] =>
    if keyword = "var".toList || keyword = "varip".toList then some (true, some type, object)
    else none
  | [type, object] => some (false, some type, object)
  | [object] => some (false, none, object)
  | _ => none

/-- The last change of an object. -/
def lastOf? (earlier : List Change) (object : List Char) : Option Change :=
  (earlier.filter (·.object = object)).getLast?

/-- The type of an object that is given `na`, if it is followed: an object
declared with `var`, of a declared type or of a type from a library, or one that
is followed already, whose type stays as it is. -/
def naType? (types : List (List Char)) (isVar : Bool) (type : Option (List Char))
    (last : Option Change) : Option (List Char) :=
  match type with
  | some type =>
    if (isVar && !isPrimitive type) || types.contains type || isQualified type then some type
    else none
  | none => last.map Change.typeName

/-- The change that a line makes after earlier ones. -/
def change? (types : List (List Char)) (earlier : List Change) (line : Line) :
    Option Change := do
  let (left, right) ← splitAssignment? line.text
  let (isVar, type, object) ← target? left
  if !isWord object then none
  let last := lastOf? earlier object
  let right := trim right
  if right = "na".toList then
    let typeName ← naType? types isVar type last
    some ⟨object, line.number, true, typeName, isVar⟩
  else
    let typeName ← constructedType? right
    -- an object that is followed gets a value from any constructor
    if types.contains typeName || last.isSome then
      some ⟨object, line.number, false, typeName, isVar⟩
    else none

/-- Adds the changes of lines to earlier ones. -/
def changesFrom (types : List (List Char)) (earlier : List Change) : List Line → List Change
  | [] => earlier
  | line :: lines => changesFrom types (earlier ++ (change? types earlier line).toList) lines

/-- The changes of all objects, in order of their lines. -/
def changes (lines : List Line) : List Change :=
  changesFrom (declaredTypes lines) [] lines

/-- The last change of an object above a line. -/
def stateBefore? (all : List Change) (object : List Char) (line : Nat) : Option Change :=
  lastOf? (all.filter (·.line < line)) object

/-! ## Accesses -/

/-- The field behind an object, with the text behind the field. A call of a method
reads no field. -/
def field? (cs : List Char) : Option (List Char × List Char) :=
  match cs with
  | '.' :: cs => do
    let (field, rest) ← word? cs
    if (skipSpaces rest).head? = some '(' then none else some (field, rest)
  | _ => none

/-- The finding about the object at the front of a text, if it holds `na` and a
field of it is read. -/
def directAccess? (script : List Char) (all : List Change) (line offset : Nat)
    (cs : List Char) : Option Finding := do
  let (object, rest) ← word? cs
  -- changes on the line itself do not count, neither before nor behind the access
  let change ← stateBefore? all object line
  if !change.isNa then none
  let (field, _) ← field? rest
  some ⟨.naAccess (String.ofList object) (String.ofList field) (String.ofList change.typeName)
      change.isVar change.line,
    locate script offset (byteLength object + 1 + byteLength field)⟩

/-- The findings about objects that hold `na` on the rest of a line. -/
def directAccesses (script : List Char) (all : List Change) (line : Nat)
    (previous : Option Char) (offset : Nat) : List Char → List Finding
  | [] => []
  | c :: cs =>
    let here :=
      if startsName previous c then (directAccess? script all line offset (c :: cs)).toList
      else []
    here ++ directAccesses script all line (some c) (offset + c.utf8Size) cs

/-- The finding about `(object[n]).field` at the front of a text. -/
def historyAccess? (script : List Char) (all : List Change) (offset : Nat) (cs : List Char) :
    Option Finding :=
  match cs with
  | '(' :: inner => do
    let (object, rest) ← word? (skipSpaces inner)
    -- an object that ever changes may have held `na` at an earlier bar
    if !all.any (·.object = object) then none
    match skipSpaces rest with
    | '[' :: rest =>
      let (history, rest) ← upToClosing? '[' ']' 1 rest
      match skipSpaces (rest.drop 1) with
      | ')' :: rest =>
        let (field, rest) ← field? rest
        some ⟨.naHistoryAccess (String.ofList object) (String.ofList field)
            (String.ofList (trim history)),
          locate script offset (byteLength cs - byteLength rest)⟩
      | _ => none
    | _ => none
  | _ => none

/-- The findings about earlier values of objects on the rest of a line. -/
def historyAccesses (script : List Char) (all : List Change) (offset : Nat) :
    List Char → List Finding
  | [] => []
  | c :: cs =>
    (historyAccess? script all offset (c :: cs)).toList ++
      historyAccesses script all (offset + c.utf8Size) cs

/-- The findings about objects that may hold `na` in a script. -/
def check (script masked : List Char) : List Finding :=
  let lines := lines masked
  let all := changes lines
  lines.flatMap fun line =>
    directAccesses script all line.number none line.offset line.text ++
      historyAccesses script all line.offset line.text

end PineCheck.Check.ObjectState
