import BitMachine.Graph.Basic

/-! Program graphs as JSON: an object a node, with its kind under `type`. Numbers are taken over as
they are. -/

set_option autoImplicit false

namespace BitMachine

/-- Why a JSON value is no program graph. -/
inductive GraphError where
  | missingField (key : String)
  | unknownSpecial (name : Json)
  | unknownKind (name : Json)
  /-- A text or a list where an object is needed, or a line that is none. -/
  | notAnObject
  /-- A value that cannot be looked into, or one that nothing can be looked up by. -/
  | unsuitable
  | duplicateLine (number position : Json)
  | missingEntry (number : Json)
deriving DecidableEq, Repr

namespace Node

mutual

/-- A graph as JSON, every field written. Graphs of any depth are taken, whatever a stack would hold. -/
def toJson : Node → Json
  | .absent => .null
  | .target number indirect =>
    .obj [("__type__", .str "Target"),
      ("value", .obj [("line_number", number), ("indirect", indirect)])]
  | .program first lines =>
    .obj [("type", .str "Program"), ("first_line_number", first),
      ("lines", .arr (linesToJson lines))]
  | .line content => lineToJson content
  | .print bit => .obj [("type", .str "PrintCommand"), ("bit", bit)]
  | .read => .obj [("type", .str "ReadCommand")]
  | .assignment address place source =>
    .obj [("type", .str "Assignment"), ("address", address),
      ("address_expression", toJson place), ("expression", toJson source)]
  | .unconditional goal =>
    .obj [("type", .str "UnconditionalBranch"), ("target", toJson goal)]
  | .conditional ifZero ifOne =>
    .obj [("type", .str "ConditionalBranch"), ("if_zero", toJson ifZero),
      ("if_one", toJson ifOne)]
  | .nand left right =>
    .obj [("type", .str "Nand"), ("left", toJson left), ("right", toJson right)]
  | .addressOf child => .obj [("type", .str "AddressOf"), ("child", toJson child)]
  | .valueBeyond child => .obj [("type", .str "ValueBeyond"), ("child", toJson child)]
  | .valueAt child => .obj [("type", .str "ValueAt"), ("child", toJson child)]
  | .variable address => .obj [("type", .str "Variable"), ("address", address)]
  | .constant magnitude => .obj [("type", .str "Constant"), ("magnitude", magnitude)]

def lineToJson : LineOf Node → Json
  | ⟨number, instruction, branch, position⟩ =>
    .obj [("type", .str "Line"), ("number", number), ("instruction", toJson instruction),
      ("branch", toJson branch), ("position", position)]

def linesToJson : List (LineOf Node) → List Json
  | [] => []
  | content :: rest => lineToJson content :: linesToJson rest

end

abbrev Fields := List (String × Json)

/-- A field that must be there, with the fact that it is smaller than its object. -/
def required (fields : Fields) (key : String) :
    Except GraphError { value : Json // sizeOf value < sizeOf fields } :=
  match found : Json.field? key fields with
  | some value => .ok ⟨value, Json.sizeOf_lt_of_field? found⟩
  | none => .error (.missingField key)

/-- A field that counts as null if it is not there. -/
def optional (fields : Fields) (key : String) :
    Option { value : Json // sizeOf value < sizeOf fields } :=
  match found : Json.field? key fields with
  | some value => some ⟨value, Json.sizeOf_lt_of_field? found⟩
  | none => none

def targetOfJson : Json → Except GraphError Node
  | .obj fields => do
    let number ← required fields "line_number"
    return .target number.val ((Json.field? "indirect" fields).getD (.bool false))
  | _ => .error .unsuitable

/-- Whether a text holds another one. -/
def holds (part : List Char) : List Char → Bool
  | [] => part.isEmpty
  | c :: rest => part.isPrefixOf (c :: rest) || holds part rest

def refuseText (text : String) : GraphError :=
  if holds "__type__".toList text.toList then .unsuitable else .notAnObject

def refuseList (items : List Json) : GraphError :=
  let special : Json → Bool
    | .str text => text == "__type__"
    | _ => false
  if items.any special then .unsuitable else .notAnObject

/-- Whether a number is that of a line. -/
def isTaken (lines : List (LineOf Node)) (number : Json) : Except GraphError Bool :=
  if number.isKey then .ok (lines.any (·.number.same number)) else .error .unsuitable

def addLine (lines : List (LineOf Node)) : Node → Except GraphError (List (LineOf Node))
  | .line content => do
    if ← isTaken lines content.number then
      throw (.duplicateLine content.number content.position)
    return lines ++ [content]
  | _ => .error .notAnObject

/-- A program of decoded lines; its first line must be one of them. -/
def programOfLines (lines : List (LineOf Node)) (first : Json) : Except GraphError Node := do
  if ← isTaken lines first then return .program first lines
  throw (.missingEntry first)

mutual

/-- The graph that a JSON value describes. Fields are looked at in a fixed order, and the first
defect is the one reported. How deep values may be is up to what reads them; here any depth is taken. -/
def ofJson : Json → Except GraphError Node
  | .null => .ok .absent
  | .obj fields =>
    match Json.field? "__type__" fields with
    | some (.str "Target") => do targetOfJson (← required fields "value").val
    | some special => .error (.unknownSpecial special)
    | none =>
      match Json.field? "type" fields with
      | some (.str "Program") => do
        let lines ← linesOfJson (← required fields "lines")
        programOfLines lines (← required fields "first_line_number").val
      | some (.str "Line") => do
        let number ← required fields "number"
        let instruction ← ofJson (← required fields "instruction")
        let branch ← optionalOfJson fields "branch"
        let position := (Json.field? "position" fields).getD (.int 0)
        return .line ⟨number.val, instruction, branch, position⟩
      | some (.str "PrintCommand") => return .print (← required fields "bit").val
      | some (.str "ReadCommand") => return .read
      | some (.str "Assignment") => do
        let address := (Json.field? "address" fields).getD .null
        let place ← optionalOfJson fields "address_expression"
        let source ← ofJson (← required fields "expression")
        return .assignment address place source
      | some (.str "UnconditionalBranch") =>
        return .unconditional (← ofJson (← required fields "target"))
      | some (.str "ConditionalBranch") => do
        let ifZero ← optionalOfJson fields "if_zero"
        let ifOne ← optionalOfJson fields "if_one"
        return .conditional ifZero ifOne
      | some (.str "Nand") => do
        let left ← ofJson (← required fields "left")
        let right ← optionalOfJson fields "right"
        return .nand left right
      | some (.str "AddressOf") => return .addressOf (← ofJson (← required fields "child"))
      | some (.str "ValueBeyond") => return .valueBeyond (← ofJson (← required fields "child"))
      | some (.str "ValueAt") => return .valueAt (← ofJson (← required fields "child"))
      | some (.str "Variable") => return .variable (← required fields "address").val
      | some (.str "Constant") => return .constant (← required fields "magnitude").val
      | some kind => .error (.unknownKind kind)
      | none => .error (.unknownKind .null)
  | .str text => .error (refuseText text)
  | .arr items => .error (refuseList items)
  | _ => .error .unsuitable
termination_by value => 2 * sizeOf value

/-- The graph in a slot that may be empty. -/
def optionalOfJson (fields : Fields) (key : String) : Except GraphError Node :=
  match optional fields key with
  | some value => ofJson value.val
  | none => .ok .absent
termination_by 2 * sizeOf fields

/-- The lines of a program, each with a number of its own. -/
def linesOfJson : Json → Except GraphError (List (LineOf Node))
  | .arr items => itemsOfJson [] items
  | .str text => if text.isEmpty then .ok [] else .error .notAnObject
  | .obj [] => .ok []
  | .obj ((key, _) :: _) => .error (refuseText key)
  | _ => .error .unsuitable
termination_by value => 2 * sizeOf value

def itemsOfJson (lines : List (LineOf Node)) : List Json →
    Except GraphError (List (LineOf Node))
  | [] => .ok lines
  | item :: rest => do
    let node ← ofJson item
    itemsOfJson (← addLine lines node) rest
termination_by items => 2 * sizeOf items

end

end Node

end BitMachine
