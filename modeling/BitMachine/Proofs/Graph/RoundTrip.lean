import Mathlib.Data.List.Forall2
import BitMachine.Proofs.Graph.Keys

/-! Reading graphs from JSON and writing them again. Reading undoes writing on every graph whose
programs have their lines under their own numbers, and reading gives no other graphs. Writing what
was read therefore completes an object once and for all: fields with a default are filled in, and
fields that its kind does not have are gone. -/

set_option autoImplicit false

namespace BitMachine.Node

section Completion

/-- What a field of an object holds. -/
inductive Slot where
  /-- Any value; the field must be there. -/
  | given
  /-- Any value; another one counts if the field is not there. -/
  | defaulted (value : Json)
  /-- A graph; the field must be there. -/
  | graph
  /-- A graph, or an empty slot if the field is not there. -/
  | optionalGraph
  /-- The lines of a program. -/
  | lines

/-- The fields of an object by the name of its kind, in the order in which they are written. -/
def layout : String → Option (List (String × Slot))
  | "Program" => some [("first_line_number", .given), ("lines", .lines)]
  | "Line" =>
    some [("number", .given), ("instruction", .graph), ("branch", .optionalGraph),
      ("position", .defaulted (.int 0))]
  | "PrintCommand" => some [("bit", .given)]
  | "ReadCommand" => some []
  | "Assignment" =>
    some [("address", .defaulted .null), ("address_expression", .optionalGraph),
      ("expression", .graph)]
  | "UnconditionalBranch" => some [("target", .graph)]
  | "ConditionalBranch" => some [("if_zero", .optionalGraph), ("if_one", .optionalGraph)]
  | "Nand" => some [("left", .graph), ("right", .optionalGraph)]
  | "AddressOf" | "ValueBeyond" | "ValueAt" => some [("child", .graph)]
  | "Variable" => some [("address", .given)]
  | "Constant" => some [("magnitude", .given)]
  | _ => none

mutual

/-- The second value is the first with every field of its kind and no other, in all its parts. -/
inductive Completes : Json → Json → Prop where
  | absent : Completes .null .null
  | target {fields inner : Fields} {number : Json}
      (special : Json.field? "__type__" fields = some (.str "Target"))
      (value : Json.field? "value" fields = some (.obj inner))
      (goal : Json.field? "line_number" inner = some number) :
      Completes (.obj fields) (.obj [("__type__", .str "Target"), ("value", .obj
        [("line_number", number),
          ("indirect", (Json.field? "indirect" inner).getD (.bool false))])])
  | node {fields written : Fields} {kind : String} {slots : List (String × Slot)}
      (ordinary : Json.field? "__type__" fields = none)
      (named : Json.field? "type" fields = some (.str kind))
      (known : layout kind = some slots) (filled : FillsAll fields slots written) :
      Completes (.obj fields) (.obj (("type", .str kind) :: written))

/-- The slots are filled in turn, each from the field under its key. -/
inductive FillsAll : Fields → List (String × Slot) → Fields → Prop where
  | nil {fields : Fields} : FillsAll fields [] []
  | cons {fields written : Fields} {key : String} {slot : Slot} {slots : List (String × Slot)}
      {value : Json} (fills : Fills slot (Json.field? key fields) value)
      (rest : FillsAll fields slots written) :
      FillsAll fields ((key, slot) :: slots) ((key, value) :: written)

/-- What a slot holds, given what was found for it. -/
inductive Fills : Slot → Option Json → Json → Prop where
  | given {value : Json} : Fills .given (some value) value
  | defaulted {value : Json} {found : Option Json} :
      Fills (.defaulted value) found (found.getD value)
  | graph {value written : Json} (completes : Completes value written) :
      Fills .graph (some value) written
  | empty : Fills .optionalGraph none .null
  | filled {value written : Json} (completes : Completes value written) :
      Fills .optionalGraph (some value) written
  | lines {items written : List Json} (completes : List.Forall₂ Completes items written) :
      Fills .lines (some (.arr items)) (.arr written)

end

end Completion

section Inversion

theorem bind_eq_ok {α β : Type} {first : Except GraphError α} {next : α → Except GraphError β}
    {result : β} : first >>= next = .ok result ↔
      ∃ value, first = .ok value ∧ next value = .ok result := by
  cases first with
  | error defect => exact ⟨nofun, nofun⟩
  | ok value =>
    constructor
    · intro done
      exact ⟨value, rfl, done⟩
    · rintro ⟨_, ⟨⟩, done⟩
      exact done

theorem field?_of_required {fields : Fields} {key : String}
    {slot : { value : Json // sizeOf value < sizeOf fields }}
    (found : required fields key = .ok slot) : Json.field? key fields = some slot.val := by
  unfold required at found
  split at found
  · next value there =>
    cases found
    exact there
  · cases found

theorem targetOfJson_eq_ok {value : Json} {node : Node} (read : targetOfJson value = .ok node) :
    ∃ inner number, value = .obj inner ∧ Json.field? "line_number" inner = some number ∧
      node = .target number ((Json.field? "indirect" inner).getD (.bool false)) := by
  unfold targetOfJson at read
  split at read
  · next inner =>
    obtain ⟨number, found, read⟩ := bind_eq_ok.mp read
    cases read
    exact ⟨inner, number.val, rfl, field?_of_required found, rfl⟩
  · cases read

theorem isTaken_eq_ok {lines : List Line} {number : Json} {taken : Bool}
    (looked : isTaken lines number = .ok taken) :
    number.isKey = true ∧ taken = lines.any (·.number.same number) := by
  unfold isTaken at looked
  split at looked
  · next key =>
    cases looked
    exact ⟨key, rfl⟩
  · cases looked

theorem addLine_eq_ok {before after : List Line} {node : Node}
    (added : addLine before node = .ok after) :
    ∃ content, node = .line content ∧ after = before ++ [content] ∧
      content.number.isKey = true ∧ ∀ line ∈ before, line.number.same content.number = false := by
  unfold addLine at added
  split at added
  · next content =>
    obtain ⟨taken, looked, added⟩ := bind_eq_ok.mp added
    obtain ⟨key, rfl⟩ := isTaken_eq_ok looked
    split at added
    · cases added
    · next free =>
      cases added
      refine ⟨content, rfl, rfl, key, fun line inside => ?_⟩
      rw [Bool.not_eq_true, List.any_eq_false] at free
      exact eq_false_of_ne_true (free line inside)
  · cases added

theorem programOfLines_eq_ok {lines : List Line} {first : Json} {node : Node}
    (made : programOfLines lines first = .ok node) :
    node = .program first lines ∧ ∃ line ∈ lines, line.number.same first = true := by
  unfold programOfLines at made
  obtain ⟨taken, looked, made⟩ := bind_eq_ok.mp made
  obtain ⟨-, rfl⟩ := isTaken_eq_ok looked
  split at made
  · next found =>
    cases made
    exact ⟨rfl, List.any_eq_true.mp found⟩
  · cases made

/-- An empty text and an empty object pass for no lines, but a program has at least one. -/
theorem linesOfJson_eq_ok {value : Json} {lines : List Line}
    (read : linesOfJson value = .ok lines) (filled : lines ≠ []) :
    ∃ items, value = .arr items ∧ itemsOfJson [] items = .ok lines := by
  unfold linesOfJson at read
  split at read
  · next items => exact ⟨items, rfl, read⟩
  · split at read
    · cases read
      exact absurd rfl filled
    · cases read
  · cases read
    exact absurd rfl filled
  · cases read
  · cases read

end Inversion

section Reading

/-- Whatever graph the value describes has its lines under their numbers and is written as the
value is completed. -/
def Completed (value : Json) : Prop :=
  ∀ node, ofJson value = .ok node → node.WellKeyed ∧ Completes value node.toJson

/-- Lines are read one by one: each is new among those before it. -/
theorem itemsOfJson_completed {items : List Json} (parts : ∀ item ∈ items, Completed item)
    {before lines : List Line} (read : itemsOfJson before items = .ok lines)
    (listed : Listed before) :
    ∃ more, lines = before ++ more ∧ Listed lines ∧ WellKeyedLines more ∧
      List.Forall₂ Completes items (linesToJson more) := by
  induction items generalizing before with
  | nil =>
    rw [itemsOfJson] at read
    cases read
    refine ⟨[], (List.append_nil _).symm, listed, ?_, ?_⟩
    · rw [WellKeyedLines]
      trivial
    · rw [linesToJson]
      exact .nil
  | cons item rest ih =>
    rw [itemsOfJson] at read
    obtain ⟨node, readItem, read⟩ := bind_eq_ok.mp read
    obtain ⟨between, added, read⟩ := bind_eq_ok.mp read
    obtain ⟨content, rfl, rfl, key, new⟩ := addLine_eq_ok added
    obtain ⟨keyed, completes⟩ := parts item List.mem_cons_self _ readItem
    have others : ∀ part ∈ rest, Completed part :=
      fun part inside => parts part (List.mem_cons_of_mem item inside)
    obtain ⟨more, rfl, listedAll, keyedMore, completesMore⟩ :=
      ih others read (listed.concat key new)
    refine ⟨content :: more, (List.append_cons ..).symm, listedAll, ?_, ?_⟩
    · rw [WellKeyed] at keyed
      rw [WellKeyedLines]
      exact ⟨keyed, keyedMore⟩
    · rw [toJson] at completes
      rw [linesToJson]
      exact .cons completes completesMore

theorem given_fills {fields : Fields} {key : String}
    {slot : { value : Json // sizeOf value < sizeOf fields }}
    (found : required fields key = .ok slot) : Fills .given (Json.field? key fields) slot.val := by
  rw [field?_of_required found]
  exact .given

/-- A kind of node with one value and no parts. -/
theorem value_completed {fields : Fields} {key kind : String} {node : Node} {make : Json → Node}
    (ordinary : Json.field? "__type__" fields = none)
    (named : Json.field? "type" fields = some (.str kind))
    (known : layout kind = some [(key, .given)])
    (writes : ∀ value, (make value).toJson = .obj [("type", .str kind), (key, value)])
    (keyed : ∀ value, (make value).WellKeyed)
    (read : (do return make (← required fields key).val) = Except.ok node) :
    node.WellKeyed ∧ Completes (.obj fields) node.toJson := by
  obtain ⟨slot, found, read⟩ := bind_eq_ok.mp read
  cases read
  rw [writes]
  exact ⟨keyed slot.val, .node ordinary named known (.cons (given_fills found) .nil)⟩

section Fields

variable {fields : Fields} (parts : ∀ value : Json, sizeOf value < sizeOf fields → Completed value)
  {key : String} {node : Node}

include parts

theorem graph_completed {slot : { value : Json // sizeOf value < sizeOf fields }}
    (found : required fields key = .ok slot) (read : ofJson slot.val = .ok node) :
    node.WellKeyed ∧ Fills .graph (Json.field? key fields) node.toJson := by
  obtain ⟨keyed, completes⟩ := parts slot.val slot.property node read
  rw [field?_of_required found]
  exact ⟨keyed, .graph completes⟩

theorem optionalGraph_completed (read : optionalOfJson fields key = .ok node) :
    node.WellKeyed ∧ Fills .optionalGraph (Json.field? key fields) node.toJson := by
  cases found : Json.field? key fields with
  | none =>
    rw [optionalOfJson_of_missing found] at read
    cases read
    rw [WellKeyed, toJson]
    exact ⟨trivial, .empty⟩
  | some value =>
    rw [optionalOfJson_of_field found] at read
    obtain ⟨keyed, completes⟩ := parts value (Json.sizeOf_lt_of_field? found) node read
    exact ⟨keyed, .filled completes⟩

theorem lines_completed {slot : { value : Json // sizeOf value < sizeOf fields }}
    {lines : List Line} {first : Json} (found : required fields key = .ok slot)
    (read : linesOfJson slot.val = .ok lines) (made : programOfLines lines first = .ok node) :
    node = .program first lines ∧ node.WellKeyed ∧
      Fills .lines (Json.field? key fields) (.arr (linesToJson lines)) := by
  obtain ⟨rfl, entry⟩ := programOfLines_eq_ok made
  have filled : lines ≠ [] := by
    obtain ⟨line, inside, -⟩ := entry
    exact List.ne_nil_of_mem inside
  obtain ⟨items, same, read⟩ := linesOfJson_eq_ok read filled
  -- the items are smaller than the list, which is smaller than the fields
  have small : ∀ item ∈ items, Completed item := by
    intro item member
    have smaller := slot.property
    have within := List.sizeOf_lt_of_mem member
    rw [same, Json.arr.sizeOf_spec] at smaller
    exact parts item (by omega)
  obtain ⟨more, rfl, listed, keyed, completes⟩ :=
    itemsOfJson_completed small read ⟨nofun, List.Pairwise.nil⟩
  rw [WellKeyed, field?_of_required found, same]
  exact ⟨rfl, ⟨⟨listed, entry⟩, keyed⟩, .lines completes⟩

/-- A kind of node with one part. -/
theorem child_completed {kind : String} {make : Node → Node}
    (ordinary : Json.field? "__type__" fields = none)
    (named : Json.field? "type" fields = some (.str kind))
    (known : layout kind = some [(key, .graph)])
    (writes : ∀ child, (make child).toJson = .obj [("type", .str kind), (key, child.toJson)])
    (keyed : ∀ child, child.WellKeyed → (make child).WellKeyed)
    (read : (do return make (← ofJson (← required fields key).val)) = Except.ok node) :
    node.WellKeyed ∧ Completes (.obj fields) node.toJson := by
  obtain ⟨slot, found, read⟩ := bind_eq_ok.mp read
  obtain ⟨child, readChild, read⟩ := bind_eq_ok.mp read
  obtain ⟨childKeyed, fills⟩ := graph_completed parts found readChild
  cases read
  rw [writes]
  exact ⟨keyed child childKeyed, .node ordinary named known (.cons fills .nil)⟩

/-- An object is completed if everything smaller is: the cases are those of the reader, the special
kind, the ordinary ones in its order, and those that it refuses. -/
theorem object_completed : Completed (.obj fields) := by
  intro node read
  rw [ofJson] at read
  split at read
  · next special =>
    obtain ⟨value, found, read⟩ := bind_eq_ok.mp read
    obtain ⟨inner, number, same, goal, rfl⟩ := targetOfJson_eq_ok read
    rw [WellKeyed, toJson]
    exact ⟨trivial, .target special (same ▸ field?_of_required found) goal⟩
  · cases read
  · next ordinary =>
    split at read
    · next named =>
      obtain ⟨slot, found, read⟩ := bind_eq_ok.mp read
      obtain ⟨lines, readLines, read⟩ := bind_eq_ok.mp read
      obtain ⟨first, given, made⟩ := bind_eq_ok.mp read
      obtain ⟨rfl, keyed, fills⟩ := lines_completed parts found readLines made
      rw [toJson]
      exact ⟨keyed, .node ordinary named rfl (.cons (given_fills given) (.cons fills .nil))⟩
    · next named =>
      obtain ⟨number, given, read⟩ := bind_eq_ok.mp read
      obtain ⟨slot, found, read⟩ := bind_eq_ok.mp read
      obtain ⟨instruction, readInstruction, read⟩ := bind_eq_ok.mp read
      obtain ⟨branch, readBranch, read⟩ := bind_eq_ok.mp read
      cases read
      obtain ⟨keyed, fills⟩ := graph_completed parts found readInstruction
      obtain ⟨branchKeyed, branchFills⟩ := optionalGraph_completed parts readBranch
      rw [WellKeyed, WellKeyedLine, toJson, lineToJson]
      exact ⟨⟨keyed, branchKeyed⟩, .node ordinary named rfl (.cons (given_fills given)
        (.cons fills (.cons branchFills (.cons .defaulted .nil))))⟩
    · next named =>
      exact value_completed ordinary named rfl (fun _ => by rw [toJson])
        (fun _ => by rw [WellKeyed]; trivial) read
    · next named =>
      cases read
      rw [WellKeyed, toJson]
      exact ⟨trivial, .node ordinary named rfl .nil⟩
    · next named =>
      obtain ⟨place, readPlace, read⟩ := bind_eq_ok.mp read
      obtain ⟨slot, found, read⟩ := bind_eq_ok.mp read
      obtain ⟨source, readSource, read⟩ := bind_eq_ok.mp read
      cases read
      obtain ⟨placeKeyed, placeFills⟩ := optionalGraph_completed parts readPlace
      obtain ⟨keyed, fills⟩ := graph_completed parts found readSource
      rw [WellKeyed, toJson]
      exact ⟨⟨placeKeyed, keyed⟩, .node ordinary named rfl (.cons .defaulted
        (.cons placeFills (.cons fills .nil)))⟩
    · next named =>
      exact child_completed parts ordinary named rfl (fun _ => by rw [toJson])
        (fun _ keyed => by rwa [WellKeyed]) read
    · next named =>
      obtain ⟨ifZero, readZero, read⟩ := bind_eq_ok.mp read
      obtain ⟨ifOne, readOne, read⟩ := bind_eq_ok.mp read
      cases read
      obtain ⟨zeroKeyed, zeroFills⟩ := optionalGraph_completed parts readZero
      obtain ⟨oneKeyed, oneFills⟩ := optionalGraph_completed parts readOne
      rw [WellKeyed, toJson]
      exact ⟨⟨zeroKeyed, oneKeyed⟩, .node ordinary named rfl (.cons zeroFills
        (.cons oneFills .nil))⟩
    · next named =>
      obtain ⟨slot, found, read⟩ := bind_eq_ok.mp read
      obtain ⟨left, readLeft, read⟩ := bind_eq_ok.mp read
      obtain ⟨right, readRight, read⟩ := bind_eq_ok.mp read
      cases read
      obtain ⟨leftKeyed, leftFills⟩ := graph_completed parts found readLeft
      obtain ⟨rightKeyed, rightFills⟩ := optionalGraph_completed parts readRight
      rw [WellKeyed, toJson]
      exact ⟨⟨leftKeyed, rightKeyed⟩, .node ordinary named rfl (.cons leftFills
        (.cons rightFills .nil))⟩
    · next named =>
      exact child_completed parts ordinary named rfl (fun _ => by rw [toJson])
        (fun _ keyed => by rwa [WellKeyed]) read
    · next named =>
      exact child_completed parts ordinary named rfl (fun _ => by rw [toJson])
        (fun _ keyed => by rwa [WellKeyed]) read
    · next named =>
      exact child_completed parts ordinary named rfl (fun _ => by rw [toJson])
        (fun _ keyed => by rwa [WellKeyed]) read
    · next named =>
      exact value_completed ordinary named rfl (fun _ => by rw [toJson])
        (fun _ => by rw [WellKeyed]; trivial) read
    · next named =>
      exact value_completed ordinary named rfl (fun _ => by rw [toJson])
        (fun _ => by rw [WellKeyed]; trivial) read
    · cases read
    · cases read

end Fields

/-- What is read has its lines under their numbers and is written as what it was read from,
completed. -/
theorem ofJson_completed (value : Json) : Completed value := by
  cases value with
  | obj fields =>
    refine object_completed fun part smaller => ?_
    exact ofJson_completed part
  | null =>
    intro node read
    rw [ofJson] at read
    cases read
    rw [WellKeyed, toJson]
    exact ⟨trivial, .absent⟩
  | bool _ | int _ | real _ | str _ | arr _ =>
    intro node read
    rw [ofJson.eq_def] at read
    cases read
termination_by sizeOf value

end Reading

/-- The JSON form of the graph that a JSON value describes. -/
def normalForm (value : Json) : Except GraphError Json :=
  (ofJson value).map toJson

theorem normalForm_eq_ok {value written : Json} (renewed : normalForm value = .ok written) :
    ∃ node, ofJson value = .ok node ∧ node.toJson = written := by
  unfold normalForm at renewed
  cases read : ofJson value with
  | error defect =>
    rw [read] at renewed
    cases renewed
  | ok node =>
    rw [read] at renewed
    cases renewed
    exact ⟨node, rfl, rfl⟩

/-- A graph whose programs have their lines under their own numbers is read back as it was written,
and the graph of a text is of this kind. So is every graph that is read from JSON. What is written
for it completes what it was read from, and reading and writing it again changes nothing. -/
theorem json_round_trip :
    (∀ node : Node, node.WellKeyed → ofJson node.toJson = .ok node) ∧
    (∀ (frontEnd : FrontEnd) (source : String) (program : Program),
      frontEnd.parse source = .ok program → program.toNode.WellKeyed) ∧
    (∀ (value : Json) (node : Node), ofJson value = .ok node → node.WellKeyed) ∧
    (∀ value written : Json, normalForm value = .ok written →
      Completes value written ∧ normalForm written = .ok written) := by
  refine ⟨ofJson_toJson, ?_, ?_, ?_⟩
  · intro frontEnd source program parsed
    exact FrontEnd.wellKeyed_of_parse parsed
  · intro value node read
    exact (ofJson_completed value node read).1
  · intro value written renewed
    obtain ⟨node, read, rfl⟩ := normalForm_eq_ok renewed
    obtain ⟨keyed, completes⟩ := ofJson_completed value node read
    refine ⟨completes, ?_⟩
    rw [normalForm, ofJson_toJson node keyed]
    rfl

/-- A program with a field that none has, and without any field that has a default. -/
def sparseProgram : Json :=
  let negation : Json := .obj [("type", .str "Nand"),
    ("left", .obj [("type", .str "Variable"), ("address", .int 2)])]
  let goal : Json := .obj [("__type__", .str "Target"), ("value", .obj [("line_number", .int 1)])]
  .obj [("comment", .str "negates a bit"), ("lines", .arr [.obj [("number", .int 1),
      ("instruction", .obj [("type", .str "Assignment"), ("expression", negation)]),
      ("branch", .obj [("type", .str "ConditionalBranch"), ("if_one", goal)]),
      ("type", .str "Line")]]),
    ("type", .str "Program"), ("first_line_number", .int 1)]

/-- The same program with all its fields. -/
def fullProgram : Json :=
  let negation : Json := .obj [("type", .str "Nand"),
    ("left", .obj [("type", .str "Variable"), ("address", .int 2)]), ("right", .null)]
  let goal : Json := .obj [("__type__", .str "Target"),
    ("value", .obj [("line_number", .int 1), ("indirect", .bool false)])]
  .obj [("type", .str "Program"), ("first_line_number", .int 1),
    ("lines", .arr [.obj [("type", .str "Line"), ("number", .int 1),
      ("instruction", .obj [("type", .str "Assignment"), ("address", .null),
        ("address_expression", .null), ("expression", negation)]),
      ("branch", .obj [("type", .str "ConditionalBranch"), ("if_zero", .null), ("if_one", goal)]),
      ("position", .int 0)]])]

theorem json_round_trip_sparseProgram :
    (∃ node, ofJson sparseProgram = .ok node ∧ node.WellKeyed ∧
      ofJson node.toJson = .ok node ∧ node.toJson = fullProgram) ∧
    (Completes sparseProgram fullProgram ∧ normalForm fullProgram = .ok fullProgram) ∧
    ∃ program, FrontEnd.automaton.parse "LINE NUMBER ZERO CODE READ" = .ok program ∧
      program.toNode.WellKeyed := by
  have renewed : normalForm sparseProgram = .ok fullProgram := by decide +kernel
  have accepts : (FrontEnd.automaton.parse "LINE NUMBER ZERO CODE READ").isOk = true := by
    decide +kernel
  obtain ⟨reads, texts, shapes, completes⟩ := json_round_trip
  refine ⟨?_, completes sparseProgram fullProgram renewed, ?_⟩
  · obtain ⟨node, read, same⟩ := normalForm_eq_ok renewed
    have keyed := shapes sparseProgram node read
    exact ⟨node, read, keyed, reads node keyed, same⟩
  · cases parsed : FrontEnd.automaton.parse "LINE NUMBER ZERO CODE READ" with
    | ok program => exact ⟨program, rfl, texts .automaton _ program parsed⟩
    | error diagnostic =>
      rw [parsed] at accepts
      cases accepts

end BitMachine.Node
