import BitMachine.Graph.Json
import BitMachine.Proofs.Grammar.Interchange
import BitMachine.Proofs.Machine.Graphs

/-! Graphs in which the lines of a program are told apart by their numbers. A graph of this kind is
what its JSON form describes, wherever in it programs stand, and the graph of a text is one. -/

set_option autoImplicit false

namespace BitMachine

theorem Json.isKey_plain (value : Json) : value.plain.isKey = value.isKey := by
  fun_cases Json.plain value <;> rfl

theorem Json.isKey_of_same {a b : Json} (same : a.same b = true) (key : a.isKey = true) :
    b.isKey = true := by
  rw [← Json.isKey_plain, ← Json.same_iff.mp same, Json.isKey_plain, key]

namespace Node

/-- Lines that can be looked up by their numbers: no two of them have the same. -/
structure Listed (lines : List Line) : Prop where
  keys : ∀ line ∈ lines, line.number.isKey = true
  distinct : lines.Pairwise fun line later => line.number.same later.number = false

theorem Listed.concat {before : List Line} {content : Line} (listed : Listed before)
    (key : content.number.isKey = true)
    (new : ∀ line ∈ before, line.number.same content.number = false) :
    Listed (before ++ [content]) := by
  constructor
  · intro line inside
    rcases List.mem_append.mp inside with old | last
    · exact listed.keys line old
    · rw [List.mem_singleton.mp last]
      exact key
  · apply List.pairwise_append.mpr
    refine ⟨listed.distinct, List.pairwise_singleton _ _, ?_⟩
    intro line old last same
    rw [List.mem_singleton.mp same]
    exact new line old

/-- Lines that can be looked up by their numbers, the first number among them. -/
structure Keyed (first : Json) (lines : List Line) : Prop extends Listed lines where
  entry : ∃ line ∈ lines, line.number.same first = true

mutual

/-- Every program in the graph, itself included, has its lines under their own numbers and starts
with one of them. -/
def WellKeyed : Node → Prop
  | .absent | .constant _ | .variable _ | .print _ | .read | .target _ _ => True
  | .valueAt child => child.WellKeyed
  | .valueBeyond child => child.WellKeyed
  | .addressOf child => child.WellKeyed
  | .nand left right => left.WellKeyed ∧ right.WellKeyed
  | .assignment _ place source => place.WellKeyed ∧ source.WellKeyed
  | .unconditional goal => goal.WellKeyed
  | .conditional ifZero ifOne => ifZero.WellKeyed ∧ ifOne.WellKeyed
  | .line content => WellKeyedLine content
  | .program first lines => Keyed first lines ∧ WellKeyedLines lines

def WellKeyedLine : LineOf Node → Prop
  | ⟨_, instruction, branch, _⟩ => instruction.WellKeyed ∧ branch.WellKeyed

def WellKeyedLines : List (LineOf Node) → Prop
  | [] => True
  | first :: rest => WellKeyedLine first ∧ WellKeyedLines rest

end

theorem wellKeyedLines_iff (lines : List Line) :
    WellKeyedLines lines ↔ ∀ line ∈ lines, WellKeyedLine line := by
  induction lines with
  | nil => simp only [WellKeyedLines, List.not_mem_nil, false_implies, implies_true]
  | cons first rest ih => simp only [WellKeyedLines, ih, List.forall_mem_cons]

section Decoding

theorem isTaken_of_isKey {number : Json} (lines : List Line) (key : number.isKey = true) :
    isTaken lines number = .ok (lines.any (·.number.same number)) := by
  rw [isTaken, if_pos key]

theorem addLine_of_listed {before rest : List Line} {content : Line}
    (listed : Listed (before ++ content :: rest)) :
    addLine before (.line content) = .ok (before ++ [content]) := by
  have key : content.number.isKey = true := by
    apply listed.keys
    exact List.mem_append_right before List.mem_cons_self
  have free : before.any (·.number.same content.number) = false := by
    rw [List.any_eq_false]
    intro line inside
    rw [(List.pairwise_append.mp listed.distinct).2.2 line inside content List.mem_cons_self]
    exact Bool.false_ne_true
  rw [addLine, isTaken_of_isKey before key, free]
  rfl

theorem programOfLines_of_keyed {first : Json} {lines : List Line} (keyed : Keyed first lines) :
    programOfLines lines first = .ok (.program first lines) := by
  obtain ⟨entry, inside, same⟩ := keyed.entry
  have key := Json.isKey_of_same same (keyed.keys entry inside)
  rw [programOfLines, isTaken_of_isKey lines key,
    List.any_eq_true.mpr ⟨entry, inside, same⟩]
  rfl

theorem optional_val (fields : Fields) (key : String) :
    (optional fields key).map Subtype.val = Json.field? key fields := by
  unfold optional
  split
  · next value found => exact found.symm
  · next missing => exact missing.symm

/-- The slot of a written field is read like any other. -/
theorem optionalOfJson_of_field {fields : Fields} {key : String} {value : Json}
    (found : Json.field? key fields = some value) :
    optionalOfJson fields key = ofJson value := by
  rw [← optional_val, Option.map_eq_some_iff] at found
  obtain ⟨slot, there, rfl⟩ := found
  rw [optionalOfJson, there]

theorem optionalOfJson_of_missing {fields : Fields} {key : String}
    (missing : Json.field? key fields = none) : optionalOfJson fields key = .ok .absent := by
  rw [← optional_val, Option.map_eq_none_iff] at missing
  rw [optionalOfJson, missing]

mutual

/-- A graph is what its JSON form describes. -/
theorem ofJson_toJson : (node : Node) → node.WellKeyed → ofJson node.toJson = .ok node
  | .absent, _ => by rw [toJson, ofJson]
  | .constant _, _ | .variable _, _ | .print _, _ | .read, _ | .target _ _, _ => by
    rw [toJson, ofJson]
    rfl
  | .valueAt child, keyed | .valueBeyond child, keyed | .addressOf child, keyed
  | .unconditional child, keyed => by
    rw [WellKeyed] at keyed
    rw [toJson, ofJson]
    show (ofJson child.toJson >>= _) = _
    rw [ofJson_toJson child keyed]
    rfl
  | .nand left right, keyed => by
    rw [WellKeyed] at keyed
    rw [toJson, ofJson]
    show (ofJson left.toJson >>= fun _ => optionalOfJson _ _ >>= _) = _
    rw [ofJson_toJson left keyed.1, optionalOfJson_of_field rfl, ofJson_toJson right keyed.2]
    rfl
  | .conditional ifZero ifOne, keyed => by
    rw [WellKeyed] at keyed
    rw [toJson, ofJson]
    show (optionalOfJson _ _ >>= fun _ => optionalOfJson _ _ >>= _) = _
    rw [optionalOfJson_of_field rfl, optionalOfJson_of_field rfl, ofJson_toJson ifZero keyed.1,
      ofJson_toJson ifOne keyed.2]
    rfl
  | .assignment address place source, keyed => by
    rw [WellKeyed] at keyed
    rw [toJson, ofJson]
    show (optionalOfJson _ _ >>= fun _ => ofJson source.toJson >>= _) = _
    rw [optionalOfJson_of_field rfl, ofJson_toJson place keyed.1, ofJson_toJson source keyed.2]
    rfl
  | .line content, keyed => by
    rw [WellKeyed] at keyed
    rw [toJson, ofJson_lineToJson content keyed]
  | .program first lines, keyed => by
    rw [WellKeyed] at keyed
    rw [toJson, ofJson]
    show (linesOfJson (.arr (linesToJson lines)) >>= fun lines => programOfLines lines first) = _
    rw [linesOfJson, itemsOfJson_linesToJson [] lines keyed.2 keyed.1.toListed]
    exact programOfLines_of_keyed keyed.1

theorem ofJson_lineToJson : (content : LineOf Node) → WellKeyedLine content →
    ofJson (lineToJson content) = .ok (.line content)
  | ⟨number, instruction, branch, position⟩, keyed => by
    rw [WellKeyedLine] at keyed
    rw [lineToJson, ofJson]
    show (ofJson instruction.toJson >>= fun _ => optionalOfJson _ _ >>= _) = _
    rw [ofJson_toJson instruction keyed.1, optionalOfJson_of_field rfl,
      ofJson_toJson branch keyed.2]
    rfl

/-- Lines are read back one by one, each new among those before it. -/
theorem itemsOfJson_linesToJson : (before lines : List (LineOf Node)) → WellKeyedLines lines →
    Listed (before ++ lines) → itemsOfJson before (linesToJson lines) = .ok (before ++ lines)
  | before, [], _, _ => by rw [linesToJson, itemsOfJson, List.append_nil]
  | before, content :: rest, keyed, listed => by
    rw [WellKeyedLines] at keyed
    rw [linesToJson, itemsOfJson, ofJson_lineToJson content keyed.1]
    show (addLine before (.line content) >>= fun lines => itemsOfJson lines _) = _
    rw [addLine_of_listed listed]
    rw [List.append_cons before content rest] at listed ⊢
    exact itemsOfJson_linesToJson (before ++ [content]) rest keyed.2 listed

end

end Decoding

section Texts

theorem Evaluable.wellKeyed {node : Node} (evaluable : node.Evaluable) : node.WellKeyed := by
  fun_induction Evaluable node with
  | case1 | case2 =>
    rw [WellKeyed]
    trivial
  | case3 child ih | case4 child ih | case5 child ih =>
    rw [WellKeyed]
    exact ih evaluable
  | case6 left right leftIh rightIh =>
    rw [WellKeyed]
    exact ⟨leftIh evaluable.1, rightIh evaluable.2⟩
  | case7 => exact evaluable.elim

theorem Executable.wellKeyed {node : Node} (executable : node.Executable) : node.WellKeyed := by
  revert executable
  fun_cases Executable node with
  | case1 | case2 =>
    intro _
    rw [WellKeyed]
    trivial
  | case3 address source =>
    rintro ⟨-, evaluable⟩
    rw [WellKeyed, WellKeyed]
    exact ⟨trivial, evaluable.wellKeyed⟩
  | case4 address place source =>
    rintro ⟨-, computes, evaluates⟩
    rw [WellKeyed]
    exact ⟨computes.wellKeyed, evaluates.wellKeyed⟩
  | case5 => exact False.elim

theorem Reachable.wellKeyed {node : Node} (reachable : node.Reachable) : node.WellKeyed := by
  revert reachable
  fun_cases Reachable node with
  | case1 number indirect =>
    intro _
    rw [WellKeyed]
    trivial
  | case2 => exact False.elim

theorem Branching.wellKeyed {node : Node} (branching : node.Branching) : node.WellKeyed := by
  revert branching
  fun_cases Branching node with
  | case1 =>
    intro _
    rw [WellKeyed]
    trivial
  | case2 goal =>
    intro reachable
    rw [WellKeyed]
    exact reachable.wellKeyed
  | case3 ifZero ifOne =>
    rw [WellKeyed]
    have empty : Node.absent.WellKeyed := by
      rw [WellKeyed]
      trivial
    rintro (⟨rfl, one⟩ | ⟨zero, rfl⟩ | ⟨zero, one⟩)
    · exact ⟨empty, one.wellKeyed⟩
    · exact ⟨zero.wellKeyed, empty⟩
    · exact ⟨zero.wellKeyed, one.wellKeyed⟩
  | case4 => exact False.elim

theorem wellKeyedLine_of_complete {line : Line} (complete : LineOf.Complete line) :
    WellKeyedLine line := by
  obtain ⟨number, instruction, branch, position⟩ := line
  rw [WellKeyedLine]
  exact ⟨complete.instruction.wellKeyed, complete.branch.wellKeyed⟩

end Texts

end Node

namespace Derivation

theorem listed_linesAt {lines : List Line} (starts : List Nat)
    (distinct : (lines.map (·.number.value)).Nodup) : Node.Listed (linesAt starts lines) := by
  constructor
  · intro line inside
    obtain ⟨derived, position, rfl⟩ := mem_linesAt inside
    rfl
  · have numbers : ((linesAt starts lines).map (·.number)).Pairwise
        fun m n => m.same n = false := by
      rw [map_number_linesAt, List.pairwise_map]
      refine distinct.imp fun {m n} apart => ?_
      rw [Json.same_int, decide_eq_false_iff_not, Int.natCast_inj]
      exact apart
    exact List.pairwise_map.mp numbers

/-- No line of a lawful derivation hides another. -/
theorem Program.wellKeyed (derived : Program) (starts : List Nat) (lawful : derived.Lawful) :
    (derived.meaning starts).toNode.WellKeyed := by
  have complete := derived.complete starts
  rw [BitMachine.Program.toNode, Node.WellKeyed, Node.wellKeyedLines_iff]
  refine ⟨⟨listed_linesAt starts lawful.distinct, ?_⟩, ?_⟩
  · obtain ⟨entry, found⟩ := Option.isSome_iff_exists.mp complete.entry
    unfold BitMachine.Program.entry? BitMachine.Program.line? at found
    have same := List.find?_some found
    exact ⟨entry, List.mem_of_find?_eq_some found, same⟩
  · intro line inside
    exact Node.wellKeyedLine_of_complete (complete.lines line inside)

end Derivation

theorem FrontEnd.wellKeyed_of_parse {frontEnd : FrontEnd} {source : String} {program : Program}
    (parsed : frontEnd.parse source = .ok program) : program.toNode.WellKeyed := by
  obtain ⟨derived, -, lawful, rfl⟩ := read_sound (parse_eq_ok.mp parsed)
  exact derived.wellKeyed _ lawful

end BitMachine
