import BitMachine.Grammar.Automaton.Production
import BitMachine.Graph.Basic
import BitMachine.Memory

/-! What the phrases on the automaton's stack stand for. -/

set_option autoImplicit false

namespace BitMachine.Automaton

/-- A line as it was read. If both arms of its branch ask for one bit, `clash` is where the branch
starts. -/
structure Draft where
  line : Line
  clash : Option Nat

inductive Payload where
  /-- A keyword, by its position. -/
  | word (position : Nat)
  | number (value : Nat)
  | node (value : Node)
  | branch (value : Node) (clash : Option Nat)
  | line (draft : Draft)
  /-- The lines read so far, the latest first. -/
  | lines (drafts : List Draft)

namespace Production

def build : Production → List Payload → Option Payload
  | .zero, [.word _] => some (.number 0)
  | .one, [.word _] => some (.number 1)
  | .firstBit, [.number bit] => some (.number bit)
  | .nextBit, [.number value, .number bit] => some (.number (2 * value + bit))
  | .bits, [.number value] => some (.number value)
  | .cell, [.word _, .number address] => some (.node (.variable address))
  | .register, [.word _] => some (.node (.variable registerAddress))
  | .variablePrimary, [.node inner] => some (.node inner)
  | .constantPrimary, [.number value] => some (.node (.constant value))
  | .parenthesized, [.word _, .node inner, .word _] => some (.node inner)
  | .plainAt, [.node inner] => some (.node inner)
  | .valueAt, [.word _, .node inner] => some (.node (.valueAt inner))
  | .plainBeyond, [.node inner] => some (.node inner)
  | .valueBeyond, [.word _, .node inner] => some (.node (.valueBeyond inner))
  | .plainOperand, [.node inner] => some (.node inner)
  | .addressOf, [.word _, .node inner] => some (.node (.addressOf inner))
  | .singleOperand, [.node inner] => some (.node inner)
  | .nand, [.node left, .word _, .node right] => some (.node (.nand left right))
  | .constantPlace, [.number value] => some (.node (.constant value))
  | .parenthesizedPlace, [.word _, .node inner, .word _] => some (.node inner)
  | .plainPlaceAt, [.node inner] => some (.node inner)
  | .valueAtPlace, [.word _, .node inner] => some (.node (.valueAt inner))
  | .plainPlaceBeyond, [.node inner] => some (.node inner)
  | .valueBeyondPlace, [.word _, .node inner] => some (.node (.valueBeyond inner))
  | .plainPlaceOperand, [.node inner] => some (.node inner)
  | .addressOfPlace, [.word _, .node inner] => some (.node (.addressOf inner))
  | .singlePlace, [.node inner] => some (.node inner)
  | .nandPlace, [.node left, .word _, .node right] => some (.node (.nand left right))
  | .condition, [.word _, .number bit] => some (.number bit)
  | .longCondition, [.word _, .word _, .number bit] => some (.number bit)
  | .marker, [.word position] => some (.word position)
  | .directGoal, [.number value] => some (.node (.target value (.bool false)))
  | .markedGoal, [.word _, .number value] => some (.node (.target value (.bool true)))
  | .jump, [.word _, .node goal] => some (.branch (.unconditional goal) none)
  | .oneArm, [.word _, .node goal, .number bit] => some (.branch (.oneArm bit goal) none)
  | .twoArms, [.word position, .node first, .number bit, .word _, .node second, .number other] =>
    some (.branch (.twoArms bit first second) (if bit = other then some position else none))
  | .assignVariable, [.node (.variable address), .word _, .node source] =>
    some (.node (.assignment address .absent source))
  | .assignComputed, [.node place, .word _, .node source] =>
    some (.node (.assignment .null place source))
  | .print, [.word _, .number bit] => some (.node (.print bit))
  | .read, [.word _] => some (.node .read)
  | .commandInstruction, [.node inner] => some (.node inner)
  | .assignmentInstruction, [.node inner] => some (.node inner)
  | .plainLine, [.word position, .number number, .word _, .node instruction] =>
    some (.line ⟨⟨number, instruction, .absent, position⟩, none⟩)
  | .branchingLine, [.word position, .number number, .word _, .node instruction,
      .branch branch clash] =>
    some (.line ⟨⟨number, instruction, branch, position⟩, clash⟩)
  | .firstLine, [.line draft] => some (.lines [draft])
  | .nextLine, [.lines drafts, .line draft] => some (.lines (draft :: drafts))
  | .program, [.lines drafts] => some (.lines drafts)
  | _, _ => none

end Production

end BitMachine.Automaton
