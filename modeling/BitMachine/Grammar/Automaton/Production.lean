import BitMachine.Grammar.Keyword

/-! The productions of the language, for reading programs from the bottom up.

A place that an assignment computes has productions of its own, because it must not start with a
variable. -/

set_option autoImplicit false

namespace BitMachine.Automaton

inductive Nonterminal where
  | program
  | lines
  | line
  | instruction
  | command
  | assignment
  | branch
  | goal
  | marker
  | condition
  | expression
  | operand
  | beyondOperand
  | atOperand
  | primary
  | computedPlace
  | placeOperand
  | placeBeyond
  | placeAt
  | placePrimary
  | variable
  | bits
  | run
  | bit
deriving DecidableEq, Repr

/-- A keyword or the name of a phrase. -/
inductive Symbol where
  | word (keyword : Keyword)
  | phrase (name : Nonterminal)
deriving DecidableEq, Repr

inductive Production where
  | program
  | firstLine
  | nextLine
  | plainLine
  | branchingLine
  | commandInstruction
  | assignmentInstruction
  | print
  | read
  | assignVariable
  | assignComputed
  | jump
  | oneArm
  | twoArms
  | directGoal
  | markedGoal
  | marker
  | condition
  | longCondition
  | singleOperand
  | nand
  | plainOperand
  | addressOf
  | plainBeyond
  | valueBeyond
  | plainAt
  | valueAt
  | variablePrimary
  | constantPrimary
  | parenthesized
  | singlePlace
  | nandPlace
  | plainPlaceOperand
  | addressOfPlace
  | plainPlaceBeyond
  | valueBeyondPlace
  | plainPlaceAt
  | valueAtPlace
  | constantPlace
  | parenthesizedPlace
  | cell
  | register
  | bits
  | firstBit
  | nextBit
  | zero
  | one
deriving DecidableEq, Repr

namespace Production

def lhs : Production → Nonterminal
  | .program => .program
  | .firstLine | .nextLine => .lines
  | .plainLine | .branchingLine => .line
  | .commandInstruction | .assignmentInstruction => .instruction
  | .print | .read => .command
  | .assignVariable | .assignComputed => .assignment
  | .jump | .oneArm | .twoArms => .branch
  | .directGoal | .markedGoal => .goal
  | .marker => .marker
  | .condition | .longCondition => .condition
  | .singleOperand | .nand => .expression
  | .plainOperand | .addressOf => .operand
  | .plainBeyond | .valueBeyond => .beyondOperand
  | .plainAt | .valueAt => .atOperand
  | .variablePrimary | .constantPrimary | .parenthesized => .primary
  | .singlePlace | .nandPlace => .computedPlace
  | .plainPlaceOperand | .addressOfPlace => .placeOperand
  | .plainPlaceBeyond | .valueBeyondPlace => .placeBeyond
  | .plainPlaceAt | .valueAtPlace => .placeAt
  | .constantPlace | .parenthesizedPlace => .placePrimary
  | .cell | .register => .variable
  | .bits => .bits
  | .firstBit | .nextBit => .run
  | .zero | .one => .bit

def rhs : Production → List Symbol
  | .program => [.phrase .lines]
  | .firstLine => [.phrase .line]
  | .nextLine => [.phrase .lines, .phrase .line]
  | .plainLine => [.word .lineNumber, .phrase .bits, .word .code, .phrase .instruction]
  | .branchingLine =>
    [.word .lineNumber, .phrase .bits, .word .code, .phrase .instruction, .phrase .branch]
  | .commandInstruction => [.phrase .command]
  | .assignmentInstruction => [.phrase .assignment]
  | .print => [.word .print, .phrase .bit]
  | .read => [.word .read]
  | .assignVariable => [.phrase .variable, .word .equals, .phrase .expression]
  | .assignComputed => [.phrase .computedPlace, .word .equals, .phrase .expression]
  | .jump => [.word .goto, .phrase .goal]
  | .oneArm => [.word .goto, .phrase .goal, .phrase .condition]
  | .twoArms =>
    [.word .goto, .phrase .goal, .phrase .condition, .word .goto, .phrase .goal, .phrase .condition]
  | .directGoal => [.phrase .bits]
  | .markedGoal => [.phrase .marker, .phrase .bits]
  | .marker => [.word .variable]
  | .condition => [.word .ifTheJumpRegisterIs, .phrase .bit]
  | .longCondition => [.word .ifTheJumpRegisterIs, .word .equalTo, .phrase .bit]
  | .singleOperand => [.phrase .operand]
  | .nand => [.phrase .operand, .word .nand, .phrase .operand]
  | .plainOperand => [.phrase .beyondOperand]
  | .addressOf => [.word .theAddressOf, .phrase .beyondOperand]
  | .plainBeyond => [.phrase .atOperand]
  | .valueBeyond => [.word .theValueBeyond, .phrase .atOperand]
  | .plainAt => [.phrase .primary]
  | .valueAt => [.word .theValueAt, .phrase .primary]
  | .variablePrimary => [.phrase .variable]
  | .constantPrimary => [.phrase .bits]
  | .parenthesized => [.word .openParenthesis, .phrase .expression, .word .closeParenthesis]
  | .singlePlace => [.phrase .placeOperand]
  | .nandPlace => [.phrase .placeOperand, .word .nand, .phrase .operand]
  | .plainPlaceOperand => [.phrase .placeBeyond]
  | .addressOfPlace => [.word .theAddressOf, .phrase .beyondOperand]
  | .plainPlaceBeyond => [.phrase .placeAt]
  | .valueBeyondPlace => [.word .theValueBeyond, .phrase .atOperand]
  | .plainPlaceAt => [.phrase .placePrimary]
  | .valueAtPlace => [.word .theValueAt, .phrase .primary]
  | .constantPlace => [.phrase .bits]
  | .parenthesizedPlace => [.word .openParenthesis, .phrase .expression, .word .closeParenthesis]
  | .cell => [.word .variable, .phrase .bits]
  | .register => [.word .theJumpRegister]
  | .bits => [.phrase .run]
  | .firstBit => [.phrase .bit]
  | .nextBit => [.phrase .run, .phrase .bit]
  | .zero => [.word .zero]
  | .one => [.word .one]

end Production

end BitMachine.Automaton
