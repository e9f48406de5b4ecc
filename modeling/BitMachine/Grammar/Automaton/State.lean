import BitMachine.Grammar.Automaton.Production

/-! The states of the automaton that reads programs from the bottom up, with one keyword of
lookahead. A state is named for what has just been read: a keyword, a phrase, or the part of a
production up to it. -/

set_option autoImplicit false

namespace BitMachine.Automaton

inductive State where
  | start
  | accepted
  | lines
  | firstLine
  | linesLine
  | lineNumber
  | lineNumberBits
  | code
  | codeInstruction
  | lineBranch
  | command
  | assignment
  | print
  | printBit
  | read
  | assignedVariable
  | variableEquals
  | variableEqualsExpression
  | computedPlace
  | computedEquals
  | computedEqualsExpression
  | placeOperand
  | placeNand
  | placeNandOperand
  | placeBeyond
  | placeTheAddressOf
  | placeAddressOfOperand
  | placeAt
  | placeTheValueBeyond
  | placeValueBeyondOperand
  | placePrimary
  | placeTheValueAt
  | placeValueAtPrimary
  | placeBits
  | placeOpen
  | placeOpenExpression
  | placeClosed
  | operand
  | operandNand
  | operandNandOperand
  | beyondOperand
  | theAddressOf
  | addressOfOperand
  | atOperand
  | theValueBeyond
  | valueBeyondOperand
  | primary
  | theValueAt
  | valueAtPrimary
  | primaryVariable
  | primaryBits
  | openParenthesis
  | openExpression
  | closed
  | variableKeyword
  | variableBits
  | theJumpRegister
  | goto
  | gotoGoal
  | gotoGoalCondition
  | secondGoto
  | secondGoal
  | secondCondition
  | goalBits
  | markerKeyword
  | marker
  | markerBits
  | ifTheJumpRegisterIs
  | ifBit
  | ifEqualTo
  | ifEqualToBit
  | run
  | runBit
  | firstBit
  | zero
  | one
deriving DecidableEq, Repr

/-- The keyword that comes next, or none at the end of the text. -/
abbrev Lookahead := Option Keyword

namespace State

section Shifts

/-! The keywords with which a phrase may start, and the states that they lead to. -/

def bitShifts : List (Keyword × State) :=
  [(.one, .one), (.zero, .zero)]

def primaryShifts : List (Keyword × State) :=
  bitShifts ++ [(.openParenthesis, .openParenthesis), (.theJumpRegister, .theJumpRegister),
    (.variable, .variableKeyword)]

def atShifts : List (Keyword × State) :=
  primaryShifts ++ [(.theValueAt, .theValueAt)]

def beyondShifts : List (Keyword × State) :=
  atShifts ++ [(.theValueBeyond, .theValueBeyond)]

def operandShifts : List (Keyword × State) :=
  beyondShifts ++ [(.theAddressOf, .theAddressOf)]

end Shifts

/-- The keywords that may follow in a state, and the states that they lead to. -/
def shifts : State → List (Keyword × State)
  | .start | .lines => [(.lineNumber, .lineNumber)]
  | .lineNumber => bitShifts
  | .lineNumberBits => [(.code, .code)]
  | .code =>
    bitShifts ++ [(.openParenthesis, .placeOpen), (.print, .print), (.read, .read),
      (.theAddressOf, .placeTheAddressOf), (.theJumpRegister, .theJumpRegister),
      (.theValueAt, .placeTheValueAt), (.theValueBeyond, .placeTheValueBeyond),
      (.variable, .variableKeyword)]
  | .codeInstruction => [(.goto, .goto)]
  | .print => bitShifts
  | .assignedVariable => [(.equals, .variableEquals)]
  | .variableEquals | .computedEquals => operandShifts
  | .computedPlace => [(.equals, .computedEquals)]
  | .placeOperand => [(.nand, .placeNand)]
  | .placeNand | .operandNand => operandShifts
  | .placeTheAddressOf | .theAddressOf => beyondShifts
  | .placeTheValueBeyond | .theValueBeyond => atShifts
  | .placeTheValueAt | .theValueAt => primaryShifts
  | .placeOpen | .openParenthesis => operandShifts
  | .placeOpenExpression => [(.closeParenthesis, .placeClosed)]
  | .openExpression => [(.closeParenthesis, .closed)]
  | .operand => [(.nand, .operandNand)]
  | .variableKeyword => bitShifts
  | .goto | .secondGoto => bitShifts ++ [(.variable, .markerKeyword)]
  | .gotoGoal | .secondGoal => [(.ifTheJumpRegisterIs, .ifTheJumpRegisterIs)]
  | .gotoGoalCondition => [(.goto, .secondGoto)]
  | .marker => bitShifts
  | .ifTheJumpRegisterIs => bitShifts ++ [(.equalTo, .ifEqualTo)]
  | .ifEqualTo => bitShifts
  | .run => bitShifts
  | _ => []

section Followers

/-! What may come after a finished phrase. -/

def lineEnd : List Lookahead :=
  [none, some .lineNumber]

def instructionEnd : List Lookahead :=
  lineEnd ++ [some .goto]

def placeEnd : List Lookahead :=
  [some .equals, some .nand]

def expressionEnd : List Lookahead :=
  instructionEnd ++ [some .closeParenthesis]

def operandEnd : List Lookahead :=
  expressionEnd ++ placeEnd

def goalEnd : List Lookahead :=
  lineEnd ++ [some .ifTheJumpRegisterIs]

def bitsEnd : List Lookahead :=
  operandEnd ++ [some .code, some .ifTheJumpRegisterIs]

def bitEnd : List Lookahead :=
  bitsEnd ++ [some .one, some .zero]

end Followers

/-- The production that is complete in a state, and the lookaheads under which it is applied. -/
def reduction? : State → Option (Production × List Lookahead)
  | .lines => some (.program, [none])
  | .firstLine => some (.firstLine, lineEnd)
  | .linesLine => some (.nextLine, lineEnd)
  | .codeInstruction => some (.plainLine, lineEnd)
  | .lineBranch => some (.branchingLine, lineEnd)
  | .command => some (.commandInstruction, instructionEnd)
  | .assignment => some (.assignmentInstruction, instructionEnd)
  | .printBit => some (.print, instructionEnd)
  | .read => some (.read, instructionEnd)
  | .variableEqualsExpression => some (.assignVariable, instructionEnd)
  | .computedEqualsExpression => some (.assignComputed, instructionEnd)
  | .placeOperand => some (.singlePlace, [some .equals])
  | .placeNandOperand => some (.nandPlace, [some .equals])
  | .placeBeyond => some (.plainPlaceOperand, placeEnd)
  | .placeAddressOfOperand => some (.addressOfPlace, placeEnd)
  | .placeAt => some (.plainPlaceBeyond, placeEnd)
  | .placeValueBeyondOperand => some (.valueBeyondPlace, placeEnd)
  | .placePrimary => some (.plainPlaceAt, placeEnd)
  | .placeValueAtPrimary => some (.valueAtPlace, placeEnd)
  | .placeBits => some (.constantPlace, placeEnd)
  | .placeClosed => some (.parenthesizedPlace, placeEnd)
  | .operand => some (.singleOperand, expressionEnd)
  | .operandNandOperand => some (.nand, expressionEnd)
  | .beyondOperand => some (.plainOperand, operandEnd)
  | .addressOfOperand => some (.addressOf, operandEnd)
  | .atOperand => some (.plainBeyond, operandEnd)
  | .valueBeyondOperand => some (.valueBeyond, operandEnd)
  | .primary => some (.plainAt, operandEnd)
  | .valueAtPrimary => some (.valueAt, operandEnd)
  | .primaryVariable => some (.variablePrimary, operandEnd)
  | .primaryBits => some (.constantPrimary, operandEnd)
  | .closed => some (.parenthesized, operandEnd)
  | .variableBits => some (.cell, operandEnd)
  | .theJumpRegister => some (.register, operandEnd)
  | .gotoGoal => some (.jump, lineEnd)
  | .gotoGoalCondition => some (.oneArm, lineEnd)
  | .secondCondition => some (.twoArms, lineEnd)
  | .goalBits => some (.directGoal, goalEnd)
  | .markerKeyword => some (.marker, [some .one, some .zero])
  | .markerBits => some (.markedGoal, goalEnd)
  | .ifBit => some (.condition, instructionEnd)
  | .ifEqualToBit => some (.longCondition, instructionEnd)
  | .run => some (.bits, bitsEnd)
  | .runBit => some (.nextBit, bitEnd)
  | .firstBit => some (.firstBit, bitEnd)
  | .zero => some (.zero, bitEnd)
  | .one => some (.one, bitEnd)
  | _ => none

section Gotos

/-! Where finished phrases lead. Each list takes the state behind its outermost phrase. -/

def bitsGotos (behind : State) : List (Nonterminal × State) :=
  [(.run, .run), (.bit, .firstBit), (.bits, behind)]

def primaryGotos (behind : State) : List (Nonterminal × State) :=
  bitsGotos .primaryBits ++ [(.variable, .primaryVariable), (.primary, behind)]

def atGotos (behind : State) : List (Nonterminal × State) :=
  primaryGotos .primary ++ [(.atOperand, behind)]

def beyondGotos (behind : State) : List (Nonterminal × State) :=
  atGotos .atOperand ++ [(.beyondOperand, behind)]

def operandGotos (behind : State) : List (Nonterminal × State) :=
  beyondGotos .beyondOperand ++ [(.operand, behind)]

def expressionGotos (behind : State) : List (Nonterminal × State) :=
  operandGotos .operand ++ [(.expression, behind)]

end Gotos

/-- Where a phrase that was started in a state leads once it is finished. -/
def gotos : State → List (Nonterminal × State)
  | .start => [(.lines, .lines), (.line, .firstLine), (.program, .accepted)]
  | .lines => [(.line, .linesLine)]
  | .lineNumber => bitsGotos .lineNumberBits
  | .code =>
    bitsGotos .placeBits ++ [(.instruction, .codeInstruction), (.command, .command),
      (.assignment, .assignment), (.variable, .assignedVariable),
      (.computedPlace, .computedPlace), (.placeOperand, .placeOperand),
      (.placeBeyond, .placeBeyond), (.placeAt, .placeAt), (.placePrimary, .placePrimary)]
  | .codeInstruction => [(.branch, .lineBranch)]
  | .print => [(.bit, .printBit)]
  | .variableEquals => expressionGotos .variableEqualsExpression
  | .computedEquals => expressionGotos .computedEqualsExpression
  | .placeNand => operandGotos .placeNandOperand
  | .placeTheAddressOf => beyondGotos .placeAddressOfOperand
  | .placeTheValueBeyond => atGotos .placeValueBeyondOperand
  | .placeTheValueAt => primaryGotos .placeValueAtPrimary
  | .placeOpen => expressionGotos .placeOpenExpression
  | .operandNand => operandGotos .operandNandOperand
  | .theAddressOf => beyondGotos .addressOfOperand
  | .theValueBeyond => atGotos .valueBeyondOperand
  | .theValueAt => primaryGotos .valueAtPrimary
  | .openParenthesis => expressionGotos .openExpression
  | .variableKeyword => bitsGotos .variableBits
  | .goto => bitsGotos .goalBits ++ [(.marker, .marker), (.goal, .gotoGoal)]
  | .gotoGoal => [(.condition, .gotoGoalCondition)]
  | .secondGoto => bitsGotos .goalBits ++ [(.marker, .marker), (.goal, .secondGoal)]
  | .secondGoal => [(.condition, .secondCondition)]
  | .marker => bitsGotos .markerBits
  | .ifTheJumpRegisterIs => [(.bit, .ifBit)]
  | .ifEqualTo => [(.bit, .ifEqualToBit)]
  | .run => [(.bit, .runBit)]
  | _ => []

def lookaheads (state : State) : List Lookahead :=
  state.shifts.map (some ·.1) ++ ((state.reduction?.map (·.2)).getD [])

def keywords (state : State) : List Keyword :=
  state.lookaheads.filterMap id

end State

end BitMachine.Automaton
