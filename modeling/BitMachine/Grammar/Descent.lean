import BitMachine.Grammar.Cursor
import BitMachine.Graph.Basic
import BitMachine.Memory

/-! Reading programs by descent: one reader for each phrase of the language, the loosest first. -/

set_option autoImplicit false

namespace BitMachine.Descent

/-- How many expressions may stand inside one another. -/
def nestingLimit : Nat := 195

def bit : Reader Nat := do
  if ← Reader.seesKeyword .zero then
    Reader.keyword .zero
    return 0
  if ← Reader.seesKeyword .one then
    Reader.keyword .one
    return 1
  Reader.fail "Bit constant"

def seesBit : Reader Bool := do
  if ← Reader.seesKeyword .zero then return true
  Reader.seesKeyword .one

/-- Further bits of a number, at most `fuel` of them. -/
def moreBits : Nat → Nat → Reader Nat
  | 0, value => return value
  | fuel + 1, value => do
    if ← seesBit then
      let next ← bit
      moreBits fuel (2 * value + next)
    else
      return value

/-- A number: one or more bits, the most significant first. -/
def bits : Reader Nat := do
  let first ← bit
  let cursor ← get
  moreBits cursor.rest.length first

/-- The address of a cell or of the jump register. -/
def place : Reader Int := do
  if ← Reader.seesKeyword .variable then
    Reader.keyword .variable
    return (← bits)
  if ← Reader.seesKeyword .theJumpRegister then
    Reader.keyword .theJumpRegister
    return registerAddress
  Reader.fail "Variable"

def variableNode : Reader Node :=
  return .variable (← place)

def seesVariable : Reader Bool := do
  if ← Reader.seesKeyword .variable then return true
  Reader.seesKeyword .theJumpRegister

section Operators

/-! The layers of an expression, given a reader for what stands in parentheses. -/

def primaryOver (inner : Reader Node) : Reader Node := do
  if ← seesVariable then
    return ← variableNode
  if ← seesBit then
    return .constant (← bits)
  if ← Reader.seesKeyword .openParenthesis then
    Reader.keyword .openParenthesis
    let node ← inner
    Reader.keyword .closeParenthesis
    return node
  Reader.fail "Expression"

def valueAtOver (inner : Reader Node) : Reader Node := do
  if ← Reader.seesKeyword .theValueAt then
    Reader.keyword .theValueAt
    return .valueAt (← primaryOver inner)
  primaryOver inner

def valueBeyondOver (inner : Reader Node) : Reader Node := do
  if ← Reader.seesKeyword .theValueBeyond then
    Reader.keyword .theValueBeyond
    return .valueBeyond (← valueAtOver inner)
  valueAtOver inner

def addressOfOver (inner : Reader Node) : Reader Node := do
  if ← Reader.seesKeyword .theAddressOf then
    Reader.keyword .theAddressOf
    return .addressOf (← valueBeyondOver inner)
  valueBeyondOver inner

def expressionOver (inner : Reader Node) : Reader Node := do
  let left ← addressOfOver inner
  if ← Reader.seesKeyword .nand then
    Reader.keyword .nand
    return .nand left (← addressOfOver inner)
  return left

end Operators

/-- An expression with at most `depth` more levels of parentheses around it. -/
def expressionWithin : Nat → Reader Node
  | 0 => do throw ⟨.nestedTooDeeply, (← get).position⟩
  | depth + 1 => expressionOver (expressionWithin depth)

def expression : Reader Node :=
  expressionWithin nestingLimit

def primary : Reader Node :=
  primaryOver (expressionWithin (nestingLimit - 1))

def valueAt : Reader Node :=
  valueAtOver (expressionWithin (nestingLimit - 1))

def valueBeyond : Reader Node :=
  valueBeyondOver (expressionWithin (nestingLimit - 1))

def addressOf : Reader Node :=
  addressOfOver (expressionWithin (nestingLimit - 1))

/-- The register value a branch asks for. -/
def condition : Reader Nat := do
  Reader.keyword .ifTheJumpRegisterIs
  if ← Reader.seesKeyword .equalTo then
    Reader.keyword .equalTo
  bit

def target : Reader Node := do
  if ← Reader.seesKeyword .variable then
    Reader.keyword .variable
    return .target (← bits) (.bool true)
  return .target (← bits) (.bool false)

/-- What comes after an instruction. Two conditions must ask for different bits. -/
def branch : Reader Node := do
  Reader.keyword .goto
  let first ← target
  if !(← Reader.seesKeyword .ifTheJumpRegisterIs) then
    return .unconditional first
  let asked ← condition
  if ← Reader.seesKeyword .goto then
    Reader.keyword .goto
    let second ← target
    let position ← Reader.skipBlanks
    let other ← condition
    if other = asked then
      throw ⟨.unexpected ["Conditional goto with different bit constant"], position⟩
    return .twoArms asked first second
  return .oneArm asked first

/-- A place and the expression it receives. A place that starts with a variable is that variable. -/
def assignment : Reader Node := do
  if ← seesVariable then
    let address ← place
    Reader.keyword .equals
    return .assignment address .absent (← expression)
  let computed ← expression
  Reader.keyword .equals
  return .assignment .null computed (← expression)

def command : Reader Node := do
  if ← Reader.seesKeyword .print then
    Reader.keyword .print
    return .print (← bit)
  if ← Reader.seesKeyword .read then
    Reader.keyword .read
    return .read
  Reader.fail "Command"

def instruction : Reader Node := do
  if ← Reader.seesKeyword .print then
    return ← command
  if ← Reader.seesKeyword .read then
    return ← command
  assignment

def line : Reader Line := do
  let position ← Reader.skipBlanks
  Reader.keyword .lineNumber
  let number ← bits
  Reader.keyword .code
  let content ← instruction
  if ← Reader.seesKeyword .goto then
    return ⟨number, content, ← branch, position⟩
  return ⟨number, content, .absent, position⟩

/-- Further lines of a program, at most `fuel` of them. No two lines have one number. -/
def moreLines : Nat → List Line → Reader (List Line)
  | 0, lines => return lines
  | fuel + 1, lines => do
    if ← Reader.seesKeyword .lineNumber then
      let next ← line
      if lines.any (·.number.same next.number) then
        throw ⟨.duplicateLine next.number, next.start⟩
      moreLines fuel (lines ++ [next])
    else
      return lines

/-- A whole text: one or more lines and nothing after them. -/
def program : Reader Program := do
  let first ← line
  let cursor ← get
  let lines ← moreLines cursor.rest.length [first]
  if !(← get).atEnd then
    Reader.fail Keyword.lineNumber.spelling
  modify Cursor.skipBlanks
  return ⟨first.number, lines⟩

inductive Phrase where
  | bit
  | bits
  | variable
  | primary
  | valueAt
  | valueBeyond
  | addressOf
  | expression
  | condition
  | target
  | branch
  | assignment
  | command
  | instruction
  | line
  | program
deriving DecidableEq, Repr

inductive Meaning where
  | number (value : Nat)
  | node (value : Node)

def phrase : Phrase → Reader Meaning
  | .bit => .number <$> bit
  | .bits => .number <$> bits
  | .variable => .node <$> variableNode
  | .primary => .node <$> primary
  | .valueAt => .node <$> valueAt
  | .valueBeyond => .node <$> valueBeyond
  | .addressOf => .node <$> addressOf
  | .expression => .node <$> expression
  | .condition => .number <$> condition
  | .target => .node <$> target
  | .branch => .node <$> branch
  | .assignment => .node <$> assignment
  | .command => .node <$> command
  | .instruction => .node <$> instruction
  | .line => (fun content => .node (.line content)) <$> line
  | .program => (fun whole => .node whole.toNode) <$> program

def parse (source : String) : Except Rejection Program :=
  match program (.ofString source) with
  | .ok whole _ => .ok whole
  | .error rejection _ => .error rejection

end BitMachine.Descent
