import BitMachine.Machine.Basic
import BitMachine.Integer

/-! Evaluating expressions. -/

set_option autoImplicit false

namespace BitMachine

namespace Options

/-- Whether an operator takes a value for an address. -/
def holdsAddress (options : Options) (value : Value) : Bool :=
  if options.magnitudeGuards then value.magnitude.is Kind.address.code else value.isAddress

def refusesToFollow (options : Options) (value : Value) : Bool :=
  if options.magnitudeGuards then value.magnitude.is Kind.bit.code else !value.isAddress

end Options

namespace Action

/-- The result of an operation on numbers, which fails on what is none. -/
def needed {α : Type} : Option α → Action α
  | some result => pure result
  | none => throw .unsuitable

def variableValue (address : Json) : Action Value := do
  if ← needed (address.atLeast? registerAddress) then load address
  else throw (.illegalAddress address)

def nandValue (options : Options) (left right : Value) : Action Value := do
  if options.holdsAddress left || options.holdsAddress right then throw .nandOfAddress
  let first ← needed left.magnitude.whole?
  let second ← needed right.magnitude.whole?
  return .bit (.int (Integer.nand first second))

/-- The address that a bit value names. -/
def addressValue (options : Options) (value : Value) : Action Value := do
  if options.holdsAddress value then throw .addressOfAddress
  if options.magnitudeGuards && value.magnitude.is registerAddress then throw .addressOfRegister
  if ← needed (value.magnitude.below? 0) then throw (.invalidAddress value.magnitude)
  return .address value.magnitude

/-- The content of the cell at an address, or of the one beyond it. -/
def follow (options : Options) (operator : Dereference) (value : Value) : Action Value := do
  if options.refusesToFollow value then throw (.dereferenceOfBit operator)
  if ← needed (value.magnitude.below? 0) then throw (.invalidAddress value.magnitude)
  let content ← load (← needed (value.magnitude.plus? operator.offset))
  if options.holdsAddress content then throw .addressInVariable
  return content

def isRegister : Node → Bool
  | .variable address => address.is registerAddress
  | _ => false

/-- The value of a node, given how its parts are evaluated. -/
def evaluateOver (options : Options) (evaluate : Node → Action Value) : Node → Action Value
  | .constant magnitude => pure (.undefined magnitude)
  | .variable address => variableValue address
  | .nand left .absent => evaluate left
  | .nand left right => do
    let first ← evaluate left
    let second ← evaluate right
    nandValue options first second
  | .addressOf child => do
    if !options.magnitudeGuards && isRegister child then throw .addressOfRegister
    addressValue options (← evaluate child)
  | .valueBeyond child => do follow options .valueBeyond (← evaluate child)
  | .valueAt child => do follow options .valueAt (← evaluate child)
  | node => throw (.cannotEvaluate node.kindName)

/-- How many calls are under way when the parts of a node are evaluated: one for the node, one for its
kind, and one more for an operator that makes or follows an address. -/
def callsOf : Node → Nat
  | .addressOf _ | .valueBeyond _ | .valueAt _ => 3
  | _ => 2

def remark (options : Options) (node : Node) (value : Value) : Action Value := do
  record options (.evaluate node.kindName value)
  return value

/-- The value of an expression when so many calls are left. -/
def evaluateWithin (options : Options) : Nat → Node → Action Value
  | frames + 3, node =>
    evaluateOver options
      (if callsOf node = 3 then evaluateWithin options frames
        else evaluateWithin options (frames + 1)) node >>= remark options node
  | 2, node =>
    if callsOf node = 3 then throw (.nestedTooDeeply none)
    else evaluateOver options (fun _ => throw (.nestedTooDeeply none)) node >>= remark options node
  | _, _ => throw (.nestedTooDeeply none)

def evaluate (options : Options) (node : Node) : Action Value :=
  evaluateWithin options options.frames node

end Action

end BitMachine
