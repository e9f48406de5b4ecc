import BitMachine.Json.Basic

/-! Faults: why a program stops without halting. -/

set_option autoImplicit false

namespace BitMachine

/-- The operators that follow an address. -/
inductive Dereference where
  | valueAt
  | valueBeyond
deriving DecidableEq, Repr

namespace Dereference

def name : Dereference → String
  | .valueAt => "THE VALUE AT"
  | .valueBeyond => "THE VALUE BEYOND"

/-- How far behind the address the operator looks. -/
def offset : Dereference → Int
  | .valueAt => 0
  | .valueBeyond => 1

end Dereference

/-- Why execution failed. -/
inductive Fault where
  /-- A value of kind bit that is neither 0 nor 1 was to be stored. -/
  | illegalValue (magnitude : Json)
  | illegalRegisterValue (magnitude : Json)
  | addressInRegister
  | invalidAddress (address : Json)
  | illegalAddress (address : Json)
  | targetNotAddress
  | nandOfAddress
  | addressOfAddress
  | addressOfRegister
  | dereferenceOfBit (operator : Dereference)
  | addressInVariable
  | noMoreInput
  | invalidInput
  | invalidInputBit (character : Char)
  | stepLimit (limit : Json)
  | missingLine (number : Json)
  | cannotExecute (node : String)
  | cannotEvaluate (node : String)
  | cannotBranch (node : String)
  /-- An expression is deeper than the machine evaluates; the line is known once a run is. -/
  | nestedTooDeeply (line : Option Json)
  /-- A value is not of the sort that an operation needs: no number, no whole number, or nothing to
  look up by. -/
  | unsuitable
  /-- A branch leads to something that is no target. -/
  | missingTarget
  /-- Eight bits spell no character. -/
  | noCharacter (code : Int)
  /-- A number is too long to be traced or put out. -/
  | unwritable
  /-- There is no program to run, or it lacks its first line. -/
  | missingProgram
  /-- The run was given up before it ended. -/
  | unfinished
deriving DecidableEq, Repr

namespace Fault

/-- The wording of a fault. A defect of the program graph itself, or of an output that cannot be put
out, has none; nor has a fault that is about a number which is too long to be written. -/
def message? : Fault → Option String
  | .illegalValue magnitude => magnitude.display?.map ("Illegal value: " ++ ·)
  | .illegalRegisterValue magnitude =>
    magnitude.display?.map ("Illegal value for the jump register: " ++ ·)
  | .addressInRegister => some "The jump register can't store address-of-a-bit values."
  | .invalidAddress address => address.display?.map ("Invalid memory address: " ++ · ++ ".")
  | .illegalAddress address => address.display?.map ("Illegal address: " ++ · ++ ".")
  | .targetNotAddress => some "The assignment target must be an address-of-a-bit value."
  | .nandOfAddress => some "The NAND operator requires bit values."
  | .addressOfAddress => some "The THE ADDRESS OF operator requires a bit value."
  | .addressOfRegister =>
    some "The THE ADDRESS OF operator can't be used with the jump register."
  | .dereferenceOfBit operator =>
    some ("The " ++ operator.name ++ " operator requires an address-of-a-bit value.")
  | .addressInVariable => some "Variable must contain a bit value."
  | .noMoreInput => some "No more input to read."
  | .invalidInput => some "Invalid value read."
  | .invalidInputBit character =>
    some ("Invalid input bit " ++ Text.quoted (String.singleton character) ++ ".")
  | .stepLimit limit => limit.display?.map ("Step limit of " ++ · ++ " lines exceeded.")
  | .missingLine number => number.display?.map ("No line exists with number " ++ · ++ ".")
  | .cannotExecute node => some ("cannot execute " ++ node)
  | .cannotEvaluate node => some ("cannot evaluate " ++ node)
  | .cannotBranch node => some ("cannot branch with " ++ node)
  | .nestedTooDeeply (some line) =>
    line.display?.map ("Expression nested too deeply in line " ++ · ++ ".")
  | .nestedTooDeeply none | .unsuitable | .missingTarget | .noCharacter _ | .unwritable
  | .missingProgram | .unfinished => none

/-- Whether users are told of a fault in words, if these can be written. -/
def isTold : Fault → Bool
  | .nestedTooDeeply none | .unsuitable | .missingTarget | .noCharacter _ | .unwritable
  | .missingProgram | .unfinished => false
  | _ => true

/-- The value that the wording of a fault shows. -/
def subject? : Fault → Option Json
  | .illegalValue value | .illegalRegisterValue value | .invalidAddress value
  | .illegalAddress value | .stepLimit value | .missingLine value => some value
  | .nestedTooDeeply line => line
  | _ => none

/-- A fault is worded if users are told of such faults, and the value that is shown can be. -/
theorem isSome_message? (fault : Fault) :
    fault.message?.isSome = (fault.isTold && fault.subject?.all (·.display?.isSome)) := by
  cases fault with
  | nestedTooDeeply line => cases line <;> simp [message?, isTold, subject?]
  | _ => simp [message?, isTold, subject?]

end Fault

end BitMachine
