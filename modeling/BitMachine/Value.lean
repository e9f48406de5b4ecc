import BitMachine.Json.Number

/-! Values of the machine: a magnitude with a kind. -/

set_option autoImplicit false

namespace BitMachine

/-- What a magnitude stands for. A literal has no kind of its own until an operator or a store
gives it one. -/
inductive Kind where
  | undefined
  | bit
  | address
deriving DecidableEq, Repr, Inhabited

namespace Kind

def name : Kind → String
  | .undefined => "UNDEFINED"
  | .bit => "BIT"
  | .address => "ADDRESS_OF_A_BIT"

/-- The number of a kind, with which magnitudes are compared where kinds are not looked at. -/
def code : Kind → Int
  | .undefined => 0
  | .bit => 1
  | .address => 2

def all : List Kind :=
  [.undefined, .bit, .address]

def ofName? (name : String) : Option Kind :=
  all.find? (·.name == name)

end Kind

/-- A memory cell's content, or the result of an expression. A magnitude is a whole number unless a
graph brought in something else, which is carried along as it is. -/
structure Value where
  magnitude : Json := .int 0
  kind : Kind := .undefined
deriving DecidableEq, Repr, Inhabited

namespace Value

abbrev undefined (magnitude : Json) : Value := ⟨magnitude, .undefined⟩

abbrev bit (magnitude : Json) : Value := ⟨magnitude, .bit⟩

abbrev address (magnitude : Json) : Value := ⟨magnitude, .address⟩

def isAddress (value : Value) : Bool :=
  value.kind == .address

def isBit (value : Value) : Bool :=
  value.kind == .bit

/-- A value in a trace: addresses are marked `&`, values without a kind `?`. -/
def render? (value : Value) : Option String :=
  match value.kind with
  | .address => value.magnitude.display?.map ("&" ++ ·)
  | .bit => value.magnitude.display?
  | .undefined => value.magnitude.display?.map ("?" ++ ·)

def describe? (value : Value) : Option String :=
  value.magnitude.display?.map (value.kind.name ++ "(" ++ · ++ ")")

end Value

def isLegalBit (magnitude : Json) : Bool :=
  magnitude.is 0 || magnitude.is 1

end BitMachine
