import BitMachine.Value
import BitMachine.Fault

/-! Memory: a cell for every number that is not negative, made on first use, and the jump register. -/

set_option autoImplicit false

namespace BitMachine

/-- The address under which the jump register is read and written. -/
def registerAddress : Int := -1

/-- The cells that exist, oldest first, and the jump register, which stands outside them. Equal
addresses lead to the same cell, which keeps the address that it was made with. -/
structure Memory where
  cells : List (Json × Value) := []
  register : Json := .int 0
deriving DecidableEq, Repr

namespace Memory

def find? (memory : Memory) (address : Json) : Option (Json × Value) :=
  memory.cells.find? (·.1.same address)

/-- What a cell holds; one that does not exist holds an undefined 0. -/
def cell (memory : Memory) (address : Json) : Value :=
  ((memory.find? address).map (·.2)).getD {}

/-- Makes a cell exist. -/
def touch (memory : Memory) (address : Json) : Memory :=
  if (memory.find? address).isSome then memory
  else { memory with cells := memory.cells ++ [(address, {})] }

/-- Fills the cell at an address, which is the last one if there was none. -/
def put (address : Json) (value : Value) : List (Json × Value) → List (Json × Value)
  | [] => [(address, value)]
  | (place, old) :: rest =>
    if place.same address then (place, value) :: rest else (place, old) :: put address value rest

def size (memory : Memory) : Nat :=
  memory.cells.length

/-- Whether an address can be read without making a cell. -/
def contains (memory : Memory) (address : Json) : Except Fault Bool :=
  if address.is registerAddress then .ok true
  else if address.isKey then .ok (memory.find? address).isSome
  else .error .unsuitable

def isCellAddress (address : Json) : Except Fault Bool :=
  match address.atLeast? 0 with
  | some isCell => .ok isCell
  | none => .error .unsuitable

/-- Reads an address, and makes its cell if there is none. -/
def read (memory : Memory) (address : Json) : Except Fault (Value × Memory) := do
  if address.is registerAddress then return (.bit memory.register, memory)
  else if ← isCellAddress address then return (memory.cell address, memory.touch address)
  else throw (.invalidAddress address)

/-- A value of kind bit may only be stored if it is 0 or 1. -/
def checkStorable (value : Value) : Except Fault Unit :=
  if value.isBit && !isLegalBit value.magnitude then .error (.illegalValue value.magnitude)
  else .ok ()

/-- Sets the jump register, which holds nothing but 0 and 1. -/
def writeRegister (memory : Memory) (value : Value) : Except Fault Memory :=
  if value.isAddress then .error .addressInRegister
  else if !isLegalBit value.magnitude then .error (.illegalRegisterValue value.magnitude)
  else .ok { memory with register := value.magnitude }

def write (memory : Memory) (address : Json) (value : Value) : Except Fault Memory := do
  checkStorable value
  if address.is registerAddress then memory.writeRegister value
  else if ← isCellAddress address then
    return { memory with cells := put address value memory.cells }
  else throw (.invalidAddress address)

/-- The cells in order of their addresses. -/
def toList (memory : Memory) : List (Json × Value) :=
  memory.cells.mergeSort fun a b => a.1.inOrder b.1

/-- Making a cell exist changes no content. -/
@[simp] theorem cell_touch (memory : Memory) (address place : Json) :
    (memory.touch address).cell place = memory.cell place := by
  simp only [touch]
  split
  · rfl
  · simp only [cell, find?, List.find?_append, List.find?_singleton]
    cases memory.cells.find? (·.1.same place) with
    | some _ => rfl
    | none => split <;> rfl

@[simp] theorem register_touch (memory : Memory) (address : Json) :
    (memory.touch address).register = memory.register := by
  simp only [touch]
  split <;> rfl

/-- A filled cell holds what was put there, and every other cell what it held before. -/
theorem cell_put (address place : Json) (value : Value) (cells : List (Json × Value))
    (register : Json) :
    cell ⟨put address value cells, register⟩ place =
      if address.same place then value else cell ⟨cells, register⟩ place := by
  simp only [cell, find?]
  induction cells with
  | nil => simp only [put, List.find?_singleton]; split <;> rfl
  | cons head rest ih =>
    obtain ⟨first, old⟩ := head
    simp only [put]
    split
    · next hit =>
      rw [Json.same_iff] at hit
      simp only [List.find?_cons, Json.same, hit]
      split <;> split <;> simp_all
    · next miss =>
      simp only [List.find?_cons]
      split
      · next found =>
        have apart : address.same place = false := by
          rw [Bool.eq_false_iff]
          intro equal
          rw [Json.same_iff] at found equal
          exact miss (Json.same_iff.mpr (found.trans equal.symm))
        simp [apart]
      · exact ih

end Memory

end BitMachine
