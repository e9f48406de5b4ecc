import BitMachine.Memory

/-! The invariant of memory: the jump register holds 0 or 1, cells have addresses that are not
negative, and a cell of kind bit holds 0 or 1. Whether a cell of kind address holds a magnitude that
is not negative depends on what was written from outside, so it is a promise that the invariant
takes as a parameter. -/

set_option autoImplicit false

namespace BitMachine

/-- A value that is written as a whole number. -/
def Json.Whole (value : Json) : Prop :=
  ∃ n : Int, value = .int n

/-- A bit, written as a whole number. -/
def Json.Bit (value : Json) : Prop :=
  value = .int 0 ∨ value = .int 1

/-- The magnitude is a whole number, and one that stands for an address is not negative if `promise`
holds. -/
structure Value.Fair (promise : Prop) (value : Value) : Prop where
  whole : value.magnitude.Whole
  address : promise → value.kind = .address → ∃ n : Nat, value.magnitude = .int n

/-- A value that a cell may hold. -/
structure Value.Stored (promise : Prop) (value : Value) : Prop extends
    Value.Fair promise value where
  bit : value.kind = .bit → value.magnitude.Bit

structure Memory.Sound (promise : Prop) (memory : Memory) : Prop where
  register : memory.register.Bit
  cells : ∀ entry ∈ memory.cells, (∃ n : Nat, entry.1 = .int n) ∧ entry.2.Stored promise

section Values

variable {promise : Prop}

theorem isLegalBit_int {n : Int} : isLegalBit (.int n) = true ↔ n = 0 ∨ n = 1 := by
  simp only [isLegalBit, Json.is_int, Bool.or_eq_true, decide_eq_true_eq]

theorem Value.fair_undefined (n : Int) : (Value.undefined (.int n)).Fair promise :=
  ⟨⟨n, rfl⟩, fun _ kind => by cases kind⟩

theorem Value.fair_bit (n : Int) : (Value.bit (.int n)).Fair promise :=
  ⟨⟨n, rfl⟩, fun _ kind => by cases kind⟩

theorem Value.fair_address (n : Nat) : (Value.address (.int n)).Fair promise :=
  ⟨⟨n, rfl⟩, fun _ _ => ⟨n, rfl⟩⟩

theorem Value.stored_default : ({} : Value).Stored promise :=
  ⟨fair_undefined 0, fun kind => by cases kind⟩

/-- What passes the check may be stored. -/
theorem Value.Fair.stored {value : Value} (fair : value.Fair promise)
    (checked : Memory.checkStorable value = .ok ()) : value.Stored promise := by
  refine ⟨fair, fun kind => ?_⟩
  obtain ⟨n, whole⟩ := fair.whole
  have legal : isLegalBit value.magnitude = true := by
    unfold Memory.checkStorable at checked
    split at checked
    · cases checked
    · next passes =>
      rw [Value.isBit, kind, Bool.and_eq_true, Bool.not_eq_true', not_and] at passes
      have refused := passes rfl
      rwa [Bool.not_eq_false] at refused
  rw [whole, isLegalBit_int] at legal
  rw [whole]
  rcases legal with rfl | rfl
  · exact Or.inl rfl
  · exact Or.inr rfl

end Values

namespace Memory

variable {promise : Prop} {memory after : Memory}

theorem Sound.fresh : ({} : Memory).Sound promise :=
  ⟨Or.inl rfl, nofun⟩

theorem Sound.register_fair (sound : memory.Sound promise) :
    (Value.bit memory.register).Fair promise := by
  rcases sound.register with zero | one
  · rw [zero]
    exact Value.fair_bit 0
  · rw [one]
    exact Value.fair_bit 1

theorem Sound.cell (sound : memory.Sound promise) (address : Json) :
    (memory.cell address).Stored promise := by
  unfold Memory.cell Memory.find?
  cases found : memory.cells.find? (·.1.same address) with
  | none => exact Value.stored_default
  | some entry => exact (sound.cells entry (List.mem_of_find?_eq_some found)).2

theorem Sound.touch (sound : memory.Sound promise) (n : Nat) :
    (memory.touch (.int n)).Sound promise := by
  refine ⟨by rw [register_touch]; exact sound.register, ?_⟩
  intro entry inside
  unfold Memory.touch at inside
  split at inside
  · exact sound.cells entry inside
  · rcases List.mem_append.mp inside with old | new
    · exact sound.cells entry old
    · cases List.mem_singleton.mp new
      exact ⟨⟨n, rfl⟩, Value.stored_default⟩

theorem mem_put {address : Json} {value : Value} {cells : List (Json × Value)}
    {entry : Json × Value} (inside : entry ∈ put address value cells) :
    entry ∈ cells ∨ entry.2 = value ∧ (entry.1 = address ∨ ∃ old, (entry.1, old) ∈ cells) := by
  induction cells with
  | nil =>
    cases List.mem_singleton.mp inside
    exact Or.inr ⟨rfl, Or.inl rfl⟩
  | cons first cells ih =>
    obtain ⟨place, old⟩ := first
    unfold put at inside
    split at inside
    · rcases List.mem_cons.mp inside with rfl | rest
      · exact Or.inr ⟨rfl, Or.inr ⟨old, List.mem_cons_self ..⟩⟩
      · exact Or.inl (List.mem_cons_of_mem _ rest)
    · rcases List.mem_cons.mp inside with rfl | rest
      · exact Or.inl (List.mem_cons_self ..)
      · rcases ih rest with kept | ⟨same, here | ⟨earlier, listed⟩⟩
        · exact Or.inl (List.mem_cons_of_mem _ kept)
        · exact Or.inr ⟨same, Or.inl here⟩
        · exact Or.inr ⟨same, Or.inr ⟨earlier, List.mem_cons_of_mem _ listed⟩⟩

theorem Sound.put (sound : memory.Sound promise) (n : Nat) {value : Value}
    (stored : value.Stored promise) :
    ({ memory with cells := put (.int n) value memory.cells } : Memory).Sound promise := by
  refine ⟨sound.register, fun entry inside => ?_⟩
  rcases mem_put inside with kept | ⟨same, here | ⟨old, listed⟩⟩
  · exact sound.cells entry kept
  · rw [same]
    exact ⟨⟨n, here⟩, stored⟩
  · rw [same]
    exact ⟨(sound.cells _ listed).1, stored⟩

section Reading

theorem read_eq (memory : Memory) (address : Json) :
    memory.read address =
      if address.is registerAddress then .ok (.bit memory.register, memory)
      else match address.atLeast? 0 with
        | none => .error .unsuitable
        | some true => .ok (memory.cell address, memory.touch address)
        | some false => .error (.invalidAddress address) := by
  unfold read isCellAddress
  split
  · rfl
  · cases address.atLeast? 0 with
    | none => rfl
    | some isCell => cases isCell <;> rfl

theorem read_int (memory : Memory) (n : Int) :
    memory.read (.int n) =
      if n = -1 then .ok (.bit memory.register, memory)
      else if 0 ≤ n then .ok (memory.cell (.int n), memory.touch (.int n))
      else .error (.invalidAddress (.int n)) := by
  unfold read isCellAddress
  simp only [Json.is_int, registerAddress, decide_eq_true_eq, Json.atLeast?_int]
  by_cases register : n = -1
  · rw [if_pos register, if_pos register]
    rfl
  · rw [if_neg register, if_neg register]
    by_cases cell : 0 ≤ n
    · rw [if_pos cell, decide_eq_true cell]
      rfl
    · rw [if_neg cell, decide_eq_false cell]
      rfl

theorem Sound.of_read (sound : memory.Sound promise) {n : Int} {value : Value}
    (read : memory.read (.int n) = .ok (value, after)) :
    after.Sound promise ∧ value.Fair promise := by
  rw [read_int] at read
  split at read
  · cases read
    exact ⟨sound, sound.register_fair⟩
  · split at read
    · next cell =>
      cases read
      obtain ⟨m, rfl⟩ := Int.eq_ofNat_of_zero_le cell
      exact ⟨sound.touch m, (sound.cell (.int m)).toFair⟩
    · cases read

/-- Reading a whole number only fails where there is neither a cell nor the jump register. -/
theorem fault_of_read {n : Int} {fault : Fault} (failed : memory.read (.int n) = .error fault) :
    fault = .invalidAddress (.int n) ∧ n < -1 := by
  rw [read_int] at failed
  split at failed
  · cases failed
  · split at failed
    · cases failed
    · cases failed
      exact ⟨rfl, by omega⟩

end Reading

section Writing

theorem checkStorable_cases (value : Value) :
    checkStorable value = .ok () ∨
      checkStorable value = .error (.illegalValue value.magnitude) := by
  unfold checkStorable
  split
  · exact Or.inr rfl
  · exact Or.inl rfl

theorem write_eq (memory : Memory) (address : Json) {value : Value}
    (checked : checkStorable value = .ok ()) :
    memory.write address value =
      if address.is registerAddress then memory.writeRegister value
      else match address.atLeast? 0 with
        | none => .error .unsuitable
        | some true => .ok { memory with cells := put address value memory.cells }
        | some false => .error (.invalidAddress address) := by
  unfold write isCellAddress
  rw [checked]
  show (if address.is registerAddress = true then _ else _) = _
  split
  · rfl
  · cases address.atLeast? 0 with
    | none => rfl
    | some isCell => cases isCell <;> rfl

theorem write_int (memory : Memory) (n : Int) {value : Value}
    (checked : checkStorable value = .ok ()) :
    memory.write (.int n) value =
      if n = -1 then memory.writeRegister value
      else if 0 ≤ n then .ok { memory with cells := Memory.put (.int n) value memory.cells }
      else .error (.invalidAddress (.int n)) := by
  unfold write isCellAddress
  rw [checked]
  show (if Json.is (.int n) registerAddress = true then _ else _) = _
  simp only [Json.is_int, registerAddress, decide_eq_true_eq, Json.atLeast?_int]
  by_cases register : n = -1
  · rw [if_pos register, if_pos register]
  · rw [if_neg register, if_neg register]
    by_cases cell : 0 ≤ n
    · rw [if_pos cell, decide_eq_true cell]
      rfl
    · rw [if_neg cell, decide_eq_false cell]
      rfl

theorem write_unchecked (memory : Memory) (address : Json) {value : Value} {fault : Fault}
    (refused : checkStorable value = .error fault) : memory.write address value = .error fault := by
  unfold write
  rw [refused]
  rfl

theorem Sound.of_writeRegister (sound : memory.Sound promise) {value : Value}
    (fair : value.Fair promise) (written : memory.writeRegister value = .ok after) :
    after.Sound promise := by
  obtain ⟨n, whole⟩ := fair.whole
  unfold writeRegister at written
  split at written
  · cases written
  · split at written
    · cases written
    · next legal =>
      cases written
      refine ⟨?_, sound.cells⟩
      rw [Bool.not_eq_true', Bool.not_eq_false, whole, isLegalBit_int] at legal
      show value.magnitude.Bit
      rw [whole]
      rcases legal with rfl | rfl
      · exact Or.inl rfl
      · exact Or.inr rfl

theorem Sound.of_write (sound : memory.Sound promise) {n : Int} {value : Value}
    (fair : value.Fair promise) (written : memory.write (.int n) value = .ok after) :
    after.Sound promise := by
  rcases checkStorable_cases value with checked | refused
  · rw [write_int memory n checked] at written
    split at written
    · exact sound.of_writeRegister fair written
    · split at written
      · next cell =>
        cases written
        obtain ⟨m, rfl⟩ := Int.eq_ofNat_of_zero_le cell
        exact sound.put m (fair.stored checked)
      · cases written
  · rw [write_unchecked memory _ refused] at written
    cases written

/-- The faults of writing to a whole number. -/
theorem fault_of_write {n : Int} {value : Value} {fault : Fault}
    (failed : memory.write (.int n) value = .error fault) :
    fault = .illegalValue value.magnitude ∨ fault = .addressInRegister ∨
      fault = .illegalRegisterValue value.magnitude ∨
      fault = .invalidAddress (.int n) ∧ n < -1 := by
  rcases checkStorable_cases value with checked | refused
  · rw [write_int memory n checked] at failed
    split at failed
    · unfold writeRegister at failed
      split at failed
      · cases failed
        exact Or.inr (Or.inl rfl)
      · split at failed
        · cases failed
          exact Or.inr (Or.inr (Or.inl rfl))
        · cases failed
    · split at failed
      · cases failed
      · cases failed
        exact Or.inr (Or.inr (Or.inr ⟨rfl, by omega⟩))
  · rw [write_unchecked memory _ refused] at failed
    cases failed
    exact Or.inl rfl

/-- Nothing can be written where no address is given. -/
theorem write_null_ne_ok {value : Value} : memory.write .null value ≠ .ok after := by
  intro written
  rcases checkStorable_cases value with checked | refused
  · unfold write at written
    rw [checked] at written
    cases written
  · rw [write_unchecked memory _ refused] at written
    cases written

end Writing

end Memory

end BitMachine
