import BitMachine.Proofs.Machine.Lockstep

/-! Reading makes cells, and no program notices. Memories are equivalent if they hold the same
contents, whichever of their cells exist; executions on equivalent memories come out the same and
leave equivalent memories behind. -/

set_option autoImplicit false

namespace BitMachine

namespace Memory

/-- The jump registers are equal, and so is what every address that is not negative holds, where a
cell that does not exist holds an undefined 0. -/
structure Equivalent (left right : Memory) : Prop where
  register : left.register = right.register
  cells : ∀ address : Json, address.atLeast? 0 = some true → left.cell address = right.cell address

variable {left right : Memory}

/-- A cell that comes into being changes nothing. -/
theorem Equivalent.touch (same : left.Equivalent right) (address : Json) :
    (left.touch address).Equivalent (right.touch address) := by
  constructor
  · rw [register_touch, register_touch]
    exact same.register
  · intro place isCell
    rw [cell_touch, cell_touch]
    exact same.cells place isCell

theorem Equivalent.put (same : left.Equivalent right) (address : Json) (value : Value) :
    Equivalent { left with cells := Memory.put address value left.cells }
      { right with cells := Memory.put address value right.cells } := by
  constructor
  · exact same.register
  · intro place isCell
    rw [cell_put, cell_put]
    split
    · rfl
    · exact same.cells place isCell

theorem Equivalent.read (same : left.Equivalent right) (address : Json) :
    (∃ fault, left.read address = .error fault ∧ right.read address = .error fault) ∨
      ∃ value left' right', left.read address = .ok (value, left') ∧
        right.read address = .ok (value, right') ∧ left'.Equivalent right' := by
  rw [read_eq, read_eq, same.register]
  split
  · exact Or.inr ⟨_, left, right, rfl, rfl, same⟩
  · cases found : address.atLeast? 0 with
    | none => exact Or.inl ⟨_, rfl, rfl⟩
    | some isCell =>
      cases isCell with
      | true =>
        rw [same.cells address found]
        exact Or.inr ⟨_, _, _, rfl, rfl, same.touch address⟩
      | false => exact Or.inl ⟨_, rfl, rfl⟩

theorem Equivalent.writeRegister (same : left.Equivalent right) (value : Value) :
    (∃ fault, left.writeRegister value = .error fault ∧
        right.writeRegister value = .error fault) ∨
      ∃ left' right', left.writeRegister value = .ok left' ∧
        right.writeRegister value = .ok right' ∧ left'.Equivalent right' := by
  unfold Memory.writeRegister
  split
  · exact Or.inl ⟨_, rfl, rfl⟩
  · split
    · exact Or.inl ⟨_, rfl, rfl⟩
    · exact Or.inr ⟨_, _, rfl, rfl, rfl, same.cells⟩

theorem Equivalent.write (same : left.Equivalent right) (address : Json) (value : Value) :
    (∃ fault, left.write address value = .error fault ∧
        right.write address value = .error fault) ∨
      ∃ left' right', left.write address value = .ok left' ∧
        right.write address value = .ok right' ∧ left'.Equivalent right' := by
  rcases checkStorable_cases value with checked | refused
  · rw [write_eq left address checked, write_eq right address checked]
    split
    · exact same.writeRegister value
    · cases address.atLeast? 0 with
      | none => exact Or.inl ⟨_, rfl, rfl⟩
      | some isCell =>
        cases isCell with
        | true => exact Or.inr ⟨_, _, rfl, rfl, same.put address value⟩
        | false => exact Or.inl ⟨_, rfl, rfl⟩
  · exact Or.inl ⟨_, write_unchecked left address refused, write_unchecked right address refused⟩

theorem indistinct_equivalent : Indistinct Equivalent where
  register := Equivalent.register
  read := Equivalent.read
  write := Equivalent.write

end Memory

/-- Machines that differ in nothing but which cells of their memories exist. -/
abbrev Machine.Equivalent : Machine → Machine → Prop :=
  Machine.Alike Memory.Equivalent Eq

namespace Action

theorem equivalent_congruence (options : Options) :
    RunCongruence (Matches Machine.Equivalent) options options :=
  lockstep options Memory.indistinct_equivalent Trace.parallel_eq

/-- Whichever cells exist makes no difference to a run, however long it is followed, nor to a single
evaluation, instruction or branch: on contexts whose memories are equivalent the result or the fault
is the same, and so are the output, the trace, the input that is left, the count of lines and the
current line; the memories are equivalent again. -/
theorem existing_cells_unobservable {left right : Context}
    (memory : left.memory.Equivalent right.memory) (steps : left.steps = right.steps)
    (line : left.line = right.line) (options : Options) (input : Input) (output : Output)
    (trace : Trace) :
    let on (context : Context) : Machine := { context, input, output, trace }
    (∀ (program : Program) (fuel : Nat), Agree Machine.Equivalent
      (runFor options fuel program (on left)) (runFor options fuel program (on right))) ∧
    (∀ program : Program, Agree Machine.Equivalent
      (run options program (on left)) (run options program (on right))) ∧
    (∀ expression : Node, Agree Machine.Equivalent
      (evaluate options expression (on left)) (evaluate options expression (on right))) ∧
    (∀ instruction : Node, Agree Machine.Equivalent
      (execute options instruction (on left)) (execute options instruction (on right))) ∧
    (∀ current : Line, Agree Machine.Equivalent
      (successor options current (on left)) (successor options current (on right))) := by
  intro on
  have same := equivalent_congruence options
  have start : Machine.Equivalent (on left) (on right) := ⟨memory, steps, line, rfl, rfl, rfl⟩
  refine ⟨?_, ?_, ?_, ?_, ?_⟩
  · intro program fuel
    exact same.runFor_related program fuel _ _ start
  · intro program
    exact same.run_related rfl program _ _ start
  · intro expression
    exact same.evaluate_related expression _ _ start
  · intro instruction
    exact same.execute_related instruction _ _ start
  · intro current
    exact same.successor_related current _ _ start

/-- A program that copies a cell which nothing has filled. -/
def copyUnfilled : Program where
  first := .int 0
  lines := [⟨.int 0, .assignment (.int 1) .absent (.variable (.int 5)), .absent, .int 0⟩]

theorem existing_cells_unobservable_copyUnfilled :
    let untouched : Context := {}
    let touched : Context := { memory := ({} : Memory).touch (.int 5) }
    touched.memory.size ≠ untouched.memory.size ∧
      Agree Machine.Equivalent
        (runFor {} 1 copyUnfilled { context := untouched, input := .prepared [] })
        (runFor {} 1 copyUnfilled { context := touched, input := .prepared [] }) := by
  intro untouched touched
  have memory : untouched.memory.Equivalent touched.memory := by
    constructor
    · rfl
    · intro address _
      exact (Memory.cell_touch {} (.int 5) address).symm
  refine ⟨by decide, ?_⟩
  exact (existing_cells_unobservable memory rfl rfl {} (.prepared []) {} {}).1 copyUnfilled 1

end Action

end BitMachine
