import BitMachine.Proofs.Grammar.Derivation
import BitMachine.Proofs.Machine.Invariant

/-! The shape of program graphs. A graph is integral if whole numbers stand wherever numbers belong;
otherwise its slots may hold anything. A graph that was read from a text is also complete: every
slot holds what belongs there. -/

set_option autoImplicit false

namespace BitMachine

namespace Node

mutual

/-- Whole numbers stand where numbers belong. An assignment may do without an address. -/
def Integral : Node → Prop
  | .absent => True
  | .constant magnitude => magnitude.Whole
  | .variable address => address.Whole
  | .valueAt child => child.Integral
  | .valueBeyond child => child.Integral
  | .addressOf child => child.Integral
  | .nand left right => left.Integral ∧ right.Integral
  | .print bit => bit.Whole
  | .read => True
  | .assignment address place source =>
    (address = .null ∨ address.Whole) ∧ place.Integral ∧ source.Integral
  | .target lineNumber _ => lineNumber.Whole
  | .unconditional goal => goal.Integral
  | .conditional ifZero ifOne => ifZero.Integral ∧ ifOne.Integral
  | .line content => IntegralLine content
  | .program first lines => first.Whole ∧ IntegralLines lines

def IntegralLine : LineOf Node → Prop
  | ⟨number, instruction, branch, _⟩ => number.Whole ∧ instruction.Integral ∧ branch.Integral

def IntegralLines : List (LineOf Node) → Prop
  | [] => True
  | first :: rest => IntegralLine first ∧ IntegralLines rest

end

/-- An expression with all its operands. No address lies below that of the jump register. -/
def Evaluable : Node → Prop
  | .constant magnitude => magnitude.Whole
  | .variable address => ∃ n : Int, address = .int n ∧ -1 ≤ n
  | .valueAt child => child.Evaluable
  | .valueBeyond child => child.Evaluable
  | .addressOf child => child.Evaluable
  | .nand left right => left.Evaluable ∧ right.Evaluable
  | _ => False

/-- An instruction that prints a bit, reads one, or assigns an expression to exactly one place. -/
def Executable : Node → Prop
  | .print bit => bit.Bit
  | .read => True
  | .assignment address .absent source => (∃ n : Int, address = .int n ∧ -1 ≤ n) ∧ source.Evaluable
  | .assignment address place source => address = .null ∧ place.Evaluable ∧ source.Evaluable
  | _ => False

/-- A target with a line number, which is also an address. -/
def Reachable : Node → Prop
  | .target number _ => ∃ n : Nat, number = .int n
  | _ => False

/-- No branch, a jump, or a branch with at least one arm. -/
def Branching : Node → Prop
  | .absent => True
  | .unconditional goal => goal.Reachable
  | .conditional ifZero ifOne =>
    (ifZero = .absent ∧ ifOne.Reachable) ∨ (ifZero.Reachable ∧ ifOne = .absent) ∨
      (ifZero.Reachable ∧ ifOne.Reachable)
  | _ => False

end Node

/-- A line whose parts are complete. -/
structure LineOf.Complete (line : Line) : Prop where
  number : line.number.Whole
  instruction : line.instruction.Executable
  branch : line.branch.Branching

/-- A program with complete lines and an entry among them. -/
structure Program.Complete (program : Program) : Prop where
  first : program.first.Whole
  entry : program.entry?.isSome = true
  lines : ∀ line ∈ program.lines, LineOf.Complete line

namespace Derivation

theorem Expression.evaluable {layer : Layer} (phrase : Expression layer) :
    phrase.node.Evaluable := by
  induction phrase with
  | place spot =>
    cases spot with
    | cell address => exact ⟨address.value, rfl, by omega⟩
    | register => exact ⟨-1, rfl, by omega⟩
  | constant magnitude => exact ⟨magnitude.value, rfl⟩
  | parenthesized inner ih => exact ih
  | plainAt inner ih => exact ih
  | valueAt inner ih => exact ih
  | plainBeyond inner ih => exact ih
  | valueBeyond inner ih => exact ih
  | plainOperand inner ih => exact ih
  | addressOf inner ih => exact ih
  | single operand ih => exact ih
  | nand left right leftIh rightIh => exact ⟨leftIh, rightIh⟩

theorem Place.address_ge (spot : Place) : -1 ≤ spot.address := by
  cases spot with
  | cell address =>
    show -1 ≤ (address.value : Int)
    omega
  | register => exact Int.le_refl _

theorem executable_computed {place source : Node} (computes : place.Evaluable)
    (evaluates : source.Evaluable) : (Node.assignment .null place source).Executable := by
  cases place <;> first | exact computes.elim | exact ⟨rfl, computes, evaluates⟩

theorem Instruction.executable (instruction : Instruction) : instruction.node.Executable := by
  match instruction with
  | .print bit =>
    cases bit with
    | false => exact Or.inl rfl
    | true => exact Or.inr rfl
  | .read => exact trivial
  | .assignment (.place spot) source =>
    exact ⟨⟨spot.address, rfl, spot.address_ge⟩, source.evaluable⟩
  | .assignment (.computed address _) source =>
    exact executable_computed address.evaluable source.evaluable

theorem Goal.reachable (goal : Goal) : goal.node.Reachable :=
  ⟨goal.number.value, rfl⟩

theorem Branch.branching (branch : Branch) : branch.node.Branching := by
  cases branch with
  | jump goal => exact goal.reachable
  | oneArm goal asked =>
    show (Node.oneArm asked.bit.toNat goal.node).Branching
    cases asked.bit with
    | false => exact Or.inr (Or.inl ⟨goal.reachable, rfl⟩)
    | true => exact Or.inl ⟨rfl, goal.reachable⟩
  | twoArms first asked second other =>
    show (Node.twoArms asked.bit.toNat first.node second.node).Branching
    cases asked.bit with
    | false => exact Or.inr (Or.inr ⟨first.reachable, second.reachable⟩)
    | true => exact Or.inr (Or.inr ⟨second.reachable, first.reachable⟩)

theorem Line.complete (line : Line) (position : Nat) : LineOf.Complete (line.meaning position) := by
  refine ⟨⟨line.number.value, rfl⟩, line.instruction.executable, ?_⟩
  show (branchNode line.branch).Branching
  cases line.branch with
  | none => exact trivial
  | some branch => exact branch.branching

theorem mem_linesAt {starts : List Nat} {lines : List Line} {line : BitMachine.Line}
    (inside : line ∈ linesAt starts lines) :
    ∃ (derived : Line) (position : Nat), line = derived.meaning position := by
  induction lines generalizing starts with
  | nil => cases inside
  | cons first lines ih =>
    rcases List.mem_cons.mp inside with rfl | rest
    · exact ⟨first, _, rfl⟩
    · exact ih rest

/-- What a derivation means is complete. -/
theorem Program.complete (derived : Program) (starts : List Nat) :
    (derived.meaning starts).Complete := by
  refine ⟨⟨derived.first.number.value, rfl⟩, ?_, ?_⟩
  · have found : BitMachine.Program.entry? (derived.meaning starts) =
        some (derived.first.meaning (starts.headD 0)) := by
      show List.find? (·.number.same (.int derived.first.number.value))
        (linesAt starts (derived.first :: derived.more)) = _
      rw [linesAt, List.find?_cons_of_pos]
      exact Json.same_self _
    rw [found]
    rfl
  · intro line inside
    obtain ⟨single, position, rfl⟩ := mem_linesAt inside
    exact single.complete position

end Derivation

section Integrality

theorem Node.Evaluable.integral {node : Node} (evaluable : node.Evaluable) : node.Integral := by
  fun_induction Node.Evaluable node with
  | case1 magnitude => rwa [Node.Integral]
  | case2 address =>
    obtain ⟨n, rfl, -⟩ := evaluable
    rw [Node.Integral]
    exact ⟨n, rfl⟩
  | case3 child ih =>
    rw [Node.Integral]
    exact ih evaluable
  | case4 child ih =>
    rw [Node.Integral]
    exact ih evaluable
  | case5 child ih =>
    rw [Node.Integral]
    exact ih evaluable
  | case6 left right leftIh rightIh =>
    rw [Node.Integral]
    exact ⟨leftIh evaluable.1, rightIh evaluable.2⟩
  | case7 => exact evaluable.elim

theorem Node.Executable.integral {node : Node} (executable : node.Executable) : node.Integral := by
  revert executable
  fun_cases Node.Executable node with
  | case1 bit =>
    intro legal
    rw [Node.Integral]
    rcases legal with rfl | rfl
    · exact ⟨0, rfl⟩
    · exact ⟨1, rfl⟩
  | case2 =>
    intro _
    rw [Node.Integral]
    trivial
  | case3 address source =>
    rintro ⟨⟨n, rfl, -⟩, evaluable⟩
    rw [Node.Integral, Node.Integral]
    exact ⟨Or.inr ⟨n, rfl⟩, trivial, evaluable.integral⟩
  | case4 address place source =>
    rintro ⟨none, computes, evaluates⟩
    rw [Node.Integral]
    exact ⟨Or.inl none, computes.integral, evaluates.integral⟩
  | case5 => exact False.elim

theorem Node.Reachable.integral {node : Node} (reachable : node.Reachable) : node.Integral := by
  revert reachable
  fun_cases Node.Reachable node with
  | case1 number indirect =>
    rintro ⟨n, rfl⟩
    rw [Node.Integral]
    exact ⟨n, rfl⟩
  | case2 => exact False.elim

theorem Node.Branching.integral {node : Node} (branching : node.Branching) : node.Integral := by
  revert branching
  fun_cases Node.Branching node with
  | case1 =>
    intro _
    rw [Node.Integral]
    trivial
  | case2 goal =>
    intro reachable
    rw [Node.Integral]
    exact reachable.integral
  | case3 ifZero ifOne =>
    rintro (⟨rfl, one⟩ | ⟨zero, rfl⟩ | ⟨zero, one⟩)
    · rw [Node.Integral, Node.Integral]
      exact ⟨trivial, one.integral⟩
    · rw [Node.Integral, Node.Integral]
      exact ⟨zero.integral, trivial⟩
    · rw [Node.Integral]
      exact ⟨zero.integral, one.integral⟩
  | case4 => exact False.elim

theorem Node.integralLine_iff (line : Line) :
    Node.IntegralLine line ↔
      line.number.Whole ∧ line.instruction.Integral ∧ line.branch.Integral := by
  obtain ⟨number, instruction, branch, position⟩ := line
  rw [Node.IntegralLine]

theorem Node.integralLines_iff (lines : List Line) :
    Node.IntegralLines lines ↔ ∀ line ∈ lines, Node.IntegralLine line := by
  induction lines with
  | nil => simp only [Node.IntegralLines, List.not_mem_nil, false_implies, implies_true]
  | cons first rest ih => simp only [Node.IntegralLines, ih, List.forall_mem_cons]

theorem LineOf.Complete.integral {line : Line} (complete : LineOf.Complete line) :
    Node.IntegralLine line :=
  (Node.integralLine_iff line).mpr
    ⟨complete.number, complete.instruction.integral, complete.branch.integral⟩

theorem Program.Complete.integral {program : Program} (complete : program.Complete) :
    program.toNode.Integral := by
  rw [Program.toNode, Node.Integral]
  refine ⟨complete.first, (Node.integralLines_iff _).mpr fun line inside => ?_⟩
  exact (complete.lines line inside).integral

end Integrality

end BitMachine
