import BitMachine.Proofs.Machine.Arising

/-! How many calls evaluating an expression takes. An evaluation that has calls enough comes out the
same whatever their number; one that has too few never succeeds. If it does not come out as it would
with more calls, it has failed because the expression is nested too deeply. -/

set_option autoImplicit false

namespace BitMachine

/-- How many calls are under way at most while an expression is evaluated. -/
def Node.callDepth : Node → Nat
  | .nand left right =>
    max left.callDepth right.callDepth + Action.callsOf (.nand left right)
  | .addressOf child => child.callDepth + Action.callsOf (.addressOf child)
  | .valueBeyond child => child.callDepth + Action.callsOf (.valueBeyond child)
  | .valueAt child => child.callDepth + Action.callsOf (.valueAt child)
  | node => Action.callsOf node

namespace Action

variable {options : Options} {frames frames' rest rest' : Nat} {node : Node}

theorem callsOf_le_callDepth (node : Node) : callsOf node ≤ node.callDepth := by
  cases node <;> exact Nat.le_add_left _ _

section Enough

theorem evaluateOver_of_callDepth
    (parts : ∀ child : Node, child.callDepth + callsOf node ≤ node.callDepth →
      evaluateWithin options rest child = evaluateWithin options rest' child) :
    evaluateOver options (evaluateWithin options rest) node =
      evaluateOver options (evaluateWithin options rest') node := by
  cases node with
  | nand left right =>
    have below : left.callDepth + callsOf (.nand left right) ≤ (Node.nand left right).callDepth ∧
        right.callDepth + callsOf (.nand left right) ≤ (Node.nand left right).callDepth := by
      rw [Node.callDepth]
      omega
    rw [evaluateOver_nand, evaluateOver_nand, parts left below.1, parts right below.2]
  | addressOf child =>
    rw [evaluateOver_addressOf, evaluateOver_addressOf, parts child (Nat.le_refl _)]
  | valueBeyond child => rw [evaluateOver, evaluateOver, parts child (Nat.le_refl _)]
  | valueAt child => rw [evaluateOver, evaluateOver, parts child (Nat.le_refl _)]
  | _ => rfl

/-- Calls that are not needed make no difference. -/
theorem evaluateWithin_of_callDepth (enough : node.callDepth ≤ frames)
    (enough' : node.callDepth ≤ frames') :
    evaluateWithin options frames node = evaluateWithin options frames' node := by
  induction frames, node using frames_induction generalizing frames' with
  | short frames node short =>
    have needed := callsOf_le_callDepth node
    omega
  | enough rest node ih =>
    have needed := callsOf_le_callDepth node
    obtain ⟨rest', rfl⟩ := Nat.exists_eq_add_of_le' (Nat.le_trans needed enough')
    have parts : evaluateOver options (evaluateWithin options rest) node =
        evaluateOver options (evaluateWithin options rest') node := by
      apply evaluateOver_of_callDepth
      intro child below
      exact ih child (by omega) (by omega)
    rw [evaluateWithin_add, evaluateWithin_add, parts]

/-- What has a value is not nested too deeply. -/
theorem callDepth_le_of_ok {machine after : Machine} {value : Value}
    (done : evaluateWithin options frames node machine = .ok value after) :
    node.callDepth ≤ frames := by
  induction frames, node using frames_induction generalizing machine value after with
  | short frames node short =>
    rw [evaluateWithin_of_lt short] at done
    cases done
  | enough rest node ih =>
    cases arises_of_ok done with
    | constant magnitude => exact Nat.le_add_left _ rest
    | «variable» held => exact Nat.le_add_left _ rest
    | @single left _ _ evaluated =>
      have inner := ih _ evaluated
      have least := callsOf_le_callDepth left
      have two : 2 ≤ callsOf left := by rcases callsOf_eq left with same | same <;> omega
      rw [Node.callDepth, show Node.absent.callDepth = 2 from rfl]
      omega
    | nand present leftValue grown rightValue =>
      have left := ih _ leftValue
      have right := ih _ rightValue
      rw [Node.callDepth]
      omega
    | addressOf named evaluated => exact Nat.add_le_add_right (ih _ evaluated) _
    | valueAt followed =>
      obtain ⟨operand, between, evaluated, -⟩ := followed.operand
      exact Nat.add_le_add_right (ih _ evaluated) _
    | valueBeyond followed =>
      obtain ⟨operand, between, evaluated, -⟩ := followed.operand
      exact Nat.add_le_add_right (ih _ evaluated) _

end Enough

section TooFew

/-- The first action comes out as the second, unless it gives up because an expression is nested too
deeply. -/
def GivesUp : Relation := fun _ action action' =>
  ∀ machine, (∃ after, action machine = .error (.nestedTooDeeply none) after) ∨
    action machine = action' machine

theorem GivesUp.bind {α β : Type} {first first' : Action α} {next next' : α → Action β}
    (before : GivesUp α first first') (after : ∀ value, GivesUp β (next value) (next' value)) :
    GivesUp β (first >>= next) (first' >>= next') := by
  intro machine
  rcases before machine with ⟨stuck, failed⟩ | same
  · exact Or.inl ⟨stuck, bind_of_error next failed⟩
  · cases ran : first machine with
    | error fault stuck =>
      rw [bind_of_error next ran, bind_of_error next' (same ▸ ran)]
      exact Or.inr rfl
    | ok value between =>
      rw [bind_of_ok next ran, bind_of_ok next' (same ▸ ran)]
      exact after value between

theorem givesUp_congruence (options : Options) :
    EvaluationCongruence GivesUp options options where
  guards := rfl
  frames := rfl
  returns _ _ := Or.inr rfl
  fails _ _ := Or.inr rfl
  continues := GivesUp.bind
  records _ _ := Or.inr rfl
  loads _ _ := Or.inr rfl

theorem evaluateWithin_givesUp (fewer : frames ≤ frames') (node : Node) :
    GivesUp Value (evaluateWithin options frames node) (evaluateWithin options frames' node) := by
  have same := givesUp_congruence options
  induction frames, node using frames_induction generalizing frames' with
  | short frames node short =>
    rw [evaluateWithin_of_lt short]
    exact fun machine => Or.inl ⟨machine, rfl⟩
  | enough rest node ih =>
    obtain ⟨rest', rfl⟩ := Nat.exists_eq_add_of_le' (Nat.le_trans (Nat.le_add_left _ _) fewer)
    rw [evaluateWithin_add, evaluateWithin_add]
    apply same.continues (same.evaluateOver_related (fun child => ih child (by omega)) node)
    intro value
    exact fun _ => Or.inr rfl

/-- What would have a value with more calls, but is nested too deeply, fails for that reason. -/
theorem evaluateWithin_of_deep {machine after : Machine} {value : Value}
    (deep : frames < node.callDepth) (fewer : frames ≤ frames')
    (done : evaluateWithin options frames' node machine = .ok value after) :
    ∃ stuck, evaluateWithin options frames node machine = .error (.nestedTooDeeply none) stuck := by
  rcases evaluateWithin_givesUp fewer node machine with failed | same
  · exact failed
  · have below := callDepth_le_of_ok (same.trans done)
    omega

end TooFew

/-- An operator under which whatever happens to the operand happens first. -/
def Strict (options : Options) (operator : Node → Node) : Prop :=
  ∀ (evaluate : Node → Action Value) (child : Node) (machine after : Machine) (fault : Fault),
    evaluate child machine = .error fault after →
      evaluateOver options evaluate (operator child) machine = .error fault after

theorem strict_valueAt (options : Options) : Strict options .valueAt :=
  fun _ _ _ _ _ failed => bind_of_error _ failed

theorem strict_nand (options : Options) (right : Node) : Strict options (.nand · right) := by
  intro evaluate child machine after fault failed
  rw [evaluateOver_nand]
  split
  · exact failed
  · exact bind_of_error _ failed

end Action

/-- An expression under an operator that is applied a number of times. -/
def Node.nested (operator : Node → Node) (core : Node) : Nat → Node
  | 0 => core
  | levels + 1 => operator (nested operator core levels)

/-- The calls are used up before what they lead to is looked at. -/
theorem Action.evaluateWithin_nested {options : Options} {operator : Node → Node}
    (strict : Strict options operator) {calls : Nat} (each : ∀ child, callsOf (operator child) = calls)
    (core : Node) {frames levels : Nat} (deep : frames ≤ calls * levels) (machine : Machine) :
    evaluateWithin options frames (Node.nested operator core levels) machine =
      .error (.nestedTooDeeply none) machine := by
  induction levels generalizing frames with
  | zero =>
    rw [Nat.mul_zero, Nat.le_zero] at deep
    subst deep
    rfl
  | succ levels ih =>
    have same := each (Node.nested operator core levels)
    rcases Nat.lt_or_ge frames calls with few | many
    · rw [Node.nested, evaluateWithin_of_lt (same ▸ few)]
      rfl
    · obtain ⟨rest, rfl⟩ := Nat.exists_eq_add_of_le' many
      rw [Nat.mul_succ, Nat.add_le_add_iff_right] at deep
      rw [Node.nested, ← same, evaluateWithin_add]
      exact bind_of_error _ (strict _ _ _ _ _ (ih deep))

end BitMachine
