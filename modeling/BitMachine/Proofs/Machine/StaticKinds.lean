import BitMachine.Proofs.Machine.Frame
import BitMachine.Proofs.Machine.Nesting

/-! Which kinds of values an expression can have is seen from its shape. Where kinds are looked at,
what has a value has one of these kinds; and an operator that needs another kind than its operand
can have makes every evaluation fail. -/

set_option autoImplicit false

namespace BitMachine

namespace Node

/-- An expression over whole numbers, in which a NAND may lack its right operand. No address lies
below that of the jump register. -/
def Formed : Node → Prop
  | .constant magnitude => magnitude.Whole
  | .variable address => ∃ n : Int, address = .int n ∧ -1 ≤ n
  | .valueAt child | .valueBeyond child | .addressOf child => child.Formed
  | .nand left right => left.Formed ∧ (right.isAbsent = true ∨ right.Formed)
  | _ => False

theorem Formed.integral {node : Node} (formed : node.Formed) : node.Integral := by
  fun_induction Formed node with
  | case1 magnitude => rwa [Integral]
  | case2 address =>
    obtain ⟨n, rfl, -⟩ := formed
    rw [Integral]
    exact ⟨n, rfl⟩
  | case3 child ih =>
    rw [Integral]
    exact ih formed
  | case4 child ih =>
    rw [Integral]
    exact ih formed
  | case5 child ih =>
    rw [Integral]
    exact ih formed
  | case6 left right first second =>
    rw [Integral]
    refine ⟨first formed.1, ?_⟩
    rcases formed.2 with missing | formed
    · cases right with
      | absent =>
        rw [Integral]
        trivial
      | _ => cases missing
    · exact second formed
  | case7 => exact formed.elim

/-- The kinds that the value of an expression can have. -/
def kinds : Node → List Kind
  | .constant _ => [.undefined]
  | .variable address => if address.is registerAddress then [.bit] else Kind.all
  | .nand left right => if right.isAbsent then left.kinds else [.bit]
  | .addressOf _ => [.address]
  | .valueAt _ | .valueBeyond _ => [.undefined, .bit]
  | _ => []

/-- Somewhere in an expression, an operator is applied to what cannot be of the kind it needs: a
NAND to an address, an address-of operator to an address or to the jump register, or an operator
that follows addresses to what is none. -/
def illKinded : Node → Bool
  | .nand left right =>
    left.illKinded || right.illKinded ||
      !right.isAbsent && (left.kinds == [.address] || right.kinds == [.address])
  | .addressOf child =>
    child.illKinded || child.kinds == [.address] || Action.isRegister child
  | .valueAt child | .valueBeyond child =>
    child.illKinded || !child.kinds.contains .address
  | _ => false

end Node

/-- All magnitudes are whole numbers. -/
def Memory.Whole (memory : Memory) : Prop :=
  memory.Throughout fun value => value.magnitude.Whole

/-- A fault that is put into words if it is legible. That an expression is nested too deeply is so only
in a run, which knows the line; without a run, a legible fault may lack words only if that can be its
reason. Without tracing, no event can be the reason. -/
structure Fault.Worded (options : Options) (tooDeep : Prop) (fault : Fault) : Prop where
  alone : ¬tooDeep → fault.Legible → fault.message?.isSome = true
  inRun : ∀ line, (fault.within line).Legible → (fault.within line).message?.isSome = true
  tracing : fault = .unwritable → options.verbosity ≠ 0

namespace Fault

variable {options : Options} {tooDeep tooDeep' : Prop} {fault : Fault}

theorem worded_of_told (told : fault.isTold = true) : fault.Worded options tooDeep := by
  refine ⟨fun _ => (isSome_message?_of_told told).mpr, fun line legible => ?_, ?_⟩
  · have toldWithin : (fault.within line).isTold = true := by
      unfold within
      split
      · rfl
      · exact told
    exact (isSome_message?_of_told toldWithin).mpr legible
  · rintro rfl
    cases told

theorem worded_nestedTooDeeply (deep : tooDeep) : (nestedTooDeeply none).Worded options tooDeep := by
  refine ⟨fun shallow => absurd deep shallow, fun line legible => ?_, nofun⟩
  have told : (nestedTooDeeply (some line)).isTold = true := rfl
  exact (isSome_message?_of_told told).mpr legible

theorem worded_unwritable (traces : options.verbosity ≠ 0) :
    unwritable.Worded options tooDeep :=
  ⟨fun _ legible => absurd rfl legible.1, fun _ legible => absurd rfl legible.1, fun _ => traces⟩

theorem Worded.mono (worded : fault.Worded options tooDeep) (implies : tooDeep → tooDeep') :
    fault.Worded options tooDeep' :=
  ⟨fun shallow => worded.alone fun deep => shallow (implies deep), worded.inRun, worded.tracing⟩

end Fault

namespace Action

variable {options : Options} {machine after : Machine} {fault : Fault} {node : Node}

section Values

variable {value : Value} {frames : Nat}

/-- The value of an expression over whole numbers is a whole number. -/
theorem whole_of_integral (integral : node.Integral) (whole : machine.context.memory.Whole)
    (done : evaluateWithin options frames node machine = .ok value after) :
    value.magnitude.Whole := by
  induction frames, node using frames_induction generalizing after value with
  | short frames node short =>
    rw [evaluateWithin_of_lt short] at done
    cases done
  | enough rest node ih =>
    cases arises_of_ok done with
    | constant magnitude => rwa [Node.Integral] at integral
    | «variable» held => exact whole _ _ held
    | single evaluated =>
      rw [Node.Integral] at integral
      exact ih _ integral.1 evaluated
    | nand => exact ⟨_, rfl⟩
    | addressOf named evaluated =>
      rw [Node.Integral] at integral
      have operand := ih _ integral evaluated
      exact operand
    | valueAt followed =>
      obtain ⟨address, held⟩ := followed.held
      exact whole address value held
    | valueBeyond followed =>
      obtain ⟨address, held⟩ := followed.held
      exact whole address value held

theorem whole_of_ok (formed : node.Formed) (whole : machine.context.memory.Whole)
    (done : evaluateWithin options frames node machine = .ok value after) :
    value.magnitude.Whole :=
  whole_of_integral formed.integral whole done

/-- The address-of operator gives an address that is not negative. -/
theorem natural_of_addressOf {child : Node} (formed : (Node.addressOf child).Formed)
    (whole : machine.context.memory.Whole)
    (done : evaluateWithin options frames (.addressOf child) machine = .ok value after) :
    ∃ n : Nat, value = .address (.int n) := by
  rw [Node.Formed] at formed
  obtain ⟨rest, -, arises⟩ := exists_arises_of_ok done
  cases arises with
  | addressOf named evaluated bit natural =>
    obtain ⟨n, same⟩ := whole_of_ok formed whole evaluated
    rw [same, Json.below?_int, Option.some_inj, decide_eq_false_iff_not, Int.not_lt] at natural
    obtain ⟨m, rfl⟩ := Int.eq_ofNat_of_zero_le natural
    rw [same]
    exact ⟨m, rfl⟩

/-- The value of an expression has one of the kinds that it can have. -/
theorem kind_mem_of_ok (kinds : options.magnitudeGuards = false)
    (done : evaluateWithin options frames node machine = .ok value after) :
    value.kind ∈ node.kinds := by
  induction frames, node using frames_induction generalizing after value with
  | short frames node short =>
    rw [evaluateWithin_of_lt short] at done
    cases done
  | enough rest node ih =>
    have followed : ∀ {child : Node}, Followed options rest machine child value →
        value.kind ∈ [Kind.undefined, .bit] := by
      intro child followed
      have other := Options.kind_ne_address kinds followed.bit
      cases same : value.kind with
      | undefined => decide
      | bit => decide
      | address => exact absurd same other
    cases arises_of_ok done with
    | constant magnitude => exact List.mem_singleton.mpr rfl
    | «variable» held =>
      cases held with
      | register named =>
        rw [Node.kinds, if_pos named]
        exact List.mem_singleton.mpr rfl
      | cell other =>
        rw [Node.kinds, other, if_neg Bool.false_ne_true]
        cases (machine.context.memory.cell _).kind <;> decide
    | single evaluated =>
      rw [Node.kinds, show Node.absent.isAbsent = true from rfl, if_pos rfl]
      exact ih _ evaluated
    | nand present =>
      rw [Node.kinds, present, if_neg Bool.false_ne_true]
      exact List.mem_singleton.mpr rfl
    | addressOf => exact List.mem_singleton.mpr rfl
    | valueAt found => exact followed found
    | valueBeyond found => exact followed found

/-- What is not of kind address does not come from what can only be an address. -/
theorem kinds_ne_address (kinds : options.magnitudeGuards = false)
    (done : evaluateWithin options frames node machine = .ok value after)
    (bit : options.holdsAddress value = false) : (node.kinds == [.address]) = false := by
  rw [beq_eq_false_iff_ne]
  intro only
  have inside := kind_mem_of_ok kinds done
  rw [only, List.mem_singleton] at inside
  exact Options.kind_ne_address kinds bit inside

/-- What has a value applies each operator to what can be of the kind that it needs. -/
theorem wellKinded_of_ok (kinds : options.magnitudeGuards = false)
    (done : evaluateWithin options frames node machine = .ok value after) :
    node.illKinded = false := by
  induction frames, node using frames_induction generalizing machine after value with
  | short frames node short =>
    rw [evaluateWithin_of_lt short] at done
    cases done
  | enough rest node ih =>
    have followed : ∀ {child : Node}, Followed options rest machine child value →
        (child.illKinded || !child.kinds.contains .address) = false := by
      intro child followed
      obtain ⟨operand, between, evaluated, accepted⟩ := followed.operand
      rw [Options.refusesToFollow_of_kinds kinds, Bool.not_eq_false', Value.isAddress_iff]
        at accepted
      have inside := kind_mem_of_ok kinds evaluated
      rw [accepted] at inside
      rw [ih _ evaluated, List.contains_iff_mem.mpr inside]
      rfl
    cases arises_of_ok done with
    | constant magnitude => rfl
    | «variable» held => rfl
    | single evaluated =>
      rw [Node.illKinded, ih _ evaluated]
      rfl
    | nand present leftValue grown rightValue firstBit secondBit =>
      rw [Node.illKinded, ih _ leftValue, ih _ rightValue, kinds_ne_address kinds leftValue firstBit,
        kinds_ne_address kinds rightValue secondBit, present]
      rfl
    | addressOf named evaluated bit =>
      rw [kinds, Bool.not_false, Bool.true_and] at named
      rw [Node.illKinded, ih _ evaluated, kinds_ne_address kinds evaluated bit, named]
      rfl
    | valueAt found => exact followed found
    | valueBeyond found => exact followed found

end Values

section Faults

variable {value : Value} {tooDeep : Prop}

theorem worded_of_load {n : Int} (failed : load (.int n) machine = .error fault after) :
    fault.Worded options tooDeep := by
  unfold load at failed
  cases read : machine.context.memory.read (.int n) with
  | ok entry =>
    rw [read] at failed
    cases failed
  | error other =>
    rw [read] at failed
    cases failed
    rw [(Memory.fault_of_read read).1]
    exact Fault.worded_of_told rfl

theorem worded_of_nandValue {left right : Value} (first : left.magnitude.Whole)
    (second : right.magnitude.Whole)
    (failed : nandValue options left right machine = .error fault after) :
    fault.Worded options tooDeep := by
  obtain ⟨m, first⟩ := first
  obtain ⟨n, second⟩ := second
  rw [nandValue_int options first second] at failed
  split at failed
  · cases failed
    exact Fault.worded_of_told rfl
  · cases failed

theorem worded_of_addressValue (whole : value.magnitude.Whole)
    (failed : addressValue options value machine = .error fault after) : fault.Worded options tooDeep := by
  obtain ⟨n, whole⟩ := whole
  rw [addressValue_int options whole] at failed
  split at failed
  · cases failed
    exact Fault.worded_of_told rfl
  · split at failed
    · cases failed
      exact Fault.worded_of_told rfl
    · split at failed
      · cases failed
        exact Fault.worded_of_told rfl
      · cases failed

theorem worded_of_follow {operator : Dereference} (whole : value.magnitude.Whole)
    (failed : follow options operator value machine = .error fault after) :
    fault.Worded options tooDeep := by
  obtain ⟨n, whole⟩ := whole
  rw [follow_int options operator whole] at failed
  split at failed
  · cases failed
    exact Fault.worded_of_told rfl
  · split at failed
    · cases failed
      exact Fault.worded_of_told rfl
    · split at failed
      · split at failed
        · cases failed
          exact Fault.worded_of_told rfl
        · cases failed
      · next unread =>
        cases failed
        exact worded_of_load unread

theorem worded_of_remark {child : Node}
    (failed : remark options child value machine = .error fault after) :
    fault.Worded options tooDeep := by
  obtain ⟨rfl, -, traces, -⟩ := remark_eq_error failed
  exact Fault.worded_unwritable (by omega)

/-- Evaluating an expression over whole numbers fails in words, or because the calls do not suffice
for it. -/
theorem worded_of_evaluateWithin {frames : Nat} (formed : node.Formed)
    (whole : machine.context.memory.Whole)
    (failed : evaluateWithin options frames node machine = .error fault after) :
    fault.Worded options (frames < node.callDepth) := by
  induction frames, node using frames_induction generalizing machine with
  | short frames node short =>
    rw [evaluateWithin_of_lt short] at failed
    cases failed
    exact Fault.worded_nestedTooDeeply (Nat.lt_of_lt_of_le short (callsOf_le_callDepth node))
  | enough rest node ih =>
    rw [evaluateWithin_add] at failed
    rcases bind_eq_error.mp failed with failed | ⟨value, between, -, failed⟩
    case inr => exact worded_of_remark failed
    cases node with
    | constant magnitude => cases failed
    | «variable» address =>
      obtain ⟨n, rfl, inside⟩ := formed
      have failed : variableValue (.int n) machine = .error fault after := failed
      rw [variableValue_int, if_pos inside] at failed
      exact worded_of_load failed
    | nand left right =>
      rw [Node.callDepth]
      rw [evaluateOver_nand] at failed
      split at failed
      · exact (ih left formed.1 whole failed).mono (by omega)
      · next present =>
        have second : right.Formed := formed.2.resolve_left present
        rcases bind_eq_error.mp failed with failed | ⟨first, between, found, failed⟩
        · exact (ih left formed.1 whole failed).mono (by omega)
        · have grown := ((evaluateWithin_readsOnly options rest left).grows machine).ok found
          have kept := Memory.Throughout.extends whole grown.memory
          rcases bind_eq_error.mp failed with failed | ⟨other, last, found', failed⟩
          · exact (ih right second kept failed).mono (by omega)
          · exact worded_of_nandValue (whole_of_ok formed.1 whole found)
              (whole_of_ok second kept found') failed
    | addressOf child =>
      rw [Node.Formed] at formed
      rw [evaluateOver_addressOf] at failed
      split at failed
      · -- The jump register is refused before it is evaluated.
        cases failed
        exact Fault.worded_of_told rfl
      · rcases bind_eq_error.mp failed with failed | ⟨operand, between, found, failed⟩
        · exact (ih child formed whole failed).mono fun deep => Nat.add_lt_add_right deep _
        · exact worded_of_addressValue (whole_of_ok formed whole found) failed
    | valueBeyond child =>
      rw [Node.Formed] at formed
      rcases bind_eq_error.mp failed with failed | ⟨operand, between, found, failed⟩
      · exact (ih child formed whole failed).mono fun deep => Nat.add_lt_add_right deep _
      · exact worded_of_follow (whole_of_ok formed whole found) failed
    | valueAt child =>
      rw [Node.Formed] at formed
      rcases bind_eq_error.mp failed with failed | ⟨operand, between, found, failed⟩
      · exact (ih child formed whole failed).mono fun deep => Nat.add_lt_add_right deep _
      · exact worded_of_follow (whole_of_ok formed whole found) failed
    | _ => exact formed.elim

end Faults

section Assignments

variable {address goal : Json} {place source : Node}

/-- Nothing is assigned to a place that cannot be an address. -/
theorem assignment_of_no_address (kinds : options.magnitudeGuards = false)
    (whole : machine.context.memory.Whole) (evaluates : source.Formed) (computes : place.Formed)
    (other : Kind.address ∉ place.kinds) :
    ∃ fault after, execute options (.assignment address place source) machine =
        .error fault after ∧
      fault.Worded options
        (options.frames < source.callDepth ∨ options.frames < place.callDepth) := by
  have present : ¬place.isAbsent = true := by
    intro absent
    cases place <;> first | exact computes.elim | cases absent
  rw [execute_assignment]
  cases found : evaluate options source machine with
  | error fault stuck =>
    have worded := worded_of_evaluateWithin evaluates whole found
    exact ⟨fault, stuck, bind_of_error _ found, worded.mono Or.inl⟩
  | ok value between =>
    have grown := ((evaluate_readsOnly options source).grows machine).ok found
    have kept : between.context.memory.Whole := Memory.Throughout.extends whole grown.memory
    rw [bind_of_ok _ found, if_neg present]
    cases placed : evaluate options place between with
    | error fault stuck =>
      have worded := worded_of_evaluateWithin computes kept placed
      refine ⟨fault, stuck, bind_of_error _ ?_, worded.mono Or.inr⟩
      exact bind_of_error _ placed
    | ok target last =>
      have inside := kind_mem_of_ok kinds placed
      have refused : (!options.magnitudeGuards && !target.isAddress) = true := by
        rw [kinds, Bool.not_false, Bool.true_and, Bool.not_eq_true', Bool.eq_false_iff, ne_eq,
          Value.isAddress_iff]
        intro pointer
        rw [pointer] at inside
        exact other inside
      refine ⟨.targetNotAddress, last, bind_of_error _ ?_, Fault.worded_of_told rfl⟩
      rw [placeOf_eq, bind_of_ok _ placed, if_pos refused]
      rfl

/-- What can only be an address is not assigned to the jump register. -/
theorem assignment_of_address (kinds : options.magnitudeGuards = false)
    (whole : machine.context.memory.Whole) (evaluates : source.Formed)
    (only : source.kinds = [.address]) (leads : Leads options machine address place goal)
    (named : goal.is registerAddress = true) :
    ∃ fault after, execute options (.assignment address place source) machine =
        .error fault after ∧ fault.Worded options (options.frames < source.callDepth) := by
  cases found : evaluate options source machine with
  | error fault stuck =>
    have worded := worded_of_evaluateWithin evaluates whole found
    rw [execute_assignment]
    exact ⟨fault, stuck, bind_of_error _ found, worded⟩
  | ok value between =>
    have pointer := kind_mem_of_ok kinds found
    rw [only, List.mem_singleton] at pointer
    obtain ⟨last, -, same⟩ := assignment_of_leads found leads
    have checked : Memory.checkStorable value = .ok () := by
      rw [Memory.checkStorable, Value.isBit, pointer]
      rfl
    rcases store_run options goal value last with ⟨trace, -, stored⟩ | ⟨unrecorded, failed⟩
    · rw [Memory.write_eq _ _ checked, if_pos named, Memory.writeRegister,
        if_pos (Value.isAddress_iff.mpr pointer)] at stored
      exact ⟨.addressInRegister, _, same.trans stored, Fault.worded_of_told rfl⟩
    · obtain ⟨-, -, traces, -⟩ := record_eq_error unrecorded
      rw [Event.level] at traces
      exact ⟨.unwritable, _, same.trans failed, Fault.worded_unwritable (by omega)⟩

end Assignments

/-- The kinds that are seen from the shape of expressions are those of their values. Where kinds are
looked at and memory holds whole numbers, what has a value has one of its kinds, and what the
address-of operator gives is not negative; what is ill-kinded anywhere never has a value. Nothing is
assigned to a computed place that cannot be an address, nor what can only be an address to the jump
register. Each of these failures is put into words by a run, and without a run too unless an
expression is nested too deeply; this is not said of what is too long to be written. -/
theorem static_kinds_sound (kinds : options.magnitudeGuards = false)
    (whole : machine.context.memory.Whole) :
    (∀ expression : Node, expression.Formed →
      (∀ value after, evaluate options expression machine = .ok value after →
        value.kind ∈ expression.kinds ∧
        ∀ child, expression = .addressOf child → ∃ n : Nat, value = .address (.int n)) ∧
      (expression.illKinded = true →
        ∃ fault after, evaluate options expression machine = .error fault after ∧
          fault.Worded options (options.frames < expression.callDepth))) ∧
    (∀ (address : Json) (place source : Node), source.Formed → place.Formed →
      Kind.address ∉ place.kinds →
      ∃ fault after, execute options (.assignment address place source) machine =
          .error fault after ∧
        fault.Worded options
        (options.frames < source.callDepth ∨ options.frames < place.callDepth)) ∧
    (∀ (address goal : Json) (place source : Node), source.Formed → source.kinds = [.address] →
      Leads options machine address place goal → goal.is registerAddress = true →
      ∃ fault after, execute options (.assignment address place source) machine =
          .error fault after ∧ fault.Worded options (options.frames < source.callDepth)) := by
  refine ⟨?_, ?_, ?_⟩
  · intro expression formed
    constructor
    · intro value after done
      refine ⟨kind_mem_of_ok kinds done, ?_⟩
      rintro child rfl
      exact natural_of_addressOf formed whole done
    · intro clash
      cases ran : evaluate options expression machine with
      | ok value after =>
        rw [wellKinded_of_ok kinds ran] at clash
        cases clash
      | error fault after => exact ⟨fault, after, rfl, worded_of_evaluateWithin formed whole ran⟩
  · intro address place source evaluates computes other
    exact assignment_of_no_address kinds whole evaluates computes other
  · intro address goal place source evaluates only leads named
    exact assignment_of_address kinds whole evaluates only leads named

theorem static_kinds_sound_pointing :
    (∃ value after, evaluate {} (.valueAt (.variable (.int 2))) pointing = .ok value after ∧
      value.kind ∈ [Kind.undefined, .bit]) ∧
    (∃ fault after, evaluate {} (.nand (.addressOf (.constant (.int 0))) (.variable (.int 2)))
        pointing = .error fault after ∧ fault.Worded {} False) ∧
    ∃ fault after, execute {} (.assignment .null (.valueAt (.variable (.int 2)))
        (.constant (.int 1))) pointing = .error fault after ∧ fault.Worded {} False := by
  have whole : pointing.context.memory.Whole := by
    intro address value held
    cases held with
    | register named => exact ⟨0, rfl⟩
    | cell other =>
      rw [Memory.cell, Memory.find?, pointing, List.find?_singleton]
      split
      · exact ⟨3, rfl⟩
      · exact ⟨0, rfl⟩
  have second : (Node.variable (.int 2)).Formed := ⟨2, rfl, by decide⟩
  have zero : (Node.addressOf (.constant (.int 0))).Formed := ⟨0, rfl⟩
  obtain ⟨expressions, places, -⟩ :=
    static_kinds_sound (show ({} : Options).magnitudeGuards = false from rfl) whole
  refine ⟨?_, ?_, ?_⟩
  · obtain ⟨sound, -⟩ := expressions (.valueAt (.variable (.int 2))) second
    exact ⟨_, _, rfl, (sound _ _ rfl).1⟩
  · obtain ⟨-, fails⟩ := expressions
      (.nand (.addressOf (.constant (.int 0))) (.variable (.int 2))) ⟨zero, Or.inr second⟩
    obtain ⟨fault, after, failed, worded⟩ := fails rfl
    exact ⟨fault, after, failed, worded.mono (by decide)⟩
  · obtain ⟨fault, after, failed, worded⟩ :=
      places .null (.valueAt (.variable (.int 2))) (.constant (.int 1)) ⟨1, rfl⟩ second (by decide)
    exact ⟨fault, after, failed, worded.mono (by decide)⟩

/-- What stands at 0, followed a number of times as if it were an address. -/
def followedBits : Nat → Node :=
  Node.nested .valueAt (.constant (.int 0))

theorem formed_followedBits (levels : Nat) : (followedBits levels).Formed := by
  induction levels with
  | zero => exact ⟨0, rfl⟩
  | succ levels ih => exact ih

theorem illKinded_followedBits (levels : Nat) : (followedBits (levels + 1)).illKinded = true := by
  have other : (followedBits levels).kinds.contains .address = false := by
    cases levels with
    | zero => rfl
    | succ levels => rfl
  rw [followedBits, Node.nested, Node.illKinded, ← followedBits, other, Bool.not_false,
    Bool.or_true]

theorem followedBits_not_worded :
    let machine : Machine := { input := .prepared [] }
    machine.context.memory.Whole ∧
    (followedBits 450).Formed ∧ (followedBits 450).illKinded = true ∧
    evaluate {} (followedBits 450) machine = .error (.nestedTooDeeply none) machine ∧
    (Fault.nestedTooDeeply none).message? = none := by
  intro machine
  have whole : ({} : Memory).Whole := Memory.throughout_fresh ⟨0, rfl⟩ ⟨0, rfl⟩
  refine ⟨whole, formed_followedBits 450, illKinded_followedBits 449, ?_, rfl⟩
  exact evaluateWithin_nested (strict_valueAt {}) (fun _ => rfl) _ (by decide) machine

end Action

end BitMachine
