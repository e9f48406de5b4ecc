import BitMachine.Proofs.Machine.Packing
import BitMachine.Proofs.Machine.Preservation

/-! Why instructions of a complete graph fail. It is never because the graph lacks something or
holds what does not belong there. Where operators look at kinds, an invalid address is only ever
noticed by the operator that makes addresses. Only tracing fails on a number that is too long to be
written. -/

set_option autoImplicit false

namespace BitMachine

/-- The faults that a program from a text may bring about. -/
def Fault.Expected : Fault → Prop
  | .illegalValue _ | .illegalRegisterValue _ | .addressInRegister | .invalidAddress _
  | .targetNotAddress | .nandOfAddress | .addressOfAddress | .addressOfRegister
  | .dereferenceOfBit _ | .addressInVariable | .noMoreInput | .invalidInput | .stepLimit _
  | .missingLine _ | .nestedTooDeeply _ | .unwritable => True
  | _ => False

/-- A fault shows no number that is too long to be written, nor has one kept an event from being
traced. -/
def Fault.Legible (fault : Fault) : Prop :=
  fault ≠ .unwritable ∧ ∀ value, fault.subject? = some value → value.display?.isSome = true

/-- A fault that users are told of has a message if it is legible, and only then. -/
theorem Fault.isSome_message?_of_told {fault : Fault} (told : fault.isTold = true) :
    fault.message?.isSome = true ↔ fault.Legible := by
  have other : fault ≠ .unwritable := by
    rintro rfl
    cases told
  rw [isSome_message?, told, Bool.true_and, Legible]
  cases fault.subject? with
  | none => exact iff_of_true rfl ⟨other, nofun⟩
  | some shown =>
    constructor
    · intro written
      refine ⟨other, ?_⟩
      rintro _ ⟨⟩
      exact written
    · intro legible
      exact legible.2 shown rfl

namespace Action

variable {α β : Type} {options : Options} {machine after : Machine} {fault : Fault}

/-- While an expression is evaluated, an operand of an address-of operator turns out to name no
address, and evaluation ends there. -/
inductive OperandRefused (options : Options) (address : Json) :
    Nat → Node → Machine → Machine → Prop where
  | here {rest : Nat} {child : Node} {value : Value} {before after : Machine}
      (evaluated : evaluateWithin options rest child before = .ok value after)
      (named : value.magnitude = address) (negative : address.below? 0 = some true) :
      OperandRefused options address (rest + callsOf (.addressOf child)) (.addressOf child) before
        after
  | addressOf {rest : Nat} {child : Node} {before after : Machine}
      (inside : OperandRefused options address rest child before after) :
      OperandRefused options address (rest + callsOf (.addressOf child)) (.addressOf child) before
        after
  | valueAt {rest : Nat} {child : Node} {before after : Machine}
      (inside : OperandRefused options address rest child before after) :
      OperandRefused options address (rest + callsOf (.valueAt child)) (.valueAt child) before after
  | valueBeyond {rest : Nat} {child : Node} {before after : Machine}
      (inside : OperandRefused options address rest child before after) :
      OperandRefused options address (rest + callsOf (.valueBeyond child)) (.valueBeyond child)
        before after
  | left {rest : Nat} {left right : Node} {before after : Machine}
      (inside : OperandRefused options address rest left before after) :
      OperandRefused options address (rest + callsOf (.nand left right)) (.nand left right) before
        after
  | right {rest : Nat} {left right : Node} {value : Value} {before between after : Machine}
      (evaluated : evaluateWithin options rest left before = .ok value between)
      (inside : OperandRefused options address rest right between after) :
      OperandRefused options address (rest + callsOf (.nand left right)) (.nand left right) before
        after

/-- A fault that is expected, and that blames an invalid address on an operand check if operators
look at kinds, and an unwritable number on tracing. -/
structure Blames (options : Options) (refused : Json → Prop) (fault : Fault) : Prop where
  expected : fault.Expected
  tracing : fault = .unwritable → options.verbosity ≠ 0
  address : options.magnitudeGuards = false → ∀ address, fault = .invalidAddress address →
    refused address

theorem Blames.mono {refused other : Json → Prop} (blames : Blames options refused fault)
    (implies : ∀ address, refused address → other address) : Blames options other fault :=
  ⟨blames.expected, blames.tracing,
    fun kinds address same => implies address (blames.address kinds address same)⟩

/-- A fault that is about no invalid address and not about tracing. -/
theorem Blames.of_ne {refused : Json → Prop} (expected : fault.Expected)
    (told : fault ≠ .unwritable) (other : ∀ address, fault ≠ .invalidAddress address) :
    Blames options refused fault :=
  ⟨expected, fun same => absurd same told, fun _ address same => absurd same (other address)⟩

theorem Blames.of_record {refused : Json → Prop} {event : Event}
    (failed : record options event machine = .error fault after) :
    Blames options refused fault := by
  obtain ⟨rfl, -, traces, -⟩ := record_eq_error failed
  have positive : 0 < event.level := by cases event <;> exact Nat.succ_pos _
  exact ⟨trivial, fun _ => by omega, nofun⟩

section Evaluation

theorem blames_of_nandValue {left right : Value} {refused : Json → Prop}
    (first : left.Fair True) (second : right.Fair True)
    (failed : nandValue options left right machine = .error fault after) :
    Blames options refused fault := by
  obtain ⟨m, first⟩ := first.whole
  obtain ⟨n, second⟩ := second.whole
  rw [nandValue_int options first second] at failed
  split at failed
  · cases failed
    exact .of_ne trivial nofun nofun
  · cases failed

/-- Making an address fails on a negative number, and then nothing else has happened since its
operand was evaluated. -/
theorem blames_of_addressValue {value : Value} {refused : Json → Prop} (fair : value.Fair True)
    (failed : addressValue options value machine = .error fault after)
    (negative : value.magnitude.below? 0 = some true → after = machine → refused value.magnitude) :
    Blames options refused fault := by
  obtain ⟨n, whole⟩ := fair.whole
  rw [addressValue_int options whole] at failed
  split at failed
  · cases failed
    exact .of_ne trivial nofun nofun
  · split at failed
    · cases failed
      exact .of_ne trivial nofun nofun
    · split at failed
      · next below =>
        cases failed
        refine ⟨trivial, nofun, fun _ address same => ?_⟩
        cases same
        rw [← whole]
        refine negative ?_ rfl
        rw [whole, Json.below?_int, decide_eq_true below]
      · cases failed

/-- A value of kind address is not negative, so where kinds are looked at following it never leads
to an invalid address. -/
theorem blames_of_follow {operator : Dereference} {value : Value} {refused : Json → Prop}
    (sound : machine.context.memory.Sound True) (fair : value.Fair True)
    (failed : follow options operator value machine = .error fault after) :
    Blames options refused fault := by
  obtain ⟨n, whole⟩ := fair.whole
  rw [follow_int options operator whole] at failed
  split at failed
  · cases failed
    exact .of_ne trivial nofun nofun
  · next followed =>
    split at failed
    · next below =>
      cases failed
      refine ⟨trivial, nofun, fun kinds address same => ?_⟩
      exfalso
      have pointer : value.kind = .address := by
        rw [Options.refusesToFollow, kinds, if_neg (by decide), Bool.not_eq_true',
          Bool.not_eq_false] at followed
        exact eq_of_beq followed
      obtain ⟨m, natural⟩ := fair.address trivial pointer
      rw [whole, Json.int.injEq] at natural
      omega
    · next above =>
      split at failed
      · split at failed
        · cases failed
          exact .of_ne trivial nofun nofun
        · cases failed
      · next other stuck unread =>
        obtain ⟨-, -, low⟩ := (load_ensures (n + operator.offset) sound).error unread
        have offset : 0 ≤ operator.offset := by cases operator <;> decide
        omega

theorem not_isAbsent {node : Node} (evaluable : node.Evaluable) : ¬node.isAbsent = true := by
  cases node <;> first | exact evaluable.elim | exact nofun

theorem blames_of_evaluateWithin {frames : Nat} {node : Node} (evaluable : node.Evaluable)
    (sound : machine.context.memory.Sound True)
    (failed : evaluateWithin options frames node machine = .error fault after) :
    Blames options (fun address => OperandRefused options address frames node machine after)
      fault := by
  induction frames, node using frames_induction generalizing machine with
  | short frames node short =>
    rw [evaluateWithin_of_lt short] at failed
    cases failed
    exact .of_ne trivial nofun nofun
  | enough rest node ih =>
    have evaluates : ∀ {child : Node} {before : Machine}, child.Evaluable →
        before.context.memory.Sound True →
        Evaluates True (evaluateWithin options rest child) before :=
      fun evaluable sound => evaluateWithin_ensures rest evaluable.integral sound
    rw [evaluateWithin_add] at failed
    rcases bind_eq_error.mp failed with failed | ⟨value, between, -, failed⟩
    case inr =>
      rcases bind_eq_error.mp failed with failed | ⟨_, _, _, none⟩
      · exact .of_record failed
      · cases none
    cases node with
    | constant magnitude => cases failed
    | «variable» address =>
      obtain ⟨n, rfl, inside⟩ := evaluable
      have failed : variableValue (.int n) machine = .error fault after := failed
      rw [variableValue_int, if_pos inside] at failed
      obtain ⟨-, -, low⟩ := (load_ensures n sound).error failed
      omega
    | nand left right =>
      rw [evaluateOver_nand, if_neg (not_isAbsent evaluable.2)] at failed
      rcases bind_eq_error.mp failed with failed | ⟨first, between, found, failed⟩
      · exact (ih left evaluable.1 sound failed).mono fun _ => .left
      · obtain ⟨probes, fair⟩ := Ensures.ok (evaluates evaluable.1 sound) found
        rcases bind_eq_error.mp failed with failed | ⟨second, last, found', failed⟩
        · exact (ih right evaluable.2 probes.memory failed).mono fun _ => .right found
        · obtain ⟨-, other⟩ := Ensures.ok (evaluates evaluable.2 probes.memory) found'
          exact blames_of_nandValue fair other failed
    | addressOf child =>
      have evaluable : child.Evaluable := evaluable
      rw [evaluateOver_addressOf] at failed
      split at failed
      · cases failed
        exact .of_ne trivial nofun nofun
      · rcases bind_eq_error.mp failed with failed | ⟨value, between, found, failed⟩
        · exact (ih child evaluable sound failed).mono fun _ => .addressOf
        · obtain ⟨-, fair⟩ := Ensures.ok (evaluates evaluable sound) found
          refine blames_of_addressValue fair failed fun negative same => ?_
          subst same
          exact .here found rfl negative
    | valueBeyond child =>
      have evaluable : child.Evaluable := evaluable
      rcases bind_eq_error.mp failed with failed | ⟨value, between, found, failed⟩
      · exact (ih child evaluable sound failed).mono fun _ => .valueBeyond
      · obtain ⟨probes, fair⟩ := Ensures.ok (evaluates evaluable sound) found
        exact blames_of_follow probes.memory fair failed
    | valueAt child =>
      have evaluable : child.Evaluable := evaluable
      rcases bind_eq_error.mp failed with failed | ⟨value, between, found, failed⟩
      · exact (ih child evaluable sound failed).mono fun _ => .valueAt
      · obtain ⟨probes, fair⟩ := Ensures.ok (evaluates evaluable sound) found
        exact blames_of_follow probes.memory fair failed
    | _ => exact evaluable.elim

end Evaluation

section Execution

/-- An operand is refused while the source or the place of an assignment is evaluated. -/
inductive InstructionRefused (options : Options) (address : Json) :
    Node → Machine → Machine → Prop where
  | source {literal : Json} {place source : Node} {before after : Machine}
      (inside : OperandRefused options address options.frames source before after) :
      InstructionRefused options address (.assignment literal place source) before after
  | place {literal : Json} {place source : Node} {value : Value} {before between after : Machine}
      (evaluated : evaluate options source before = .ok value between)
      (inside : OperandRefused options address options.frames place between after) :
      InstructionRefused options address (.assignment literal place source) before after

theorem blames_of_store {n : Int} {value : Value} {refused : Json → Prop}
    (place : options.magnitudeGuards = false → -1 ≤ n)
    (failed : store options (.int n) value machine = .error fault after) :
    Blames options refused fault := by
  rcases store_run options (.int n) value machine with ⟨trace, -, run⟩ | ⟨unrecorded, run⟩
  case inr =>
    rw [failed] at run
    cases run
    exact .of_record unrecorded
  rw [failed] at run
  split at run
  · cases run
  · next other unwritten =>
    cases run
    rcases Memory.fault_of_write unwritten with rfl | rfl | rfl | ⟨rfl, low⟩
    · exact .of_ne trivial nofun nofun
    · exact .of_ne trivial nofun nofun
    · exact .of_ne trivial nofun nofun
    · refine ⟨trivial, nofun, fun kinds address same => ?_⟩
      have inside := place kinds
      omega

theorem fault_of_next {input : Input} (failed : input.next.1 = .error fault) :
    fault = .noMoreInput ∨ fault = .invalidInput := by
  match input with
  | .prepared [] =>
    cases failed
    exact Or.inl rfl
  | .prepared (bit :: bits) => cases failed
  | .console shown [] =>
    cases failed
    exact Or.inl rfl
  | .console shown (line :: lines) =>
    rw [Input.next] at failed
    cases found : Input.bitOf? (Text.trimBoth Text.isBlank line.toList) with
    | none =>
      rw [found] at failed
      cases failed
      exact Or.inr rfl
    | some bit =>
      rw [found] at failed
      cases failed

theorem fault_of_request (failed : request machine = .error fault after) :
    fault = .noMoreInput ∨ fault = .invalidInput := by
  unfold request at failed
  cases drawn : machine.input.next with
  | mk result input =>
    rw [drawn] at failed
    cases result with
    | ok bit => cases failed
    | error other =>
      cases failed
      exact fault_of_next (congrArg Prod.fst drawn)

theorem emit_run (machine : Machine) {bit : Json} (legal : bit.Bit) (packs : machine.output.Packs) :
    ∃ output, emit bit machine = .ok () { machine with output } ∧ output.Packs := by
  obtain ⟨output, written, kept⟩ := packs.write legal
  refine ⟨output, ?_, kept⟩
  unfold emit
  rw [written]

theorem executable_assignment {literal : Json} {place source : Node}
    (executable : (Node.assignment literal place source).Executable) :
    source.Evaluable ∧ (place = .absent ∧ (∃ n : Int, literal = .int n ∧ -1 ≤ n) ∨
      place.Evaluable) := by
  cases place with
  | absent => exact ⟨executable.2, Or.inl ⟨rfl, executable.1⟩⟩
  | _ => exact ⟨executable.2.2, Or.inr executable.2.1⟩

theorem blames_of_execute {node : Node} (executable : node.Executable)
    (sound : machine.Sound True) (packs : machine.output.Packs)
    (failed : execute options node machine = .error fault after) :
    Blames options (fun address => InstructionRefused options address node machine after)
      fault := by
  cases node with
  | print bit =>
    rcases bind_eq_error.mp failed with failed | ⟨_, between, recorded, failed⟩
    · exact .of_record failed
    · obtain ⟨trace, rfl⟩ := (record_ensures options (.print bit) machine).ok recorded
      obtain ⟨output, emitted, -⟩ := emit_run { machine with trace } executable packs
      rw [emitted] at failed
      cases failed
  | read =>
    rcases bind_eq_error.mp failed with failed | ⟨bit, between, -, failed⟩
    · rcases fault_of_request failed with rfl | rfl
      · exact .of_ne trivial nofun nofun
      · exact .of_ne trivial nofun nofun
    · cases illegal : !isLegalBit bit with
      | true =>
        rw [illegal] at failed
        cases failed
        exact .of_ne trivial nofun nofun
      | false =>
        rw [illegal] at failed
        rcases bind_eq_error.mp failed with failed | ⟨_, later, -, failed⟩
        · exact .of_record failed
        · exact blames_of_store (fun _ => by decide) failed
  | assignment literal place source =>
    obtain ⟨evaluates, places⟩ := executable_assignment executable
    rw [execute_assignment] at failed
    rcases bind_eq_error.mp failed with failed | ⟨value, between, found, failed⟩
    · exact (blames_of_evaluateWithin evaluates sound.memory failed).mono fun _ => .source
    · have evaluated := evaluate_ensures options evaluates.integral sound.memory
      obtain ⟨probes, -⟩ := Ensures.ok evaluated found
      rcases places with ⟨rfl, n, rfl, inside⟩ | computes
      · exact blames_of_store (fun _ => inside) failed
      · rw [if_neg (not_isAbsent computes)] at failed
        rcases bind_eq_error.mp failed with failed | ⟨address, later, placed, failed⟩
        · rcases bind_eq_error.mp failed with failed | ⟨target, last, -, failed⟩
          · have blames := blames_of_evaluateWithin computes probes.memory failed
            exact blames.mono fun _ => .place found
          · cases refused : !options.magnitudeGuards && !target.isAddress with
            | true =>
              rw [refused] at failed
              cases failed
              exact .of_ne trivial nofun nofun
            | false =>
              rw [refused] at failed
              cases failed
        · obtain ⟨-, ⟨n, rfl⟩, natural⟩ :=
            (placeOf_ensures options computes.integral probes.memory).ok placed
          refine blames_of_store (fun kinds => ?_) failed
          obtain ⟨m, same⟩ := natural trivial kinds
          cases same
          omega
  | _ => exact executable.elim

end Execution

end Action

end BitMachine
