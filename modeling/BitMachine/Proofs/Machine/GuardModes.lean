import BitMachine.Proofs.Machine.Arising
import BitMachine.Proofs.Machine.StepLimit

/-! The two ways in which operators tell bits from addresses agree on programs over bits alone.
NANDs of bits, however deeply nested, come to one of -2, -1, 0 and 1. None of these is the number of
the kind of addresses, so neither by kind nor by magnitude is anything ever taken for an address. -/

set_option autoImplicit false

namespace BitMachine

/-- An expression of variables, bits and NANDs, or an instruction that assigns such an expression to
an address that is written down. What else a node may be makes no difference: it cannot be evaluated
or executed, or it contains no expression. -/
def Node.BitsOnly : Node → Prop
  | .constant magnitude => isLegalBit magnitude = true
  | .valueAt _ | .valueBeyond _ | .addressOf _ => False
  | .nand left right => left.BitsOnly ∧ right.BitsOnly
  | .assignment _ place source => place.isAbsent = true ∧ source.BitsOnly
  | _ => True

/-- The magnitudes that NANDs of bits come to. -/
def Json.Narrow (magnitude : Json) : Prop :=
  ∃ n : Int, magnitude.plain = .int n ∧ -2 ≤ n ∧ n ≤ 1

structure Value.Narrow (value : Value) : Prop where
  magnitude : value.magnitude.Narrow
  kind : value.kind ≠ .address

def Memory.Narrow (memory : Memory) : Prop :=
  memory.Throughout Value.Narrow

section Narrow

theorem Json.narrow_of_isLegalBit {magnitude : Json} (legal : isLegalBit magnitude = true) :
    magnitude.Narrow := by
  rw [isLegalBit, Bool.or_eq_true, Json.is, Json.is, beq_iff_eq, beq_iff_eq] at legal
  rcases legal with zero | one
  · exact ⟨0, zero, by omega, by omega⟩
  · exact ⟨1, one, by omega, by omega⟩

theorem Json.Narrow.whole {magnitude : Json} (narrow : magnitude.Narrow) {n : Int}
    (whole : magnitude.whole? = some n) : -2 ≤ n ∧ n ≤ 1 := by
  obtain ⟨m, plain, bounds⟩ := narrow
  have same : magnitude.plain = .int n := by
    cases magnitude with
    | bool b => cases b <;> cases whole <;> rfl
    | int k =>
      cases whole
      rfl
    | _ => cases whole
  rw [plain, Json.int.injEq] at same
  rwa [same] at bounds

/-- A narrow value is not taken for an address, whichever way it is looked at. -/
theorem Value.Narrow.holdsAddress {value : Value} (narrow : value.Narrow) (options : Options) :
    options.holdsAddress value = false := by
  unfold Options.holdsAddress
  split
  · obtain ⟨n, plain, bounds⟩ := narrow.magnitude
    rw [Json.is, plain, Kind.code, beq_eq_false_iff_ne, ne_eq, Json.int.injEq]
    omega
  · rw [Value.isAddress, beq_eq_false_iff_ne]
    exact narrow.kind

theorem Memory.narrow_fresh : ({} : Memory).Narrow :=
  throughout_fresh ⟨⟨0, rfl, by omega, by omega⟩, nofun⟩ ⟨⟨0, rfl, by omega, by omega⟩, nofun⟩

/-- Writing a narrow value keeps memory narrow. -/
theorem Memory.Narrow.write {memory after : Memory} (narrow : memory.Narrow) {address : Json}
    {value : Value} (small : value.Narrow) (written : memory.write address value = .ok after) :
    after.Narrow := by
  intro place found held
  rcases Memory.checkStorable_cases value with checked | refused
  · rw [Memory.write_eq memory address checked] at written
    split at written
    · unfold Memory.writeRegister at written
      split at written
      · cases written
      · split at written
        · cases written
        · cases written
          cases held with
          | register named => exact ⟨small.magnitude, nofun⟩
          | cell other => exact narrow place _ (.cell other)
    · split at written
      · cases written
      · cases written
        cases held with
        | register named => exact narrow place _ (.register named)
        | cell other =>
          rw [Memory.cell_put]
          split
          · exact small
          · exact narrow place _ (.cell other)
      · cases written
  · rw [Memory.write_unchecked memory address refused] at written
    cases written

end Narrow

namespace Options

/-- The same options with the one or the other way of telling addresses. -/
def guarding (options : Options) (byMagnitude : Bool) : Options :=
  { options with magnitudeGuards := byMagnitude }

end Options

namespace Action

section Coincidence

variable {α β : Type} {accepts : α → Prop} {accepts' : β → Prop}

/-- Two actions do the same on machines with narrow memory. If they succeed, their result is
accepted and memory is narrow again. -/
def Coincide (accepts : α → Prop) (action action' : Action α) : Prop :=
  ∀ machine : Machine, machine.context.memory.Narrow →
    action machine = action' machine ∧ ∀ value after, action machine = .ok value after →
      accepts value ∧ after.context.memory.Narrow

theorem coincide_pure {value : α} (accepted : accepts value) :
    Coincide accepts (pure value) (pure value) := by
  intro machine narrow
  refine ⟨rfl, ?_⟩
  rintro _ _ ⟨⟩
  exact ⟨accepted, narrow⟩

theorem coincide_throw (fault : Fault) : Coincide accepts (throw fault) (throw fault) :=
  fun _ _ => ⟨rfl, nofun⟩

theorem Coincide.bind {first first' : Action α} {next next' : α → Action β}
    (before : Coincide accepts first first')
    (after : ∀ value, accepts value → Coincide accepts' (next value) (next' value)) :
    Coincide accepts' (first >>= next) (first' >>= next') := by
  intro machine narrow
  obtain ⟨same, kept⟩ := before machine narrow
  cases ran : first machine with
  | error fault stuck =>
    rw [bind_of_error _ ran, bind_of_error _ (same ▸ ran)]
    exact ⟨rfl, nofun⟩
  | ok value between =>
    obtain ⟨accepted, narrow⟩ := kept value between ran
    rw [bind_of_ok _ ran, bind_of_ok _ (same ▸ ran)]
    exact after value accepted between narrow

theorem Coincide.located {action action' : Action α} (both : Coincide accepts action action') :
    Coincide accepts (located action) (located action') := by
  intro machine narrow
  obtain ⟨same, kept⟩ := both machine narrow
  constructor
  · unfold Action.located
    rw [same]
  · intro value after done
    exact kept value after (located_eq_ok.mp done)

theorem Coincide.traced {options options' : Options} (same : options.verbosity = options'.verbosity)
    {action action' : Action α} (both : Coincide accepts action action') :
    Coincide accepts (traced options action) (traced options' action') := by
  intro machine narrow
  refine ⟨traced_congr same fun trace => (both { machine with trace } narrow).1, ?_⟩
  have ensures : (Action.traced options action).Ensures machine
      (fun value after => accepts value ∧ after.context.memory.Narrow) (fun _ _ => True) := by
    apply traced_ensures
    intro trace
    cases ran : action { machine with trace } with
    | ok value after => exact .of_ok ran ((both { machine with trace } narrow).2 value after ran)
    | error fault after => exact .of_error ran trivial
  exact fun _ _ done => ensures.ok done

/-- What leaves memory as it is coincides with itself. -/
theorem coincide_of_kept {action : Action α}
    (kept : ∀ machine value after, action machine = .ok value after →
      accepts value ∧ after.context.memory = machine.context.memory) :
    Coincide accepts action action := by
  intro machine narrow
  refine ⟨rfl, fun value after ran => ?_⟩
  obtain ⟨accepted, same⟩ := kept machine value after ran
  rw [same]
  exact ⟨accepted, narrow⟩

end Coincidence

section Evaluation

theorem needed_coincide {α : Type} (result : Option α) :
    Coincide (fun value => result = some value) (needed result) (needed result) := by
  apply coincide_of_kept
  intro machine value after done
  obtain ⟨found, same⟩ := needed_eq_ok done
  exact ⟨found, by rw [same]⟩

theorem record_coincide (options : Options) (event : Event) :
    Coincide (fun _ => True) (record (options.guarding true) event)
      (record (options.guarding false) event) := by
  have same : record (options.guarding true) event = record (options.guarding false) event := rfl
  rw [same]
  apply coincide_of_kept
  intro machine value after done
  obtain ⟨trace, rfl⟩ := (record_ensures _ event machine).ok done
  exact ⟨trivial, rfl⟩

theorem load_coincide (address : Json) :
    Coincide Value.Narrow (load address) (load address) := by
  intro machine narrow
  refine ⟨rfl, fun value after done => ⟨narrow address value (holds_of_load done), ?_⟩⟩
  have grown := ((load_readsOnly address).grows machine).ok done
  exact Memory.Throughout.extends narrow grown.memory

theorem variableValue_coincide (address : Json) :
    Coincide Value.Narrow (variableValue address) (variableValue address) := by
  apply (needed_coincide _).bind
  intro inside _
  cases inside with
  | true => exact load_coincide address
  | false => exact coincide_throw _

/-- The guard of NAND is not needed for narrow values, and NAND keeps them narrow. -/
theorem nandValue_coincide (options : Options) {left right : Value} (first : left.Narrow)
    (second : right.Narrow) :
    Coincide Value.Narrow (nandValue (options.guarding true) left right)
      (nandValue (options.guarding false) left right) := by
  have passes : ∀ options : Options,
      ¬(options.holdsAddress left || options.holdsAddress right) = true := by
    intro options
    rw [first.holdsAddress, second.holdsAddress]
    exact Bool.false_ne_true
  rw [nandValue_eq, nandValue_eq, if_neg (passes _), if_neg (passes _)]
  apply (needed_coincide _).bind
  intro m leftWhole
  apply (needed_coincide _).bind
  intro n rightWhole
  have bounds := Integer.nand_narrow (first.magnitude.whole leftWhole)
    (second.magnitude.whole rightWhole)
  exact coincide_pure ⟨⟨_, rfl, bounds⟩, nofun⟩

theorem evaluateWithin_coincide (options : Options) (frames : Nat) {node : Node}
    (bits : node.BitsOnly) :
    Coincide Value.Narrow (evaluateWithin (options.guarding true) frames node)
      (evaluateWithin (options.guarding false) frames node) := by
  induction frames, node using frames_induction with
  | short frames node short =>
    rw [evaluateWithin_of_lt short, evaluateWithin_of_lt short]
    exact coincide_throw _
  | enough rest node ih =>
    have parts : Coincide Value.Narrow
        (evaluateOver (options.guarding true) (evaluateWithin (options.guarding true) rest) node)
        (evaluateOver (options.guarding false) (evaluateWithin (options.guarding false) rest)
          node) := by
      cases node with
      | constant magnitude => exact coincide_pure ⟨Json.narrow_of_isLegalBit bits, nofun⟩
      | «variable» address => exact variableValue_coincide address
      | nand left right =>
        rw [evaluateOver_nand, evaluateOver_nand]
        split
        · exact ih left bits.1
        · apply (ih left bits.1).bind
          intro first narrow
          apply (ih right bits.2).bind
          intro second narrow'
          exact nandValue_coincide options narrow narrow'
      | valueAt child => exact bits.elim
      | valueBeyond child => exact bits.elim
      | addressOf child => exact bits.elim
      | _ => exact coincide_throw _
    rw [evaluateWithin_add, evaluateWithin_add]
    apply parts.bind
    intro value narrow
    apply (record_coincide options _).bind
    intro _ _
    exact coincide_pure narrow

theorem evaluate_coincide (options : Options) {node : Node} (bits : node.BitsOnly) :
    Coincide Value.Narrow (evaluate (options.guarding true) node)
      (evaluate (options.guarding false) node) :=
  evaluateWithin_coincide options options.frames bits

end Evaluation

section Execution

theorem write_coincide (address : Json) {value : Value} (narrow : value.Narrow) :
    Coincide (fun _ => True) (write address value) (write address value) := by
  intro machine small
  refine ⟨rfl, fun _ after done => ⟨trivial, ?_⟩⟩
  unfold write at done
  cases written : machine.context.memory.write address value with
  | error fault =>
    rw [written] at done
    cases done
  | ok memory =>
    rw [written] at done
    cases done
    exact small.write narrow written

theorem store_coincide (options : Options) (address : Json) {value : Value}
    (narrow : value.Narrow) :
    Coincide (fun _ => True) (store (options.guarding true) address value)
      (store (options.guarding false) address value) := by
  rw [store_eq, store_eq]
  apply (record_coincide options _).bind
  intro _ _
  exact write_coincide address narrow

theorem emit_coincide (bit : Json) : Coincide (fun _ => True) (emit bit) (emit bit) := by
  apply coincide_of_kept
  intro machine value after done
  unfold emit at done
  cases printed : machine.output.write bit with
  | mk fault? output =>
    rw [printed] at done
    cases fault? with
    | none =>
      cases done
      exact ⟨trivial, rfl⟩
    | some fault => cases done

theorem request_coincide : Coincide (fun _ => True) request request := by
  apply coincide_of_kept
  intro machine value after done
  unfold request at done
  cases drawn : machine.input.next with
  | mk result input =>
    rw [drawn] at done
    cases result with
    | error fault => cases done
    | ok bit =>
      cases done
      exact ⟨trivial, rfl⟩

/-- No instruction notices how addresses are told. -/
theorem execute_coincide (options : Options) {node : Node} (bits : node.BitsOnly) :
    Coincide (fun _ => True) (execute (options.guarding true) node)
      (execute (options.guarding false) node) := by
  cases node with
  | print bit =>
    apply (record_coincide options _).bind
    intro _ _
    exact emit_coincide bit
  | read =>
    rw [execute_read, execute_read]
    apply request_coincide.bind
    intro bit _
    cases legal : isLegalBit bit with
    | false => exact coincide_throw _
    | true =>
      apply (record_coincide options _).bind
      intro _ _
      exact store_coincide options _ ⟨Json.narrow_of_isLegalBit legal, nofun⟩
  | assignment address place source =>
    rw [execute_assignment, execute_assignment]
    apply (evaluate_coincide options bits.2).bind
    intro value narrow
    rw [if_pos bits.1, if_pos bits.1]
    exact store_coincide options address narrow
  | _ => exact coincide_throw _

theorem resolve_coincide (options : Options) (goal : Node) :
    Coincide (fun _ => True) (resolve (options.guarding true) goal)
      (resolve (options.guarding false) goal) := by
  cases goal with
  | target number indirect =>
    have same : resolve (options.guarding true) (.target number indirect) =
      resolve (options.guarding false) (.target number indirect) := rfl
    rw [same, resolve_target]
    split
    · apply (load_coincide number).bind
      intro value _
      exact coincide_pure trivial
    · exact coincide_pure trivial
  | _ => exact coincide_throw _

theorem successor_coincide (options : Options) (line : Line) :
    Coincide (fun _ => True) (successor (options.guarding true) line)
      (successor (options.guarding false) line) := by
  rw [successor_eq, successor_eq]
  cases line.branch with
  | absent => exact coincide_pure trivial
  | unconditional goal => exact resolve_coincide options goal
  | conditional ifZero ifOne =>
    have held : Coincide (fun _ => True) register register := by
      apply coincide_of_kept
      rintro machine value after ⟨⟩
      exact ⟨trivial, rfl⟩
    apply held.bind
    intro bit _
    split
    · exact resolve_coincide options ifZero
    · split
      · exact resolve_coincide options ifOne
      · exact coincide_pure trivial
  | _ => exact coincide_throw _

theorem arrive_coincide (options : Options) (program : Program) (line : Line) (number : Json) :
    Coincide (fun next => ∀ other ∈ next, other ∈ program.lines)
      (arrive (options.guarding true) program line number)
      (arrive (options.guarding false) program line number) := by
  unfold arrive
  split
  · apply (record_coincide options _).bind
    intro _ _
    exact coincide_pure nofun
  · split
    · exact coincide_throw _
    · cases found : program.line? number with
      | none => exact coincide_throw _
      | some next =>
        apply (record_coincide options _).bind
        intro _ _
        apply coincide_pure
        rintro other ⟨⟩
        exact mem_of_line? found

theorem enter_coincide (options : Options) (line : Line) :
    Coincide (fun _ => True) (enter (options.guarding true) line)
      (enter (options.guarding false) line) := by
  have same : enter (options.guarding true) line = enter (options.guarding false) line := rfl
  rw [same]
  apply coincide_of_kept
  intro machine value after done
  exact ⟨trivial, ((enter_ensures _ line machine).ok done).1.memory⟩

theorem step_coincide (options : Options) (program : Program) {line : Line}
    (bits : line.instruction.BitsOnly) :
    Coincide (fun next => ∀ other ∈ next, other ∈ program.lines)
      (step (options.guarding true) program line)
      (step (options.guarding false) program line) := by
  rw [step_eq, step_eq]
  apply (enter_coincide options line).bind
  intro _ _
  apply (execute_coincide options bits).bind
  intro _ _
  apply (successor_coincide options line).bind
  intro number _
  exact arrive_coincide options program line number

theorem runFrom_coincide (options : Options) {program : Program}
    (bits : ∀ line ∈ program.lines, line.instruction.BitsOnly) (fuel : Nat) {line : Line}
    (inside : line ∈ program.lines) :
    Coincide (fun _ => True) (runFrom (options.guarding true) program fuel line)
      (runFrom (options.guarding false) program fuel line) := by
  induction fuel generalizing line with
  | zero => exact coincide_pure trivial
  | succ fuel ih =>
    apply (step_coincide options program (bits line inside)).bind
    intro next follows
    cases next with
    | none => exact coincide_pure trivial
    | some next => exact ih (follows next rfl)

theorem runFor_coincide (options : Options) {program : Program}
    (bits : ∀ line ∈ program.lines, line.instruction.BitsOnly) (fuel : Nat) :
    Coincide (fun _ => True) (runFor (options.guarding true) fuel program)
      (runFor (options.guarding false) fuel program) := by
  unfold runFor
  cases found : program.entry? with
  | none => exact coincide_throw _
  | some line => exact (runFrom_coincide options bits fuel (mem_of_line? found)).located

theorem run_coincide (options : Options) {program : Program}
    (bits : ∀ line ∈ program.lines, line.instruction.BitsOnly) :
    Coincide (fun _ => True) (run (options.guarding true) program)
      (run (options.guarding false) program) := by
  unfold run
  apply Coincide.traced rfl
  apply (runFor_coincide options bits _).bind
  intro left _
  cases left with
  | none => exact coincide_pure trivial
  | some line => exact coincide_throw _

/-- Programs over bits alone run the same whichever way operators tell addresses. From a fresh
memory, for as long as one cares to follow them and to their end, the outcomes are equal: result or
fault, memory, count of lines, current line, rest of the input, output and trace. -/
theorem guards_agree_on_bits (options : Options) {program : Program}
    (bits : ∀ line ∈ program.lines, line.instruction.BitsOnly) (start : Machine)
    (fresh : start.context.memory = {}) :
    (∀ fuel, runFor (options.guarding true) fuel program start =
      runFor (options.guarding false) fuel program start) ∧
    run (options.guarding true) program start = run (options.guarding false) program start := by
  have narrow : start.context.memory.Narrow := fresh ▸ Memory.narrow_fresh
  constructor
  · intro fuel
    exact (runFor_coincide options bits fuel start narrow).1
  · exact (run_coincide options bits start narrow).1

/-- A program that reads a bit into the jump register and assigns to cell 0 whether it is 1, by way
of NANDs that come to -2. -/
def readIntoCell : Program where
  first := .int 0
  lines := [
    ⟨.int 0, .read, .unconditional (.target (.int 1) (.bool false)), .int 0⟩,
    ⟨.int 1, .assignment (.int 0) .absent
      (.nand (.nand (.variable (.int (-1))) (.constant (.int 1)))
        (.nand (.variable (.int (-1))) (.constant (.int 1)))), .absent, .int 0⟩]

theorem guards_agree_on_bits_readIntoCell :
    let start : Machine := { input := .prepared [.int 1] }
    (∀ line ∈ readIntoCell.lines, line.instruction.BitsOnly) ∧
    ∃ after : Machine, after.context.memory.cells = [(.int 0, .bit (.int 1))] ∧
      runFor (Options.guarding {} true) 2 readIntoCell start = .ok none after ∧
      runFor (Options.guarding {} false) 2 readIntoCell start = .ok none after := by
  intro start
  have bits : ∀ line ∈ readIntoCell.lines, line.instruction.BitsOnly := by
    rw [readIntoCell, List.forall_mem_cons, List.forall_mem_singleton]
    exact ⟨trivial, rfl, ⟨trivial, rfl⟩, trivial, rfl⟩
  have agree := (guards_agree_on_bits {} bits start rfl).1 2
  have ran : ∃ after : Machine, after.context.memory.cells = [(.int 0, .bit (.int 1))] ∧
      runFor (Options.guarding {} true) 2 readIntoCell start = .ok none after := ⟨_, rfl, rfl⟩
  obtain ⟨after, stored, ran⟩ := ran
  exact ⟨bits, after, stored, ran, agree ▸ ran⟩

end Execution

end Action

end BitMachine
