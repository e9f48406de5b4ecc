import BitMachine.Machine.Run
import BitMachine.Proofs.Machine.Evaluation

/-! What the machine does keeps the invariant of memory, whether it succeeds or fails. -/

set_option autoImplicit false

namespace BitMachine

/-- Input that consists of whole numbers. A console offers nothing else. -/
def Input.Whole : Input → Prop
  | .prepared bits => ∀ bit ∈ bits, bit.Whole
  | .console _ _ => True

/-- The invariant of the machine. -/
structure Machine.Sound (promise : Prop) (machine : Machine) : Prop where
  memory : machine.context.memory.Sound promise
  input : machine.input.Whole

namespace Action

section Execution

variable {α β : Type} {promise : Prop} {options : Options} {machine : Machine}

/-- An action that keeps the invariant in both outcomes. -/
def Keeps (promise : Prop) (action : Action α) (machine : Machine) : Prop :=
  action.Ensures machine (fun _ after => after.Sound promise) (fun _ after => after.Sound promise)

theorem Keeps.bind {action : Action α} {next : α → Action β} (first : Keeps promise action machine)
    (continues : ∀ value between, between.Sound promise → Keeps promise (next value) between) :
    Keeps promise (action >>= next) machine :=
  Ensures.bind first fun value between _ kept => continues value between kept

theorem keeps_pure (value : α) (sound : machine.Sound promise) :
    Keeps promise (pure value) machine :=
  Ensures.of_ok rfl sound

theorem keeps_throw (fault : Fault) (sound : machine.Sound promise) :
    Keeps promise (throw fault : Action α) machine :=
  Ensures.of_error rfl sound

theorem Probes.sound {before after : Machine} (probes : Probes promise before after)
    (sound : before.Sound promise) : after.Sound promise :=
  ⟨probes.memory, probes.input ▸ sound.input⟩

theorem record_keeps (event : Event) (sound : machine.Sound promise) :
    Keeps promise (record options event) machine := by
  rcases record_run options event machine with ⟨trace, recorded⟩ | failed
  · exact Ensures.of_ok recorded ⟨sound.memory, sound.input⟩
  · exact Ensures.of_error failed sound

/-- Storing records an event and then writes, unless the event cannot be recorded. -/
theorem store_run (options : Options) (address : Json) (value : Value) (machine : Machine) :
    (∃ trace, record options (.write address value) machine = .ok () { machine with trace } ∧
      store options address value machine =
        match machine.context.memory.write address value with
        | .ok memory => .ok () { machine with context.memory := memory, trace := trace }
        | .error fault => .error fault { machine with trace }) ∨
      record options (.write address value) machine = .error .unwritable machine ∧
        store options address value machine = .error .unwritable machine := by
  rcases record_run options (.write address value) machine with ⟨trace, recorded⟩ | failed
  · refine Or.inl ⟨trace, recorded, ?_⟩
    unfold store
    rw [bind_of_ok _ recorded]
    show EStateM.bind get _ { machine with trace } = _
    unfold EStateM.bind
    dsimp only [get, getThe, MonadStateOf.get, EStateM.get]
    cases machine.context.memory.write address value <;> rfl
  · exact Or.inr ⟨failed, bind_of_error _ failed⟩

theorem store_keeps {address : Json} {value : Value} (place : address = .null ∨ address.Whole)
    (fair : value.Fair promise) (sound : machine.Sound promise) :
    Keeps promise (store options address value) machine := by
  rcases store_run options address value machine with ⟨trace, -, run⟩ | ⟨-, failed⟩
  · split at run
    · next memory written =>
      refine Ensures.of_ok run ⟨?_, sound.input⟩
      rcases place with rfl | ⟨n, rfl⟩
      · exact absurd written Memory.write_null_ne_ok
      · exact sound.memory.of_write fair written
    · exact Ensures.of_error run ⟨sound.memory, sound.input⟩
  · exact Ensures.of_error failed sound

theorem emit_keeps (bit : Json) (sound : machine.Sound promise) :
    Keeps promise (emit bit) machine := by
  unfold Keeps Ensures emit
  rcases machine.output.write bit with ⟨_ | fault, output⟩
  · exact ⟨sound.memory, sound.input⟩
  · exact ⟨sound.memory, sound.input⟩

theorem next_whole {input : Input} (whole : input.Whole) :
    input.next.2.Whole ∧ ∀ bit, input.next.1 = .ok bit → bit.Whole := by
  match input with
  | .prepared [] => exact ⟨whole, nofun⟩
  | .prepared (bit :: bits) =>
    refine ⟨fun other inside => whole other (List.mem_cons_of_mem _ inside), ?_⟩
    rintro _ ⟨⟩
    exact whole bit (List.mem_cons_self ..)
  | .console shown [] => exact ⟨trivial, nofun⟩
  | .console shown (line :: lines) =>
    rw [Input.next]
    cases Input.bitOf? (Text.trimBoth Text.isBlank line.toList) with
    | none => exact ⟨trivial, nofun⟩
    | some bit =>
      refine ⟨trivial, ?_⟩
      rintro _ ⟨⟩
      exact ⟨bit, rfl⟩

theorem request_ensures (sound : machine.Sound promise) :
    request.Ensures machine (fun bit after => after.Sound promise ∧ bit.Whole)
      (fun _ after => after.Sound promise) := by
  obtain ⟨rest, whole⟩ := next_whole sound.input
  unfold Ensures request
  cases drawn : machine.input.next with
  | mk result input =>
    rw [drawn] at rest whole
    cases result with
    | ok bit => exact ⟨⟨sound.memory, rest⟩, whole bit rfl⟩
    | error fault => exact ⟨sound.memory, rest⟩

theorem evaluate_ensures (options : Options) {node : Node} (integral : node.Integral)
    (sound : machine.context.memory.Sound promise) :
    Evaluates promise (evaluate options node) machine :=
  evaluateWithin_ensures options.frames integral sound

/-- A computed place is a whole number. Where kinds are looked at it is that of an address. -/
theorem placeOf_ensures (options : Options) {node : Node} (integral : node.Integral)
    (sound : machine.context.memory.Sound promise) :
    (placeOf options node).Ensures machine
      (fun address after => Probes promise machine after ∧ address.Whole ∧
        (promise → options.magnitudeGuards = false → ∃ n : Nat, address = .int n))
      (fun _ after => Probes promise machine after) := by
  refine Ensures.bind (evaluate_ensures options integral sound) fun value between _ kept => ?_
  cases refused : !options.magnitudeGuards && !value.isAddress with
  | true => exact Ensures.of_error rfl kept.1
  | false =>
    refine Ensures.of_ok rfl ⟨kept.1, kept.2.whole, fun holds kinds => ?_⟩
    rw [kinds, Bool.not_false, Bool.true_and, Bool.not_eq_false'] at refused
    exact kept.2.address holds (eq_of_beq refused)

theorem execute_assignment (options : Options) (address : Json) (place source : Node) :
    execute options (.assignment address place source) =
      evaluate options source >>= fun value =>
        if place.isAbsent then store options address value
        else placeOf options place >>= fun address => store options address value := by
  cases place <;> rfl

theorem execute_keeps {node : Node} (integral : node.Integral) (sound : machine.Sound promise) :
    Keeps promise (execute options node) machine := by
  cases node with
  | print bit => exact (record_keeps _ sound).bind fun _ _ kept => emit_keeps bit kept
  | read =>
    refine Ensures.bind (request_ensures sound) fun bit between _ kept => ?_
    obtain ⟨kept, n, rfl⟩ := kept
    cases !isLegalBit (.int n) with
    | true => exact keeps_throw .invalidInput kept
    | false =>
      exact (record_keeps _ kept).bind fun _ _ later =>
        store_keeps (Or.inr ⟨registerAddress, rfl⟩) (Value.fair_bit n) later
  | assignment address place source =>
    rw [Node.Integral] at integral
    rw [execute_assignment]
    have evaluates : (evaluate options source).Ensures machine
        (fun value after => after.Sound promise ∧ value.Fair promise)
        (fun _ after => after.Sound promise) :=
      (evaluate_ensures options integral.2.2 sound.memory).mono
        (fun _ _ kept => ⟨kept.1.sound sound, kept.2⟩) (fun _ _ kept => kept.sound sound)
    refine Ensures.bind evaluates fun value between _ kept => ?_
    split
    · exact store_keeps integral.1 kept.2 kept.1
    · have places : (placeOf options place).Ensures between
          (fun address after => after.Sound promise ∧ address.Whole)
          (fun _ after => after.Sound promise) :=
        (placeOf_ensures options integral.2.1 kept.1.memory).mono
          (fun _ _ later => ⟨later.1.sound kept.1, later.2.1⟩) (fun _ _ later => later.sound kept.1)
      exact Ensures.bind places fun address after _ later =>
        store_keeps (Or.inr later.2) kept.2 later.1
  | _ => exact keeps_throw _ sound

theorem load_keeps {address : Json} (whole : address.Whole) (sound : machine.Sound promise) :
    Keeps promise (load address) machine := by
  obtain ⟨n, rfl⟩ := whole
  refine (load_ensures n sound.memory).mono (fun _ _ kept => kept.1.sound sound) ?_
  rintro fault after ⟨rfl, -⟩
  exact sound

theorem resolve_target (options : Options) (number indirect : Json) :
    resolve options (.target number indirect) =
      if indirect.truth && options.indirectGoto then
        load number >>= fun value => pure value.magnitude
      else pure number := by
  rw [resolve]

theorem resolve_keeps {node : Node} (integral : node.Integral) (sound : machine.Sound promise) :
    Keeps promise (resolve options node) machine := by
  cases node with
  | target number indirect =>
    rw [Node.Integral] at integral
    rw [resolve_target]
    split
    · exact (load_keeps integral sound).bind fun value _ kept => keeps_pure value.magnitude kept
    · exact keeps_pure number sound
  | _ => exact keeps_throw .missingTarget sound

/-- A conditional branch takes the arm for what the jump register holds, if it has one. -/
theorem successor_conditional (options : Options) {line : Line} {ifZero ifOne : Node}
    (branches : line.branch = .conditional ifZero ifOne) (machine : Machine) :
    successor options line machine =
      if machine.context.memory.register.is 0 && !ifZero.isAbsent then
        resolve options ifZero machine
      else if machine.context.memory.register.is 1 && !ifOne.isAbsent then
        resolve options ifOne machine
      else .ok .null machine := by
  unfold successor
  rw [branches]
  show EStateM.bind get _ machine = _
  unfold EStateM.bind
  dsimp only [get, getThe, MonadStateOf.get, EStateM.get]
  cases machine.context.memory.register.is 0 && !ifZero.isAbsent with
  | true => rfl
  | false =>
    cases machine.context.memory.register.is 1 && !ifOne.isAbsent with
    | true => rfl
    | false => rfl

theorem successor_keeps {line : Line} (integral : line.branch.Integral)
    (sound : machine.Sound promise) : Keeps promise (successor options line) machine := by
  cases branches : line.branch with
  | absent =>
    unfold successor
    rw [branches]
    exact keeps_pure Json.null sound
  | unconditional goal =>
    rw [branches, Node.Integral] at integral
    unfold successor
    rw [branches]
    exact resolve_keeps integral sound
  | conditional ifZero ifOne =>
    rw [branches, Node.Integral] at integral
    have run := successor_conditional options branches machine
    split at run
    · exact Ensures.of_eq run (resolve_keeps integral.1 sound)
    · split at run
      · exact Ensures.of_eq run (resolve_keeps integral.2 sound)
      · exact Ensures.of_ok run sound
  | _ =>
    unfold successor
    rw [branches]
    exact keeps_throw _ sound

/-- Entering a line counts it and leaves memory, input and output as they are. -/
structure Enters (before after : Machine) : Prop where
  memory : after.context.memory = before.context.memory
  steps : after.context.steps = before.context.steps + 1
  input : after.input = before.input
  output : after.output = before.output

theorem Enters.sound {before after : Machine} (enters : Enters before after)
    (sound : before.Sound promise) : after.Sound promise :=
  ⟨enters.memory ▸ sound.memory, enters.input ▸ sound.input⟩

/-- The machine when a line has been counted. -/
def counted (machine : Machine) : Machine :=
  { machine with context.steps := machine.context.steps + 1 }

/-- Without a limit, a line is counted and noted. -/
theorem enter_of_no_limit {options : Options} (free : options.stepLimit = none) (line : Line)
    (machine : Machine) :
    enter options line machine =
      record options (.line line.number)
        { counted machine with context.line := line.number } := by
  unfold enter
  rw [free]
  rfl

/-- With a limit, the count is compared with it in between. -/
theorem enter_of_limit {options : Options} {limit : Json}
    (limited : options.stepLimit = some limit) (line : Line) (machine : Machine) :
    enter options line machine =
      match limit.below? (counted machine).context.steps with
      | none => .error .unsuitable (counted machine)
      | some true => .error (.stepLimit limit) (counted machine)
      | some false =>
        record options (.line line.number)
          { counted machine with context.line := line.number } := by
  unfold enter
  rw [limited]
  show EStateM.bind (needed (limit.below? (counted machine).context.steps)) _ (counted machine) = _
  cases limit.below? (counted machine).context.steps with
  | none => rfl
  | some exceeded => cases exceeded <;> rfl

/-- Entering a line fails only if it is one too many, or if its number cannot be recorded. -/
theorem enter_ensures (options : Options) (line : Line) (machine : Machine) :
    (enter options line).Ensures machine
      (fun _ after => Enters machine after ∧
        ∀ limit : Int, options.stepLimit = some (.int limit) → after.context.steps ≤ limit)
      (fun fault after => Enters machine after ∧ (fault = .unwritable ∧ options.verbosity ≠ 0 ∨
        ∃ limit, options.stepLimit = some limit ∧ (limit.Whole → fault = .stepLimit limit))) := by
  have refused : Enters machine (counted machine) := ⟨rfl, rfl, rfl, rfl⟩
  have noted := record_ensures options (.line line.number)
    { counted machine with context.line := line.number }
  cases bounded : options.stepLimit with
  | none =>
    have run := enter_of_no_limit bounded line machine
    refine (Ensures.of_eq run noted).mono ?_ ?_
    · rintro _ after ⟨trace, rfl⟩
      exact ⟨⟨rfl, rfl, rfl, rfl⟩, nofun⟩
    · rintro fault after ⟨rfl, rfl, traces⟩
      exact ⟨⟨rfl, rfl, rfl, rfl⟩, Or.inl ⟨rfl, Nat.ne_of_gt traces⟩⟩
  | some limit =>
    have run := enter_of_limit bounded line machine
    cases exceeds : limit.below? (counted machine).context.steps with
    | none =>
      rw [exceeds] at run
      refine .of_error run ⟨refused, Or.inr ⟨limit, rfl, ?_⟩⟩
      rintro ⟨n, rfl⟩
      cases exceeds
    | some exceeded =>
      rw [exceeds] at run
      cases exceeded with
      | true => exact .of_error run ⟨refused, Or.inr ⟨limit, rfl, fun _ => rfl⟩⟩
      | false =>
        refine (Ensures.of_eq run noted).mono ?_ ?_
        · rintro _ after ⟨trace, rfl⟩
          refine ⟨⟨rfl, rfl, rfl, rfl⟩, ?_⟩
          rintro n ⟨⟩
          rw [Json.below?_int, Option.some.injEq, decide_eq_false_iff_not] at exceeds
          exact Int.not_lt.mp exceeds
        · rintro fault after ⟨rfl, rfl, traces⟩
          exact ⟨⟨rfl, rfl, rfl, rfl⟩, Or.inl ⟨rfl, Nat.ne_of_gt traces⟩⟩

/-- What a step does once the number of the next line is known. -/
def arrive (options : Options) (program : Program) (line : Line) (number : Json) :
    Action (Option Line) :=
  if number = .null then record options (.halt line.number) >>= fun _ => pure none
  else if !number.isKey then throw .unsuitable
  else match program.line? number with
    | none => throw (.missingLine number)
    | some next => record options (.goto number) >>= fun _ => pure (some next)

theorem step_eq (options : Options) (program : Program) (line : Line) :
    step options program line =
      enter options line >>= fun _ => execute options line.instruction >>= fun _ =>
        successor options line >>= arrive options program line := by
  unfold step
  congr 1
  funext _
  congr 1
  funext _
  congr 1
  funext number
  cases number <;> rfl

theorem mem_of_line? {program : Program} {number : Json} {line : Line}
    (found : program.line? number = some line) : line ∈ program.lines :=
  List.mem_of_find?_eq_some found

theorem arrive_ensures {program : Program} {line : Line} (number : Json)
    (sound : machine.Sound promise) :
    (arrive options program line number).Ensures machine
      (fun next after => after.Sound promise ∧ ∀ other ∈ next, other ∈ program.lines)
      (fun _ after => after.Sound promise) := by
  unfold arrive
  split
  · exact Ensures.bind (record_keeps _ sound) fun _ _ _ kept => .of_ok rfl ⟨kept, nofun⟩
  · split
    · exact .of_error rfl sound
    · cases found : program.line? number with
      | none => exact .of_error rfl sound
      | some next =>
        refine Ensures.bind (record_keeps _ sound) fun _ _ _ kept => .of_ok rfl ⟨kept, ?_⟩
        rintro other ⟨⟩
        exact mem_of_line? found

/-- A step keeps the invariant and leads to a line of the program. -/
theorem step_ensures {program : Program} {line : Line} (instruction : line.instruction.Integral)
    (branch : line.branch.Integral) (sound : machine.Sound promise) :
    (step options program line).Ensures machine
      (fun next after => after.Sound promise ∧ ∀ other ∈ next, other ∈ program.lines)
      (fun _ after => after.Sound promise) := by
  rw [step_eq]
  have entered : Keeps promise (enter options line) machine :=
    (enter_ensures options line machine).mono (fun _ _ entered => entered.1.sound sound)
      (fun _ _ refused => refused.1.sound sound)
  refine Ensures.bind entered fun _ between _ kept => ?_
  refine Ensures.bind (execute_keeps instruction kept) fun _ between _ kept => ?_
  refine Ensures.bind (successor_keeps branch kept) fun number between _ kept => ?_
  exact arrive_ensures number kept

theorem runFrom_keeps {program : Program} (integral : Node.IntegralLines program.lines)
    (fuel : Nat) {line : Line} (inside : line ∈ program.lines) (sound : machine.Sound promise) :
    Keeps promise (runFrom options program fuel line) machine := by
  induction fuel generalizing line machine with
  | zero => exact keeps_pure (some line) sound
  | succ fuel ih =>
    have parts := (Node.integralLines_iff program.lines).mp integral line inside
    obtain ⟨-, instruction, branch⟩ := (Node.integralLine_iff line).mp parts
    refine Ensures.bind (step_ensures instruction branch sound) fun next between _ kept => ?_
    cases next with
    | none => exact keeps_pure none kept.1
    | some next => exact ih (kept.2 next rfl) kept.1

theorem located_keeps {action : Action α} (keeps : Keeps promise action machine) :
    Keeps promise (located action) machine := by
  have ensures : action.Ensures machine (fun _ after => after.Sound promise)
    (fun _ after => after.Sound promise) := keeps
  cases done : action machine with
  | ok result after =>
    have run : located action machine = .ok result after := by
      unfold located
      rw [done]
    exact Ensures.of_ok run (ensures.ok done)
  | error fault after =>
    have run : located action machine = .error (fault.within after.context.line) after := by
      unfold located
      rw [done]
    exact Ensures.of_error run (ensures.error done)

theorem runFor_keeps {program : Program} (integral : Node.IntegralLines program.lines)
    (fuel : Nat) (sound : machine.Sound promise) :
    Keeps promise (runFor options fuel program) machine := by
  unfold runFor
  cases found : program.entry? with
  | none => exact keeps_throw .missingProgram sound
  | some line => exact located_keeps (runFrom_keeps integral fuel (mem_of_line? found) sound)

theorem run_keeps {program : Program} (integral : Node.IntegralLines program.lines)
    (sound : machine.Sound promise) : Keeps promise (run options program) machine := by
  apply traced_ensures
  intro trace
  have sound : Machine.Sound promise { machine with trace } := ⟨sound.memory, sound.input⟩
  have runs : Keeps promise (runFor options options.patience program) { machine with trace } :=
    runFor_keeps integral options.patience sound
  apply Ensures.bind (Ensures.mono runs (fun _ _ kept => kept) fun _ _ kept =>
    ⟨kept.memory, kept.input⟩)
  intro left _ _ kept
  cases left with
  | none => exact .of_ok rfl ⟨kept.memory, kept.input⟩
  | some line => exact .of_error rfl ⟨kept.memory, kept.input⟩

end Execution

end Action

end BitMachine
