import BitMachine.Proofs.Machine.Blame
import BitMachine.Proofs.Machine.Calls

/-! Runs of programs that were read from a text. They halt, go on, or fail for a reason that is the
program's own, and they do not go on for longer than a step limit allows. -/

set_option autoImplicit false

namespace BitMachine

namespace Action

variable {α β : Type} {options : Options} {machine after : Machine} {fault : Fault}

section Advances

/-- What an instruction does to a machine if it succeeds: no line is counted, and at most the bits
of an incomplete character are left to be put out. -/
structure Advances (before after : Machine) : Prop where
  steps : after.context.steps = before.context.steps
  packs : after.output.Packs

/-- An action that advances the machine, or fails. -/
def Advancing (action : Action α) (machine : Machine) : Prop :=
  action.Ensures machine (fun _ after => Advances machine after) (fun _ _ => True)

theorem Advancing.bind {action : Action α} {next : α → Action β}
    (first : Advancing action machine)
    (continues : ∀ value between, action machine = .ok value between → Advances machine between →
      Advancing (next value) between) : Advancing (action >>= next) machine := by
  refine Ensures.bind first fun value between done before => ?_
  refine (continues value between done before).mono (fun _ _ later => ?_) (fun _ _ _ => trivial)
  exact ⟨later.steps.trans before.steps, later.packs⟩

theorem advancing_pure (value : α) (packs : machine.output.Packs) :
    Advancing (pure value) machine :=
  Ensures.of_ok rfl ⟨rfl, packs⟩

theorem advancing_throw : Advancing (throw fault : Action α) machine :=
  Ensures.of_error rfl trivial

theorem record_advances (event : Event) (packs : machine.output.Packs) :
    Advancing (record options event) machine := by
  rcases record_run options event machine with ⟨trace, recorded⟩ | failed
  · exact Ensures.of_ok recorded ⟨rfl, packs⟩
  · exact Ensures.of_error failed trivial

theorem store_advances (address : Json) (value : Value) (packs : machine.output.Packs) :
    Advancing (store options address value) machine := by
  rcases store_run options address value machine with ⟨trace, -, run⟩ | ⟨-, failed⟩
  · split at run
    · exact Ensures.of_ok run ⟨rfl, packs⟩
    · exact Ensures.of_error run trivial
  · exact Ensures.of_error failed trivial

theorem emit_advances {bit : Json} (legal : bit.Bit) (packs : machine.output.Packs) :
    Advancing (emit bit) machine := by
  obtain ⟨output, emitted, kept⟩ := emit_run machine legal packs
  exact Ensures.of_ok emitted ⟨rfl, kept⟩

theorem request_advances (packs : machine.output.Packs) : Advancing request machine := by
  have said : (machine.output.say machine.input.prompt).Packs := ⟨packs.few, packs.bits⟩
  unfold Advancing Ensures request
  rcases machine.input.next with ⟨_ | bit, input⟩
  · exact trivial
  · exact ⟨rfl, said⟩

theorem evaluate_advances {node : Node} (evaluable : node.Evaluable)
    (sound : machine.context.memory.Sound True) (packs : machine.output.Packs) :
    Advancing (evaluate options node) machine :=
  (evaluate_ensures options evaluable.integral sound).mono
    (fun _ _ kept => ⟨kept.1.steps, kept.1.output ▸ packs⟩) (fun _ _ _ => trivial)

theorem placeOf_advances {node : Node} (evaluable : node.Evaluable)
    (sound : machine.context.memory.Sound True) (packs : machine.output.Packs) :
    Advancing (placeOf options node) machine :=
  (placeOf_ensures options evaluable.integral sound).mono
    (fun _ _ kept => ⟨kept.1.steps, kept.1.output ▸ packs⟩) (fun _ _ _ => trivial)

theorem execute_advances {node : Node} (executable : node.Executable) (sound : machine.Sound True)
    (packs : machine.output.Packs) : Advancing (execute options node) machine := by
  cases node with
  | print bit =>
    exact (record_advances _ packs).bind fun _ _ _ before => emit_advances executable before.packs
  | read =>
    refine (request_advances packs).bind fun bit between _ before => ?_
    cases !isLegalBit bit with
    | true => exact advancing_throw
    | false =>
      exact (record_advances _ before.packs).bind fun _ _ _ later => store_advances _ _ later.packs
  | assignment literal place source =>
    obtain ⟨evaluates, places⟩ := executable_assignment executable
    rw [execute_assignment]
    refine (evaluate_advances evaluates sound.memory packs).bind fun value between done before => ?_
    rcases places with ⟨rfl, -⟩ | computes
    · exact store_advances literal value before.packs
    · rw [if_neg (not_isAbsent computes)]
      have evaluated := evaluate_ensures options evaluates.integral sound.memory
      obtain ⟨probes, -⟩ := Ensures.ok evaluated done
      refine (placeOf_advances computes probes.memory before.packs).bind fun address _ _ later => ?_
      exact store_advances address value later.packs
  | _ => exact executable.elim

end Advances

section Runs

theorem resolve_whole {node : Node} (reachable : node.Reachable)
    (sound : machine.context.memory.Sound True) :
    (resolve options node).Ensures machine
      (fun number after => number.Whole ∧ Probes True machine after) (fun _ _ => False) := by
  cases node with
  | target number indirect =>
    obtain ⟨n, rfl⟩ := reachable
    rw [resolve_target]
    split
    · have loads : (load (.int n)).Ensures machine
          (fun value after => value.magnitude.Whole ∧ Probes True machine after)
          (fun _ _ => False) := by
        refine (load_ensures n sound).mono (fun _ _ kept => ⟨kept.2.whole, kept.1⟩) ?_
        rintro _ _ ⟨-, -, low⟩
        omega
      exact Ensures.bind loads fun value _ _ kept => .of_ok rfl kept
    · exact .of_ok rfl ⟨⟨n, rfl⟩, .refl sound⟩
  | _ => exact reachable.elim

theorem reachable_arms {ifZero ifOne : Node}
    (branching : (Node.conditional ifZero ifOne).Branching) :
    ((!ifZero.isAbsent) = true → ifZero.Reachable) ∧
      ((!ifOne.isAbsent) = true → ifOne.Reachable) := by
  rcases branching with ⟨rfl, one⟩ | ⟨zero, rfl⟩ | ⟨zero, one⟩
  · exact ⟨nofun, fun _ => one⟩
  · exact ⟨fun _ => zero, nofun⟩
  · exact ⟨fun _ => zero, fun _ => one⟩

/-- Finding the next line never fails, since a line number is an address. -/
theorem successor_whole {line : Line} (branching : line.branch.Branching)
    (sound : machine.context.memory.Sound True) :
    (successor options line).Ensures machine
      (fun number after => (number = .null ∨ number.Whole) ∧ Probes True machine after)
      (fun _ _ => False) := by
  have resolves : ∀ {goal : Node}, goal.Reachable → (resolve options goal).Ensures machine
      (fun number after => (number = .null ∨ number.Whole) ∧ Probes True machine after)
      (fun _ _ => False) := fun reachable =>
    (resolve_whole reachable sound).mono (fun _ _ kept => ⟨Or.inr kept.1, kept.2⟩) (fun _ _ => id)
  cases branches : line.branch with
  | absent =>
    have run : successor options line machine = .ok .null machine := by
      unfold successor
      rw [branches]
      rfl
    exact .of_ok run ⟨Or.inl rfl, .refl sound⟩
  | unconditional goal =>
    rw [branches] at branching
    unfold successor
    rw [branches]
    exact resolves branching
  | conditional ifZero ifOne =>
    have run := successor_conditional options branches machine
    rw [branches] at branching
    obtain ⟨zero, one⟩ := reachable_arms branching
    split at run
    · next taken =>
      rw [Bool.and_eq_true] at taken
      exact .of_eq run (resolves (zero taken.2))
    · split at run
      · next taken =>
        rw [Bool.and_eq_true] at taken
        exact .of_eq run (resolves (one taken.2))
      · exact .of_ok run ⟨Or.inl rfl, .refl sound⟩
  | _ =>
    rw [branches] at branching
    exact branching.elim

theorem blames_of_arrive {program : Program} {line : Line} {number : Json}
    {refused : Json → Prop} (whole : number = .null ∨ number.Whole)
    (failed : arrive options program line number machine = .error fault after) :
    Blames options refused fault := by
  unfold arrive at failed
  split at failed
  · rcases bind_eq_error.mp failed with failed | ⟨_, _, -, failed⟩
    · exact .of_record failed
    · cases failed
  · next proper =>
    obtain ⟨n, rfl⟩ := whole.resolve_left proper
    rw [if_neg (show ¬(!Json.isKey (.int n)) = true from nofun)] at failed
    cases found : program.line? (.int n) with
    | none =>
      rw [found] at failed
      cases failed
      exact .of_ne trivial nofun nofun
    | some next =>
      rw [found] at failed
      rcases bind_eq_error.mp failed with failed | ⟨_, _, -, failed⟩
      · exact .of_record failed
      · cases failed

theorem arrive_advances {program : Program} {line : Line} (number : Json)
    (packs : machine.output.Packs) :
    Advancing (arrive options program line number) machine := by
  unfold arrive
  split
  · exact (record_advances _ packs).bind fun _ _ _ kept => advancing_pure none kept.packs
  · split
    · exact advancing_throw
    · split
      · exact advancing_throw
      · exact (record_advances _ packs).bind fun _ _ _ kept => advancing_pure (some _) kept.packs

/-- A machine that a program from a text may have brought about. -/
structure Regular (machine : Machine) : Prop where
  sound : machine.Sound True
  packs : machine.output.Packs

theorem Enters.regular {before after : Machine} (enters : Enters before after)
    (regular : Regular before) : Regular after :=
  ⟨enters.sound regular.sound, enters.output ▸ regular.packs⟩

theorem execute_regular {node : Node} (executable : node.Executable) (regular : Regular machine)
    (done : execute options node machine = .ok () after) : Regular after := by
  have keeps : (execute options node).Ensures machine (fun _ after => after.Sound True)
      (fun _ after => after.Sound True) := execute_keeps executable.integral regular.sound
  have advances := Ensures.ok (execute_advances executable regular.sound regular.packs) done
  exact ⟨keeps.ok done, advances.packs⟩

variable {program : Program} {line : Line}

/-- A step fails for an expected reason. -/
theorem blames_of_step (bounded : ∀ limit, options.stepLimit = some limit → limit.Whole)
    (complete : LineOf.Complete line) (regular : Regular machine)
    (failed : step options program line machine = .error fault after) :
    Blames options (fun address => ∃ entered, enter options line machine = .ok () entered ∧
      InstructionRefused options address line.instruction entered after) fault := by
  have enters := enter_ensures options line machine
  rw [step_eq] at failed
  rcases bind_eq_error.mp failed with failed | ⟨_, entered, began, failed⟩
  · rcases (enters.error failed).2 with ⟨rfl, traces⟩ | ⟨limit, bound, exceeded⟩
    · exact ⟨trivial, fun _ => traces, nofun⟩
    · rw [exceeded (bounded limit bound)]
      exact .of_ne trivial nofun nofun
  · have ready := (enters.ok began).1.regular regular
    rcases bind_eq_error.mp failed with failed | ⟨_, executed, done, failed⟩
    · exact (blames_of_execute complete.instruction ready.sound ready.packs failed).mono
        fun _ refused => ⟨entered, began, refused⟩
    · have later := execute_regular complete.instruction ready done
      have follows : (successor options line).Ensures executed _ _ :=
        successor_whole complete.branch later.sound.memory
      rcases bind_eq_error.mp failed with failed | ⟨number, chosen, found, failed⟩
      · exact (follows.error failed).elim
      · exact blames_of_arrive (follows.ok found).1 failed

theorem successor_advances (branching : line.branch.Branching) (regular : Regular machine) :
    Advancing (successor options line) machine :=
  (successor_whole branching regular.sound.memory).mono
    (fun _ _ kept => ⟨kept.2.steps, kept.2.output ▸ regular.packs⟩) (fun _ _ _ => trivial)

/-- What a step that succeeds leads to. It is counted, and its number is within the limit. -/
structure Steps (options : Options) (program : Program) (before : Machine) (next : Option Line)
    (after : Machine) : Prop where
  regular : Regular after
  inside : ∀ line ∈ next, line ∈ program.lines
  steps : after.context.steps = before.context.steps + 1
  bound : ∀ limit : Int, options.stepLimit = some (.int limit) → after.context.steps ≤ limit

theorem steps_of_step (complete : LineOf.Complete line) (regular : Regular machine)
    {next : Option Line} (done : step options program line machine = .ok next after) :
    Steps options program machine next after := by
  obtain ⟨sound, inside⟩ := (step_ensures complete.instruction.integral complete.branch.integral
    regular.sound).ok done
  rw [step_eq] at done
  obtain ⟨_, entered, began, done⟩ := bind_eq_ok.mp done
  obtain ⟨enters, bound⟩ := (enter_ensures options line machine).ok began
  have ready := enters.regular regular
  have advancing : Advancing (execute options line.instruction >>= fun _ =>
      successor options line >>= arrive options program line) entered := by
    refine (execute_advances complete.instruction ready.sound ready.packs).bind
      fun _ _ executed _ => ?_
    refine (successor_advances complete.branch
      (execute_regular complete.instruction ready executed)).bind fun number _ _ later => ?_
    exact arrive_advances number later.packs
  have advances := Ensures.ok advancing done
  have counted := advances.steps.trans enters.steps
  refine ⟨⟨sound, advances.packs⟩, inside, counted, fun limit limited => ?_⟩
  rw [advances.steps]
  exact bound limit limited

/-- Every line of a run that goes on is counted, so there are no more of them than the limit. -/
theorem steps_of_runFrom (complete : ∀ line ∈ program.lines, LineOf.Complete line) (fuel : Nat)
    (inside : line ∈ program.lines) (regular : Regular machine) {last : Line}
    (ran : runFrom options program fuel line machine = .ok (some last) after) :
    after.context.steps = machine.context.steps + fuel ∧
      (0 < fuel → ∀ limit : Int, options.stepLimit = some (.int limit) →
        after.context.steps ≤ limit) := by
  induction fuel generalizing line machine with
  | zero =>
    cases ran
    exact ⟨rfl, nofun⟩
  | succ fuel ih =>
    obtain ⟨next, between, stepped, ran⟩ := bind_eq_ok.mp ran
    have first := steps_of_step (complete line inside) regular stepped
    cases next with
    | none => cases ran
    | some next =>
      obtain ⟨counted, bound⟩ := ih (first.inside next rfl) first.regular ran
      have steps := first.steps
      refine ⟨by omega, fun _ limit limited => ?_⟩
      by_cases more : 0 < fuel
      · exact bound more limit limited
      · have within := first.bound limit limited
        omega

/-- An operand is refused in a line that is reached from another one. -/
def RefusedFrom (options : Options) (program : Program) (line : Line) (start after : Machine)
    (address : Json) : Prop :=
  ∃ (fuel : Nat) (last : Line) (reached entered : Machine),
    runFrom options program fuel line start = .ok (some last) reached ∧
    enter options last reached = .ok () entered ∧
    InstructionRefused options address last.instruction entered after

/-- A run fails for an expected reason. -/
theorem blames_of_runFrom (bounded : ∀ limit, options.stepLimit = some limit → limit.Whole)
    (complete : ∀ line ∈ program.lines, LineOf.Complete line) (fuel : Nat)
    (inside : line ∈ program.lines) (regular : Regular machine)
    (failed : runFrom options program fuel line machine = .error fault after) :
    Blames options (RefusedFrom options program line machine after) fault := by
  induction fuel generalizing line machine with
  | zero => cases failed
  | succ fuel ih =>
    rcases bind_eq_error.mp failed with failed | ⟨next, between, stepped, failed⟩
    · refine (blames_of_step bounded (complete line inside) regular failed).mono ?_
      rintro address ⟨entered, began, refused⟩
      exact ⟨0, line, machine, entered, rfl, began, refused⟩
    · have first := steps_of_step (complete line inside) regular stepped
      cases next with
      | none => cases failed
      | some next =>
        refine (ih (first.inside next rfl) first.regular failed).mono ?_
        rintro address ⟨count, last, reached, entered, ran, began, refused⟩
        refine ⟨count + 1, last, reached, entered, ?_, began, refused⟩
        exact bind_eq_ok.mpr ⟨some next, between, stepped, ran⟩

/-- Naming the current line changes only the faults. -/
theorem located_eq_ok {action : Action α} {result : α} :
    located action machine = .ok result after ↔ action machine = .ok result after := by
  unfold located
  cases action machine with
  | ok other reached => exact Iff.rfl
  | error fault reached =>
    constructor
    · nofun
    · nofun

theorem located_eq_error {action : Action α}
    (failed : located action machine = .error fault after) :
    ∃ bare, action machine = .error bare after ∧ fault = bare.within after.context.line := by
  unfold located at failed
  cases ran : action machine with
  | ok result reached =>
    rw [ran] at failed
    cases failed
  | error bare reached =>
    rw [ran] at failed
    cases failed
    exact ⟨bare, rfl, rfl⟩

/-- In the course of a run, the operand of an address-of operator turns out to name no address, and
the run ends there. -/
def RefusedInRun (options : Options) (program : Program) (start after : Machine)
    (address : Json) : Prop :=
  ∃ (fuel : Nat) (line : Line) (reached entered : Machine),
    runFor options fuel program start = .ok (some line) reached ∧
    enter options line reached = .ok () entered ∧
    InstructionRefused options address line.instruction entered after

theorem runFor_of_entry {entry : Line} (found : program.entry? = some entry) (fuel : Nat) :
    runFor options fuel program = located (runFrom options program fuel entry) := by
  unfold runFor
  rw [found]

/-- What a run of a complete program from a regular machine comes to. -/
theorem runFor_ensures (bounded : ∀ limit, options.stepLimit = some limit → limit.Whole)
    (complete : program.Complete) (fuel : Nat) (regular : Regular machine) :
    (runFor options fuel program).Ensures machine
      (fun next after => next.isSome → after.context.steps = machine.context.steps + fuel ∧
        (0 < fuel → ∀ limit : Int, options.stepLimit = some (.int limit) →
          after.context.steps ≤ limit))
      (fun fault after => ∃ bare, fault = bare.within after.context.line ∧
        Blames options (RefusedInRun options program machine after) bare) := by
  obtain ⟨entry, found⟩ := Option.isSome_iff_exists.mp complete.entry
  have inside : entry ∈ program.lines := mem_of_line? found
  have runs : ∀ count, runFor options count program =
      located (runFrom options program count entry) := runFor_of_entry found
  cases ran : runFor options fuel program machine with
  | ok next after =>
    refine .of_ok ran fun going => ?_
    obtain ⟨last, rfl⟩ := Option.isSome_iff_exists.mp going
    rw [runs, located_eq_ok] at ran
    exact steps_of_runFrom complete.lines fuel inside regular ran
  | error fault after =>
    refine .of_error ran ?_
    rw [runs] at ran
    obtain ⟨bare, failed, rfl⟩ := located_eq_error ran
    have blames := blames_of_runFrom bounded complete.lines fuel inside regular failed
    refine ⟨bare, rfl, blames.mono ?_⟩
    rintro address ⟨count, line, reached, entered, went, began, refused⟩
    refine ⟨count, line, reached, entered, ?_, began, refused⟩
    rw [runs, located_eq_ok]
    exact went

/-- A fresh machine is regular, wherever it traces to. -/
theorem regular_fresh (bits : List Int) (style : OutputStyle) (trace : Trace) :
    Regular { input := .prepared (bits.map .int), output := { style }, trace } := by
  refine ⟨⟨Memory.Sound.fresh, ?_⟩, show 0 < Output.groupSize by decide, nofun⟩
  intro bit inside
  obtain ⟨n, -, rfl⟩ := List.mem_map.mp inside
  exact ⟨n, rfl⟩

end Runs

end Action

/-- A fault that a program from a text may bring about is told to users once its line is known, unless
tracing has failed; and it is none of those about what a graph lacks. -/
theorem Fault.Expected.within {fault : Fault} (expected : fault.Expected) (line : Json) :
    ((fault.within line).isTold = true ∨ fault.within line = .unwritable) ∧
      (∀ node, fault.within line ≠ .cannotExecute node ∧ fault.within line ≠ .cannotEvaluate node ∧
        fault.within line ≠ .cannotBranch node) ∧
      ∀ address, fault.within line ≠ .illegalAddress address := by
  cases fault with
  | nestedTooDeeply known =>
    cases known with
    | none => exact ⟨Or.inl rfl, fun _ => ⟨nofun, nofun, nofun⟩, nofun⟩
    | some other => exact ⟨Or.inl rfl, fun _ => ⟨nofun, nofun, nofun⟩, nofun⟩
  | unwritable => exact ⟨Or.inr rfl, fun _ => ⟨nofun, nofun, nofun⟩, nofun⟩
  | _ => first | exact expected.elim | exact ⟨Or.inl rfl, fun _ => ⟨nofun, nofun, nofun⟩, nofun⟩

theorem Fault.Expected.isSome_message? {fault : Fault} (expected : fault.Expected) (line : Json) :
    (fault.within line).message?.isSome = true ↔ (fault.within line).Legible := by
  rcases (expected.within line).1 with told | same
  · exact Fault.isSome_message?_of_told told
  · rw [same]
    exact iff_of_false nofun fun legible => legible.1 rfl

theorem Fault.within_eq_invalidAddress {fault : Fault} {line address : Json}
    (same : fault.within line = .invalidAddress address) : fault = .invalidAddress address := by
  cases fault with
  | nestedTooDeeply known => cases known <;> cases same
  | _ => exact same

theorem Fault.within_eq_unwritable {fault : Fault} {line : Json}
    (same : fault.within line = .unwritable) : fault = .unwritable := by
  cases fault with
  | nestedTooDeeply known => cases known <;> cases same
  | _ => exact same

namespace FrontEnd

/-- What becomes of a program that either front end accepts, whatever the options and the input,
after any number of lines and wherever traces go. If it goes on, it has not executed more lines than
the step limit. If it fails, it is not that a graph cannot be executed, evaluated or branched with,
nor that an address is illegal; and where operators look at kinds, an invalid address is always the
operand of an address-of operator. The fault has a message exactly if it is legible, and without
tracing it cannot be that an event is not. -/
theorem runFor_of_parse {frontEnd : FrontEnd} {source : String} {program : Program}
    (parsed : frontEnd.parse source = .ok program) (options : Options)
    (bounded : ∀ limit, options.stepLimit = some limit → limit.Whole) (bits : List Int)
    (style : OutputStyle) (trace : Trace) (fuel : Nat) :
    let start : Machine := { input := .prepared (bits.map .int), output := { style }, trace }
    (Action.runFor options fuel program).Ensures start
      (fun next _ => next.isSome → 0 < fuel → ∀ limit : Int,
        options.stepLimit = some (.int limit) → fuel ≤ limit)
      (fun fault after =>
        (fault.message?.isSome = true ↔ fault.Legible) ∧
        (fault = .unwritable → options.verbosity ≠ 0) ∧
        (∀ node, fault ≠ .cannotExecute node ∧ fault ≠ .cannotEvaluate node ∧
          fault ≠ .cannotBranch node) ∧
        (∀ address, fault ≠ .illegalAddress address) ∧
        (options.magnitudeGuards = false → ∀ address, fault = .invalidAddress address →
          Action.RefusedInRun options program start after address)) := by
  intro start
  have complete := complete_of_parse parsed
  have regular : Action.Regular start := Action.regular_fresh bits style trace
  refine (Action.runFor_ensures bounded complete fuel regular).mono ?_ ?_
  · intro next after counts going positive limit limited
    obtain ⟨steps, bound⟩ := counts going
    have within := bound positive limit limited
    have fresh : start.context.steps = 0 := rfl
    omega
  · rintro _ after ⟨bare, rfl, blames⟩
    obtain ⟨-, graphs, addresses⟩ := blames.expected.within after.context.line
    refine ⟨blames.expected.isSome_message? _,
      fun traces => blames.tracing (Fault.within_eq_unwritable traces), graphs, addresses, ?_⟩
    intro kinds address same
    exact blames.address kinds address (Fault.within_eq_invalidAddress same)

/-- A program that asks for the address of a negative number. -/
def addressOfNegative : String :=
  "LINE NUMBER ZERO CODE VARIABLE ZERO EQUALS THE ADDRESS OF OPEN PARENTHESIS ZERO NAND ZERO " ++
    "CLOSE PARENTHESIS"

theorem runFor_of_parse_addressOfNegative :
    ∃ program after, FrontEnd.descent.parse addressOfNegative = .ok program ∧
      Action.runFor {} 1 program { input := .prepared [] } =
        .error (.invalidAddress (.int (-1))) after ∧
      Action.RefusedInRun {} program { input := .prepared [] } after (.int (-1)) := by
  have fails : (match FrontEnd.descent.parse addressOfNegative with
      | .ok program =>
        match Action.runFor {} 1 program { input := .prepared [] } with
        | .error fault _ => fault == .invalidAddress (.int (-1))
        | .ok _ _ => false
      | .error _ => false) = true := by
    decide +kernel
  cases parsed : FrontEnd.descent.parse addressOfNegative with
  | error diagnostic =>
    rw [parsed] at fails
    cases fails
  | ok program =>
    rw [parsed] at fails
    have ensures := runFor_of_parse parsed {} nofun [] .collected {} 1
    cases ran : Action.runFor {} 1 program { input := .prepared [] } with
    | ok next after =>
      simp only [ran] at fails
      cases fails
    | error fault after =>
      simp only [ran] at fails
      cases eq_of_beq fails
      exact ⟨program, after, rfl, ran, (ensures.error ran).2.2.2.2 rfl _ rfl⟩

end FrontEnd

end BitMachine
