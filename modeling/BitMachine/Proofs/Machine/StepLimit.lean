import BitMachine.Proofs.Machine.Congruence
import BitMachine.Proofs.Machine.Regularity

/-! A step limit only cuts a run short. The lines that it admits are executed as they would be
without it; a run that ends within them ends the same, and any other run is stopped when the next
line has been counted and before it is executed. -/

set_option autoImplicit false

namespace BitMachine

namespace Options

/-- The same options with a limit on the number of lines. -/
def bounded (options : Options) (limit : Int) : Options :=
  { options with stepLimit := some (.int limit) }

/-- The same options without a limit on the number of lines. -/
def unbounded (options : Options) : Options :=
  { options with stepLimit := none }

end Options

namespace Action

section Uncounted

/-- An action that counts no line: if it succeeds, the count and the current line are as before, and
if it fails, it is not for the step limit. -/
def Uncounted {α : Type} (action : Action α) : Prop :=
  ∀ machine, action.Ensures machine
    (fun _ after => after.context.steps = machine.context.steps ∧
      after.context.line = machine.context.line)
    (fun fault _ => ∀ limit, fault ≠ .stepLimit limit)

variable {α β : Type}

theorem uncounted_pure (value : α) : Uncounted (pure value) :=
  fun _ => Ensures.of_ok rfl ⟨rfl, rfl⟩

theorem uncounted_throw {fault : Fault} (other : ∀ limit, fault ≠ .stepLimit limit) :
    Uncounted (throw fault : Action α) :=
  fun _ => Ensures.of_error rfl other

theorem Uncounted.bind {first : Action α} {next : α → Action β} (before : Uncounted first)
    (after : ∀ value, Uncounted (next value)) : Uncounted (first >>= next) := by
  intro machine
  apply Ensures.bind (before machine)
  intro value between _ kept
  apply (after value between).mono
  · intro _ _ later
    exact ⟨later.1.trans kept.1, later.2.trans kept.2⟩
  · intro _ _ other
    exact other

theorem record_uncounted (options : Options) (event : Event) :
    Uncounted (record options event) := by
  intro machine
  rcases record_run options event machine with ⟨trace, recorded⟩ | failed
  · exact Ensures.of_ok recorded ⟨rfl, rfl⟩
  · exact Ensures.of_error failed nofun

theorem load_uncounted (address : Json) : Uncounted (load address) := by
  intro machine
  unfold Ensures load
  cases found : machine.context.memory.read address with
  | ok entry => exact ⟨rfl, rfl⟩
  | error fault =>
    rintro limit rfl
    exact Memory.inner_of_read found

theorem write_uncounted (address : Json) (value : Value) : Uncounted (write address value) := by
  intro machine
  unfold Ensures write
  cases written : machine.context.memory.write address value with
  | ok memory => exact ⟨rfl, rfl⟩
  | error fault =>
    rintro limit rfl
    exact Memory.inner_of_write written

theorem emit_uncounted (bit : Json) : Uncounted (emit bit) := by
  intro machine
  unfold Ensures emit
  cases printed : machine.output.write bit with
  | mk fault? output =>
    cases fault? with
    | none => exact ⟨rfl, rfl⟩
    | some fault =>
      rintro limit rfl
      exact Output.inner_of_write printed

theorem request_uncounted : Uncounted request := by
  intro machine
  unfold Ensures request
  cases drawn : machine.input.next with
  | mk result input =>
    cases result with
    | ok bit => exact ⟨rfl, rfl⟩
    | error fault =>
      rcases fault_of_next (congrArg Prod.fst drawn) with rfl | rfl
      · exact nofun
      · exact nofun

theorem uncounted_congruence (options : Options) :
    Congruence (fun _ action _ => Uncounted action) options options where
  guards := rfl
  frames := rfl
  jumps := rfl
  returns := uncounted_pure
  fails _ := uncounted_throw
  continues := Uncounted.bind
  records := record_uncounted options
  loads := load_uncounted
  writes := write_uncounted
  registers := fun _ => Ensures.of_ok rfl ⟨rfl, rfl⟩
  emits := emit_uncounted
  requests := request_uncounted

end Uncounted

section Steps

variable {options : Options} {program : Program} {line : Line} {machine after : Machine}

/-- Only entering a line looks at the limit. -/
theorem limit_congruence (options : Options) (limit : Int) :
    Congruence (fun _ action action' => action = action') (options.bounded limit)
      options.unbounded where
  guards := rfl
  frames := rfl
  jumps := rfl
  returns _ := rfl
  fails _ _ := rfl
  continues first next := by rw [first, funext next]
  records _ := rfl
  loads _ := rfl
  writes _ _ := rfl
  registers := rfl
  emits _ := rfl
  requests := rfl

theorem bind_of_eq {α β : Type} {first first' : Action α} (next : α → Action β)
    (same : first machine = first' machine) :
    (first >>= next) machine = (first' >>= next) machine := by
  show EStateM.bind first next machine = EStateM.bind first' next machine
  unfold EStateM.bind
  rw [same]

/-- A line within the limit is executed as without it. -/
theorem step_bounded_of_lt {limit : Int} (within : machine.context.steps < limit) :
    step (options.bounded limit) program line machine =
      step options.unbounded program line machine := by
  have entered : enter (options.bounded limit) line machine =
      enter options.unbounded line machine := by
    have admitted : Json.below? (.int limit) (counted machine).context.steps = some false := by
      have steps : (counted machine).context.steps = machine.context.steps + 1 := rfl
      rw [Json.below?_int, Option.some.injEq, decide_eq_false_iff_not, steps]
      omega
    rw [enter_of_limit rfl, enter_of_no_limit rfl, admitted]
    rfl
  rw [step_eq, step_eq, (limit_congruence options limit).rest_related program line]
  exact bind_of_eq _ entered

/-- A line past the limit is counted and nothing else. -/
theorem step_bounded_of_le {limit : Int} (past : limit ≤ machine.context.steps) :
    step (options.bounded limit) program line machine =
      .error (.stepLimit (.int limit)) (counted machine) := by
  have refused : enter (options.bounded limit) line machine =
      .error (.stepLimit (.int limit)) (counted machine) := by
    have exceeded : Json.below? (.int limit) (counted machine).context.steps = some true := by
      have steps : (counted machine).context.steps = machine.context.steps + 1 := rfl
      rw [Json.below?_int, Option.some.injEq, decide_eq_true_iff, steps]
      omega
    rw [enter_of_limit rfl, exceeded]
  rw [step_eq]
  exact bind_of_error _ refused

theorem rest_uncounted (options : Options) (program : Program) (line : Line) :
    Uncounted (execute options line.instruction >>= fun _ =>
      successor options line >>= arrive options program line) :=
  (uncounted_congruence options).rest_related program line

/-- Entering a line without a limit counts it, and makes it the current one. -/
theorem enter_unbounded_ensures (options : Options) (line : Line) (machine : Machine) :
    (enter options.unbounded line).Ensures machine
      (fun _ after => after.context.steps = machine.context.steps + 1 ∧
        after.context.line = line.number)
      (fun fault _ => ∀ limit, fault ≠ .stepLimit limit) := by
  apply Ensures.of_eq (enter_of_no_limit rfl line machine)
  apply (record_uncounted options.unbounded (.line line.number) _).mono
  · intro _ after kept
    exact kept
  · intro _ _ other
    exact other

/-- Without a limit, a step that succeeds is counted, and its line is the current one; one that
fails does not fail for a limit. -/
theorem step_unbounded_ensures (options : Options) (program : Program) (line : Line)
    (machine : Machine) :
    (step options.unbounded program line).Ensures machine
      (fun _ after => after.context.steps = machine.context.steps + 1 ∧
        after.context.line = line.number)
      (fun fault _ => ∀ limit, fault ≠ .stepLimit limit) := by
  rw [step_eq]
  apply (enter_unbounded_ensures options line machine).bind
  intro _ between _ counts
  apply (rest_uncounted options.unbounded program line between).mono
  · intro _ after kept
    exact ⟨kept.1.trans counts.1, kept.2.trans counts.2⟩
  · intro _ _ other
    exact other

end Steps

section Runs

variable {options : Options} {program : Program} {line next : Line} {machine after : Machine}
  {limit : Int}

/-- What a run does with the result of its first lines. -/
def goOn (options : Options) (program : Program) (fuel : Nat) :
    Option Line → Action (Option Line)
  | none => pure none
  | some next => runFrom options program fuel next

theorem runFrom_succ (options : Options) (program : Program) (fuel : Nat) (line : Line) :
    runFrom options program (fuel + 1) line =
      step options program line >>= goOn options program fuel :=
  rfl

/-- A run can be made in two parts. -/
theorem runFrom_add (options : Options) (program : Program) (fuel more : Nat) (line : Line) :
    runFrom options program (fuel + more) line =
      runFrom options program fuel line >>= goOn options program more := by
  induction fuel generalizing line with
  | zero =>
    rw [Nat.zero_add, runFrom, pure_bind]
    rfl
  | succ fuel ih =>
    rw [Nat.succ_add, runFrom_succ, runFrom_succ, bind_assoc]
    congr 1
    funext left
    cases left with
    | none => rfl
    | some next => exact ih next

/-- A run that goes on has a last line that it executed. -/
theorem runFrom_succ_eq_ok {fuel : Nat}
    (ran : runFrom options program (fuel + 1) line machine = .ok (some next) after) :
    ∃ last between, runFrom options program fuel line machine = .ok (some last) between ∧
      step options program last between = .ok (some next) after := by
  rw [runFrom_add] at ran
  obtain ⟨left, between, first, ran⟩ := bind_eq_ok.mp ran
  cases left with
  | none => cases ran
  | some last =>
    refine ⟨last, between, first, ?_⟩
    have single : runFrom options program 1 last = step options program last := by
      rw [runFrom_succ]
      have ends : goOn options program 0 = pure := by
        funext left
        cases left <;> rfl
      rw [ends, bind_pure]
    rwa [goOn, single] at ran

theorem steps_of_runFrom_unbounded {fuel : Nat}
    (ran : runFrom options.unbounded program fuel line machine = .ok (some next) after) :
    after.context.steps = machine.context.steps + fuel := by
  induction fuel generalizing next after with
  | zero =>
    cases ran
    rfl
  | succ fuel ih =>
    obtain ⟨last, between, first, stepped⟩ := runFrom_succ_eq_ok ran
    have before := ih first
    have counts := (step_unbounded_ensures options program last between).ok stepped
    omega

/-- The lines that a limit admits are executed as without it. -/
theorem runFrom_bounded_of_le {fuel : Nat}
    (within : fuel ≤ (limit - machine.context.steps).toNat) :
    runFrom (options.bounded limit) program fuel line machine =
      runFrom options.unbounded program fuel line machine := by
  induction fuel generalizing line machine with
  | zero => rfl
  | succ fuel ih =>
    rw [runFrom_succ, runFrom_succ, bind_of_eq _ (step_bounded_of_lt (by omega))]
    have counts := step_unbounded_ensures options program line machine
    cases stepped : step options.unbounded program line machine with
    | error fault after => rw [bind_of_error _ stepped, bind_of_error _ stepped]
    | ok left after =>
      rw [bind_of_ok _ stepped, bind_of_ok _ stepped]
      cases left with
      | none => rfl
      | some next =>
        have steps := (counts.ok stepped).1
        exact ih (by omega)

/-- What is left of a run if it is stopped at the next line. -/
def cut (limit : Int) :
    EStateM.Result Fault Machine (Option Line) → EStateM.Result Fault Machine (Option Line)
  | .ok (some _) after => .error (.stepLimit (.int limit)) (counted after)
  | outcome => outcome

/-- A run with a limit is the run without it, stopped after the lines that the limit admits. -/
theorem runFrom_bounded_of_lt {fuel : Nat}
    (past : (limit - machine.context.steps).toNat < fuel) :
    runFrom (options.bounded limit) program fuel line machine =
      cut limit (runFrom options.unbounded program (limit - machine.context.steps).toNat line
        machine) := by
  obtain ⟨more, rfl⟩ := Nat.exists_eq_add_of_lt past
  rw [Nat.add_assoc, runFrom_add, bind_of_eq _ (runFrom_bounded_of_le (Nat.le_refl _))]
  cases ran : runFrom options.unbounded program (limit - machine.context.steps).toNat line machine
    with
  | error fault after => exact bind_of_error _ ran
  | ok left after =>
    rw [bind_of_ok _ ran]
    cases left with
    | none => rfl
    | some next =>
      have steps := steps_of_runFrom_unbounded ran
      show runFrom (options.bounded limit) program (more + 1) next after = _
      rw [runFrom_succ]
      exact bind_of_error _ (step_bounded_of_le (by omega))

/-- Without a limit no run fails for one. -/
theorem runFrom_unbounded_ne_stepLimit {fuel : Nat} {bound : Json} :
    runFrom options.unbounded program fuel line machine ≠ .error (.stepLimit bound) after := by
  induction fuel generalizing line machine with
  | zero => exact nofun
  | succ fuel ih =>
    intro failed
    rw [runFrom_succ] at failed
    have steps := step_unbounded_ensures options program line machine
    rcases bind_eq_error.mp failed with failed | ⟨left, between, -, failed⟩
    · exact steps.error failed bound rfl
    · cases left with
      | none => cases failed
      | some next => exact ih failed

end Runs

section WholeRuns

variable {options : Options} {program : Program} {start after : Machine} {limit : Int}

/-- A run from the first line, seen from the run from any line. -/
theorem runFor_eq (options : Options) (fuel : Nat) (program : Program) (start : Machine) :
    runFor options fuel program start =
      match program.entry? with
      | none => .error .missingProgram start
      | some line => located (runFrom options program fuel line) start := by
  unfold runFor
  cases program.entry? <;> rfl

theorem runFor_eq_ok {fuel : Nat} {left : Option Line} :
    runFor options fuel program start = .ok left after ↔
      ∃ line, program.entry? = some line ∧
        runFrom options program fuel line start = .ok left after := by
  rw [runFor_eq]
  cases program.entry? with
  | none => exact ⟨nofun, nofun⟩
  | some line =>
    constructor
    · intro ran
      exact ⟨line, rfl, located_eq_ok.mp ran⟩
    · rintro ⟨_, ⟨⟩, ran⟩
      exact located_eq_ok.mpr ran

theorem runFor_bounded_of_le {fuel : Nat} (within : fuel ≤ (limit - start.context.steps).toNat) :
    runFor (options.bounded limit) fuel program start =
      runFor options.unbounded fuel program start := by
  rw [runFor_eq, runFor_eq]
  cases program.entry? with
  | none => rfl
  | some line =>
    dsimp only [located]
    rw [runFrom_bounded_of_le within]

theorem runFor_bounded_of_lt {fuel : Nat} (past : (limit - start.context.steps).toNat < fuel) :
    runFor (options.bounded limit) fuel program start =
      cut limit (runFor options.unbounded (limit - start.context.steps).toNat program start) := by
  rw [runFor_eq, runFor_eq]
  cases program.entry? with
  | none => rfl
  | some line =>
    dsimp only [located]
    rw [runFrom_bounded_of_lt past]
    rcases runFrom options.unbounded program _ line start with ⟨_ | next, after⟩ | ⟨fault, after⟩
    · rfl
    · rfl
    · rfl

/-- How a run ends, if it does: it halts, or it fails. -/
structure Ends (options : Options) (program : Program) (start : Machine)
    (outcome : EStateM.Result Fault Machine (Option Line)) : Prop where
  finished : ∀ next after, outcome ≠ .ok (some next) after
  reached : ∃ fuel, runFor options fuel program start = outcome

/-- A run that is over stays as it is, however long it is given. -/
theorem runFor_add {fuel : Nat}
    (finished : ∀ next after, runFor options fuel program start ≠ .ok (some next) after)
    (more : Nat) :
    runFor options (fuel + more) program start = runFor options fuel program start := by
  rw [runFor_eq, runFor_eq]
  cases found : program.entry? with
  | none => rfl
  | some line =>
    have kept : runFrom options program (fuel + more) line start =
        runFrom options program fuel line start := by
      rw [runFrom_add]
      cases ran : runFrom options program fuel line start with
      | error fault after => exact bind_of_error _ ran
      | ok left after =>
        rw [bind_of_ok _ ran]
        cases left with
        | none => rfl
        | some next => exact absurd (runFor_eq_ok.mpr ⟨line, found, ran⟩) (finished next after)
    dsimp only [located]
    rw [kept]

/-- A run ends in one way. -/
theorem Ends.unique {outcome outcome' : EStateM.Result Fault Machine (Option Line)}
    (ends : Ends options program start outcome) (ends' : Ends options program start outcome') :
    outcome = outcome' := by
  obtain ⟨finished, fuel, rfl⟩ := ends
  obtain ⟨finished', fuel', rfl⟩ := ends'
  rcases Nat.le_total fuel fuel' with shorter | shorter
  · obtain ⟨more, rfl⟩ := Nat.exists_eq_add_of_le shorter
    exact (runFor_add finished more).symm
  · obtain ⟨more, rfl⟩ := Nat.exists_eq_add_of_le shorter
    exact runFor_add finished' more

theorem cut_finished (limit : Int) (outcome : EStateM.Result Fault Machine (Option Line))
    (next : Line) (after : Machine) : cut limit outcome ≠ .ok (some next) after := by
  rcases outcome with ⟨_ | going, between⟩ | ⟨fault, between⟩
  · exact nofun
  · exact nofun
  · exact nofun

/-- With a limit every run ends, when the lines that it admits have been executed at the latest. -/
theorem ends_bounded (options : Options) (program : Program) (start : Machine) (limit : Int) :
    Ends (options.bounded limit) program start
      (cut limit (runFor options.unbounded (limit - start.context.steps).toNat program start)) :=
  ⟨cut_finished limit _, _, runFor_bounded_of_lt (Nat.lt_succ_self _)⟩

theorem runFor_unbounded_ne_stepLimit {fuel : Nat} {bound : Json} :
    runFor options.unbounded fuel program start ≠ .error (.stepLimit bound) after := by
  rw [runFor_eq]
  cases program.entry? with
  | none => exact nofun
  | some line =>
    intro failed
    obtain ⟨bare, failed, same⟩ := located_eq_error failed
    cases bare with
    | stepLimit other => exact runFrom_unbounded_ne_stepLimit failed
    | nestedTooDeeply known => cases known <;> cases same
    | _ => cases same

/-- The run without a limit goes on at a line that another line led to, and that one is current. -/
theorem current_of_runFor {fuel : Nat} {next : Line}
    (ran : runFor options.unbounded (fuel + 1) program start = .ok (some next) after) :
    ∃ last between, runFor options.unbounded fuel program start = .ok (some last) between ∧
      after.context.line = last.number := by
  obtain ⟨line, found, ran⟩ := runFor_eq_ok.mp ran
  obtain ⟨last, between, first, stepped⟩ := runFrom_succ_eq_ok ran
  have counts := (step_unbounded_ensures options program last between).ok stepped
  exact ⟨last, between, runFor_eq_ok.mpr ⟨line, found, first⟩, counts.2⟩

theorem steps_of_runFor {fuel : Nat} {next : Line}
    (ran : runFor options.unbounded fuel program start = .ok (some next) after) :
    after.context.steps = start.context.steps + fuel := by
  obtain ⟨line, -, ran⟩ := runFor_eq_ok.mp ran
  exact steps_of_runFrom_unbounded ran

theorem runFor_zero_eq_ok {next : Line}
    (ran : runFor options 0 program start = .ok (some next) after) : after = start := by
  obtain ⟨line, -, ran⟩ := runFor_eq_ok.mp ran
  cases ran
  rfl

/-- What ends within the lines that a limit admits, ends the same with a larger limit and with
none. -/
theorem ends_of_finished {larger : Int} (le : limit ≤ larger)
    {outcome : EStateM.Result Fault Machine (Option Line)}
    (finished : ∀ next after, outcome ≠ .ok (some next) after)
    (ran : runFor options.unbounded (limit - start.context.steps).toNat program start = outcome) :
    Ends (options.bounded larger) program start outcome ∧
      Ends options.unbounded program start outcome := by
  have admitted : (limit - start.context.steps).toNat ≤ (larger - start.context.steps).toNat := by
    omega
  exact ⟨⟨finished, _, (runFor_bounded_of_le admitted).trans ran⟩, ⟨finished, _, ran⟩⟩

/-- A step limit only cuts a run short. With a limit every run ends. If it does not end for the
limit, it ends the same with any larger limit, and with none. If it does, it has executed as many
lines as the limit exceeds the count it started with, each as without a limit; one more line has
been counted, and the current line is the last one executed. -/
theorem step_limit_cuts_short (options : Options) (program : Program) (start : Machine)
    {limit larger : Int} (le : limit ≤ larger) :
    let lines := (limit - start.context.steps).toNat
    (∃ outcome, Ends (options.bounded limit) program start outcome) ∧
    ∀ outcome, Ends (options.bounded limit) program start outcome →
      ((∀ after, outcome ≠ .error (.stepLimit (.int limit)) after) →
        Ends (options.bounded larger) program start outcome ∧
          Ends options.unbounded program start outcome) ∧
      (∀ after, outcome = .error (.stepLimit (.int limit)) after →
        ∃ next reached,
          runFor (options.bounded limit) lines program start = .ok (some next) reached ∧
          runFor options.unbounded lines program start = .ok (some next) reached ∧
          (after.context.steps : Int) = max limit start.context.steps + 1 ∧
          (lines = 0 → after.context.line = start.context.line) ∧
          (∀ others, lines = others + 1 → ∃ last between,
            runFor options.unbounded others program start = .ok (some last) between ∧
              after.context.line = last.number) ∧
          after.output = reached.output ∧ after.input = reached.input ∧
          after.context.memory = reached.context.memory) := by
  intro lines
  refine ⟨⟨_, ends_bounded options program start limit⟩, ?_⟩
  intro outcome ends
  have cuts := ends.unique (ends_bounded options program start limit)
  rcases ran : runFor options.unbounded lines program start with
    ⟨_ | next, reached⟩ | ⟨fault, reached⟩
  · rw [ran] at cuts
    refine ⟨fun _ => cuts ▸ ends_of_finished le nofun ran, ?_⟩
    intro after failed
    rw [cuts] at failed
    cases failed
  · rw [ran] at cuts
    refine ⟨fun other => absurd cuts (other _), ?_⟩
    intro after failed
    rw [cuts] at failed
    cases failed
    have steps : (counted reached).context.steps = start.context.steps + lines + 1 :=
      congrArg (· + 1) (steps_of_runFor ran)
    refine ⟨next, reached, (runFor_bounded_of_le (Nat.le_refl _)).trans ran, rfl, ?_, ?_, ?_, rfl,
      rfl, rfl⟩
    · omega
    · intro none
      rw [none] at ran
      show reached.context.line = _
      rw [runFor_zero_eq_ok ran]
    · intro others more
      rw [more] at ran
      obtain ⟨last, between, went, current⟩ := current_of_runFor ran
      exact ⟨last, between, went, current⟩
  · rw [ran] at cuts
    refine ⟨fun _ => cuts ▸ ends_of_finished le nofun ran, ?_⟩
    intro after failed
    rw [cuts] at failed
    cases failed
    exact absurd ran runFor_unbounded_ne_stepLimit

/-- A program that prints a bit and never halts. -/
def printForever : Program where
  first := .int 0
  lines := [⟨.int 0, .print (.int 1), .unconditional (.target (.int 0) (.bool false)), .int 0⟩]

theorem step_limit_cuts_short_printForever :
    let start : Machine := { input := .prepared [] }
    ∃ after next reached,
      Ends (Options.bounded {} 2) printForever start (.error (.stepLimit (.int 2)) after) ∧
      runFor (Options.unbounded {}) 2 printForever start = .ok (some next) reached ∧
      after.context.steps = 3 ∧ after.output = reached.output ∧ reached.output.bits.size = 2 := by
  intro start
  have stopped : ∃ after, runFor (Options.bounded {} 2) 3 printForever start =
      .error (.stepLimit (.int 2)) after := ⟨_, rfl⟩
  obtain ⟨after, stopped⟩ := stopped
  have ends : Ends (Options.bounded {} 2) printForever start
      (.error (.stepLimit (.int 2)) after) := ⟨nofun, 3, stopped⟩
  have cuts := (step_limit_cuts_short {} printForever start (show (2 : Int) ≤ 5 by decide)).2 _ ends
  obtain ⟨next, reached, -, ran, steps, -, -, output, -⟩ := cuts.2 after rfl
  refine ⟨after, next, reached, ends, ran, ?_, output, ?_⟩
  · change (after.context.steps : Int) = 3 at steps
    omega
  · have printed : runFor (Options.unbounded {}) 2 printForever start = .ok (some _) _ := rfl
    cases ran.symm.trans printed
    rfl

end WholeRuns

end Action

end BitMachine
