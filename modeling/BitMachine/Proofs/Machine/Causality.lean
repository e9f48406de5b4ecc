import BitMachine.Proofs.Machine.StepLimit

/-! A run learns of its input only by reading it, one bit for each line that reads. What it has not
asked for yet makes no difference, and when it asks for more than there is, it has come to the same
point as with more. -/

set_option autoImplicit false

namespace BitMachine

/-- The same machine with other bits to read. -/
def Machine.reading (machine : Machine) (bits : List Json) : Machine :=
  { machine with input := .prepared bits }

/-- How often an input can be asked before it ends. -/
def Input.size : Input → Nat
  | .prepared bits => bits.length
  | .console _ lines => lines.length

theorem Node.isRead_iff {node : Node} : node.isRead = true ↔ node = .read := by
  cases node with
  | read => exact ⟨fun _ => rfl, fun _ => rfl⟩
  | _ => exact ⟨nofun, nofun⟩

theorem Fault.ne_noMoreInput_of_inner {fault : Fault} (inner : fault.Inner) :
    fault ≠ .noMoreInput := by
  rintro rfl
  exact inner

namespace Action

section Deaf

variable {α β : Type}

/-- The same outcome with other bits left to read. -/
def leaving (bits : List Json) :
    EStateM.Result Fault Machine α → EStateM.Result Fault Machine α
  | .ok value after => .ok value (after.reading bits)
  | .error fault after => .error fault (after.reading bits)

/-- An action that does not ask for input: it does the same whatever is left to read, and it leaves
that as it is. -/
def Deaf (action : Action α) : Prop :=
  ∀ machine, (∀ bits, action (machine.reading bits) = leaving bits (action machine)) ∧
    ∀ after, action machine ≠ .error .noMoreInput after

theorem deaf_pure (value : α) : Deaf (pure value) :=
  fun _ => ⟨fun _ => rfl, nofun⟩

theorem deaf_throw {fault : Fault} (other : fault ≠ .noMoreInput) :
    Deaf (throw fault : Action α) := by
  intro machine
  refine ⟨fun _ => rfl, ?_⟩
  intro after failed
  cases failed
  exact other rfl

theorem Deaf.bind {first : Action α} {next : α → Action β} (before : Deaf first)
    (after : ∀ value, Deaf (next value)) : Deaf (first >>= next) := by
  intro machine
  obtain ⟨same, other⟩ := before machine
  cases done : first machine with
  | error fault reached =>
    rw [bind_of_error _ done]
    refine ⟨fun bits => ?_, fun last failed => ?_⟩
    · have failed := same bits
      rw [done] at failed
      exact bind_of_error _ failed
    · cases failed
      exact other reached done
  | ok value reached =>
    obtain ⟨same', other'⟩ := after value reached
    rw [bind_of_ok _ done]
    refine ⟨fun bits => ?_, other'⟩
    have went := same bits
    rw [done] at went
    rw [bind_of_ok _ went]
    exact same' bits

theorem record_deaf (options : Options) (event : Event) : Deaf (record options event) := by
  intro machine
  unfold record
  split
  · split
    · exact ⟨fun _ => rfl, nofun⟩
    · exact ⟨fun _ => rfl, nofun⟩
  · exact deaf_pure () machine

theorem load_deaf (address : Json) : Deaf (load address) := by
  intro machine
  unfold load
  dsimp only [Machine.reading]
  cases found : machine.context.memory.read address with
  | ok entry => exact ⟨fun _ => rfl, nofun⟩
  | error fault =>
    refine ⟨fun _ => rfl, ?_⟩
    rintro after ⟨⟩
    exact Memory.inner_of_read found

theorem write_deaf (address : Json) (value : Value) : Deaf (write address value) := by
  intro machine
  unfold write
  dsimp only [Machine.reading]
  cases written : machine.context.memory.write address value with
  | ok memory => exact ⟨fun _ => rfl, nofun⟩
  | error fault =>
    refine ⟨fun _ => rfl, ?_⟩
    rintro after ⟨⟩
    exact Memory.inner_of_write written

theorem emit_deaf (bit : Json) : Deaf (emit bit) := by
  intro machine
  unfold emit
  dsimp only [Machine.reading]
  rcases printed : machine.output.write bit with ⟨_ | fault, output⟩
  · exact ⟨fun _ => rfl, nofun⟩
  · refine ⟨fun _ => rfl, ?_⟩
    rintro after ⟨⟩
    exact Output.inner_of_write printed

theorem deaf_congruence (options : Options) :
    StepCongruence (fun _ action _ => Deaf action) options options where
  guards := rfl
  frames := rfl
  jumps := rfl
  limits := rfl
  returns := deaf_pure
  fails inner := deaf_throw (Fault.ne_noMoreInput_of_inner inner)
  exceeds _ := deaf_throw nofun
  continues := Deaf.bind
  records := record_deaf options
  loads := load_deaf
  writes := write_deaf
  registers := fun _ => ⟨fun _ => rfl, nofun⟩
  counts := fun _ => ⟨fun _ => rfl, nofun⟩
  notes _ := fun _ => ⟨fun _ => rfl, nofun⟩

theorem enter_deaf (options : Options) (line : Line) : Deaf (enter options line) :=
  (deaf_congruence options).enter_related line

end Deaf

section Draws

variable {α β : Type} {action : Action α} {machine : Machine} {bits : List Json} {uses : Nat}

/-- With these bits to read, the action asks for input this many times. If there is that much, it
does the same on every input that begins alike, and leaves the rest; if not, it fails for it. -/
structure Draws (uses : Nat) (bits : List Json) (action : Action α) (machine : Machine) : Prop where
  bounded : uses ≤ bits.length + 1
  enough : uses ≤ bits.length → ∀ others, others.take uses = bits.take uses →
    action (machine.reading others) = leaving (others.drop uses) (action (machine.reading bits))
  served : uses ≤ bits.length → ∀ after, action (machine.reading bits) ≠ .error .noMoreInput after
  refused : bits.length < uses →
    ∃ after, action (machine.reading bits) = .error .noMoreInput after ∧ after.input = .prepared []

theorem Deaf.draws (deaf : Deaf action) (bits : List Json) (machine : Machine) :
    Draws 0 bits action machine where
  bounded := Nat.zero_le _
  enough _ others _ := by
    rw [(deaf machine).1, (deaf machine).1 bits]
    cases action machine <;> rfl
  served _ := (deaf (machine.reading bits)).2
  refused few := absurd few (Nat.not_lt_zero _)

theorem request_draws (bits : List Json) (machine : Machine) : Draws 1 bits request machine where
  bounded := Nat.le_add_left _ _
  enough plenty others same := by
    cases bits with
    | nil => exact absurd plenty (by decide)
    | cons bit rest =>
      cases others with
      | nil => cases same
      | cons other rest' =>
        cases same
        rfl
  served plenty := by
    cases bits with
    | nil => exact absurd plenty (by decide)
    | cons bit rest => exact nofun
  refused few := by
    cases bits with
    | nil => exact ⟨_, rfl, rfl⟩
    | cons bit rest => exact absurd few (by simp)

/-- An action that succeeded was served, and leaves what it did not ask for. -/
theorem Draws.left_of_ok (draws : Draws uses bits action machine) {value : α} {after : Machine}
    (done : action (machine.reading bits) = .ok value after) :
    uses ≤ bits.length ∧ after = after.reading (bits.drop uses) := by
  have plenty : uses ≤ bits.length := by
    apply Nat.le_of_not_lt
    intro few
    obtain ⟨_, failed, -⟩ := draws.refused few
    cases done.symm.trans failed
  have left := draws.enough plenty bits rfl
  rw [done] at left
  injection left with _ left
  exact ⟨plenty, left⟩

theorem Draws.bind {next : α → Action β} {more : Nat} (first : Draws uses bits action machine)
    (second : ∀ value after, action (machine.reading bits) = .ok value after →
      Draws more (bits.drop uses) (next value) after)
    (nothing : ∀ fault after, action (machine.reading bits) = .error fault after → more = 0) :
    Draws (uses + more) bits (action >>= next) machine := by
  cases done : action (machine.reading bits) with
  | error fault after =>
    cases nothing fault after done
    refine ⟨first.bounded, ?_, ?_, ?_⟩
    · intro plenty others same
      have failed := first.enough plenty others same
      rw [done] at failed
      rw [bind_of_error _ done]
      exact bind_of_error _ failed
    · intro plenty last failed
      rw [bind_of_error _ done] at failed
      cases failed
      exact first.served plenty after done
    · intro few
      obtain ⟨last, failed, ended⟩ := first.refused few
      cases done.symm.trans failed
      exact ⟨after, bind_of_error _ done, ended⟩
  | ok value after =>
    obtain ⟨plenty, left⟩ := first.left_of_ok done
    have rest := second value after done
    have size : (bits.drop uses).length = bits.length - uses := List.length_drop
    have bounded := rest.bounded
    refine ⟨by omega, ?_, ?_, ?_⟩
    · intro enough others same
      have begins : others.take uses = bits.take uses := by
        have taken := congrArg (List.take uses) same
        rwa [List.take_take, List.take_take, Nat.min_eq_left (Nat.le_add_right _ _)] at taken
      have goes : (others.drop uses).take more = (bits.drop uses).take more := by
        rw [List.take_drop, List.take_drop, same]
      have went := first.enough plenty others begins
      rw [done] at went
      rw [bind_of_ok _ went, bind_of_ok _ done, rest.enough (by omega) _ goes, ← left,
        List.drop_drop]
    · intro enough
      have served := rest.served (by omega)
      rwa [← left, ← bind_of_ok next done] at served
    · intro lacking
      have refused := rest.refused (by omega)
      rwa [← left, ← bind_of_ok next done] at refused

/-- An action that fails for want of input has asked for all there was, and once more. -/
theorem Draws.uses_eq (draws : Draws uses bits action machine) {after : Machine}
    (failed : action (machine.reading bits) = .error .noMoreInput after) :
    uses = bits.length + 1 := by
  have bounded := draws.bounded
  rcases Nat.lt_or_ge bits.length uses with few | plenty
  · omega
  · exact absurd failed (draws.served plenty after)

theorem Draws.located (draws : Draws uses bits action machine) :
    Draws uses bits (located action) machine where
  bounded := draws.bounded
  enough plenty others same := by
    unfold Action.located
    rw [draws.enough plenty others same]
    cases action (machine.reading bits) <;> rfl
  served plenty after failed := by
    obtain ⟨bare, failed, same⟩ := located_eq_error failed
    cases bare with
    | noMoreInput => exact draws.served plenty after failed
    | nestedTooDeeply known => cases known <;> cases same
    | _ => cases same
  refused few := by
    obtain ⟨after, failed, ended⟩ := draws.refused few
    refine ⟨after, ?_, ended⟩
    unfold Action.located
    rw [failed]
    rfl

end Draws

section Reads

variable (options : Options) (program : Program)

/-- The lines that are executed in a run of at most `fuel` lines, the given one first. A line that is
one too many is not executed. -/
def executedFrom : Nat → Line → Machine → List Line
  | 0, _, _ => []
  | fuel + 1, line, machine =>
    match enter options line machine with
    | .error _ _ => []
    | .ok _ _ =>
      line :: match step options program line machine with
        | .ok (some next) after => executedFrom fuel next after
        | _ => []

/-- How often a line asks for input: once if it reads and is executed. -/
def wants (line : Line) (machine : Machine) : Nat :=
  match enter options line machine with
  | .error _ _ => 0
  | .ok _ _ => if line.instruction.isRead then 1 else 0

end Reads

section Steps

variable {options : Options} {program : Program} {line : Line} {machine : Machine}
  {bits : List Json}

theorem wants_of_ok {entered : Machine} (began : enter options line machine = .ok () entered) :
    wants options line machine = if line.instruction.isRead then 1 else 0 := by
  unfold wants
  rw [began]

theorem wants_of_error {fault : Fault} {after : Machine}
    (failed : enter options line machine = .error fault after) :
    wants options line machine = 0 := by
  unfold wants
  rw [failed]

theorem follow_deaf (options : Options) (program : Program) (line : Line) :
    Deaf (successor options line >>= arrive options program line) :=
  ((deaf_congruence options).successor_related line).bind
    ((deaf_congruence options).arrive_related program line)

/-- Reading asks for input once, before anything else. -/
theorem read_draws (options : Options) (bits : List Json) (machine : Machine) :
    Draws 1 bits (execute options .read) machine := by
  rw [execute_read, ← Nat.add_zero 1]
  apply (request_draws bits machine).bind
  · intro bit after _
    have stores : Deaf (if !isLegalBit bit then throw .invalidInput
        else record options (.read bit) >>= fun _ =>
          store options registerAddress (.bit bit)) := by
      split
      · exact deaf_throw nofun
      · apply (record_deaf options _).bind
        intro _
        exact (deaf_congruence options).store_related _ _
    exact stores.draws _ _
  · intro _ _ _
    rfl

theorem execute_draws (options : Options) (node : Node) (bits : List Json) (machine : Machine) :
    Draws (if node.isRead then 1 else 0) bits (execute options node) machine := by
  split
  · next reads =>
    rw [Node.isRead_iff.mp reads]
    exact read_draws options bits machine
  · next silent =>
    have deaf : Deaf (execute options node) := by
      apply (deaf_congruence options).execute_related node
      · intro bit _
        exact emit_deaf bit
      · rintro rfl
        exact absurd rfl silent
    exact deaf.draws bits machine

/-- One step: a line asks for input once if it reads and is executed, and never otherwise. -/
theorem step_draws (options : Options) (program : Program) (line : Line) (bits : List Json)
    (machine : Machine) :
    Draws (wants options line (machine.reading bits)) bits (step options program line) machine := by
  rw [step_eq, ← Nat.zero_add (wants _ _ _)]
  apply ((enter_deaf options line).draws bits machine).bind
  · intro _ entered began
    rw [wants_of_ok began, ← Nat.add_zero (ite _ _ _)]
    apply (execute_draws options line.instruction bits entered).bind
    · intro _ after _
      exact (follow_deaf options program line).draws _ _
    · intro _ _ _
      rfl
  · intro fault after failed
    exact wants_of_error failed

end Steps

section Runs

variable {options : Options} {program : Program} {line : Line} {machine : Machine}
  {bits : List Json}

/-- How many lines that read are among those executed from a line on. -/
def readsFrom (options : Options) (program : Program) (fuel : Nat) (line : Line)
    (machine : Machine) : Nat :=
  (executedFrom options program fuel line machine).countP (·.instruction.isRead)

/-- How many lines that read are executed after a step. -/
def readsAfter (options : Options) (program : Program) (fuel : Nat) :
    EStateM.Result Fault Machine (Option Line) → Nat
  | .ok (some next) after => readsFrom options program fuel next after
  | _ => 0

theorem readsFrom_succ (options : Options) (program : Program) (fuel : Nat) (line : Line)
    (machine : Machine) :
    readsFrom options program (fuel + 1) line machine =
      wants options line machine +
        readsAfter options program fuel (step options program line machine) := by
  unfold readsFrom executedFrom wants
  cases began : enter options line machine with
  | error fault after =>
    have failed : step options program line machine = .error fault after := by
      rw [step_eq]
      exact bind_of_error _ began
    rw [failed]
    rfl
  | ok _ entered =>
    dsimp only
    rw [List.countP_cons, Nat.add_comm]
    congr 1
    rcases step options program line machine with ⟨_ | next, after⟩ | ⟨fault, after⟩
    · rfl
    · rfl
    · rfl

/-- A run: the k-th time that it asks for input is at the k-th line executed that reads. -/
theorem runFrom_draws (options : Options) (program : Program) (fuel : Nat) (line : Line)
    (bits : List Json) (machine : Machine) :
    Draws (readsFrom options program fuel line (machine.reading bits)) bits
      (runFrom options program fuel line) machine := by
  induction fuel generalizing line bits machine with
  | zero => exact (deaf_pure (some line)).draws bits machine
  | succ fuel ih =>
    rw [runFrom_succ, readsFrom_succ]
    have first := step_draws options program line bits machine
    apply first.bind
    · intro left after stepped
      rw [stepped]
      cases left with
      | none => exact (deaf_pure none).draws _ _
      | some next =>
        have rest := ih next (bits.drop (wants options line (machine.reading bits))) after
        rwa [← (first.left_of_ok stepped).2] at rest
    · intro fault after failed
      rw [failed]
      rfl

theorem readsFrom_succ_last (options : Options) (program : Program) (fuel : Nat) (line : Line)
    (machine : Machine) :
    readsFrom options program (fuel + 1) line machine =
      readsFrom options program fuel line machine +
        match runFrom options program fuel line machine with
        | .ok (some last) before => wants options last before
        | _ => 0 := by
  induction fuel generalizing line machine with
  | zero =>
    rw [readsFrom_succ, Nat.add_comm]
    congr 1
    rcases step options program line machine with ⟨_ | next, after⟩ | ⟨fault, after⟩
    · rfl
    · rfl
    · rfl
  | succ fuel ih =>
    rw [readsFrom_succ, readsFrom_succ, runFrom_succ, Nat.add_assoc]
    congr 1
    rcases stepped : step options program line machine with ⟨_ | next, after⟩ | ⟨fault, after⟩
    · rw [bind_of_ok _ stepped]
      rfl
    · rw [bind_of_ok _ stepped]
      exact ih next after
    · rw [bind_of_error _ stepped]
      rfl

end Runs

section WholeRuns

variable {options : Options} {program : Program} {start : Machine} {bits : List Json}

/-- The lines that are executed in a run from the first line, in order. -/
def executed (options : Options) (program : Program) (fuel : Nat) (start : Machine) : List Line :=
  match program.entry? with
  | none => []
  | some line => executedFrom options program fuel line start

/-- How many lines that read have been executed. -/
def reads (options : Options) (program : Program) (fuel : Nat) (start : Machine) : Nat :=
  (executed options program fuel start).countP (·.instruction.isRead)

/-- How often input has been asked for, given the bits that there were: every bit that is gone was
asked for, and if the run failed for want of one, that was as well. -/
def asked (bits : List Json) : EStateM.Result Fault Machine (Option Line) → Nat
  | .error .noMoreInput after => bits.length - after.input.size + 1
  | .error _ after => bits.length - after.input.size
  | .ok _ after => bits.length - after.input.size

theorem runFor_draws (options : Options) (program : Program) (fuel : Nat) (bits : List Json)
    (start : Machine) :
    Draws (reads options program fuel (start.reading bits)) bits (runFor options fuel program)
      start := by
  unfold reads executed runFor
  cases program.entry? with
  | none =>
    have lacking : Deaf (throw .missingProgram : Action (Option Line)) := deaf_throw nofun
    exact lacking.draws bits start
  | some line => exact (runFrom_draws options program fuel line bits start).located

theorem reads_succ_last (options : Options) (program : Program) (fuel : Nat) (start : Machine) :
    reads options program (fuel + 1) start =
      reads options program fuel start +
        match runFor options fuel program start with
        | .ok (some last) before => wants options last before
        | _ => 0 := by
  rw [runFor_eq]
  unfold reads executed
  cases program.entry? with
  | none => rfl
  | some line =>
    dsimp only [located]
    refine (readsFrom_succ_last options program fuel line start).trans ?_
    rcases runFrom options program fuel line start with ⟨_ | next, after⟩ | ⟨fault, after⟩
    · rfl
    · rfl
    · rfl

theorem Draws.asked_eq {uses : Nat} {action : Action (Option Line)}
    (draws : Draws uses bits action start) : asked bits (action (start.reading bits)) = uses := by
  have bounded := draws.bounded
  rcases Nat.lt_or_ge bits.length uses with few | plenty
  · obtain ⟨after, failed, ended⟩ := draws.refused few
    rw [failed, asked, ended, Input.size, List.length_nil]
    omega
  · have left := draws.enough plenty bits rfl
    have served := draws.served plenty
    have gone : bits.length - (bits.drop uses).length = uses := by
      rw [List.length_drop]
      omega
    cases done : action (start.reading bits) with
    | ok next after =>
      rw [done] at left
      rw [left]
      exact gone
    | error fault after =>
      rw [done] at left served
      rw [left]
      cases fault with
      | noMoreInput => exact absurd rfl (served after)
      | _ => exact gone

/-- A run that asks for more than `count` bits has a line that asks for the next one. -/
theorem exists_read (options : Options) (program : Program) {fuel count : Nat} (start : Machine)
    (more : count < reads options program fuel start) :
    ∃ earlier last before, runFor options earlier program start = .ok (some last) before ∧
      reads options program earlier start = count ∧ wants options last before = 1 := by
  induction fuel with
  | zero =>
    unfold reads executed at more
    cases found : program.entry? <;> rw [found] at more <;> exact absurd more (Nat.not_lt_zero _)
  | succ fuel ih =>
    rcases Nat.lt_or_ge count (reads options program fuel start) with before | reached
    · exact ih before
    · rw [reads_succ_last] at more
      split at more
      · next last before ran =>
        have once : wants options last before ≤ 1 := by
          unfold wants
          split
          · exact Nat.zero_le _
          · split <;> decide
        exact ⟨fuel, last, before, ran, by omega, by omega⟩
      · omega

/-- Entering a line counts it and makes it the current one, and that is all but for the trace. -/
theorem enter_eq_ok {line : Line} {machine entered : Machine}
    (began : enter options line machine = .ok () entered) :
    ∃ trace, entered = { counted machine with context.line := line.number, trace := trace } := by
  have noted := record_ensures options (.line line.number)
    { counted machine with context.line := line.number }
  cases limited : options.stepLimit with
  | none =>
    rw [enter_of_no_limit limited] at began
    exact noted.ok began
  | some limit =>
    rw [enter_of_limit limited] at began
    split at began
    · cases began
    · cases began
    · exact noted.ok began

/-- Where nothing is left to read, asking for input shows nothing and fails. -/
theorem request_nothing (machine : Machine) :
    request (machine.reading []) = .error .noMoreInput (machine.reading []) := by
  show EStateM.Result.error _ { machine.reading [] with output := machine.output.say "" } = _
  rw [Output.say_empty]
  rfl

theorem runFor_succ_of_error {fuel : Nat} {last : Line} {before after : Machine} {fault : Fault}
    (ran : runFor options fuel program start = .ok (some last) before)
    (failed : step options program last before = .error fault after) :
    runFor options (fuel + 1) program start = .error (fault.within after.context.line) after := by
  obtain ⟨line, found, ran⟩ := runFor_eq_ok.mp ran
  have fails : runFrom options program (fuel + 1) line start = .error fault after := by
    rw [runFrom_add, bind_of_ok _ ran]
    exact bind_of_error _ failed
  rw [runFor_of_entry found]
  unfold located
  rw [fails]

/-- A line that reads, with nothing left to read, fails before it changes anything but the count and
the current line. -/
theorem step_of_wants (program : Program) {last : Line} {before : Machine}
    (once : wants options last before = 1) :
    last.instruction = .read ∧ ∃ after,
      step options program last (before.reading []) = .error .noMoreInput after ∧
      after.context.line = last.number ∧ after.context.steps = before.context.steps + 1 ∧
      after.output = before.output ∧ after.context.memory = before.context.memory := by
  cases began : enter options last before with
  | error fault after =>
    rw [wants_of_error began] at once
    cases once
  | ok _ entered =>
    rw [wants_of_ok began] at once
    split at once
    · next reads =>
      rw [Node.isRead_iff] at reads
      have enters := (enter_deaf options last before).1 []
      rw [began] at enters
      have failed : step options program last (before.reading []) =
          .error .noMoreInput (entered.reading []) := by
        rw [step_eq, bind_of_ok _ enters, reads, execute_read]
        exact bind_of_error _ (bind_of_error _ (request_nothing _))
      obtain ⟨trace, rfl⟩ := enter_eq_ok began
      exact ⟨reads, _, failed, rfl, rfl, rfl, rfl⟩
    · cases once

/-- A run learns of its input only by asking for it. It asks once for each line executed that reads,
so that the k-th time belongs to the k-th such line. If a run that ends has asked as often as it
could, any input that begins with the same bits makes it end the same, and leaves what follows them.
If it is given fewer bits than it asks for, it goes as before up to the line that asks for one too
many. There it fails for want of input, and output and memory, the jump register included, are as
they were before that line. -/
theorem input_is_seen_when_read (options : Options) (program : Program) (start : Machine)
    (bits : List Json) :
    (∀ fuel, asked bits (runFor options fuel program (start.reading bits)) =
      reads options program fuel (start.reading bits)) ∧
    ∀ outcome, Ends options program (start.reading bits) outcome →
      (asked bits outcome ≤ bits.length →
        ∀ others, others.take (asked bits outcome) = bits.take (asked bits outcome) →
          Ends options program (start.reading others)
            (leaving (others.drop (asked bits outcome)) outcome)) ∧
      (∀ count, count < asked bits outcome → count ≤ bits.length →
        ∃ fuel last before fault after,
          runFor options fuel program (start.reading bits) = .ok (some last) before ∧
          last.instruction = .read ∧
          reads options program fuel (start.reading bits) = count ∧
          reads options program (fuel + 1) (start.reading bits) = count + 1 ∧
          runFor options fuel program (start.reading (bits.take count)) =
            .ok (some last) (before.reading []) ∧
          reads options program (fuel + 1) (start.reading (bits.take count)) = count + 1 ∧
          Ends options program (start.reading (bits.take count)) (.error fault after) ∧
          fault.message? = some "No more input to read." ∧
          after.context.line = last.number ∧
          after.context.steps = before.context.steps + 1 ∧
          after.output = before.output ∧
          after.context.memory = before.context.memory) := by
  have counts : ∀ fuel, asked bits (runFor options fuel program (start.reading bits)) =
      reads options program fuel (start.reading bits) :=
    fun fuel => (runFor_draws options program fuel bits start).asked_eq
  refine ⟨counts, ?_⟩
  rintro _ ⟨finished, fuel, rfl⟩
  rw [counts fuel]
  have draws := runFor_draws options program fuel bits start
  constructor
  · intro plenty others same
    have ends := draws.enough plenty others same
    refine ⟨?_, fuel, ends⟩
    intro next after going
    cases ran : runFor options fuel program (start.reading bits) with
    | ok left reached =>
      rw [ran] at going
      injection going with goes
      exact finished next reached (ran.trans (by rw [goes]))
    | error fault reached =>
      rw [ran] at going
      cases going
  · intro count more plenty
    obtain ⟨earlier, last, before, ran, sofar, once⟩ :=
      exists_read options program (start.reading bits) more
    obtain ⟨reading, after, failed, line, steps, output, memory⟩ :=
      step_of_wants program once
    have again : runFor options earlier program (start.reading (bits.take count)) =
        .ok (some last) (before.reading []) := by
      have first := runFor_draws options program earlier bits start
      rw [sofar] at first
      have same : (bits.take count).take count = bits.take count := by
        rw [List.take_take, Nat.min_self]
      have none : (bits.take count).drop count = [] := List.drop_take_self
      rw [first.enough plenty _ same, ran, none]
      rfl
    have stops := runFor_succ_of_error again failed
    have last' := (runFor_draws options program (earlier + 1) (bits.take count) start).uses_eq stops
    rw [List.length_take_of_le plenty] at last'
    refine ⟨earlier, last, before, _, after, ran, reading, sofar, ?_, again, last',
      ⟨nofun, _, stops⟩, rfl, line, steps, output, memory⟩
    rw [reads_succ_last, ran, sofar]
    exact congrArg (count + ·) once

/-- A program that reads a bit, prints one and reads another. -/
def readTwice : Program where
  first := .int 0
  lines := [
    ⟨.int 0, .read, .unconditional (.target (.int 1) (.bool false)), .int 0⟩,
    ⟨.int 1, .print (.int 1), .unconditional (.target (.int 2) (.bool false)), .int 30⟩,
    ⟨.int 2, .read, .absent, .int 60⟩]

theorem input_is_seen_when_read_readTwice :
    let start : Machine := { input := .prepared [] }
    ∃ halted fault failed,
      Ends {} readTwice (start.reading [.int 1, .int 0, .int 1]) (.ok none halted) ∧
      Ends {} readTwice (start.reading [.int 1, .int 0]) (.ok none (halted.reading [])) ∧
      Ends {} readTwice (start.reading [.int 1]) (.error fault failed) ∧
      fault.message? = some "No more input to read." ∧ failed.output.bits.size = 1 := by
  intro start
  have halts : ∃ halted, runFor {} 3 readTwice (start.reading [.int 1, .int 0, .int 1]) =
      .ok none halted ∧ halted.input = .prepared [.int 1] := ⟨_, rfl, rfl⟩
  obtain ⟨halted, halts, rest⟩ := halts
  have ends : Ends {} readTwice (start.reading [.int 1, .int 0, .int 1]) (.ok none halted) :=
    ⟨nofun, 3, halts⟩
  have twice : asked [.int 1, .int 0, .int 1] (.ok none halted) = 2 := by
    rw [asked, rest]
    rfl
  obtain ⟨same, fails⟩ := (input_is_seen_when_read {} readTwice start _).2 _ ends
  rw [twice] at same fails
  obtain ⟨_, _, _, fault, failed, -, -, -, -, -, -, stops, message, -⟩ :=
    fails 1 (by decide) (by decide)
  have printed : ∃ failed, runFor {} 3 readTwice (start.reading [.int 1]) =
      .error .noMoreInput failed ∧ failed.output.bits.size = 1 := ⟨_, rfl, rfl⟩
  obtain ⟨failed', ran, size⟩ := printed
  have stopped : Ends {} readTwice (start.reading [.int 1]) (.error .noMoreInput failed') :=
    ⟨nofun, 3, ran⟩
  cases stops.unique stopped
  exact ⟨halted, _, _, ends, same (by decide) [.int 1, .int 0] rfl, stops, message, size⟩

end WholeRuns

end Action

end BitMachine
