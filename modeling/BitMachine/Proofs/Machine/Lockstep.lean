import BitMachine.Proofs.Machine.Congruence

/-! Two machines in lockstep. If two memories answer reads and writes alike, and two traces stay related
whatever is done to both, then every execution comes out alike on both machines. -/

set_option autoImplicit false

namespace BitMachine

/-- Two memories cannot be told apart by reading and writing them, and reading and writing keep it
so. -/
structure Memory.Indistinct (alike : Memory → Memory → Prop) : Prop where
  register : ∀ {left right : Memory}, alike left right → left.register = right.register
  read : ∀ {left right : Memory}, alike left right → ∀ address,
    (∃ fault, left.read address = .error fault ∧ right.read address = .error fault) ∨
      ∃ value left' right', left.read address = .ok (value, left') ∧
        right.read address = .ok (value, right') ∧ alike left' right'
  write : ∀ {left right : Memory}, alike left right → ∀ address value,
    (∃ fault, left.write address value = .error fault ∧
        right.write address value = .error fault) ∨
      ∃ left' right', left.write address value = .ok left' ∧
        right.write address value = .ok right' ∧ alike left' right'

/-- A memory can be told from every other one. -/
theorem Memory.indistinct_eq : Memory.Indistinct Eq := by
  refine ⟨fun same => same ▸ rfl, ?_, ?_⟩
  · rintro left _ rfl address
    cases left.read address with
    | error fault => exact Or.inl ⟨fault, rfl, rfl⟩
    | ok entry => exact Or.inr ⟨entry.1, entry.2, entry.2, rfl, rfl, rfl⟩
  · rintro left _ rfl address value
    cases left.write address value with
    | error fault => exact Or.inl ⟨fault, rfl, rfl⟩
    | ok memory => exact Or.inr ⟨memory, memory, rfl, rfl, rfl⟩

/-- What may be done to two traces leaves them related. -/
structure Trace.Parallel (traces : Trace → Trace → Prop) : Prop where
  add : ∀ {left right : Trace}, traces left right → ∀ event, traces (left.add event) (right.add event)
  start : ∀ {left right : Trace}, traces left right → traces left.start right.start
  close : ∀ {left right : Trace}, traces left right → traces left.close right.close

theorem Trace.parallel_eq : Trace.Parallel Eq :=
  ⟨fun same _ => same ▸ rfl, fun same => same ▸ rfl, fun same => same ▸ rfl⟩

theorem Trace.parallel_true : Trace.Parallel fun _ _ => True :=
  ⟨fun _ _ => trivial, fun _ => trivial, fun _ => trivial⟩

/-- Two machines that differ in their memories and traces at most, and in these only so far. -/
structure Machine.Alike (memories : Memory → Memory → Prop)
    (traces : Trace → Trace → Prop) (left right : Machine) : Prop where
  memory : memories left.context.memory right.context.memory
  steps : left.context.steps = right.context.steps
  line : left.context.line = right.context.line
  input : left.input = right.input
  output : left.output = right.output
  trace : traces left.trace right.trace

namespace Action

/-- Two outcomes agree: the results are the same or the faults are, and the machines that are left
behind are alike. -/
def Agree {α : Type} (alike : Machine → Machine → Prop) :
    EStateM.Result Fault Machine α → EStateM.Result Fault Machine α → Prop
  | .ok value after, .ok value' after' => value = value' ∧ alike after after'
  | .error fault after, .error fault' after' => fault = fault' ∧ alike after after'
  | _, _ => False

/-- Actions whose outcomes agree on machines that are alike. -/
def Matches (alike : Machine → Machine → Prop) : Relation := fun _ action action' =>
  ∀ left right, alike left right → Agree alike (action left) (action' right)

section Matches

variable {α β : Type} {alike : Machine → Machine → Prop}

theorem matches_pure (value : α) : Matches alike α (pure value) (pure value) :=
  fun _ _ related => ⟨rfl, related⟩

theorem matches_throw (fault : Fault) : Matches alike α (throw fault) (throw fault) :=
  fun _ _ related => ⟨rfl, related⟩

theorem Agree.cases {outcome outcome' : EStateM.Result Fault Machine α}
    (agree : Agree alike outcome outcome') :
    (∃ value after after', outcome = .ok value after ∧ outcome' = .ok value after' ∧
        alike after after') ∨
      ∃ fault after after', outcome = .error fault after ∧ outcome' = .error fault after' ∧
        alike after after' := by
  rcases outcome with ⟨value, after⟩ | ⟨fault, after⟩ <;>
    rcases outcome' with ⟨value', after'⟩ | ⟨fault', after'⟩
  · obtain ⟨rfl, related⟩ := agree
    exact Or.inl ⟨value, after, after', rfl, rfl, related⟩
  · exact agree.elim
  · exact agree.elim
  · obtain ⟨rfl, related⟩ := agree
    exact Or.inr ⟨fault, after, after', rfl, rfl, related⟩

theorem Agree.located {action action' : Action α} {left right : Machine}
    (lines : ∀ {left right : Machine}, alike left right → left.context.line = right.context.line)
    (agree : Agree alike (action left) (action' right)) :
    Agree alike (located action left) (located action' right) := by
  unfold Action.located
  rcases agree.cases with
    ⟨value, after, after', ran, ran', kept⟩ | ⟨fault, after, after', ran, ran', kept⟩
  · rw [ran, ran']
    exact ⟨rfl, kept⟩
  · rw [ran, ran']
    exact ⟨by rw [lines kept], kept⟩

/-- The trace file is closed alike, however the action ends. -/
theorem Agree.traced {closed : Machine → Machine → Prop} {options options' : Options}
    {action action' : Action α} {left right : Machine}
    (closes : ∀ {left right : Machine}, alike left right →
      closed { left with trace := left.trace.close } { right with trace := right.trace.close })
    (agree : Agree alike
      (action { left with
        trace := if options.verbosity = 0 then left.trace else left.trace.start })
      (action' { right with
        trace := if options'.verbosity = 0 then right.trace else right.trace.start })) :
    Agree closed (Action.traced options action left) (Action.traced options' action' right) := by
  unfold Action.traced
  dsimp only
  rcases agree.cases with
    ⟨value, after, after', ran, ran', kept⟩ | ⟨fault, after, after', ran, ran', kept⟩
  · rw [ran, ran']
    exact ⟨rfl, closes kept⟩
  · rw [ran, ran']
    exact ⟨rfl, closes kept⟩

theorem Matches.bind {first first' : Action α} {next next' : α → Action β}
    (before : Matches alike α first first')
    (after : ∀ value, Matches alike β (next value) (next' value)) :
    Matches alike β (first >>= next) (first' >>= next') := by
  intro left right related
  show Agree alike (EStateM.bind first next left) (EStateM.bind first' next' right)
  unfold EStateM.bind
  rcases (before left right related).cases with
    ⟨value, between, between', ran, ran', kept⟩ | ⟨fault, between, between', ran, ran', kept⟩
  · rw [ran, ran']
    exact after value between between' kept
  · rw [ran, ran']
    exact ⟨rfl, kept⟩

theorem Matches.located {action action' : Action α}
    (lines : ∀ {left right : Machine}, alike left right → left.context.line = right.context.line)
    (same : Matches alike α action action') :
    Matches alike α (located action) (located action') :=
  fun left right related => (same left right related).located lines

/-- The trace file is opened and closed alike. -/
theorem Matches.traced {options options' : Options} {action action' : Action α}
    (verbosity : options.verbosity = options'.verbosity)
    (opens : ∀ {left right : Machine}, alike left right →
      alike { left with trace := left.trace.start } { right with trace := right.trace.start })
    (closes : ∀ {left right : Machine}, alike left right →
      alike { left with trace := left.trace.close } { right with trace := right.trace.close })
    (same : Matches alike α action action') :
    Matches alike α (Action.traced options action) (Action.traced options' action') := by
  intro left right related
  have begun : alike
      { left with trace := if options.verbosity = 0 then left.trace else left.trace.start }
      { right with trace := if options'.verbosity = 0 then right.trace else right.trace.start } := by
    rw [verbosity]
    split
    · exact related
    · exact opens related
  exact (same _ _ begun).traced closes

end Matches

section Primitives

variable {memories : Memory → Memory → Prop} {traces : Trace → Trace → Prop}

/-- An event is recorded alike where the traces stay related. -/
theorem record_matches {options options' : Options}
    (verbosity : options.verbosity = options'.verbosity)
    (extended : ∀ {left right : Trace}, traces left right → ∀ event,
      traces (left.add event) (right.add event)) (event : Event) :
    Matches (Machine.Alike memories traces) Unit (record options event)
      (record options' event) := by
  intro left right related
  unfold record
  rw [verbosity]
  split
  · split
    · exact ⟨rfl, related.memory, related.steps, related.line, related.input, related.output,
        extended related.trace event⟩
    · exact ⟨rfl, related⟩
  · exact ⟨rfl, related⟩

theorem load_matches (indistinct : Memory.Indistinct memories) (address : Json) :
    Matches (Machine.Alike memories traces) Value (load address) (load address) := by
  intro left right related
  unfold load
  rcases indistinct.read related.memory address with
    ⟨fault, failed, failed'⟩ | ⟨value, memory, memory', done, done', kept⟩
  · rw [failed, failed']
    exact ⟨rfl, related⟩
  · rw [done, done']
    exact ⟨rfl, kept, related.steps, related.line, related.input, related.output, related.trace⟩

theorem write_matches (indistinct : Memory.Indistinct memories) (address : Json) (value : Value) :
    Matches (Machine.Alike memories traces) Unit (write address value) (write address value) := by
  intro left right related
  unfold write
  rcases indistinct.write related.memory address value with
    ⟨fault, failed, failed'⟩ | ⟨memory, memory', done, done', kept⟩
  · rw [failed, failed']
    exact ⟨rfl, related⟩
  · rw [done, done']
    exact ⟨rfl, kept, related.steps, related.line, related.input, related.output, related.trace⟩

theorem emit_matches (bit : Json) :
    Matches (Machine.Alike memories traces) Unit (emit bit) (emit bit) := by
  intro left right related
  unfold emit
  rw [related.output]
  rcases right.output.write bit with ⟨_ | fault, output⟩
  · exact ⟨rfl, related.memory, related.steps, related.line, related.input, rfl, related.trace⟩
  · exact ⟨rfl, related.memory, related.steps, related.line, related.input, rfl, related.trace⟩

theorem request_matches : Matches (Machine.Alike memories traces) Json request request := by
  intro left right related
  unfold request
  rw [related.input, related.output]
  rcases right.input.next with ⟨fault | bit, input⟩
  · exact ⟨rfl, related.memory, related.steps, related.line, rfl, rfl, related.trace⟩
  · exact ⟨rfl, related.memory, related.steps, related.line, rfl, rfl, related.trace⟩

theorem count_matches : Matches (Machine.Alike memories traces) Nat count count := by
  intro left right related
  have steps : (counted left).context.steps = (counted right).context.steps :=
    congrArg (· + 1) related.steps
  exact ⟨steps, related.memory, steps, related.line, related.input, related.output, related.trace⟩

end Primitives

/-- Every execution comes out alike on machines with indistinct memories and parallel traces. -/
theorem lockstep {memories : Memory → Memory → Prop} {traces : Trace → Trace → Prop}
    (options : Options) (indistinct : Memory.Indistinct memories)
    (parallel : Trace.Parallel traces) :
    RunCongruence (Matches (Machine.Alike memories traces)) options options where
  guards := rfl
  frames := rfl
  jumps := rfl
  limits := rfl
  returns := matches_pure
  fails fault _ := matches_throw fault
  exceeds limit := matches_throw (.stepLimit limit)
  continues := Matches.bind
  locates same := same.located fun related => related.line
  traces same := by
    apply same.traced rfl
    · intro left right related
      exact ⟨related.memory, related.steps, related.line, related.input, related.output,
        parallel.start related.trace⟩
    · intro left right related
      exact ⟨related.memory, related.steps, related.line, related.input, related.output,
        parallel.close related.trace⟩
  records := record_matches rfl parallel.add
  loads := load_matches indistinct
  writes := write_matches indistinct
  registers := fun _ _ related => ⟨indistinct.register related.memory, related⟩
  emits := emit_matches
  requests := request_matches
  counts := count_matches
  notes number := fun _ _ related =>
    ⟨rfl, related.memory, related.steps, rfl, related.input, related.output, related.trace⟩

end Action

end BitMachine
