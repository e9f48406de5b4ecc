import BitMachine.Proofs.Machine.Blame
import BitMachine.Proofs.Machine.Equivalence

/-! Evaluating only looks at memory. The jump register and the cells that exist stay as they are,
and the cells that come into being hold an undefined 0; when they are there, evaluating the same once
more gives the same and makes no further cell. -/

set_option autoImplicit false

namespace BitMachine

namespace Memory

/-- What the cell at an address holds, if it exists. -/
def content? (memory : Memory) (address : Json) : Option Value :=
  (memory.find? address).map (·.2)

/-- A cell is as it was, or it has come into being and holds an undefined 0. -/
def Kept (before after : Memory) (address : Json) : Prop :=
  after.content? address = before.content? address ∨
    before.content? address = none ∧ after.content? address = some {}

/-- Nothing has happened to a memory but that cells have come into being. -/
structure Extends (before after : Memory) : Prop where
  register : after.register = before.register
  cells : ∀ address, Kept before after address

variable {before between after memory : Memory}

theorem cell_eq (memory : Memory) (address : Json) :
    memory.cell address = (memory.content? address).getD {} :=
  rfl

theorem Kept.refl (memory : Memory) (address : Json) : Kept memory memory address :=
  Or.inl rfl

theorem Kept.trans {address : Json} (first : Kept before between address)
    (second : Kept between after address) : Kept before after address := by
  unfold Kept at first second ⊢
  rcases first with same | ⟨absent, made⟩
  · rwa [same] at second
  · rcases second with same | ⟨none, -⟩
    · exact Or.inr ⟨absent, same.trans made⟩
    · rw [none] at made
      cases made

/-- A cell that is kept holds the same, one that does not exist counting as undefined 0. -/
theorem Kept.cell {address : Json} (kept : Kept before after address) :
    after.cell address = before.cell address := by
  rw [cell_eq, cell_eq]
  rcases kept with same | ⟨absent, made⟩
  · rw [same]
  · rw [absent, made]
    rfl

theorem Kept.isSome {address : Json} (kept : Kept before after address)
    (present : (before.content? address).isSome = true) :
    (after.content? address).isSome = true := by
  rcases kept with same | ⟨absent, -⟩
  · rwa [same]
  · rw [absent] at present
    cases present

theorem Extends.refl (memory : Memory) : memory.Extends memory :=
  ⟨rfl, Kept.refl memory⟩

theorem Extends.trans (first : before.Extends between) (second : between.Extends after) :
    before.Extends after :=
  ⟨second.register.trans first.register,
    fun address => (first.cells address).trans (second.cells address)⟩

theorem Extends.equivalent (grown : before.Extends after) : before.Equivalent after :=
  ⟨grown.register.symm, fun address _ => (grown.cells address).cell.symm⟩

theorem touch_extends (memory : Memory) (address : Json) :
    memory.Extends (memory.touch address) := by
  refine ⟨register_touch memory address, fun place => ?_⟩
  unfold Kept content? touch find?
  split
  · exact Or.inl rfl
  · rw [List.find?_append, List.find?_singleton]
    cases memory.cells.find? (·.1.same place) with
    | some entry => exact Or.inl rfl
    | none =>
      split
      · exact Or.inr ⟨rfl, rfl⟩
      · exact Or.inl rfl

theorem content?_touch_isSome (memory : Memory) (address : Json) :
    ((memory.touch address).content? address).isSome = true := by
  unfold content? touch
  rw [Option.isSome_map]
  split
  · assumption
  · unfold find?
    rw [List.find?_append, List.find?_singleton]
    simp only [Json.same_self, ↓reduceIte, Option.isSome_or, Option.isSome_some, Bool.or_true]

/-- Making a cell exist that exists already does nothing. -/
theorem touch_of_isSome {address : Json} (found : (memory.content? address).isSome = true) :
    memory.touch address = memory := by
  unfold touch
  rw [content?, Option.isSome_map] at found
  rw [if_pos found]

end Memory

/-- Nothing has happened to a machine but that cells have come into being and events have been
recorded. -/
abbrev Machine.Grows : Machine → Machine → Prop :=
  Machine.Alike Memory.Extends fun _ _ => True

theorem Machine.Grows.refl (machine : Machine) : machine.Grows machine :=
  ⟨.refl _, rfl, rfl, rfl, rfl, trivial⟩

theorem Machine.Grows.trans {before between after : Machine} (first : before.Grows between)
    (second : between.Grows after) : before.Grows after :=
  ⟨first.memory.trans second.memory, first.steps.trans second.steps, first.line.trans second.line,
    first.input.trans second.input, first.output.trans second.output, trivial⟩

theorem Machine.Grows.alike {before after : Machine} (grown : before.Grows after) :
    Machine.Alike Memory.Equivalent (fun _ _ => True) before after :=
  ⟨grown.memory.equivalent, grown.steps, grown.line, grown.input, grown.output, trivial⟩

namespace Action

section Looking

variable {α β : Type}

/-- An action that only looks at memory. It makes the cells that it looks at; on a machine that has
all the cells it made elsewhere, it gives the same again and leaves memory as it is. -/
structure ReadsOnly (action : Action α) : Prop where
  grows : ∀ machine, action.Ensures machine
    (fun _ after => machine.Grows after) (fun _ after => machine.Grows after)
  repeats : ∀ machine other : Machine, action.Ensures machine
    (fun value after => after.context.memory.Extends other.context.memory →
      ∃ later, action other = .ok value later ∧ later.context.memory = other.context.memory)
    (fun fault after => after.context.memory.Extends other.context.memory →
      ∃ later, action other = .error fault later ∧ later.context.memory = other.context.memory)

theorem readsOnly_pure (value : α) : ReadsOnly (pure value) where
  grows machine := .of_ok rfl (.refl machine)
  repeats _ other := .of_ok rfl fun _ => ⟨other, rfl, rfl⟩

theorem readsOnly_throw (fault : Fault) : ReadsOnly (throw fault : Action α) where
  grows machine := .of_error rfl (.refl machine)
  repeats _ other := .of_error rfl fun _ => ⟨other, rfl, rfl⟩

theorem ReadsOnly.bind {first : Action α} {next : α → Action β} (before : ReadsOnly first)
    (after : ∀ value, ReadsOnly (next value)) : ReadsOnly (first >>= next) := by
  constructor
  · intro machine
    apply Ensures.bind (before.grows machine)
    intro value between _ grown
    apply ((after value).grows between).mono
    · intro _ _ later
      exact grown.trans later
    · intro _ _ later
      exact grown.trans later
  · intro machine other
    cases ran : (first >>= next) machine with
    | ok result last =>
      refine .of_ok ran fun enough => ?_
      -- What the first action made is still there at the end, because the next one only adds.
      obtain ⟨value, between, began, ended⟩ := bind_eq_ok.mp ran
      have reached := ((after value).grows between).ok ended
      obtain ⟨middle, again, same⟩ :=
        (before.repeats machine other).ok began (reached.memory.trans enough)
      obtain ⟨later, once, kept⟩ := ((after value).repeats between middle).ok ended (same ▸ enough)
      exact ⟨later, bind_eq_ok.mpr ⟨value, middle, again, once⟩, kept.trans same⟩
    | error fault last =>
      refine .of_error ran fun enough => ?_
      rcases bind_eq_error.mp ran with failed | ⟨value, between, began, failed⟩
      · obtain ⟨later, again, same⟩ := (before.repeats machine other).error failed enough
        exact ⟨later, bind_eq_error.mpr (Or.inl again), same⟩
      · have reached := ((after value).grows between).error failed
        obtain ⟨middle, again, same⟩ :=
          (before.repeats machine other).ok began (reached.memory.trans enough)
        obtain ⟨later, once, kept⟩ :=
          ((after value).repeats between middle).error failed (same ▸ enough)
        exact ⟨later, bind_eq_error.mpr (Or.inr ⟨value, middle, again, once⟩), kept.trans same⟩

theorem record_readsOnly (options : Options) (event : Event) :
    ReadsOnly (record options event) := by
  rcases record_cases options event with recorded | failed
  · constructor
    · intro machine
      obtain ⟨trace, done⟩ := recorded machine
      exact .of_ok done ⟨.refl _, rfl, rfl, rfl, rfl, trivial⟩
    · intro machine other
      obtain ⟨trace, done⟩ := recorded machine
      obtain ⟨trace', again⟩ := recorded other
      exact .of_ok done fun _ => ⟨_, again, rfl⟩
  · constructor
    · intro machine
      exact .of_error (failed machine) (.refl machine)
    · intro machine other
      exact .of_error (failed machine) fun _ => ⟨other, failed other, rfl⟩

/-- What loading can do: it reads the jump register, or a cell, or it fails whatever the machine. -/
theorem load_cases (address : Json) :
    (address.is registerAddress = true ∧
      ∀ machine, load address machine = .ok (.bit machine.context.memory.register) machine) ∨
    (address.is registerAddress = false ∧ address.atLeast? 0 = some true ∧
      ∀ machine, load address machine = .ok (machine.context.memory.cell address)
        { machine with context.memory := machine.context.memory.touch address }) ∨
    ∃ fault, ∀ machine, load address machine = .error fault machine := by
  simp only [load, Memory.read_eq]
  cases register : address.is registerAddress with
  | true => exact Or.inl ⟨rfl, fun _ => rfl⟩
  | false =>
    cases address.atLeast? 0 with
    | none => exact Or.inr (Or.inr ⟨.unsuitable, fun _ => rfl⟩)
    | some isCell =>
      cases isCell with
      | true => exact Or.inr (Or.inl ⟨rfl, rfl, fun _ => rfl⟩)
      | false => exact Or.inr (Or.inr ⟨.invalidAddress address, fun _ => rfl⟩)

/-- Loading makes the cell at its address and no other. -/
theorem load_readsOnly (address : Json) : ReadsOnly (load address) := by
  rcases load_cases address with ⟨-, register⟩ | ⟨-, -, cell⟩ | ⟨fault, failed⟩
  · constructor
    · intro machine
      exact .of_ok (register machine) (.refl machine)
    · intro machine other
      refine .of_ok (register machine) fun enough => ⟨other, ?_, rfl⟩
      rw [register other, enough.register]
  · constructor
    · intro machine
      exact .of_ok (cell machine) ⟨Memory.touch_extends _ address, rfl, rfl, rfl, rfl, trivial⟩
    · intro machine other
      refine .of_ok (cell machine) fun enough => ?_
      have kept := enough.cells address
      have present := kept.isSome (Memory.content?_touch_isSome _ address)
      refine ⟨{ other with context.memory := other.context.memory.touch address }, ?_,
        Memory.touch_of_isSome present⟩
      rw [cell other, kept.cell, Memory.cell_touch]
  · constructor
    · intro machine
      exact .of_error (failed machine) (.refl machine)
    · intro machine other
      exact .of_error (failed machine) fun _ => ⟨other, failed other, rfl⟩

theorem readsOnly_congruence (options : Options) :
    EvaluationCongruence (fun _ action _ => ReadsOnly action) options options where
  guards := rfl
  frames := rfl
  returns := readsOnly_pure
  fails _ := readsOnly_throw _
  continues := ReadsOnly.bind
  records := record_readsOnly options
  loads := load_readsOnly

theorem evaluateWithin_readsOnly (options : Options) (frames : Nat) (node : Node) :
    ReadsOnly (evaluateWithin options frames node) :=
  (readsOnly_congruence options).evaluateWithin_related frames node

theorem evaluate_readsOnly (options : Options) (node : Node) :
    ReadsOnly (evaluate options node) :=
  evaluateWithin_readsOnly options options.frames node

theorem placeOf_readsOnly (options : Options) (node : Node) :
    ReadsOnly (placeOf options node) := by
  rw [placeOf_eq]
  apply (evaluate_readsOnly options node).bind
  intro value
  split
  · exact readsOnly_throw _
  · exact readsOnly_pure _

end Looking

/-- What is evaluated and executed on memories that hold the same comes out the same, whatever was
traced before. -/
theorem untraced_congruence (options : Options) :
    RunCongruence (Matches (Machine.Alike Memory.Equivalent fun _ _ => True)) options options :=
  lockstep options Memory.indistinct_equivalent Trace.parallel_true

/-- What succeeds does so with the same result when cells have come into being, and the other way
round. -/
theorem ok_iff_of_grows {α : Type} {action : Action α} {machine other : Machine} {value : α}
    (same : Matches (Machine.Alike Memory.Equivalent fun _ _ => True) α action action)
    (grown : machine.Grows other) :
    (∃ after, action machine = .ok value after) ↔ ∃ after, action other = .ok value after := by
  rcases (same machine other grown.alike).cases with
    ⟨found, after, after', ran, ran', -⟩ | ⟨fault, after, after', failed, failed', -⟩
  · rw [ran, ran']
    constructor
    · rintro ⟨_, ⟨⟩⟩
      exact ⟨after', rfl⟩
    · rintro ⟨_, ⟨⟩⟩
      exact ⟨after, rfl⟩
  · rw [failed, failed']
    exact ⟨nofun, nofun⟩

theorem evaluate_of_grows {options : Options} {node : Node} {value : Value}
    {machine other after : Machine} (grown : machine.Grows other)
    (done : evaluate options node machine = .ok value after) :
    ∃ later, evaluate options node other = .ok value later :=
  (ok_iff_of_grows ((untraced_congruence options).evaluate_related node) grown).mp ⟨after, done⟩

/-- A computed place does not depend on cells that have come into being. -/
theorem placeOf_iff_of_grows {options : Options} {place : Node} {goal : Json}
    {machine other : Machine} (grown : machine.Grows other) :
    (∃ after, placeOf options place machine = .ok goal after) ↔
      ∃ after, placeOf options place other = .ok goal after :=
  ok_iff_of_grows ((untraced_congruence options).inner.placeOf_related place) grown

end Action

end BitMachine
