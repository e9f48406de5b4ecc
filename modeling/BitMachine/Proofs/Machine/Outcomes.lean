import BitMachine.Machine.Basic

/-! The two outcomes of an action, and what is certain about each of them. -/

set_option autoImplicit false

namespace BitMachine

namespace Action

variable {α β : Type}

section Sequences

variable {first : Action α} {next : α → Action β} {machine after : Machine} {fault : Fault}

theorem bind_eq_ok {result : β} :
    (first >>= next) machine = .ok result after ↔
      ∃ value between, first machine = .ok value between ∧
        next value between = .ok result after := by
  show EStateM.bind first next machine = _ ↔ _
  unfold EStateM.bind
  cases first machine with
  | ok value between =>
    constructor
    · intro done
      exact ⟨value, between, rfl, done⟩
    · rintro ⟨_, _, ⟨⟩, done⟩
      exact done
  | error fault stuck =>
    constructor
    · nofun
    · rintro ⟨_, _, none, -⟩
      cases none

theorem bind_eq_error :
    (first >>= next) machine = .error fault after ↔
      first machine = .error fault after ∨
        ∃ value between, first machine = .ok value between ∧
          next value between = .error fault after := by
  show EStateM.bind first next machine = _ ↔ _
  unfold EStateM.bind
  cases first machine with
  | ok value between =>
    constructor
    · intro failed
      exact Or.inr ⟨value, between, rfl, failed⟩
    · rintro (none | ⟨_, _, ⟨⟩, failed⟩)
      · cases none
      · exact failed
  | error other stuck =>
    constructor
    · intro failed
      cases failed
      exact Or.inl rfl
    · rintro (failed | ⟨_, _, none, -⟩)
      · cases failed
        rfl
      · cases none

theorem bind_of_ok (next : α → Action β) {value : α} (done : first machine = .ok value after) :
    (first >>= next) machine = next value after := by
  show EStateM.bind first next machine = _
  unfold EStateM.bind
  rw [done]

theorem bind_of_error (next : α → Action β) (failed : first machine = .error fault after) :
    (first >>= next) machine = .error fault after :=
  bind_eq_error.mpr (Or.inl failed)

end Sequences

/-- Both outcomes of an action on a machine are as described. -/
def Ensures (action : Action α) (machine : Machine) (result : α → Machine → Prop)
    (failure : Fault → Machine → Prop) : Prop :=
  match action machine with
  | .ok value after => result value after
  | .error fault after => failure fault after

section Ensures

variable {action : Action α} {machine after : Machine} {result result' : α → Machine → Prop}
  {failure failure' : Fault → Machine → Prop}

theorem Ensures.of_ok {value : α} (done : action machine = .ok value after)
    (holds : result value after) : action.Ensures machine result failure := by
  unfold Ensures
  rw [done]
  exact holds

theorem Ensures.of_error {fault : Fault} (failed : action machine = .error fault after)
    (holds : failure fault after) : action.Ensures machine result failure := by
  unfold Ensures
  rw [failed]
  exact holds

theorem Ensures.ok {value : α} (ensures : action.Ensures machine result failure)
    (done : action machine = .ok value after) : result value after := by
  unfold Ensures at ensures
  rwa [done] at ensures

theorem Ensures.error {fault : Fault} (ensures : action.Ensures machine result failure)
    (failed : action machine = .error fault after) : failure fault after := by
  unfold Ensures at ensures
  rwa [failed] at ensures

theorem Ensures.mono (ensures : action.Ensures machine result failure)
    (results : ∀ value after, result value after → result' value after)
    (failures : ∀ fault after, failure fault after → failure' fault after) :
    action.Ensures machine result' failure' := by
  cases done : action machine with
  | ok value after => exact .of_ok done (results _ _ (ensures.ok done))
  | error fault after => exact .of_error done (failures _ _ (ensures.error done))

theorem Ensures.of_eq {other : Action α} {before : Machine} (same : action machine = other before)
    (ensures : other.Ensures before result failure) : action.Ensures machine result failure := by
  unfold Ensures
  rwa [same]

theorem Ensures.bind {next : α → Action β} {last : β → Machine → Prop}
    (ensures : action.Ensures machine result failure)
    (continues : ∀ value after, action machine = .ok value after → result value after →
      (next value).Ensures after last failure) :
    (action >>= next).Ensures machine last failure := by
  cases done : (action >>= next) machine with
  | ok value after =>
    obtain ⟨middle, between, first, rest⟩ := bind_eq_ok.mp done
    exact .of_ok done ((continues middle between first (ensures.ok first)).ok rest)
  | error fault after =>
    rcases bind_eq_error.mp done with failed | ⟨middle, between, first, rest⟩
    · exact .of_error done (ensures.error failed)
    · exact .of_error done ((continues middle between first (ensures.ok first)).error rest)

/-- What an action comes to with its trace in the file is what it comes to, with the file closed. -/
theorem traced_ensures {options : Options}
    (ensures : ∀ trace, action.Ensures { machine with trace }
      (fun value after => result value { after with trace := after.trace.close })
      (fun fault after => failure fault { after with trace := after.trace.close })) :
    (traced options action).Ensures machine result failure := by
  unfold Ensures traced
  dsimp only
  have inner := ensures (if options.verbosity = 0 then machine.trace else machine.trace.start)
  unfold Ensures at inner
  generalize action _ = outcome at inner
  cases outcome with
  | ok value after => exact inner
  | error fault after => exact inner

theorem traced_congr {options options' : Options} {action' : Action α}
    (verbosity : options.verbosity = options'.verbosity)
    (same : ∀ trace, action { machine with trace } = action' { machine with trace }) :
    traced options action machine = traced options' action' machine := by
  unfold traced
  dsimp only
  rw [verbosity, same]

end Ensures

end Action

end BitMachine
