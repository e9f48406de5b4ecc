import BitMachine.Proofs.Machine.Causality
import BitMachine.Proofs.Machine.StaticKinds
import BitMachine.Proofs.Machine.TraceText

/-! Doing once more what a log tells of. A log is faithful if doing what its events tell of, one after
the other, leads to the machine that is left behind, up to cells that came into being when memory was
looked at. Then it accounts for the lines that were counted, for output and input, and for memory. -/

set_option autoImplicit false

namespace BitMachine

namespace Memory

/-- Writes values to addresses in order. -/
def writeAll : List (Json × Value) → Memory → Except Fault Memory
  | [], memory => .ok memory
  | (address, value) :: entries, memory => (memory.write address value).bind (writeAll entries)

variable {before after memory : Memory} {address : Json} {value : Value}

/-- What writing can do: it sets the jump register or a cell, or it fails whatever the memory. -/
theorem write_cases (address : Json) (value : Value) :
    (∀ memory : Memory,
      memory.write address value = .ok { memory with register := value.magnitude }) ∨
    (∀ memory : Memory, memory.write address value =
      .ok { memory with cells := put address value memory.cells }) ∨
    ∃ fault, ∀ memory : Memory, memory.write address value = .error fault := by
  rcases checkStorable_cases value with checked | refused
  · simp only [write_eq _ address checked]
    cases address.is registerAddress with
    | true =>
      simp only [writeRegister, ↓reduceIte]
      cases value.isAddress with
      | true => exact Or.inr (Or.inr ⟨_, fun _ => rfl⟩)
      | false =>
        cases !isLegalBit value.magnitude with
        | true => exact Or.inr (Or.inr ⟨_, fun _ => rfl⟩)
        | false => exact Or.inl fun _ => rfl
    | false =>
      simp only [Bool.false_eq_true, ↓reduceIte]
      cases address.atLeast? 0 with
      | none => exact Or.inr (Or.inr ⟨_, fun _ => rfl⟩)
      | some isCell =>
        cases isCell with
        | true => exact Or.inr (Or.inl fun _ => rfl)
        | false => exact Or.inr (Or.inr ⟨_, fun _ => rfl⟩)
  · exact Or.inr (Or.inr ⟨_, fun memory => write_unchecked memory address refused⟩)

theorem content?_of_same {place : Json} (same : address.same place = true) :
    memory.content? place = memory.content? address := by
  unfold content? find? Json.same
  rw [Json.same_iff.mp same]

theorem content?_touch (memory : Memory) (address place : Json) :
    (memory.touch address).content? place =
      (memory.content? place).or (if address.same place then some {} else none) := by
  unfold touch
  split
  · next found =>
    split
    · next same =>
      have present : (memory.content? place).isSome = true := by
        rw [content?_of_same same, content?, Option.isSome_map]
        exact found
      rw [Option.or_of_isSome present]
    · rw [Option.or_none]
  · unfold content? find?
    rw [List.find?_append, List.find?_singleton, Option.map_or]
    congr 1
    split <;> rfl

/-- Cells that came into being are still all the difference after another one has. -/
theorem Extends.touch (extended : before.Extends after) (address : Json) :
    (before.touch address).Extends (after.touch address) := by
  refine ⟨by rw [register_touch, register_touch, extended.register], ?_⟩
  intro place
  rw [Kept, content?_touch, content?_touch]
  rcases extended.cells place with same | ⟨absent, made⟩
  · rw [same]
    exact Or.inl rfl
  · rw [absent, made]
    split
    · exact Or.inl rfl
    · exact Or.inr ⟨rfl, rfl⟩

theorem Extends.put (extended : before.Extends after) (address : Json) (value : Value) :
    Extends { before with cells := put address value before.cells }
      { after with cells := put address value after.cells } := by
  refine ⟨extended.register, ?_⟩
  intro place
  rw [Kept, content?_put, content?_put]
  split
  · exact Or.inl rfl
  · exact extended.cells place

theorem indistinct_extends : Indistinct Extends := by
  refine ⟨fun extended => extended.register.symm, ?_, ?_⟩
  · intro left right extended address
    rw [read_eq, read_eq]
    split
    · rw [extended.register]
      exact Or.inr ⟨_, _, _, rfl, rfl, extended⟩
    · split
      · exact Or.inl ⟨_, rfl, rfl⟩
      · rw [(extended.cells address).cell]
        exact Or.inr ⟨_, _, _, rfl, rfl, extended.touch address⟩
      · exact Or.inl ⟨_, rfl, rfl⟩
  · intro left right extended address value
    rcases write_cases address value with sets | puts | ⟨fault, fails⟩
    · exact Or.inr ⟨_, _, sets left, sets right, rfl, extended.cells⟩
    · exact Or.inr ⟨_, _, puts left, puts right, extended.put address value⟩
    · exact Or.inl ⟨fault, fails left, fails right⟩

theorem writeAll_append {entries more : List (Json × Value)} {before between : Memory}
    (written : before.writeAll entries = .ok between) :
    before.writeAll (entries ++ more) = between.writeAll more := by
  induction entries generalizing before with
  | nil =>
    cases written
    rfl
  | cons entry entries ih =>
    obtain ⟨address, value⟩ := entry
    rw [List.cons_append, writeAll]
    rw [writeAll] at written
    cases first : before.write address value with
    | error fault =>
      rw [first] at written
      cases written
    | ok memory =>
      rw [first] at written
      exact ih written

/-- Values were put where addresses lead to, one after the other. -/
inductive Rewritten : List (Json × Value) → Memory → Memory → Prop
  | nil (memory : Memory) : Rewritten [] memory memory
  | cons {address : Json} {value : Value} {entries : List (Json × Value)}
      {before between after : Memory} (first : before.Replaced between address value)
      (others : Rewritten entries between after) : Rewritten ((address, value) :: entries) before after

/-- What writing values in order does is to put each of them where its address leads to. -/
theorem rewritten_of_writeAll {entries : List (Json × Value)}
    (written : before.writeAll entries = .ok after) : Rewritten entries before after := by
  induction entries generalizing before with
  | nil =>
    cases written
    exact .nil _
  | cons entry entries ih =>
    obtain ⟨address, value⟩ := entry
    rw [writeAll] at written
    cases first : before.write address value with
    | error fault =>
      rw [first] at written
      cases written
    | ok between =>
      rw [first] at written
      exact .cons ((Extends.refl before).replaced first) (ih written)

/-- Writing a whole number leaves nothing but whole numbers. -/
theorem Whole.write (whole : memory.Whole) (magnitude : value.magnitude.Whole)
    (written : memory.write address value = .ok after) : after.Whole := by
  rcases write_cases address value with sets | puts | ⟨fault, fails⟩
  · cases (sets memory).symm.trans written
    intro place held found
    cases found with
    | register named => exact magnitude
    | cell other => exact whole place _ (.cell other)
  · cases (puts memory).symm.trans written
    intro place held found
    cases found with
    | register named => exact whole place _ (.register named)
    | cell other =>
      rw [cell_put]
      split
      · exact magnitude
      · exact whole place _ (.cell other)
  · cases (fails memory).symm.trans written

end Memory

namespace Event

/-- The number of the line that an event tells of. -/
def lineNumber? : Event → Option Json
  | .line number => some number
  | _ => none

/-- The bit that an event tells to be printed. -/
def printed? : Event → Option Json
  | .print bit => some bit
  | _ => none

/-- The bit that an event tells to be read. -/
def read? : Event → Option Json
  | .read bit => some bit
  | _ => none

/-- The address and the value that an event tells to be written. -/
def written? : Event → Option (Json × Value)
  | .write address value => some (address, value)
  | _ => none

/-- Does what an event tells of. A bit that is read must be the one that the event names. -/
def perform : Event → Action Unit
  | .line number => Action.count >>= fun _ => Action.note number
  | .print bit => Action.emit bit
  | .read bit => Action.request >>= fun found =>
      if found = bit then pure () else throw .invalidInput
  | .write address value => Action.write address value
  | _ => pure ()

/-- Does what events tell of, one after the other. -/
def replay : List Event → Action Unit
  | [] => pure ()
  | event :: events => event.perform >>= fun _ => replay events

end Event

namespace Action

theorem grows_congruence (options : Options) :
    RunCongruence (Matches Machine.Grows) options options :=
  lockstep options Memory.indistinct_extends Trace.parallel_true

/-- What an event tells of comes out alike when cells have come into being. -/
theorem perform_grows (event : Event) :
    Matches Machine.Grows Unit event.perform event.perform := by
  have same := grows_congruence {}
  cases event with
  | line number =>
    apply same.continues same.counts
    intro _
    exact same.notes number
  | print bit => exact same.emits bit
  | read bit =>
    apply same.continues same.requests
    intro found
    split
    · exact same.returns ()
    · exact same.fails _ nofun
  | write address value => exact same.writes address value
  | _ => exact same.returns ()

theorem replay_grows (events : List Event) :
    Matches Machine.Grows Unit (Event.replay events) (Event.replay events) := by
  induction events with
  | nil => exact matches_pure ()
  | cons event events ih =>
    apply (perform_grows event).bind
    intro _
    exact ih

theorem replay_append (events more : List Event) :
    Event.replay (events ++ more) = Event.replay events >>= fun _ => Event.replay more := by
  induction events with
  | nil => rfl
  | cons event events ih =>
    rw [List.cons_append, Event.replay, Event.replay, ih, bind_assoc]

end Action

namespace Machine

variable {before between after : Machine} {log more : List Event}

/-- Memory and input hold whole numbers. -/
structure Whole (machine : Machine) : Prop where
  memory : machine.context.memory.Whole
  input : machine.input.Whole

theorem Grows.whole (grown : before.Grows after) (whole : before.Whole) : after.Whole :=
  ⟨Memory.Throughout.extends whole.memory grown.memory, grown.input ▸ whole.input⟩

/-- Events have been recorded that can all be written, and this is what they tell of; and doing it once
more leads to the same machine, up to cells that have come into being. -/
structure Tells (log : List Event) (before after : Machine) : Prop where
  recorded : ∃ events, after.trace = before.trace.addAll events ∧
    (∀ event ∈ events, event.render?.isSome = true) ∧ events.filter Event.tells = log
  replayed : ∃ machine, Event.replay log before = .ok () machine ∧ machine.Grows after

theorem Tells.trans (first : Tells log before between) (second : Tells more between after) :
    Tells (log ++ more) before after := by
  constructor
  · obtain ⟨events, traced, legible, told⟩ := first.recorded
    obtain ⟨others, traced', legible', told'⟩ := second.recorded
    refine ⟨events ++ others, ?_, List.forall_mem_append.mpr ⟨legible, legible'⟩, ?_⟩
    · rw [traced', traced, Trace.addAll_append]
    · rw [List.filter_append, told, told']
  · obtain ⟨reached, done, grown⟩ := first.replayed
    obtain ⟨last, done', grown'⟩ := second.replayed
    rcases (Action.replay_grows more reached between grown).cases with
      ⟨_, machine, _, ran, ran', kept⟩ | ⟨_, _, _, -, failed, -⟩
    · cases done'.symm.trans ran'
      refine ⟨machine, ?_, kept.trans grown'⟩
      rw [Action.replay_append, Action.bind_of_ok _ done]
      exact ran
    · cases done'.symm.trans failed

theorem Tells.nothing (grown : before.Grows after) (same : after.trace = before.trace) :
    Tells [] before after :=
  ⟨⟨[], same, nofun, rfl⟩, before, rfl, grown⟩

/-- An event was recorded and done. -/
theorem Tells.single {event : Event} {done : Machine} (telling : event.tells = true)
    (legible : event.render?.isSome = true) (performed : event.perform before = .ok () done)
    (traced : after = { done with trace := before.trace.add event }) :
    Tells [event] before after := by
  subst traced
  refine ⟨⟨[event], rfl, List.forall_mem_singleton.mpr legible, List.filter_cons_of_pos telling⟩,
    done, ?_, ?_⟩
  · exact Action.bind_of_ok _ performed
  · exact ⟨.refl _, rfl, rfl, rfl, rfl, trivial⟩

/-- What a log accounts for: as many lines were counted as it has, the bits that it has as printed were
collected, those that it has as read were taken from the input, and its writes lead to the memory. -/
structure Accounts (log : List Event) (before after : Machine) : Prop where
  steps : after.context.steps = before.context.steps + (log.filterMap Event.lineNumber?).length
  output : before.output.style = .collected → after.output.style = .collected ∧
    after.output.bits.toList = before.output.bits.toList ++ log.filterMap Event.printed?
  input : ∀ bits, before.input = .prepared bits →
    ∃ rest, after.input = .prepared rest ∧ bits = log.filterMap Event.read? ++ rest
  memory : before.context.memory.writeAll (log.filterMap Event.written?) =
    .ok after.context.memory

theorem accounts_nil (machine : Machine) : Accounts [] machine machine where
  steps := rfl
  output collects := ⟨collects, (List.append_nil _).symm⟩
  input bits left := ⟨bits, left, rfl⟩
  memory := rfl

theorem Accounts.trans (first : Accounts log before between)
    (second : Accounts more between after) : Accounts (log ++ more) before after where
  steps := by
    rw [second.steps, first.steps, List.filterMap_append, List.length_append, Nat.add_assoc]
  output collects := by
    obtain ⟨collects, bits⟩ := first.output collects
    obtain ⟨collects, bits'⟩ := second.output collects
    refine ⟨collects, ?_⟩
    rw [bits', bits, List.filterMap_append, List.append_assoc]
  input bits left := by
    obtain ⟨others, remaining, rfl⟩ := first.input bits left
    obtain ⟨rest, last, rfl⟩ := second.input others remaining
    refine ⟨rest, last, ?_⟩
    rw [List.filterMap_append, List.append_assoc]
  memory := by
    rw [List.filterMap_append, Memory.writeAll_append first.memory]
    exact second.memory

end Machine

namespace Action

variable {machine after : Machine}

theorem emit_eq_ok {bit : Json} (done : emit bit machine = .ok () after) :
    ∃ output, machine.output.write bit = (none, output) ∧ after = { machine with output } := by
  unfold emit at done
  rcases written : machine.output.write bit with ⟨_ | fault, output⟩
  · rw [written] at done
    cases done
    exact ⟨output, rfl, rfl⟩
  · rw [written] at done
    cases done

theorem request_eq_ok {bit : Json} (done : request machine = .ok bit after) :
    ∃ input, machine.input.next = (.ok bit, input) ∧
      after = { machine with input, output := machine.output.say machine.input.prompt } := by
  unfold request at done
  rcases drawn : machine.input.next with ⟨fault | found, input⟩
  · rw [drawn] at done
    cases done
  · rw [drawn] at done
    cases done
    exact ⟨input, rfl, rfl⟩

theorem write_eq_ok {address : Json} {value : Value}
    (done : write address value machine = .ok () after) :
    ∃ memory, machine.context.memory.write address value = .ok memory ∧
      after = { machine with context.memory := memory } := by
  unfold write at done
  cases written : machine.context.memory.write address value with
  | error fault =>
    rw [written] at done
    cases done
  | ok memory =>
    rw [written] at done
    cases done
    exact ⟨memory, rfl, rfl⟩

theorem perform_read_eq_ok {bit : Json}
    (done : (Event.read bit).perform machine = .ok () after) :
    ∃ input, machine.input.next = (.ok bit, input) ∧
      after = { machine with input, output := machine.output.say machine.input.prompt } := by
  obtain ⟨found, asked, requested, compared⟩ := bind_eq_ok.mp done
  split at compared
  · next same =>
    subst same
    cases compared
    exact request_eq_ok requested
  · cases compared

/-- What one event tells of is what it accounts for. -/
theorem accounts_of_perform {event : Event} (done : event.perform machine = .ok () after) :
    Machine.Accounts [event] machine after := by
  have same := Machine.accounts_nil machine
  cases event with
  | print bit =>
    obtain ⟨output, written, rfl⟩ := emit_eq_ok done
    refine ⟨rfl, ?_, same.input, rfl⟩
    intro collects
    unfold Output.write at written
    rw [collects] at written
    cases written
    exact ⟨rfl, Array.toList_push ..⟩
  | read bit =>
    obtain ⟨input, drawn, rfl⟩ := perform_read_eq_ok done
    refine ⟨rfl, same.output, ?_, rfl⟩
    intro bits left
    rw [left] at drawn
    cases bits with
    | nil => cases drawn
    | cons bit bits =>
      cases drawn
      exact ⟨bits, rfl, rfl⟩
  | write address value =>
    obtain ⟨memory, written, rfl⟩ := write_eq_ok done
    refine ⟨rfl, same.output, same.input, ?_⟩
    show (machine.context.memory.write address value).bind _ = _
    rw [written]
    rfl
  | _ =>
    cases done
    exact ⟨rfl, same.output, same.input, rfl⟩

theorem accounts_of_replay {log : List Event} (done : Event.replay log machine = .ok () after) :
    Machine.Accounts log machine after := by
  induction log generalizing machine with
  | nil =>
    cases done
    exact Machine.accounts_nil _
  | cons event events ih =>
    obtain ⟨_, between, performed, rest⟩ := bind_eq_ok.mp done
    exact (accounts_of_perform performed).trans (ih rest)

theorem whole_of_perform {event : Event} (telling : event.Whole) (whole : machine.Whole)
    (done : event.perform machine = .ok () after) : after.Whole := by
  cases event with
  | print bit =>
    obtain ⟨output, -, rfl⟩ := emit_eq_ok done
    exact ⟨whole.memory, whole.input⟩
  | read bit =>
    obtain ⟨input, drawn, rfl⟩ := perform_read_eq_ok done
    have rest := (next_whole whole.input).1
    rw [drawn] at rest
    exact ⟨whole.memory, rest⟩
  | write address value =>
    obtain ⟨memory, written, rfl⟩ := write_eq_ok done
    exact ⟨whole.memory.write telling.2 written, whole.input⟩
  | _ =>
    cases done
    exact ⟨whole.memory, whole.input⟩

theorem whole_of_replay {log : List Event} (telling : ∀ event ∈ log, event.Whole)
    (whole : machine.Whole) (done : Event.replay log machine = .ok () after) : after.Whole := by
  induction log generalizing machine with
  | nil =>
    cases done
    exact whole
  | cons event events ih =>
    rw [List.forall_mem_cons] at telling
    obtain ⟨_, between, performed, rest⟩ := bind_eq_ok.mp done
    exact ih telling.2 (whole_of_perform telling.1 whole performed) rest

end Action

/-- A machine with whole numbers keeps them, if those that are told of are whole. -/
theorem Machine.Tells.whole {log : List Event} {before after : Machine}
    (tells : Machine.Tells log before after) (telling : ∀ event ∈ log, event.Whole)
    (whole : before.Whole) : after.Whole := by
  obtain ⟨machine, done, grown⟩ := tells.replayed
  exact grown.whole (Action.whole_of_replay telling whole done)

end BitMachine
