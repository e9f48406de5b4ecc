import BitMachine.Proofs.Machine.Arising

/-! Lines are atomic and write one place. An instruction that fails leaves memory as it was, up to
cells that came into being; one that succeeds changes nothing, or the jump register, or the one place
that it assigns to. -/

set_option autoImplicit false

namespace BitMachine

namespace Memory

/-- A value was put where an address leads to, and else nothing has happened but that cells have come
into being. -/
inductive Replaced (before after : Memory) (goal : Json) (value : Value) : Prop where
  | register (named : goal.is registerAddress = true) (held : after.register = value.magnitude)
      (others : ∀ address, Kept before after address)
  | cell (other : goal.is registerAddress = false) (isCell : goal.atLeast? 0 = some true)
      (held : after.content? goal = some value) (register : after.register = before.register)
      (others : ∀ address, goal.same address = false → Kept before after address)

/-- No cell holds an address that is negative. -/
def NaturalAddresses (memory : Memory) : Prop :=
  ∀ address value, memory.content? address = some value → value.kind = .address →
    value.magnitude.below? 0 = some false

theorem NaturalAddresses.cell {memory : Memory} (natural : memory.NaturalAddresses) {address : Json}
    (pointer : (memory.cell address).kind = .address) :
    (memory.cell address).magnitude.below? 0 = some false := by
  rw [cell_eq] at pointer ⊢
  cases found : memory.content? address with
  | none =>
    rw [found] at pointer
    cases pointer
  | some value =>
    rw [found] at pointer
    exact natural address value found pointer

theorem content?_put (address place : Json) (value : Value) (cells : List (Json × Value))
    (register : Json) :
    content? ⟨put address value cells, register⟩ place =
      if address.same place then some value else content? ⟨cells, register⟩ place := by
  simp only [content?, find?]
  induction cells with
  | nil =>
    rw [put, List.find?_singleton]
    split <;> rfl
  | cons head rest ih =>
    obtain ⟨first, old⟩ := head
    rw [put]
    by_cases hit : first.same address = true
    · have joined : first.same place = address.same place := by
        unfold Json.same
        rw [Json.same_iff.mp hit]
      rw [if_pos hit, List.find?_cons, List.find?_cons, joined]
      cases address.same place <;> rfl
    · rw [if_neg hit, List.find?_cons, List.find?_cons]
      cases found : first.same place with
      | false => exact ih
      | true =>
        have apart : ¬address.same place = true := by
          intro equal
          rw [Json.same_iff] at found equal
          exact hit (Json.same_iff.mpr (found.trans equal.symm))
        rw [if_neg apart]

/-- Writing replaces what its address leads to. -/
theorem Extends.replaced {before grown after : Memory} (extended : before.Extends grown)
    {goal : Json} {value : Value} (written : grown.write goal value = .ok after) :
    Replaced before after goal value := by
  rcases checkStorable_cases value with checked | refused
  · rw [write_eq grown goal checked] at written
    cases named : goal.is registerAddress with
    | true =>
      rw [named, if_pos rfl, writeRegister] at written
      split at written
      · cases written
      · split at written
        · cases written
        · cases written
          exact .register named rfl extended.cells
    | false =>
      rw [named, if_neg Bool.false_ne_true] at written
      cases isCell : goal.atLeast? 0 with
      | none =>
        rw [isCell] at written
        cases written
      | some inside =>
        rw [isCell] at written
        cases inside with
        | false => cases written
        | true =>
          cases written
          refine .cell named isCell ?_ extended.register ?_
          · rw [content?_put, if_pos (Json.same_self goal)]
          · intro address apart
            rw [Kept, content?_put, apart, if_neg Bool.false_ne_true]
            exact extended.cells address
  · rw [write_unchecked grown goal refused] at written
    cases written

end Memory

namespace Action

variable {options : Options} {machine after : Machine}

/-- The address that an assignment leads to on a machine: the one written down, or the one that its
place is computed to. -/
def Leads (options : Options) (machine : Machine) (address : Json) (place : Node) (goal : Json) :
    Prop :=
  if place.isAbsent then goal = address
  else ∃ after, placeOf options place machine = .ok goal after

/-- What an instruction that succeeds does to memory. -/
def Effect (options : Options) (before after : Machine) : Node → Prop
  | .print _ => after.context.memory = before.context.memory
  | .read => ∃ bit, before.input.next.1 = .ok bit ∧
      after.context.memory = { before.context.memory with register := bit }
  | .assignment address place source => ∃ value evaluated goal,
      evaluate options source before = .ok value evaluated ∧
      Leads options before address place goal ∧
      before.context.memory.Replaced after.context.memory goal value
  | _ => False

theorem store_ensures (options : Options) (address : Json) (value : Value) (machine : Machine) :
    (store options address value).Ensures machine
      (fun _ after => machine.context.memory.write address value = .ok after.context.memory)
      (fun _ after => machine.Grows after) := by
  rcases store_run options address value machine with ⟨trace, -, run⟩ | ⟨-, failed⟩
  · split at run
    · next memory written => exact .of_ok run written
    · exact .of_error run ⟨.refl _, rfl, rfl, rfl, rfl, trivial⟩
  · exact .of_error failed (.refl machine)

/-- The source is evaluated first and the place after it. Both only look at memory, so what is
written is the value that the source has before, to the place that is meant before. -/
theorem assignment_ensures (options : Options) (address : Json) (place source : Node)
    (machine : Machine) :
    (execute options (.assignment address place source)).Ensures machine
      (fun _ after => Effect options machine after (.assignment address place source))
      (fun _ after => machine.Grows after) := by
  rw [execute_assignment]
  apply Ensures.bind ((evaluate_readsOnly options source).grows machine)
  intro value evaluated found grown
  cases absent : place.isAbsent with
  | true =>
    apply (store_ensures options address value evaluated).mono
    · intro _ after written
      have leads : Leads options machine address place address := by
        rw [Leads, absent, if_pos rfl]
      exact ⟨value, evaluated, address, found, leads, grown.memory.replaced written⟩
    · intro _ _ later
      exact grown.trans later
  | false =>
    have places := ((placeOf_readsOnly options place).grows evaluated).mono
      (fun _ _ later => later) (fun _ _ later => grown.trans later)
    apply Ensures.bind places
    intro goal located computed reached
    apply (store_ensures options goal value located).mono
    · intro _ after written
      have leads : Leads options machine address place goal := by
        rw [Leads, absent, if_neg Bool.false_ne_true]
        exact (placeOf_iff_of_grows grown).mpr ⟨located, computed⟩
      have extended := grown.memory.trans reached.memory
      exact ⟨value, evaluated, goal, found, leads, extended.replaced written⟩
    · intro _ _ later
      exact (grown.trans reached).trans later

/-- What an assignment comes to when its source has a value and its place is known. -/
theorem assignment_of_leads {address goal : Json} {place source : Node} {value : Value}
    (evaluated : evaluate options source machine = .ok value after)
    (leads : Leads options machine address place goal) :
    ∃ between, machine.Grows between ∧
      execute options (.assignment address place source) machine =
        store options goal value between := by
  have grown := ((evaluate_readsOnly options source).grows machine).ok evaluated
  rw [execute_assignment, bind_of_ok _ evaluated]
  cases absent : place.isAbsent with
  | true =>
    rw [Leads, absent, if_pos rfl] at leads
    subst leads
    exact ⟨after, grown, rfl⟩
  | false =>
    rw [Leads, absent, if_neg Bool.false_ne_true] at leads
    obtain ⟨located, computed⟩ := (placeOf_iff_of_grows grown).mp leads
    have reached := ((placeOf_readsOnly options place).grows after).ok computed
    exact ⟨located, grown.trans reached, bind_of_ok _ computed⟩

theorem write_legal {bit : Json} (memory : Memory) (legal : isLegalBit bit = true) :
    memory.write (.int registerAddress) (.bit bit) = .ok { memory with register := bit } := by
  have checked : Memory.checkStorable (.bit bit) = .ok () := by
    rw [Memory.checkStorable, legal, Bool.not_true, Bool.and_false, if_neg Bool.false_ne_true]
  have refused : ¬(!isLegalBit bit) = true := by
    rw [legal]
    exact Bool.false_ne_true
  rw [Memory.write_eq memory _ checked, Json.is_int, if_pos (decide_eq_true rfl),
    Memory.writeRegister, if_neg (show ¬(Value.bit bit).isAddress = true from nofun),
    if_neg refused]

/-- The machine has been asked for a bit, and its prompt was shown. -/
structure Asked (before after : Machine) : Prop where
  memory : after.context.memory = before.context.memory
  output : after.output = before.output.say before.input.prompt

theorem request_asks (machine : Machine) :
    request.Ensures machine
      (fun bit after => machine.input.next.1 = .ok bit ∧ Asked machine after)
      (fun _ after => Asked machine after) := by
  unfold Ensures request
  cases machine.input.next with
  | mk result input =>
    cases result with
    | ok bit => exact ⟨rfl, rfl, rfl⟩
    | error fault => exact ⟨rfl, rfl⟩

theorem read_ensures (options : Options) (machine : Machine) :
    (execute options .read).Ensures machine
      (fun _ after => Effect options machine after .read) (fun _ after => Asked machine after) := by
  rw [execute_read]
  apply Ensures.bind (request_asks machine)
  rintro bit asked - ⟨drawn, asks⟩
  cases legal : isLegalBit bit with
  | false => exact .of_error rfl asks
  | true =>
    apply Ensures.bind ((record_ensures options (.read bit) asked).mono (fun _ _ traced => traced)
      fun _ _ failed => failed.2.1 ▸ asks)
    rintro _ _ - ⟨trace, rfl⟩
    rcases store_run options (.int registerAddress) (.bit bit) { asked with trace } with
      ⟨trace', -, stored⟩ | ⟨-, failed⟩
    · rw [write_legal asked.context.memory legal] at stored
      refine .of_ok stored ⟨bit, drawn, ?_⟩
      show ({ asked.context.memory with register := bit } : Memory) = _
      rw [asks.memory]
    · exact .of_error failed ⟨asks.memory, asks.output⟩

theorem print_ensures (options : Options) (bit : Json) (machine : Machine) :
    (execute options (.print bit)).Ensures machine
      (fun _ after => after.context.memory = machine.context.memory)
      (fun _ after => after.context.memory = machine.context.memory) := by
  apply Ensures.bind ((record_ensures options (.print bit) machine).mono (fun _ _ traced => traced)
    fun _ after failed => congrArg (·.context.memory) failed.2.1)
  rintro _ _ - ⟨trace, rfl⟩
  unfold Ensures emit
  rcases machine.output.write bit with ⟨_ | fault, output⟩
  · rfl
  · rfl

/-- No bit was put out, though a prompt may have been shown. -/
def Silent (before after : Machine) : Prop :=
  after.output = before.output ∨ after.output = before.output.say before.input.prompt

/-- Both outcomes of an instruction. -/
theorem execute_ensures (options : Options) (instruction : Node) (machine : Machine) :
    (execute options instruction).Ensures machine
      (fun _ after => Effect options machine after instruction)
      (fun _ after => machine.context.memory.Extends after.context.memory ∧
        ((∀ bit, instruction ≠ .print bit) → Silent machine after)) := by
  cases instruction with
  | print bit =>
    apply (print_ensures options bit machine).mono
    · intro _ after same
      exact same
    · intro _ after same
      rw [same]
      exact ⟨.refl _, fun other => absurd rfl (other bit)⟩
  | read =>
    apply (read_ensures options machine).mono
    · intro _ after effect
      exact effect
    · intro _ after asked
      rw [asked.memory]
      exact ⟨.refl _, fun _ => Or.inr asked.output⟩
  | assignment address place source =>
    apply (assignment_ensures options address place source machine).mono
    · intro _ after effect
      exact effect
    · intro _ after grown
      exact ⟨grown.memory, fun _ => Or.inl grown.output.symm⟩
  | _ => exact .of_error rfl ⟨.refl _, fun _ => Or.inl rfl⟩

section Places

/-- Where kinds are looked at, an address is never negative unless a cell holds a negative one. -/
theorem natural_of_evaluateWithin (kinds : options.magnitudeGuards = false)
    (natural : machine.context.memory.NaturalAddresses) {frames : Nat} {node : Node} {value : Value}
    (done : evaluateWithin options frames node machine = .ok value after)
    (pointer : value.kind = .address) : value.magnitude.below? 0 = some false := by
  induction frames, node using frames_induction generalizing after with
  | short frames node short =>
    rw [evaluateWithin_of_lt short] at done
    cases done
  | enough rest node ih =>
    have found : ∀ {child : Node}, Followed options rest machine child value → False := by
      intro child followed
      exact Options.kind_ne_address kinds followed.bit pointer
    cases arises_of_ok done with
    | constant magnitude => cases pointer
    | «variable» held =>
      cases held with
      | register named => cases pointer
      | cell other => exact natural.cell pointer
    | single evaluated => exact ih _ evaluated
    | nand => cases pointer
    | addressOf named evaluated bit below => exact below
    | valueAt followed => exact (found followed).elim
    | valueBeyond followed => exact (found followed).elim

theorem not_register_of_natural {goal : Json} (natural : goal.below? 0 = some false) :
    goal.is registerAddress = false := by
  rw [Bool.eq_false_iff]
  intro named
  rw [Json.is, beq_iff_eq] at named
  rw [Json.below?, named] at natural
  cases natural

theorem natural_of_leads (kinds : options.magnitudeGuards = false)
    (natural : machine.context.memory.NaturalAddresses) {address goal : Json} {place : Node}
    (computed : place.isAbsent = false) (leads : Leads options machine address place goal) :
    goal.below? 0 = some false := by
  rw [Leads, computed, if_neg Bool.false_ne_true] at leads
  obtain ⟨after, done⟩ := leads
  rw [placeOf_eq] at done
  obtain ⟨value, between, evaluated, done⟩ := bind_eq_ok.mp done
  split at done
  · cases done
  · next accepted =>
    cases done
    rw [kinds, Bool.not_false, Bool.true_and, Bool.not_eq_true', Bool.not_eq_false] at accepted
    exact natural_of_evaluateWithin kinds natural evaluated (Value.isAddress_iff.mp accepted)

end Places

/-- Lines are atomic and write one place. An instruction that fails leaves the jump register and all
cells as they were, up to cells that came into being, and puts out no bit unless it was to print one.
One that succeeds leaves memory as it was if it prints, sets only the jump register if it reads, and
if it assigns replaces only what its place leads to, by the value that its source has before. Where
kinds are looked at and no cell holds a negative address, a computed place is never negative and so
never the jump register. Evaluating alone only makes cells come into being; to do it again gives the
same and makes no more of them. -/
theorem lines_write_one_place (options : Options) (machine : Machine) :
    (∀ instruction, (execute options instruction).Ensures machine
      (fun _ after => Effect options machine after instruction)
      (fun _ after => machine.context.memory.Extends after.context.memory ∧
        ((∀ bit, instruction ≠ .print bit) → Silent machine after))) ∧
    (options.magnitudeGuards = false → machine.context.memory.NaturalAddresses →
      ∀ address place goal, place.isAbsent = false → Leads options machine address place goal →
        goal.is registerAddress = false ∧ goal.below? 0 = some false ∧
        (goal.Whole → goal.atLeast? 0 = some true)) ∧
    (∀ expression, (evaluate options expression).Ensures machine
      (fun value after => machine.context.memory.Extends after.context.memory ∧
        ∃ later, evaluate options expression after = .ok value later ∧
          later.context.memory = after.context.memory)
      (fun fault after => machine.context.memory.Extends after.context.memory ∧
        ∃ later, evaluate options expression after = .error fault later ∧
          later.context.memory = after.context.memory)) := by
  refine ⟨fun instruction => execute_ensures options instruction machine, ?_, ?_⟩
  · intro kinds natural address place goal computed leads
    have above := natural_of_leads kinds natural computed leads
    refine ⟨not_register_of_natural above, above, ?_⟩
    rintro ⟨n, rfl⟩
    rw [Json.below?_int, Option.some_inj, decide_eq_false_iff_not] at above
    rw [Json.atLeast?_int, decide_eq_true (by omega)]
  · intro expression
    have looks := evaluate_readsOnly options expression
    cases ran : evaluate options expression machine with
    | ok value after =>
      have grown := (looks.grows machine).ok ran
      exact .of_ok ran ⟨grown.memory, (looks.repeats machine after).ok ran (.refl _)⟩
    | error fault after =>
      have grown := (looks.grows machine).error ran
      exact .of_error ran ⟨grown.memory, (looks.repeats machine after).error ran (.refl _)⟩

/-- A machine whose cell 2 holds the address 3. -/
def pointing : Machine where
  context := { memory := { cells := [(.int 2, .address (.int 3))] } }
  input := .prepared []

/-- An assignment to the cell that the address in cell 2 leads to. -/
def writeThroughPointer : Node :=
  .assignment .null (.variable (.int 2)) (.constant (.int 1))

theorem lines_write_one_place_throughPointer :
    (∃ after, execute {} writeThroughPointer pointing = .ok () after ∧
      after.context.memory.content? (.int 3) = some (.undefined (.int 1)) ∧
      Effect {} pointing after writeThroughPointer) ∧
    (Json.int 3).is registerAddress = false ∧ (Json.int 3).below? 0 = some false := by
  obtain ⟨instructions, places, -⟩ := lines_write_one_place {} pointing
  have natural : pointing.context.memory.NaturalAddresses := by
    intro address value found _
    rw [Memory.content?, Memory.find?, pointing, List.find?_singleton] at found
    split at found
    · cases found
      rfl
    · cases found
  have leads : Leads {} pointing .null (.variable (.int 2)) (.int 3) := ⟨_, rfl⟩
  obtain ⟨apart, above, -⟩ := places rfl natural .null (.variable (.int 2)) (.int 3) rfl leads
  refine ⟨⟨_, rfl, ?_, ?_⟩, apart, above⟩
  · rfl
  · exact (instructions writeThroughPointer).ok rfl

end Action

end BitMachine
