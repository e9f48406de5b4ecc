import BitMachine.Proofs.Machine.Preservation

/-! Executions are put together from a few primitive actions. A relation between actions that holds
of the primitives and is kept by sequencing therefore holds of every execution: of evaluating,
executing, branching, and of whole runs. -/

set_option autoImplicit false

namespace BitMachine

namespace Action

section Primitives

/-- Writes memory, without a record of it. -/
def write (address : Json) (value : Value) : Action Unit := fun machine =>
  match machine.context.memory.write address value with
  | .ok memory => .ok () { machine with context.memory := memory }
  | .error fault => .error fault machine

/-- What the jump register holds. -/
def register : Action Json := fun machine =>
  .ok machine.context.memory.register machine

/-- Counts a line, and gives the count. -/
def count : Action Nat := fun machine =>
  .ok (counted machine).context.steps (counted machine)

/-- Notes the number of the current line. -/
def note (number : Json) : Action Unit := fun machine =>
  .ok () { machine with context.line := number }

/-- Refuses a count that is past the limit. -/
def checkLimit (options : Options) (steps : Nat) : Action Unit :=
  match options.stepLimit with
  | none => pure ()
  | some limit =>
    needed (limit.below? steps) >>= fun exceeded =>
      if exceeded then throw (.stepLimit limit) else pure ()

theorem store_eq (options : Options) (address : Json) (value : Value) :
    store options address value =
      record options (.write address value) >>= fun _ => write address value := by
  unfold store
  congr 1
  funext _ machine
  show EStateM.bind get _ machine = _
  unfold EStateM.bind write
  dsimp only [get, getThe, MonadStateOf.get, EStateM.get]
  cases machine.context.memory.write address value <;> rfl

theorem enter_eq (options : Options) (line : Line) :
    enter options line =
      count >>= fun steps => checkLimit options steps >>= fun _ =>
        note line.number >>= fun _ => record options (.line line.number) := by
  funext machine
  unfold checkLimit
  cases limited : options.stepLimit with
  | none => exact enter_of_no_limit limited line machine
  | some limit =>
    rw [enter_of_limit limited line machine]
    show _ = EStateM.bind (EStateM.bind (needed (limit.below? (counted machine).context.steps)) _) _
      (counted machine)
    cases limit.below? (counted machine).context.steps with
    | none => rfl
    | some exceeded => cases exceeded <;> rfl

/-- A run to its end, without what is done for its trace. -/
def runToEnd (options : Options) (program : Program) : Action Unit :=
  runFor options options.patience program >>= fun left =>
    match left with
    | none => pure ()
    | some _ => throw .unfinished

theorem run_eq (options : Options) (program : Program) :
    run options program = traced options (runToEnd options program) :=
  rfl

theorem successor_eq (options : Options) (line : Line) :
    successor options line =
      match line.branch with
      | .absent => pure .null
      | .unconditional goal => resolve options goal
      | .conditional ifZero ifOne =>
        register >>= fun held =>
          if held.is 0 && !ifZero.isAbsent then resolve options ifZero
          else if held.is 1 && !ifOne.isAbsent then resolve options ifOne
          else pure .null
      | node => throw (.cannotBranch node.kindName) := by
  funext machine
  cases branches : line.branch with
  | conditional ifZero ifOne =>
    rw [successor_conditional options branches machine]
    show _ = EStateM.bind register _ machine
    unfold EStateM.bind register
    dsimp only
    split
    · rfl
    · split <;> rfl
  | _ =>
    unfold successor
    rw [branches]

theorem nandValue_eq (options : Options) (left right : Value) :
    nandValue options left right =
      if options.holdsAddress left || options.holdsAddress right then throw .nandOfAddress
      else needed left.magnitude.whole? >>= fun first =>
        needed right.magnitude.whole? >>= fun second =>
          pure (.bit (.int (Integer.nand first second))) := by
  unfold nandValue
  cases options.holdsAddress left || options.holdsAddress right <;> rfl

theorem addressValue_eq (options : Options) (value : Value) :
    addressValue options value =
      if options.holdsAddress value then throw .addressOfAddress
      else if options.magnitudeGuards && value.magnitude.is registerAddress then
        throw .addressOfRegister
      else needed (value.magnitude.below? 0) >>= fun below =>
        if below then throw (.invalidAddress value.magnitude)
        else pure (.address value.magnitude) := by
  unfold addressValue
  cases options.holdsAddress value with
  | true => rfl
  | false =>
    cases options.magnitudeGuards && value.magnitude.is registerAddress <;> rfl

theorem follow_eq (options : Options) (operator : Dereference) (value : Value) :
    follow options operator value =
      if options.refusesToFollow value then throw (.dereferenceOfBit operator)
      else needed (value.magnitude.below? 0) >>= fun below =>
        if below then throw (.invalidAddress value.magnitude)
        else needed (value.magnitude.plus? operator.offset) >>= fun address =>
          load address >>= fun content =>
            if options.holdsAddress content then throw .addressInVariable else pure content := by
  unfold follow
  cases options.refusesToFollow value <;> rfl

theorem placeOf_eq (options : Options) (node : Node) :
    placeOf options node =
      evaluate options node >>= fun value =>
        if !options.magnitudeGuards && !value.isAddress then throw .targetNotAddress
        else pure value.magnitude :=
  rfl

theorem execute_read (options : Options) :
    execute options .read =
      request >>= fun bit =>
        if !isLegalBit bit then throw .invalidInput
        else record options (.read bit) >>= fun _ =>
          store options registerAddress (.bit bit) :=
  rfl

end Primitives

/-- A relation between actions that give the same kind of result. -/
abbrev Relation := (α : Type) → Action α → Action α → Prop

end Action

/-- Faults that arise inside a line: neither from counting it, nor from an input that has ended. -/
def Fault.Inner : Fault → Prop
  | .stepLimit _ | .noMoreInput => False
  | _ => True

theorem Memory.inner_of_read {memory : Memory} {address : Json} {fault : Fault}
    (failed : memory.read address = .error fault) : fault.Inner := by
  rw [Memory.read_eq] at failed
  split at failed
  · cases failed
  · cases found : address.atLeast? 0 with
    | none =>
      rw [found] at failed
      cases failed
      trivial
    | some isCell =>
      rw [found] at failed
      cases isCell <;> cases failed
      trivial

theorem Memory.inner_of_writeRegister {memory : Memory} {value : Value} {fault : Fault}
    (failed : memory.writeRegister value = .error fault) : fault.Inner := by
  unfold Memory.writeRegister at failed
  split at failed
  · cases failed
    trivial
  · split at failed <;> cases failed
    trivial

theorem Memory.inner_of_write {memory : Memory} {address : Json} {value : Value} {fault : Fault}
    (failed : memory.write address value = .error fault) : fault.Inner := by
  rcases Memory.checkStorable_cases value with checked | refused
  · rw [Memory.write_eq memory address checked] at failed
    split at failed
    · exact Memory.inner_of_writeRegister failed
    · cases found : address.atLeast? 0 with
      | none =>
        rw [found] at failed
        cases failed
        trivial
      | some isCell =>
        rw [found] at failed
        cases isCell <;> cases failed
        trivial
  · rw [Memory.write_unchecked memory address refused] at failed
    cases failed
    trivial

theorem Output.say_empty (output : Output) : output.say "" = output := by
  unfold Output.say
  rw [String.append_empty]

theorem Output.inner_of_pack {output written : Output} {bit : Json} {fault : Fault}
    (failed : output.pack bit = (some fault, written)) : fault.Inner := by
  unfold Output.pack at failed
  dsimp only at failed
  split at failed
  · cases failed
  · split at failed
    · cases failed
      trivial
    · split at failed <;> cases failed
      trivial

theorem Output.inner_of_spell {output written : Output} {bit : Json} {fault : Fault}
    (failed : output.spell bit = (some fault, written)) : fault.Inner := by
  unfold Output.spell at failed
  split at failed <;> cases failed
  trivial

theorem Output.inner_of_write {output written : Output} {bit : Json} {fault : Fault}
    (failed : output.write bit = (some fault, written)) : fault.Inner := by
  unfold Output.write at failed
  split at failed
  · cases failed
  · exact Output.inner_of_spell failed
  · exact Output.inner_of_pack failed

namespace Action

/-- The relation holds between each action that the operators are made of, under the one options and
the others, and it is kept by sequencing. -/
structure OperatorCongruence (related : Relation) (options options' : Options) : Prop where
  guards : options.magnitudeGuards = options'.magnitudeGuards
  returns : ∀ {α : Type} (value : α), related α (pure value) (pure value)
  fails : ∀ {α : Type} {fault : Fault}, fault.Inner → related α (throw fault) (throw fault)
  continues : ∀ {α β : Type} {first first' : Action α} {next next' : α → Action β},
    related α first first' → (∀ value, related β (next value) (next' value)) →
    related β (first >>= next) (first' >>= next')
  loads : ∀ address, related Value (load address) (load address)

namespace OperatorCongruence

variable {related : Relation} {options options' : Options}

theorem needed_related (same : OperatorCongruence related options options') {α : Type}
    (result : Option α) : related α (needed result) (needed result) := by
  cases result with
  | some value => exact same.returns value
  | none => exact same.fails trivial

theorem holdsAddress_eq (same : OperatorCongruence related options options') :
    options.holdsAddress = options'.holdsAddress := by
  funext value
  unfold Options.holdsAddress
  rw [same.guards]

theorem refusesToFollow_eq (same : OperatorCongruence related options options') :
    options.refusesToFollow = options'.refusesToFollow := by
  funext value
  unfold Options.refusesToFollow
  rw [same.guards]

theorem variableValue_related (same : OperatorCongruence related options options')
    (address : Json) : related Value (variableValue address) (variableValue address) := by
  unfold variableValue
  apply same.continues (same.needed_related _)
  intro inside
  cases inside with
  | true => exact same.loads address
  | false => exact same.fails trivial

theorem nandValue_related (same : OperatorCongruence related options options')
    (left right : Value) :
    related Value (nandValue options left right) (nandValue options' left right) := by
  rw [nandValue_eq, nandValue_eq, same.holdsAddress_eq]
  split
  · exact same.fails trivial
  · apply same.continues (same.needed_related _)
    intro first
    apply same.continues (same.needed_related _)
    intro second
    exact same.returns _

theorem addressValue_related (same : OperatorCongruence related options options')
    (value : Value) :
    related Value (addressValue options value) (addressValue options' value) := by
  rw [addressValue_eq, addressValue_eq, same.holdsAddress_eq, same.guards]
  split
  · exact same.fails trivial
  · split
    · exact same.fails trivial
    · apply same.continues (same.needed_related _)
      intro below
      cases below with
      | true => exact same.fails trivial
      | false => exact same.returns _

theorem follow_related (same : OperatorCongruence related options options')
    (operator : Dereference) (value : Value) :
    related Value (follow options operator value) (follow options' operator value) := by
  rw [follow_eq, follow_eq, same.holdsAddress_eq, same.refusesToFollow_eq]
  split
  · exact same.fails trivial
  · apply same.continues (same.needed_related _)
    intro below
    cases below with
    | true => exact same.fails trivial
    | false =>
      apply same.continues (same.needed_related _)
      intro address
      apply same.continues (same.loads address)
      intro content
      split
      · exact same.fails trivial
      · exact same.returns content

/-- A node is evaluated alike if its parts are. -/
theorem evaluateOver_related (same : OperatorCongruence related options options')
    {evaluate evaluate' : Node → Action Value}
    (parts : ∀ child, related Value (evaluate child) (evaluate' child)) (node : Node) :
    related Value (evaluateOver options evaluate node) (evaluateOver options' evaluate' node) := by
  cases node with
  | constant magnitude => exact same.returns _
  | «variable» address => exact same.variableValue_related address
  | nand left right =>
    rw [evaluateOver_nand, evaluateOver_nand]
    split
    · exact parts left
    · apply same.continues (parts left)
      intro first
      apply same.continues (parts right)
      intro second
      exact same.nandValue_related first second
  | addressOf child =>
    rw [evaluateOver_addressOf, evaluateOver_addressOf, same.guards]
    split
    · exact same.fails trivial
    · exact same.continues (parts child) same.addressValue_related
  | valueBeyond child => exact same.continues (parts child) (same.follow_related .valueBeyond)
  | valueAt child => exact same.continues (parts child) (same.follow_related .valueAt)
  | _ => exact same.fails trivial

/-- An expression is evaluated alike, if the values of its parts are recorded alike. -/
theorem evaluateWithin_related (same : OperatorCongruence related options options')
    (remarks : ∀ name value, related Unit (record options (.evaluate name value))
      (record options' (.evaluate name value))) (frames : Nat) (node : Node) :
    related Value (evaluateWithin options frames node) (evaluateWithin options' frames node) := by
  induction frames, node using frames_induction with
  | short frames node short =>
    rw [evaluateWithin_of_lt short, evaluateWithin_of_lt short]
    exact same.fails trivial
  | enough rest node ih =>
    rw [evaluateWithin_add, evaluateWithin_add]
    apply same.continues (same.evaluateOver_related ih node)
    intro value
    apply same.continues (remarks _ _)
    intro _
    exact same.returns value

end OperatorCongruence

/-- The relation also holds where events are recorded, and so of evaluating. -/
structure EvaluationCongruence (related : Relation) (options options' : Options) : Prop extends
    OperatorCongruence related options options' where
  frames : options.frames = options'.frames
  records : ∀ event, related Unit (record options event) (record options' event)

namespace EvaluationCongruence

variable {related : Relation} {options options' : Options}

theorem evaluateWithin_related (same : EvaluationCongruence related options options')
    (frames : Nat) (node : Node) :
    related Value (evaluateWithin options frames node) (evaluateWithin options' frames node) :=
  same.toOperatorCongruence.evaluateWithin_related (fun _ _ => same.records _) frames node

theorem evaluate_related (same : EvaluationCongruence related options options') (node : Node) :
    related Value (evaluate options node) (evaluate options' node) := by
  unfold evaluate
  rw [same.frames]
  exact same.evaluateWithin_related options'.frames node

end EvaluationCongruence

/-- The relation holds between each primitive action under the one options and the same action under
the others, reading and printing aside, and it is kept by sequencing. -/
structure InnerCongruence (related : Relation) (options options' : Options) : Prop extends
    EvaluationCongruence related options options' where
  jumps : options.indirectGoto = options'.indirectGoto
  writes : ∀ address value, related Unit (write address value) (write address value)
  registers : related Json register register

namespace InnerCongruence

variable {related : Relation} {options options' : Options}

theorem store_related (same : InnerCongruence related options options') (address : Json)
    (value : Value) :
    related Unit (store options address value) (store options' address value) := by
  rw [store_eq, store_eq]
  apply same.continues (same.records _)
  intro _
  exact same.writes address value

theorem placeOf_related (same : InnerCongruence related options options') (node : Node) :
    related Json (placeOf options node) (placeOf options' node) := by
  rw [placeOf_eq, placeOf_eq, same.guards]
  apply same.continues (same.evaluate_related node)
  intro value
  split
  · exact same.fails trivial
  · exact same.returns _

/-- An instruction is executed alike, if it prints alike where it prints and reads alike where it
reads. -/
theorem execute_related (same : InnerCongruence related options options') (node : Node)
    (emits : ∀ bit, node = .print bit → related Unit (emit bit) (emit bit))
    (requests : node = .read → related Json request request) :
    related Unit (execute options node) (execute options' node) := by
  cases node with
  | print bit =>
    apply same.continues (same.records _)
    intro _
    exact emits bit rfl
  | read =>
    rw [execute_read, execute_read]
    apply same.continues (requests rfl)
    intro bit
    split
    · exact same.fails trivial
    · apply same.continues (same.records _)
      intro _
      exact same.store_related _ _
  | assignment address place source =>
    rw [execute_assignment, execute_assignment]
    apply same.continues (same.evaluate_related source)
    intro value
    split
    · exact same.store_related address value
    · apply same.continues (same.placeOf_related place)
      intro computed
      exact same.store_related computed value
  | _ => exact same.fails trivial

theorem resolve_related (same : InnerCongruence related options options') (node : Node) :
    related Json (resolve options node) (resolve options' node) := by
  cases node with
  | target number indirect =>
    rw [resolve_target, resolve_target, same.jumps]
    split
    · apply same.continues (same.loads number)
      intro value
      exact same.returns _
    · exact same.returns number
  | _ => exact same.fails trivial

theorem successor_related (same : InnerCongruence related options options') (line : Line) :
    related Json (successor options line) (successor options' line) := by
  rw [successor_eq, successor_eq]
  cases line.branch with
  | absent => exact same.returns _
  | unconditional goal => exact same.resolve_related goal
  | conditional ifZero ifOne =>
    apply same.continues same.registers
    intro held
    split
    · exact same.resolve_related ifZero
    · split
      · exact same.resolve_related ifOne
      · exact same.returns _
  | _ => exact same.fails trivial

theorem arrive_related (same : InnerCongruence related options options') (program : Program)
    (line : Line) (number : Json) :
    related (Option Line) (arrive options program line number)
      (arrive options' program line number) := by
  unfold arrive
  split
  · apply same.continues (same.records _)
    intro _
    exact same.returns none
  · split
    · exact same.fails trivial
    · split
      · exact same.fails trivial
      · next next _ =>
        apply same.continues (same.records _)
        intro _
        exact same.returns (some next)

/-- What a line does after it has been entered. -/
theorem rest_related (same : InnerCongruence related options options') (program : Program)
    (line : Line)
    (emits : ∀ bit, line.instruction = .print bit → related Unit (emit bit) (emit bit))
    (requests : line.instruction = .read → related Json request request) :
    related (Option Line)
      (execute options line.instruction >>= fun _ =>
        successor options line >>= arrive options program line)
      (execute options' line.instruction >>= fun _ =>
        successor options' line >>= arrive options' program line) := by
  apply same.continues (same.execute_related line.instruction emits requests)
  intro _
  exact same.continues (same.successor_related line) (same.arrive_related program line)

end InnerCongruence

/-- The relation holds between each primitive action under the one options and the same action under
the others, and it is kept by sequencing. That a line is one too many is no fault of a primitive
action: it only arises where lines are counted. -/
structure Congruence (related : Relation) (options options' : Options) : Prop where
  guards : options.magnitudeGuards = options'.magnitudeGuards
  frames : options.frames = options'.frames
  jumps : options.indirectGoto = options'.indirectGoto
  returns : ∀ {α : Type} (value : α), related α (pure value) (pure value)
  fails : ∀ {α : Type} (fault : Fault), (∀ limit, fault ≠ .stepLimit limit) →
    related α (throw fault) (throw fault)
  continues : ∀ {α β : Type} {first first' : Action α} {next next' : α → Action β},
    related α first first' → (∀ value, related β (next value) (next' value)) →
    related β (first >>= next) (first' >>= next')
  records : ∀ event, related Unit (record options event) (record options' event)
  loads : ∀ address, related Value (load address) (load address)
  writes : ∀ address value, related Unit (write address value) (write address value)
  registers : related Json register register
  emits : ∀ bit, related Unit (emit bit) (emit bit)
  requests : related Json request request

namespace Congruence

variable {related : Relation} {options options' : Options}

theorem inner (same : Congruence related options options') :
    InnerCongruence related options options' where
  guards := same.guards
  frames := same.frames
  jumps := same.jumps
  returns := same.returns
  fails := by
    intro _ fault arises
    apply same.fails fault
    rintro limit rfl
    exact arises
  continues := same.continues
  records := same.records
  loads := same.loads
  writes := same.writes
  registers := same.registers

theorem evaluate_related (same : Congruence related options options') (node : Node) :
    related Value (evaluate options node) (evaluate options' node) :=
  same.inner.evaluate_related node

theorem execute_related (same : Congruence related options options') (node : Node) :
    related Unit (execute options node) (execute options' node) :=
  same.inner.execute_related node (fun bit _ => same.emits bit) (fun _ => same.requests)

theorem successor_related (same : Congruence related options options') (line : Line) :
    related Json (successor options line) (successor options' line) :=
  same.inner.successor_related line

theorem rest_related (same : Congruence related options options') (program : Program)
    (line : Line) :
    related (Option Line)
      (execute options line.instruction >>= fun _ =>
        successor options line >>= arrive options program line)
      (execute options' line.instruction >>= fun _ =>
        successor options' line >>= arrive options' program line) :=
  same.inner.rest_related program line (fun bit _ => same.emits bit) (fun _ => same.requests)

end Congruence

/-- An inner congruence that also holds where lines are counted. -/
structure StepCongruence (related : Relation) (options options' : Options) : Prop extends
    InnerCongruence related options options' where
  limits : options.stepLimit = options'.stepLimit
  exceeds : ∀ limit, related Unit (throw (.stepLimit limit)) (throw (.stepLimit limit))
  counts : related Nat count count
  notes : ∀ number, related Unit (note number) (note number)

namespace StepCongruence

variable {related : Relation} {options options' : Options}

theorem checkLimit_related (same : StepCongruence related options options') (steps : Nat) :
    related Unit (checkLimit options steps) (checkLimit options' steps) := by
  unfold checkLimit
  rw [same.limits]
  split
  · exact same.returns ()
  · next limit _ =>
    apply same.continues (same.needed_related _)
    intro exceeded
    cases exceeded with
    | true => exact same.exceeds limit
    | false => exact same.returns ()

theorem enter_related (same : StepCongruence related options options') (line : Line) :
    related Unit (enter options line) (enter options' line) := by
  rw [enter_eq, enter_eq]
  apply same.continues same.counts
  intro steps
  apply same.continues (same.checkLimit_related steps)
  intro _
  apply same.continues (same.notes line.number)
  intro _
  exact same.records _

/-- A line is executed alike, if it prints alike where it prints and reads alike where it reads. -/
theorem step_related (same : StepCongruence related options options') (program : Program)
    (line : Line)
    (emits : ∀ bit, line.instruction = .print bit → related Unit (emit bit) (emit bit))
    (requests : line.instruction = .read → related Json request request) :
    related (Option Line) (step options program line) (step options' program line) := by
  rw [step_eq, step_eq]
  apply same.continues (same.enter_related line)
  intro _
  exact same.rest_related program line emits requests

end StepCongruence

/-- A congruence that also holds where lines are counted, so that it holds of any number of lines. -/
structure LineCongruence (related : Relation) (options options' : Options) : Prop extends
    Congruence related options options' where
  limits : options.stepLimit = options'.stepLimit
  exceeds : ∀ limit, related Unit (throw (.stepLimit limit)) (throw (.stepLimit limit))
  counts : related Nat count count
  notes : ∀ number, related Unit (note number) (note number)
  locates : ∀ {α : Type} {action action' : Action α}, related α action action' →
    related α (located action) (located action')

namespace LineCongruence

variable {related : Relation} {options options' : Options}

theorem stepwise (same : LineCongruence related options options') :
    StepCongruence related options options' :=
  { same.inner with
    limits := same.limits
    exceeds := same.exceeds
    counts := same.counts
    notes := same.notes }

theorem step_related (same : LineCongruence related options options') (program : Program)
    (line : Line) :
    related (Option Line) (step options program line) (step options' program line) :=
  same.stepwise.step_related program line (fun bit _ => same.emits bit) (fun _ => same.requests)

theorem runFrom_related (same : LineCongruence related options options') (program : Program)
    (fuel : Nat) (line : Line) :
    related (Option Line) (runFrom options program fuel line)
      (runFrom options' program fuel line) := by
  induction fuel generalizing line with
  | zero => exact same.returns (some line)
  | succ fuel ih =>
    apply same.continues (same.step_related program line)
    intro next
    cases next with
    | none => exact same.returns none
    | some next => exact ih next

/-- Runs are related for as long as one cares to follow them. -/
theorem runFor_related (same : LineCongruence related options options') (program : Program)
    (fuel : Nat) :
    related (Option Line) (runFor options fuel program) (runFor options' fuel program) := by
  unfold runFor
  cases program.entry? with
  | none => exact same.fails .missingProgram nofun
  | some line => exact same.locates (same.runFrom_related program fuel line)

/-- What a run does while its trace file is open. -/
theorem runToEnd_related (same : LineCongruence related options options')
    (patience : options.patience = options'.patience) (program : Program) :
    related Unit (runToEnd options program) (runToEnd options' program) := by
  unfold runToEnd
  rw [patience]
  apply same.continues (same.runFor_related program _)
  intro left
  cases left with
  | none => exact same.returns ()
  | some line => exact same.fails .unfinished nofun

end LineCongruence

/-- A congruence that also holds of opening and closing the trace file, and so of whole runs. -/
structure RunCongruence (related : Relation) (options options' : Options) : Prop extends
    LineCongruence related options options' where
  traces : ∀ {α : Type} {action action' : Action α}, related α action action' →
    related α (traced options action) (traced options' action')

theorem RunCongruence.run_related {related : Relation} {options options' : Options}
    (same : RunCongruence related options options')
    (patience : options.patience = options'.patience) (program : Program) :
    related Unit (run options program) (run options' program) := by
  rw [run_eq, run_eq]
  exact same.traces (same.runToEnd_related patience program)

end Action

end BitMachine
