import BitMachine.Proofs.Machine.Rendering
import BitMachine.Proofs.Machine.Replay

/-! A run that traces what its lines do leaves a faithful log behind. Each line tells that it was
entered, and what its instruction did; how expressions come about and where a branch leads to is told
in between, and changes nothing. -/

set_option autoImplicit false

namespace BitMachine

namespace Action

section Silence

variable {α β : Type}

/-- An action that, if it succeeds, has done nothing that is to be told of. -/
def TellsNothing (action : Action α) : Prop :=
  ∀ machine value after, action machine = .ok value after → Machine.Tells [] machine after

theorem tellsNothing_pure (value : α) : TellsNothing (pure value) := by
  rintro machine _ _ ⟨⟩
  exact .nothing (.refl machine) rfl

theorem tellsNothing_throw (fault : Fault) : TellsNothing (throw fault : Action α) := by
  intro machine value after done
  cases done

theorem TellsNothing.bind {first : Action α} {next : α → Action β} (before : TellsNothing first)
    (after : ∀ value, TellsNothing (next value)) : TellsNothing (first >>= next) := by
  intro machine result last done
  obtain ⟨value, between, began, ended⟩ := bind_eq_ok.mp done
  exact (before machine value between began).trans (after value between result last ended)

theorem tellsNothing_record (options : Options) {event : Event} (silent : event.tells = false) :
    TellsNothing (record options event) := by
  intro machine _ after done
  unfold record at done
  split at done
  · split at done
    · next legible =>
      cases done
      refine ⟨⟨[event], rfl, List.forall_mem_singleton.mpr legible, ?_⟩, machine, rfl, .refl _, rfl,
        rfl, rfl, rfl, trivial⟩
      rw [List.filter_cons_of_neg (Bool.eq_false_iff.mp silent), List.filter_nil]
    · cases done
  · cases done
    exact .nothing (.refl machine) rfl

theorem tellsNothing_load (address : Json) : TellsNothing (load address) := by
  intro machine value after done
  have grown := ((load_readsOnly address).grows machine).ok done
  rcases load_cases address with ⟨-, register⟩ | ⟨-, -, cell⟩ | ⟨fault, failed⟩
  · rw [register machine] at done
    cases done
    exact .nothing grown rfl
  · rw [cell machine] at done
    cases done
    exact .nothing grown rfl
  · rw [failed machine] at done
    cases done

theorem tellsNothing_congruence (options : Options) :
    OperatorCongruence (fun _ action _ => TellsNothing action) options options where
  guards := rfl
  returns := tellsNothing_pure
  fails _ := tellsNothing_throw _
  continues := TellsNothing.bind
  loads := tellsNothing_load

theorem tellsNothing_evaluate (options : Options) (node : Node) :
    TellsNothing (evaluate options node) :=
  (tellsNothing_congruence options).evaluateWithin_related
    (fun _ _ => tellsNothing_record options rfl) options.frames node

theorem tellsNothing_placeOf (options : Options) (node : Node) :
    TellsNothing (placeOf options node) := by
  rw [placeOf_eq]
  apply (tellsNothing_evaluate options node).bind
  intro value
  split
  · exact tellsNothing_throw _
  · exact tellsNothing_pure _

theorem tellsNothing_resolve (options : Options) (node : Node) :
    TellsNothing (resolve options node) := by
  cases node with
  | target number indirect =>
    rw [resolve_target]
    split
    · exact (tellsNothing_load number).bind fun _ => tellsNothing_pure _
    · exact tellsNothing_pure number
  | _ => exact tellsNothing_throw _

theorem tellsNothing_successor (options : Options) (line : Line) :
    TellsNothing (successor options line) := by
  rw [successor_eq]
  cases line.branch with
  | absent => exact tellsNothing_pure _
  | unconditional goal => exact tellsNothing_resolve options goal
  | conditional ifZero ifOne =>
    have looks : TellsNothing register := by
      rintro machine _ _ ⟨⟩
      exact .nothing (.refl machine) rfl
    apply looks.bind
    intro held
    split
    · exact tellsNothing_resolve options ifZero
    · split
      · exact tellsNothing_resolve options ifOne
      · exact tellsNothing_pure _
  | _ => exact tellsNothing_throw _

theorem tellsNothing_arrive (options : Options) (program : Program) (line : Line) (number : Json) :
    TellsNothing (arrive options program line number) := by
  unfold arrive
  split
  · exact (tellsNothing_record options rfl).bind fun _ => tellsNothing_pure none
  · split
    · exact tellsNothing_throw _
    · split
      · exact tellsNothing_throw _
      · exact (tellsNothing_record options rfl).bind fun _ => tellsNothing_pure _

end Silence

section Telling

variable {options : Options} {machine after : Machine}

/-- What is recorded at verbosity 2 and above: every event that tells what is done, unless the run
fails since it cannot be written. -/
theorem record_of_tells (detailed : 2 ≤ options.verbosity) {event : Event}
    (telling : event.tells = true) (recorded : record options event machine = .ok () after) :
    event.render?.isSome = true ∧ after = { machine with trace := machine.trace.add event } := by
  have low : event.level ≤ options.verbosity := by
    cases event <;> first | exact detailed | exact Nat.le_of_succ_le detailed | cases telling
  rw [record, if_pos low] at recorded
  split at recorded
  · next legible =>
    cases recorded
    exact ⟨legible, rfl⟩
  · cases recorded

theorem store_tells (detailed : 2 ≤ options.verbosity) {address : Json} {value : Value}
    (done : store options address value machine = .ok () after) :
    Machine.Tells [.write address value] machine after := by
  rw [store_eq] at done
  obtain ⟨_, noted, recorded, done⟩ := bind_eq_ok.mp done
  obtain ⟨legible, rfl⟩ := record_of_tells detailed rfl recorded
  obtain ⟨memory, written, rfl⟩ := write_eq_ok done
  have performed : (Event.write address value).perform machine =
      .ok () { machine with context.memory := memory } := by
    show write address value machine = _
    unfold write
    rw [written]
  exact .single rfl legible performed rfl

theorem enter_tells (detailed : 2 ≤ options.verbosity) {line : Line}
    (done : enter options line machine = .ok () after) :
    Machine.Tells [.line line.number] machine after := by
  have entered : record options (.line line.number)
      { counted machine with context.line := line.number } = .ok () after := by
    cases limited : options.stepLimit with
    | none => rwa [enter_of_no_limit limited] at done
    | some limit =>
      rw [enter_of_limit limited] at done
      split at done
      · cases done
      · cases done
      · exact done
  obtain ⟨legible, rfl⟩ := record_of_tells detailed rfl entered
  exact .single rfl legible rfl rfl

/-- What an instruction tells of. -/
inductive Told (options : Options) (machine : Machine) : Node → List Event → Prop where
  | print (bit : Json) : Told options machine (.print bit) [.print bit]
  | read {bit : Json} (drawn : machine.input.next.1 = .ok bit) :
      Told options machine .read [.read bit, .write registerAddress (.bit bit)]
  | assignment {address : Json} {place source : Node} {value : Value} {evaluated : Machine}
      {goal : Json} (found : evaluate options source machine = .ok value evaluated)
      (leads : Leads options machine address place goal)
      (stored : ∃ before after : Memory, before.write goal value = .ok after) :
      Told options machine (.assignment address place source) [.write goal value]

theorem read_tells (detailed : 2 ≤ options.verbosity)
    (done : execute options .read machine = .ok () after) :
    ∃ log, Told options machine .read log ∧ Machine.Tells log machine after := by
  rw [execute_read] at done
  obtain ⟨bit, asked, requested, rest⟩ := bind_eq_ok.mp done
  obtain ⟨input, drawn, rfl⟩ := request_eq_ok requested
  have performed : (Event.read bit).perform machine =
      .ok () { machine with input, output := machine.output.say machine.input.prompt } := by
    show (request >>= _) machine = _
    rw [bind_of_ok _ requested, if_pos rfl]
    rfl
  split at rest
  · cases rest
  · obtain ⟨_, noted, recorded, rest⟩ := bind_eq_ok.mp rest
    obtain ⟨legible, rfl⟩ := record_of_tells detailed rfl recorded
    have first : Machine.Tells [.read bit] machine _ := .single rfl legible performed rfl
    exact ⟨_, .read (by rw [drawn]), first.trans (store_tells detailed rest)⟩

theorem assignment_tells (detailed : 2 ≤ options.verbosity) {address : Json} {place source : Node}
    (done : execute options (.assignment address place source) machine = .ok () after) :
    ∃ log, Told options machine (.assignment address place source) log ∧
      Machine.Tells log machine after := by
  rw [execute_assignment] at done
  obtain ⟨value, evaluated, found, rest⟩ := bind_eq_ok.mp done
  have looked := tellsNothing_evaluate options source machine value evaluated found
  cases absent : place.isAbsent with
  | true =>
    rw [absent, if_pos rfl] at rest
    have leads : Leads options machine address place address := by
      rw [Leads, absent, if_pos rfl]
    have written := (store_ensures options address value evaluated).ok rest
    exact ⟨_, .assignment found leads ⟨_, _, written⟩, looked.trans (store_tells detailed rest)⟩
  | false =>
    rw [absent, if_neg Bool.false_ne_true] at rest
    obtain ⟨goal, located, computed, rest⟩ := bind_eq_ok.mp rest
    have grown := ((evaluate_readsOnly options source).grows machine).ok found
    have leads : Leads options machine address place goal := by
      rw [Leads, absent, if_neg Bool.false_ne_true]
      exact (placeOf_iff_of_grows grown).mpr ⟨located, computed⟩
    have written := (store_ensures options goal value located).ok rest
    have looked' := tellsNothing_placeOf options place evaluated goal located computed
    exact ⟨_, .assignment found leads ⟨_, _, written⟩,
      (looked.trans looked').trans (store_tells detailed rest)⟩

theorem execute_tells (detailed : 2 ≤ options.verbosity) {node : Node}
    (done : execute options node machine = .ok () after) :
    ∃ log, Told options machine node log ∧ Machine.Tells log machine after := by
  cases node with
  | print bit =>
    obtain ⟨_, noted, recorded, rest⟩ := bind_eq_ok.mp done
    obtain ⟨legible, rfl⟩ := record_of_tells detailed rfl recorded
    obtain ⟨output, written, rfl⟩ := emit_eq_ok rest
    have performed : (Event.print bit).perform machine = .ok () { machine with output } := by
      show emit bit machine = _
      unfold emit
      rw [written]
    exact ⟨_, .print bit, .single rfl legible performed rfl⟩
  | read => exact read_tells detailed done
  | assignment address place source => exact assignment_tells detailed done
  | _ => cases done

/-- No instruction tells that a line was entered. -/
theorem Told.lineNumbers {node : Node} {log : List Event} (told : Told options machine node log) :
    log.filterMap Event.lineNumber? = [] := by
  cases told <;> rfl

theorem whole_of_leads {address goal : Json} {place : Node}
    (literal : address = .null ∨ address.Whole) (computes : place.Integral)
    (whole : machine.context.memory.Whole) (leads : Leads options machine address place goal) :
    goal = .null ∨ goal.Whole := by
  unfold Leads at leads
  split at leads
  · rwa [leads]
  · obtain ⟨after, done⟩ := leads
    rw [placeOf_eq] at done
    obtain ⟨pointer, between, computed, done⟩ := bind_eq_ok.mp done
    split at done
    · cases done
    · cases done
      exact Or.inr (whole_of_integral computes whole computed)

/-- Where graph, memory and input hold whole numbers, only such are told of. -/
theorem Told.whole {node : Node} {log : List Event} (told : Told options machine node log)
    (integral : node.Integral) (whole : machine.Whole) : ∀ event ∈ log, event.Whole := by
  cases told with
  | print bit =>
    rw [Node.Integral] at integral
    exact List.forall_mem_singleton.mpr integral
  | read drawn =>
    have bit := (next_whole whole.input).2 _ drawn
    rw [List.forall_mem_cons, List.forall_mem_singleton]
    exact ⟨bit, ⟨_, rfl⟩, bit⟩
  | @assignment address place source value evaluated goal found leads stored =>
    rw [Node.Integral] at integral
    obtain ⟨literal, computes, evaluates⟩ := integral
    have magnitude := whole_of_integral evaluates whole.memory found
    refine List.forall_mem_singleton.mpr ⟨?_, magnitude⟩
    -- An assignment without any address is not excluded by the graph, but it cannot be stored.
    rcases whole_of_leads literal computes whole.memory leads with rfl | goal
    · obtain ⟨_, _, written⟩ := stored
      exact absurd written Memory.write_null_ne_ok
    · exact goal

/-- One step: a line tells that it was entered, and then what its instruction did. -/
theorem step_tells (detailed : 2 ≤ options.verbosity) {program : Program} {line : Line}
    {next : Option Line} (done : step options program line machine = .ok next after) :
    ∃ entered log, enter options line machine = .ok () entered ∧
      Told options entered line.instruction log ∧
      Machine.Tells (.line line.number :: log) machine after := by
  rw [step_eq] at done
  obtain ⟨_, entered, began, rest⟩ := bind_eq_ok.mp done
  obtain ⟨_, executed, performed, rest⟩ := bind_eq_ok.mp rest
  obtain ⟨log, told, tells⟩ := execute_tells detailed performed
  have follows : TellsNothing (successor options line >>= arrive options program line) :=
    (tellsNothing_successor options line).bind (tellsNothing_arrive options program line)
  have silent := follows executed next after rest
  have tells := ((enter_tells detailed began).trans tells).trans silent
  rw [List.append_nil, List.singleton_append] at tells
  exact ⟨entered, log, began, told, tells⟩

end Telling

/-- What executing lines has told of: each of them, in order, and nothing but whole numbers where the
graph, memory and input hold such. -/
structure Chronicle (integral : Prop) (lines : List Line) (log : List Event)
    (before after : Machine) : Prop where
  tells : Machine.Tells log before after
  lineNumbers : log.filterMap Event.lineNumber? = lines.map (·.number)
  whole : integral → before.Whole → ∀ event ∈ log, event.Whole

section Runs

variable {options : Options} {program : Program} {line : Line} {machine after : Machine}

theorem Chronicle.trans {integral : Prop} {lines others : List Line} {log more : List Event}
    {before between after : Machine} (first : Chronicle integral lines log before between)
    (second : Chronicle integral others more between after) :
    Chronicle integral (lines ++ others) (log ++ more) before after where
  tells := first.tells.trans second.tells
  lineNumbers := by
    rw [List.filterMap_append, first.lineNumbers, second.lineNumbers, List.map_append]
  whole holds whole := by
    have early := first.whole holds whole
    have late := second.whole holds (first.tells.whole early whole)
    exact List.forall_mem_append.mpr ⟨early, late⟩

theorem step_chronicle (detailed : 2 ≤ options.verbosity) (inside : line ∈ program.lines)
    {next : Option Line} (done : step options program line machine = .ok next after) :
    ∃ log, Chronicle (Node.IntegralLines program.lines) [line] log machine after := by
  obtain ⟨entered, log, began, told, tells⟩ := step_tells detailed done
  refine ⟨_, tells, ?_, ?_⟩
  · rw [List.filterMap_cons, told.lineNumbers]
    rfl
  · intro integral whole
    have parts := (Node.integralLines_iff program.lines).mp integral line inside
    obtain ⟨number, instruction, -⟩ := (Node.integralLine_iff line).mp parts
    have header : ∀ event ∈ [Event.line line.number], event.Whole :=
      List.forall_mem_singleton.mpr number
    have reached := (enter_tells detailed began).whole header whole
    exact List.forall_mem_cons.mpr ⟨number, told.whole instruction reached⟩

theorem executedFrom_of_step {next : Option Line}
    (stepped : step options program line machine = .ok next after) (fuel : Nat) :
    executedFrom options program (fuel + 1) line machine =
      line :: next.elim [] (executedFrom options program fuel · after) := by
  have entered : ∃ entered, enter options line machine = .ok () entered := by
    rw [step_eq] at stepped
    obtain ⟨_, entered, began, -⟩ := bind_eq_ok.mp stepped
    exact ⟨entered, began⟩
  obtain ⟨entered, began⟩ := entered
  rw [executedFrom, began, stepped]
  cases next <;> rfl

/-- A run: what its lines tell of, one line after the other. -/
theorem runFrom_chronicle (detailed : 2 ≤ options.verbosity) {fuel : Nat}
    (inside : line ∈ program.lines)
    (halted : runFrom options program fuel line machine = .ok none after) :
    ∃ log, Chronicle (Node.IntegralLines program.lines)
      (executedFrom options program fuel line machine) log machine after := by
  induction fuel generalizing line machine with
  | zero => cases halted
  | succ fuel ih =>
    rw [runFrom_succ] at halted
    obtain ⟨next, between, stepped, rest⟩ := bind_eq_ok.mp halted
    obtain ⟨log, first⟩ := step_chronicle detailed inside stepped
    rw [executedFrom_of_step stepped]
    cases next with
    | none =>
      cases rest
      exact ⟨log, first⟩
    | some next =>
      obtain ⟨more, others⟩ := ih (mem_of_step stepped) rest
      exact ⟨log ++ more, first.trans others⟩

theorem runFor_chronicle (detailed : 2 ≤ options.verbosity) {fuel : Nat}
    (halted : runFor options fuel program machine = .ok none after) :
    ∃ log, Chronicle (Node.IntegralLines program.lines) (executed options program fuel machine) log
      machine after := by
  unfold runFor at halted
  unfold executed
  cases found : program.entry? with
  | none =>
    rw [found] at halted
    cases halted
  | some entry =>
    rw [found] at halted
    exact runFrom_chronicle detailed (mem_of_line? found) (located_eq_ok.mp halted)

end Runs

/-- The trace is a faithful log. A run that traces what its lines do, and halts, has recorded events
that are written as one line each, and so stand in the file behind what it held, if the file is open.
Some of the events tell what was done. Those about lines name the executed lines in order, and the
count of lines went up by their number; those about printing name the collected bits in order; those
about reading name the bits that were taken from the input in order; and the values that were written,
put once more where they were written to, each filling the one cell or the jump register that its
address leads to, lead to the jump register and the cells at the end, up to cells that have come into
being. The same is true of every input and every style of output: doing once more what the events tell
of leads to the machine at the end, up to such cells. And where program, memory and input hold whole
numbers, of whatever size, these events are read back from the lines. -/
theorem trace_is_a_faithful_log {options : Options} (detailed : 2 ≤ options.verbosity)
    {program : Program} {fuel : Nat} {start after : Machine}
    (halted : runFor options fuel program start = .ok none after) :
    ∃ (events log : List Event) (lines : List String),
      after.trace = start.trace.addAll events ∧
      events.map Event.render? = lines.map some ∧
      (start.trace.isOpen = true →
        after.trace.text? = start.trace.text?.map (· ++ String.join (lines.map (· ++ "\n")))) ∧
      events.filter Event.tells = log ∧
      log.filterMap Event.lineNumber? = (executed options program fuel start).map (·.number) ∧
      after.context.steps =
        start.context.steps + (log.filterMap Event.lineNumber?).length ∧
      (start.output.style = .collected →
        after.output.bits.toList = start.output.bits.toList ++ log.filterMap Event.printed?) ∧
      (∀ bits, start.input = .prepared bits →
        ∃ rest, after.input = .prepared rest ∧ bits = log.filterMap Event.read? ++ rest) ∧
      (∃ memory, start.context.memory.writeAll (log.filterMap Event.written?) = .ok memory ∧
        Memory.Rewritten (log.filterMap Event.written?) start.context.memory memory ∧
        memory.Extends after.context.memory) ∧
      (∃ machine, Event.replay log start = .ok () machine ∧ machine.Grows after) ∧
      (program.toNode.Integral → start.Whole → lines.filterMap Event.decode? = log) := by
  obtain ⟨log, chronicle⟩ := runFor_chronicle detailed halted
  obtain ⟨events, traced, legible, told⟩ := chronicle.tells.recorded
  obtain ⟨machine, done, grown⟩ := chronicle.tells.replayed
  have accounts := accounts_of_replay done
  have rendered := Event.map_render?_of_isSome legible
  refine ⟨events, log, _, traced, rendered, ?_, told, chronicle.lineNumbers, ?_, ?_, ?_, ?_,
    ⟨machine, done, grown⟩, ?_⟩
  · intro opened
    rw [traced, Trace.text?_addAll opened]
    rfl
  · rw [← grown.steps, accounts.steps]
  · intro collects
    rw [← grown.output, (accounts.output collects).2]
  · rw [← grown.input]
    exact accounts.input
  · exact ⟨_, accounts.memory, Memory.rewritten_of_writeAll accounts.memory, grown.memory⟩
  · intro integral whole
    rw [Program.toNode, Node.Integral] at integral
    rw [Event.filterMap_decode?_of_render? rendered, told]
    rw [told]
    exact chronicle.whole integral.2 whole

/-- A program that reads a bit, stores a negative number, and prints. -/
def storeNegative : Program where
  first := .int 0
  lines := [
    ⟨.int 0, .read, .unconditional (.target (.int 1) (.bool false)), .int 0⟩,
    ⟨.int 1, .assignment (.int 4) .absent (.constant (.int (-12))),
      .unconditional (.target (.int 2) (.bool false)), .int 20⟩,
    ⟨.int 2, .print (.int 1), .absent, .int 40⟩]

theorem trace_is_a_faithful_log_storeNegative :
    let told : List Event := [.line (.int 0), .read (.int 1), .write (.int (-1)) (.bit (.int 1)),
      .line (.int 1), .write (.int 4) (.undefined (.int (-12))), .line (.int 2), .print (.int 1)]
    ∃ (after : Machine) (lines : List String), runFor { verbosity := 2 } 3 storeNegative
        { input := .prepared [.int 1], trace := Trace.start {} } = .ok none after ∧
      after.trace.text? = some (String.join (lines.map (· ++ "\n"))) ∧
      lines.filterMap Event.decode? = told := by
  intro told
  have halts : ∃ after, runFor { verbosity := 2 } 3 storeNegative
      { input := .prepared [.int 1], trace := Trace.start {} } = .ok none after ∧
      after.trace.filed.toList.filter Event.tells = told := by
    have ran : (match runFor { verbosity := 2 } 3 storeNegative
        { input := .prepared [.int 1], trace := Trace.start {} } with
      | .ok none after => decide (after.trace.filed.toList.filter Event.tells = told)
      | .ok (some _) _ => false
      | .error _ _ => false) = true := by decide +kernel
    split at ran
    · next after halted => exact ⟨after, halted, of_decide_eq_true ran⟩
    · cases ran
    · cases ran
  obtain ⟨after, halted, telling⟩ := halts
  obtain ⟨events, log, lines, traced, -, text, told', -, -, -, -, -, -, legible⟩ :=
    trace_is_a_faithful_log (by decide) halted
  have integral : storeNegative.toNode.Integral := by
    simp [storeNegative, Program.toNode, Node.Integral, Node.IntegralLines, Node.IntegralLine,
      Json.Whole]
  have whole : ({ input := .prepared [.int 1], trace := Trace.start {} } : Machine).Whole :=
    ⟨Memory.throughout_fresh ⟨0, rfl⟩ ⟨0, rfl⟩, List.forall_mem_singleton.mpr ⟨1, rfl⟩⟩
  have file := text rfl
  refine ⟨after, lines, halted, ?_, ?_⟩
  · rw [file]
    exact congrArg some String.empty_append
  · rw [← telling, traced, Trace.addAll_of_open rfl, legible integral whole, ← told']
    show _ = List.filter Event.tells (#[] ++ events.toArray).toList
    rw [Array.empty_append]

end Action

end BitMachine
