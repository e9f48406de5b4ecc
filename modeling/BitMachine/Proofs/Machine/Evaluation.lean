import BitMachine.Machine.Evaluate
import BitMachine.Proofs.Machine.Graphs
import BitMachine.Proofs.Machine.Outcomes

/-! Evaluating keeps the invariant of memory, whether it succeeds or fails, and gives values that may
be stored. -/

set_option autoImplicit false

namespace BitMachine

namespace Action

section Primitives

/-- Recording changes nothing but the trace, or it fails whatever the machine. -/
theorem record_cases (options : Options) (event : Event) :
    (∀ machine, ∃ trace, record options event machine = .ok () { machine with trace }) ∨
      ∀ machine, record options event machine = .error .unwritable machine := by
  unfold record
  split
  · split
    · exact Or.inl fun machine => ⟨machine.trace.add event, rfl⟩
    · exact Or.inr fun _ => rfl
  · exact Or.inl fun machine => ⟨machine.trace, rfl⟩

theorem record_run (options : Options) (event : Event) (machine : Machine) :
    (∃ trace, record options event machine = .ok () { machine with trace }) ∨
      record options event machine = .error .unwritable machine :=
  (record_cases options event).imp (fun recorded => recorded machine) fun failed => failed machine

theorem record_eq_error {options : Options} {event : Event} {machine after : Machine}
    {fault : Fault} (failed : record options event machine = .error fault after) :
    fault = .unwritable ∧ after = machine ∧ event.level ≤ options.verbosity ∧
      event.render? = none := by
  unfold record at failed
  split at failed
  · next traces =>
    split at failed
    · cases failed
    · next unwritten =>
      cases failed
      exact ⟨rfl, rfl, traces, Option.not_isSome_iff_eq_none.mp unwritten⟩
  · cases failed

/-- What is not traced, or can be written, is recorded. -/
theorem record_of_legible {options : Options} {event : Event}
    (legible : event.level ≤ options.verbosity → event.render?.isSome = true) (machine : Machine) :
    ∃ trace, record options event machine = .ok () { machine with trace } := by
  apply (record_run options event machine).resolve_right
  intro failed
  obtain ⟨-, -, traces, unwritten⟩ := record_eq_error failed
  have written := legible traces
  rw [unwritten] at written
  cases written

theorem record_ensures (options : Options) (event : Event) (machine : Machine) :
    (record options event).Ensures machine (fun _ after => ∃ trace, after = { machine with trace })
      (fun fault after => fault = .unwritable ∧ after = machine ∧
        event.level ≤ options.verbosity) := by
  rcases record_run options event machine with ⟨trace, recorded⟩ | failed
  · exact .of_ok recorded ⟨trace, rfl⟩
  · obtain ⟨-, -, traces, -⟩ := record_eq_error failed
    exact .of_error failed ⟨rfl, rfl, traces⟩

/-- So does recording the value of a node, which is passed on. -/
theorem remark_run (options : Options) (node : Node) (value : Value) (machine : Machine) :
    (∃ trace, remark options node value machine = .ok value { machine with trace }) ∨
      remark options node value machine = .error .unwritable machine := by
  rcases record_run options (.evaluate node.kindName value) machine with ⟨trace, recorded⟩ | failed
  · exact Or.inl ⟨trace, bind_of_ok _ recorded⟩
  · exact Or.inr (bind_of_error _ failed)

theorem remark_eq_error {options : Options} {node : Node} {value : Value}
    {machine after : Machine} {fault : Fault}
    (failed : remark options node value machine = .error fault after) :
    fault = .unwritable ∧ after = machine ∧ 3 ≤ options.verbosity ∧ value.render? = none := by
  rcases bind_eq_error.mp failed with failed | ⟨_, _, _, none⟩
  · obtain ⟨rfl, rfl, traces, unwritten⟩ := record_eq_error failed
    exact ⟨rfl, rfl, traces, Option.map_eq_none_iff.mp unwritten⟩
  · cases none

theorem nandValue_int (options : Options) {left right : Value} {m n : Int}
    (first : left.magnitude = .int m) (second : right.magnitude = .int n) (machine : Machine) :
    nandValue options left right machine =
      if options.holdsAddress left || options.holdsAddress right then .error .nandOfAddress machine
      else .ok (.bit (.int (Integer.nand m n))) machine := by
  unfold nandValue
  rw [first, second]
  cases options.holdsAddress left || options.holdsAddress right with
  | true => rfl
  | false => rfl

theorem addressValue_int (options : Options) {value : Value} {n : Int}
    (whole : value.magnitude = .int n) (machine : Machine) :
    addressValue options value machine =
      if options.holdsAddress value then .error .addressOfAddress machine
      else if options.magnitudeGuards && decide (n = -1) then .error .addressOfRegister machine
      else if n < 0 then .error (.invalidAddress (.int n)) machine
      else .ok (.address (.int n)) machine := by
  unfold addressValue
  rw [whole, Json.is_int, Json.below?_int, registerAddress]
  cases options.holdsAddress value with
  | true => rfl
  | false =>
    cases options.magnitudeGuards && decide (n = -1) with
    | true => rfl
    | false =>
      by_cases negative : n < 0
      · rw [decide_eq_true negative, if_pos negative]
        rfl
      · rw [decide_eq_false negative, if_neg negative]
        rfl

theorem follow_int (options : Options) (operator : Dereference) {value : Value} {n : Int}
    (whole : value.magnitude = .int n) (machine : Machine) :
    follow options operator value machine =
      if options.refusesToFollow value then .error (.dereferenceOfBit operator) machine
      else if n < 0 then .error (.invalidAddress (.int n)) machine
      else match load (.int (n + operator.offset)) machine with
        | .ok content after =>
          if options.holdsAddress content then .error .addressInVariable after
          else .ok content after
        | .error fault after => .error fault after := by
  unfold follow
  rw [whole, Json.below?_int, Json.plus?_int]
  cases options.refusesToFollow value with
  | true => rfl
  | false =>
    by_cases negative : n < 0
    · rw [decide_eq_true negative, if_pos negative]
      rfl
    · rw [decide_eq_false negative, if_neg negative]
      show EStateM.bind (load (.int (n + operator.offset))) _ machine = _
      unfold EStateM.bind
      simp only [Bool.false_eq_true, ↓reduceIte]
      cases load (.int (n + operator.offset)) machine with
      | ok content after =>
        dsimp only
        cases options.holdsAddress content <;> rfl
      | error fault after => rfl

theorem variableValue_int (n : Int) (machine : Machine) :
    variableValue (.int n) machine =
      if -1 ≤ n then load (.int n) machine else .error (.illegalAddress (.int n)) machine := by
  unfold variableValue
  rw [Json.atLeast?_int, registerAddress]
  by_cases inside : -1 ≤ n
  · rw [decide_eq_true inside, if_pos inside]
    rfl
  · rw [decide_eq_false inside, if_neg inside]
    rfl

end Primitives

section Calls

/-! Evaluating a node takes as many calls as `callsOf` says; its parts are evaluated with what is left
of them, and without enough of them it fails. -/

theorem callsOf_eq (node : Node) : callsOf node = 2 ∨ callsOf node = 3 := by
  cases node <;> first | exact Or.inl rfl | exact Or.inr rfl

theorem evaluateWithin_of_lt {options : Options} {frames : Nat} {node : Node}
    (short : frames < callsOf node) :
    evaluateWithin options frames node = throw (.nestedTooDeeply none) := by
  match frames with
  | 0 | 1 => rfl
  | 2 =>
    rcases callsOf_eq node with two | three
    · omega
    · rw [evaluateWithin, if_pos three]
  | frames + 3 => rcases callsOf_eq node with two | three <;> omega

theorem evaluateWithin_add (options : Options) (rest : Nat) (node : Node) :
    evaluateWithin options (rest + callsOf node) node =
      evaluateOver options (evaluateWithin options rest) node >>= remark options node := by
  rcases callsOf_eq node with two | three
  · rw [two]
    cases rest with
    | zero =>
      rw [evaluateWithin, if_neg (by omega)]
      rfl
    | succ rest => rw [evaluateWithin, if_neg (by omega)]
  · rw [three, evaluateWithin, if_pos three]

/-- With so many calls left there are too few of them for a node, or enough for it and so many more
for its parts. -/
@[elab_as_elim]
theorem frames_induction {motive : Nat → Node → Prop}
    (short : ∀ frames node, frames < callsOf node → motive frames node)
    (enough : ∀ rest node, (∀ child, motive rest child) → motive (rest + callsOf node) node)
    (frames : Nat) (node : Node) : motive frames node := by
  induction frames using Nat.strongRecOn generalizing node with
  | ind frames ih =>
    rcases Nat.lt_or_ge frames (callsOf node) with few | many
    · exact short frames node few
    · obtain ⟨rest, rfl⟩ := Nat.exists_eq_add_of_le' many
      have fewer : rest < rest + callsOf node := by
        rcases callsOf_eq node with two | three <;> omega
      exact enough rest node fun child => ih rest fewer child

end Calls

section Evaluation

variable {promise : Prop}

/-- What evaluating does to a machine: memory keeps its invariant, and nothing is counted, read or
put out. -/
structure Probes (promise : Prop) (before after : Machine) : Prop where
  memory : after.context.memory.Sound promise
  steps : after.context.steps = before.context.steps
  input : after.input = before.input
  output : after.output = before.output

theorem Probes.refl {machine : Machine} (sound : machine.context.memory.Sound promise) :
    Probes promise machine machine :=
  ⟨sound, rfl, rfl, rfl⟩

theorem Probes.trans {before between after : Machine} (first : Probes promise before between)
    (second : Probes promise between after) : Probes promise before after :=
  ⟨second.memory, second.steps.trans first.steps, second.input.trans first.input,
    second.output.trans first.output⟩

theorem Probes.traced {before after : Machine} (probes : Probes promise before after)
    (trace : Trace) : Probes promise before { after with trace } :=
  ⟨probes.memory, probes.steps, probes.input, probes.output⟩

/-- An evaluation whose outcome is fair. -/
def Evaluates (promise : Prop) (action : Action Value) (machine : Machine) : Prop :=
  action.Ensures machine
    (fun value after => Probes promise machine after ∧ value.Fair promise)
    (fun _ after => Probes promise machine after)

theorem Evaluates.of_ok {action : Action Value} {value : Value} {machine after : Machine}
    (done : action machine = .ok value after) (probes : Probes promise machine after)
    (fair : value.Fair promise) : Evaluates promise action machine :=
  Ensures.of_ok done ⟨probes, fair⟩

theorem Evaluates.of_error {action : Action Value} {fault : Fault} {machine after : Machine}
    (failed : action machine = .error fault after) (probes : Probes promise machine after) :
    Evaluates promise action machine :=
  Ensures.of_error failed probes

theorem Evaluates.bind {action : Action Value} {next : Value → Action Value} {machine : Machine}
    (first : Evaluates promise action machine)
    (continues : ∀ value between, between.context.memory.Sound promise → value.Fair promise →
      Evaluates promise (next value) between) : Evaluates promise (action >>= next) machine := by
  refine Ensures.bind first fun value between _ kept => ?_
  exact (continues value between kept.1.memory kept.2).mono
    (fun _ _ later => ⟨kept.1.trans later.1, later.2⟩) (fun _ _ later => kept.1.trans later)

theorem load_ensures (n : Int) {machine : Machine}
    (sound : machine.context.memory.Sound promise) :
    (load (.int n)).Ensures machine
      (fun value after => Probes promise machine after ∧ value.Fair promise)
      (fun fault after => after = machine ∧ fault = .invalidAddress (.int n) ∧ n < -1) := by
  cases read : machine.context.memory.read (.int n) with
  | ok entry =>
    obtain ⟨value, memory⟩ := entry
    obtain ⟨kept, fair⟩ := sound.of_read read
    have done : load (.int n) machine = .ok value { machine with context.memory := memory } := by
      unfold load
      rw [read]
    exact .of_ok done ⟨⟨kept, rfl, rfl, rfl⟩, fair⟩
  | error fault =>
    have failed : load (.int n) machine = .error fault machine := by
      unfold load
      rw [read]
    exact .of_error failed ⟨rfl, Memory.fault_of_read read⟩

theorem nandValue_ensures (options : Options) {left right : Value} {machine : Machine}
    (sound : machine.context.memory.Sound promise) (first : left.Fair promise)
    (second : right.Fair promise) :
    Evaluates promise (nandValue options left right) machine := by
  obtain ⟨m, first⟩ := first.whole
  obtain ⟨n, second⟩ := second.whole
  have run := nandValue_int options first second machine
  split at run
  · exact .of_error run (.refl sound)
  · exact .of_ok run (.refl sound) (Value.fair_bit _)

theorem addressValue_ensures (options : Options) {value : Value} {machine : Machine}
    (sound : machine.context.memory.Sound promise) (fair : value.Fair promise) :
    Evaluates promise (addressValue options value) machine := by
  obtain ⟨n, whole⟩ := fair.whole
  have run := addressValue_int options whole machine
  split at run
  · exact .of_error run (.refl sound)
  · split at run
    · exact .of_error run (.refl sound)
    · split at run
      · exact .of_error run (.refl sound)
      · next natural =>
        obtain ⟨m, rfl⟩ := Int.eq_ofNat_of_zero_le (Int.not_lt.mp natural)
        exact .of_ok run (.refl sound) (Value.fair_address m)

theorem follow_ensures (options : Options) (operator : Dereference) {value : Value}
    {machine : Machine} (sound : machine.context.memory.Sound promise)
    (fair : value.Fair promise) :
    Evaluates promise (follow options operator value) machine := by
  obtain ⟨n, whole⟩ := fair.whole
  have run := follow_int options operator whole machine
  have loads := load_ensures (n + operator.offset) sound
  split at run
  · exact .of_error run (.refl sound)
  · split at run
    · exact .of_error run (.refl sound)
    · split at run
      · next content after read =>
        obtain ⟨probes, content⟩ := loads.ok read
        split at run
        · exact .of_error run probes
        · exact .of_ok run probes content
      · next fault after failed =>
        obtain ⟨rfl, -⟩ := loads.error failed
        exact .of_error run (.refl sound)

theorem variableValue_ensures (n : Int) {machine : Machine}
    (sound : machine.context.memory.Sound promise) :
    Evaluates promise (variableValue (.int n)) machine := by
  have run := variableValue_int n machine
  split at run
  · cases read : load (.int n) machine with
    | ok value after =>
      obtain ⟨probes, fair⟩ := (load_ensures n sound).ok read
      exact .of_ok (run.trans read) probes fair
    | error fault after =>
      obtain ⟨rfl, -⟩ := (load_ensures n sound).error read
      exact .of_error (run.trans read) (.refl sound)
  · exact .of_error run (.refl sound)

theorem evaluateOver_nand (options : Options) (evaluate : Node → Action Value) (left right : Node) :
    evaluateOver options evaluate (.nand left right) =
      if right.isAbsent then evaluate left
      else evaluate left >>= fun first => evaluate right >>= nandValue options first := by
  cases right <;> rfl

theorem evaluateOver_addressOf (options : Options) (evaluate : Node → Action Value) (child : Node) :
    evaluateOver options evaluate (.addressOf child) =
      if !options.magnitudeGuards && isRegister child then throw .addressOfRegister
      else evaluate child >>= addressValue options := by
  rw [evaluateOver]
  cases !options.magnitudeGuards && isRegister child with
  | true => rfl
  | false => rfl

theorem evaluateOver_ensures {options : Options} {evaluate : Node → Action Value} {node : Node}
    {machine : Machine} (integral : node.Integral)
    (parts : ∀ (child : Node) (before : Machine), child.Integral →
      before.context.memory.Sound promise → Evaluates promise (evaluate child) before)
    (sound : machine.context.memory.Sound promise) :
    Evaluates promise (evaluateOver options evaluate node) machine := by
  cases node with
  | constant magnitude =>
    rw [Node.Integral] at integral
    obtain ⟨n, rfl⟩ := integral
    exact .of_ok rfl (.refl sound) (Value.fair_undefined n)
  | «variable» address =>
    rw [Node.Integral] at integral
    obtain ⟨n, rfl⟩ := integral
    exact variableValue_ensures n sound
  | nand left right =>
    rw [Node.Integral] at integral
    rw [evaluateOver_nand]
    split
    · exact parts left machine integral.1 sound
    · refine (parts left machine integral.1 sound).bind fun first between kept fair => ?_
      refine (parts right between integral.2 kept).bind fun second after kept other => ?_
      exact nandValue_ensures options kept fair other
  | addressOf child =>
    rw [Node.Integral] at integral
    rw [evaluateOver_addressOf]
    split
    · exact .of_error rfl (.refl sound)
    · exact (parts child machine integral sound).bind fun _ _ kept fair =>
        addressValue_ensures options kept fair
  | valueBeyond child =>
    rw [Node.Integral] at integral
    exact (parts child machine integral sound).bind fun _ _ kept fair =>
      follow_ensures options .valueBeyond kept fair
  | valueAt child =>
    rw [Node.Integral] at integral
    exact (parts child machine integral sound).bind fun _ _ kept fair =>
      follow_ensures options .valueAt kept fair
  | _ => exact .of_error rfl (.refl sound)

theorem remark_ensures (options : Options) (node : Node) {value : Value} {machine : Machine}
    (sound : machine.context.memory.Sound promise) (fair : value.Fair promise) :
    Evaluates promise (remark options node value) machine := by
  rcases remark_run options node value machine with ⟨trace, done⟩ | failed
  · exact .of_ok done ((Probes.refl sound).traced trace) fair
  · exact .of_error failed (.refl sound)

/-- Evaluating any expression with whole numbers keeps the invariant and gives a fair value. -/
theorem evaluateWithin_ensures {options : Options} (frames : Nat) {node : Node} {machine : Machine}
    (integral : node.Integral) (sound : machine.context.memory.Sound promise) :
    Evaluates promise (evaluateWithin options frames node) machine := by
  induction frames, node using frames_induction generalizing machine with
  | short frames node short =>
    rw [evaluateWithin_of_lt short]
    exact .of_error rfl (.refl sound)
  | enough rest node ih =>
    rw [evaluateWithin_add]
    have inner : Evaluates promise (evaluateOver options (evaluateWithin options rest) node)
        machine := evaluateOver_ensures integral (fun child _ integral kept => ih child integral kept)
      sound
    exact inner.bind fun value between kept fair => remark_ensures options node kept fair

end Evaluation

end Action

end BitMachine
