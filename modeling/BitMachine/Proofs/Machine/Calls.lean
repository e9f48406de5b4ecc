import BitMachine.Proofs.Grammar.Interchange
import BitMachine.Proofs.Machine.Preservation

/-! Memory over a sequence of calls on one context. Programs are run and probed, and memory is read
and written directly; calls that fail leave behind what they did up to then. -/

set_option autoImplicit false

namespace BitMachine

/-- What can be asked for on a context. -/
inductive Request where
  | run (program : Program)
  | execute (instruction : Node)
  | evaluate (expression : Node)
  /-- Finds the line after a line. -/
  | successor (line : Line)
  /-- Reads memory directly. -/
  | read (address : Int)
  /-- Writes memory directly. -/
  | write (address : Int) (magnitude : Int) (kind : Kind)

/-- A request with what it runs under. Each call may bring other options, input and output. -/
structure ContextCall where
  options : Options := {}
  input : Input := .prepared []
  output : Output := {}
  request : Request

namespace ContextCall

/-- The context after an action, whether it succeeded or failed. -/
def contextAfter {α : Type} : EStateM.Result Fault Machine α → Context
  | .ok _ after => after.context
  | .error _ after => after.context

/-- The context after a call. -/
def perform (context : Context) (call : ContextCall) : Context :=
  let machine : Machine := { context, input := call.input, output := call.output }
  match call.request with
  | .run program => contextAfter (Action.run call.options program machine)
  | .execute instruction => contextAfter (Action.execute call.options instruction machine)
  | .evaluate expression => contextAfter (Action.evaluate call.options expression machine)
  | .successor line => contextAfter (Action.successor call.options line machine)
  | .read address =>
    match context.memory.read (.int address) with
    | .ok (_, memory) => { context with memory }
    | .error _ => context
  | .write address magnitude kind =>
    match context.memory.write (.int address) ⟨.int magnitude, kind⟩ with
    | .ok memory => { context with memory }
    | .error _ => context

/-- A call on a graph that was read from a text or has whole numbers where numbers belong. The bits
that are read are whole numbers too. -/
structure Admissible (call : ContextCall) : Prop where
  input : call.input.Whole
  graph : match call.request with
    | .run program =>
      (∃ (frontEnd : FrontEnd) (source : String), frontEnd.parse source = .ok program) ∨
        program.toNode.Integral
    | .execute instruction => instruction.Integral
    | .evaluate expression => expression.Integral
    | .successor line => (Node.line line).Integral
    | .read _ | .write _ _ _ => True

/-- Whether a call directly stores an address value of negative magnitude in a cell. -/
def StoresNegativeAddress (call : ContextCall) : Prop :=
  ∃ address magnitude : Int,
    call.request = .write address magnitude .address ∧ 0 ≤ address ∧ magnitude < 0

end ContextCall

/-- What either front end accepts is complete. -/
theorem FrontEnd.complete_of_parse {frontEnd : FrontEnd} {source : String} {program : Program}
    (parsed : frontEnd.parse source = .ok program) : program.Complete := by
  obtain ⟨derived, -, -, rfl⟩ := read_sound (parse_eq_ok.mp parsed)
  exact derived.complete _

namespace ContextCall

variable {promise : Prop} {context : Context} {call : ContextCall}

theorem sound_contextAfter {α : Type} {action : Action α} {machine : Machine}
    (keeps : Action.Keeps promise action machine) :
    (contextAfter (action machine)).memory.Sound promise := by
  cases ran : action machine with
  | ok value after => exact (Action.Ensures.ok keeps ran).memory
  | error fault after => exact (Action.Ensures.error keeps ran).memory

theorem sound_read (sound : context.memory.Sound promise) (address : Int) :
    (match context.memory.read (.int address) with
      | .ok (_, memory) => { context with memory }
      | .error _ => context : Context).memory.Sound promise := by
  split
  · next read => exact (sound.of_read read).1
  · exact sound

/-- A direct write of a value that is not fair fails where there is no cell. -/
theorem sound_write (sound : context.memory.Sound promise) {address magnitude : Int} {kind : Kind}
    (kept : promise → ¬(kind = .address ∧ 0 ≤ address ∧ magnitude < 0)) :
    (match context.memory.write (.int address) ⟨.int magnitude, kind⟩ with
      | .ok memory => { context with memory }
      | .error _ => context : Context).memory.Sound promise := by
  split
  · next memory written =>
    have fair : (⟨.int magnitude, kind⟩ : Value).Fair promise := by
      refine ⟨⟨magnitude, rfl⟩, fun holds pointer => ?_⟩
      have pointer : kind = .address := pointer
      subst pointer
      have place : 0 ≤ address := by
        rcases Int.lt_or_le address 0 with below | above
        · exfalso
          rw [Memory.write_int context.memory address rfl] at written
          split at written
          · cases written
          · rw [if_neg (by omega)] at written
            cases written
        · exact above
      have natural : 0 ≤ magnitude := by
        rcases Int.lt_or_le magnitude 0 with negative | natural
        · exact absurd ⟨rfl, place, negative⟩ (kept holds)
        · exact natural
      obtain ⟨n, rfl⟩ := Int.eq_ofNat_of_zero_le natural
      exact ⟨n, rfl⟩
    exact sound.of_write fair written
  · exact sound

/-- A call keeps the invariant, unless it breaks the promise itself. -/
theorem sound_perform (admissible : call.Admissible) (kept : promise → ¬call.StoresNegativeAddress)
    (sound : context.memory.Sound promise) : (perform context call).memory.Sound promise := by
  obtain ⟨options, input, output, request⟩ := call
  obtain ⟨whole, graph⟩ := admissible
  have ready : Machine.Sound promise { context, input, output } := ⟨sound, whole⟩
  cases request with
  | run program =>
    have integral : program.toNode.Integral := by
      rcases graph with ⟨frontEnd, source, parsed⟩ | integral
      · exact (FrontEnd.complete_of_parse parsed).integral
      · exact integral
    rw [Program.toNode, Node.Integral] at integral
    exact sound_contextAfter (Action.run_keeps integral.2 ready)
  | execute instruction => exact sound_contextAfter (Action.execute_keeps graph ready)
  | evaluate expression =>
    have keeps : Action.Keeps promise (Action.evaluate options expression)
        { context, input, output } :=
      (Action.evaluate_ensures options graph ready.memory).mono (fun _ _ kept => kept.1.sound ready)
        (fun _ _ kept => kept.sound ready)
    exact sound_contextAfter keeps
  | successor line =>
    have integral : (Node.line line).Integral := graph
    rw [Node.Integral, Node.integralLine_iff] at integral
    exact sound_contextAfter (Action.successor_keeps integral.2.2 ready)
  | read address => exact sound_read sound address
  | write address magnitude kind =>
    refine sound_write sound fun holds => ?_
    rintro ⟨rfl, place, negative⟩
    exact kept holds ⟨address, magnitude, rfl, place, negative⟩

theorem sound_foldl {calls : List ContextCall} (admissible : ∀ call ∈ calls, call.Admissible)
    (kept : promise → ∀ call ∈ calls, ¬call.StoresNegativeAddress)
    (sound : context.memory.Sound promise) :
    (calls.foldl perform context).memory.Sound promise := by
  induction calls generalizing context with
  | nil => exact sound
  | cons call calls ih =>
    refine ih (fun other inside => admissible other (List.mem_cons_of_mem _ inside))
      (fun holds other inside => kept holds other (List.mem_cons_of_mem _ inside)) ?_
    exact sound_perform (admissible call (List.mem_cons_self ..))
      (fun holds => kept holds call (List.mem_cons_self ..)) sound

/-- Whatever is called on a fresh context: the jump register holds 0 or 1, every cell has an address
that is not negative, and a cell of kind bit holds 0 or 1. A cell of kind address holds a magnitude
that is not negative as long as no other one was stored directly. -/
theorem memory_after_calls (calls : List ContextCall)
    (admissible : ∀ call ∈ calls, call.Admissible) :
    let memory := (calls.foldl perform {}).memory
    (memory.register = .int 0 ∨ memory.register = .int 1) ∧
    (∀ entry ∈ memory.cells, ∃ n : Int, entry.1 = .int n ∧ 0 ≤ n) ∧
    (∀ entry ∈ memory.cells, entry.2.kind = .bit →
      entry.2.magnitude = .int 0 ∨ entry.2.magnitude = .int 1) ∧
    ((∀ call ∈ calls, ¬call.StoresNegativeAddress) →
      ∀ entry ∈ memory.cells, entry.2.kind = .address →
        ∃ n : Int, entry.2.magnitude = .int n ∧ 0 ≤ n) := by
  have fresh : ({} : Context).memory.Sound (∀ call ∈ calls, ¬call.StoresNegativeAddress) :=
    Memory.Sound.fresh
  have sound := sound_foldl admissible id fresh
  refine ⟨sound.register, ?_, ?_, ?_⟩
  · intro entry inside
    obtain ⟨n, place⟩ := (sound.cells entry inside).1
    exact ⟨n, place, by omega⟩
  · intro entry inside kind
    exact (sound.cells entry inside).2.bit kind
  · intro kept entry inside kind
    obtain ⟨n, magnitude⟩ := (sound.cells entry inside).2.address kept kind
    exact ⟨n, magnitude, by omega⟩

/-- A bit is written directly, and an address is computed from it and assigned. -/
def writeAndAssign : List ContextCall :=
  [{ request := .write 2 1 .bit },
    { request := .execute (.assignment (.int 0) .absent (.addressOf (.variable (.int 2)))) }]

theorem memory_after_writeAndAssign :
    (∃ entry ∈ (writeAndAssign.foldl perform {}).memory.cells, entry.2.kind = .address) ∧
      ∀ entry ∈ (writeAndAssign.foldl perform {}).memory.cells, entry.2.kind = .address →
        ∃ n : Int, entry.2.magnitude = .int n ∧ 0 ≤ n := by
  have admissible : ∀ call ∈ writeAndAssign, call.Admissible := by
    intro call inside
    rcases List.mem_cons.mp inside with rfl | last
    · exact ⟨nofun, trivial⟩
    · cases List.mem_singleton.mp last
      refine ⟨nofun, ?_⟩
      show Node.Integral _
      simp only [Node.Integral]
      exact ⟨Or.inr ⟨0, rfl⟩, trivial, 2, rfl⟩
  refine ⟨by decide +kernel, (memory_after_calls writeAndAssign admissible).2.2.2 ?_⟩
  rintro call inside ⟨address, magnitude, request, -, negative⟩
  rcases List.mem_cons.mp inside with rfl | last
  · cases request
  · cases List.mem_singleton.mp last
    cases request

end ContextCall

end BitMachine
