import BitMachine.Memory
import BitMachine.Graph.Basic
import BitMachine.Machine.Input
import BitMachine.Machine.Output
import BitMachine.Machine.Trace

/-! The machine that runs program graphs: its options, its state and its actions. -/

set_option autoImplicit false

namespace BitMachine

structure Options where
  /-- Whether a marked target is looked up in memory. -/
  indirectGoto : Bool := false
  /-- Whether operators tell bits from addresses by magnitude and not by kind. -/
  magnitudeGuards : Bool := false
  /-- How many lines may be executed. -/
  stepLimit : Option Json := none
  /-- How much is traced. -/
  verbosity : Nat := 0
  /-- How many calls may be under way inside one another when an expression is evaluated. Where
  exactly a stack ends depends on what stands on it already; one number stands for that here. -/
  frames : Nat := 990
  /-- After how many lines a run that goes on is given up. The default is out of reach. -/
  patience : Nat := 4611686018427387904
deriving DecidableEq, Repr

/-- What one run hands to the next: memory, the number of lines executed and the number of the latest
one, which is null before the first. -/
structure Context where
  memory : Memory := {}
  steps : Nat := 0
  line : Json := .null

structure Machine where
  context : Context := {}
  input : Input
  output : Output := {}
  trace : Trace := {}

/-- Something a machine does. A fault leaves the machine as it was when the fault arose. -/
abbrev Action := EStateM Fault Machine

namespace Action

/-- Records an event if it is to be traced. What is traced has to be written. -/
def record (options : Options) (event : Event) : Action Unit := fun machine =>
  if event.level ≤ options.verbosity then
    if event.render?.isSome then .ok () { machine with trace := machine.trace.add event }
    else .error .unwritable machine
  else .ok () machine

/-- Performs an action while the trace file is open, if there is to be a trace. However the action
ends, the file is closed. -/
def traced {α : Type} (options : Options) (action : Action α) : Action α := fun machine =>
  let trace := if options.verbosity = 0 then machine.trace else machine.trace.start
  match action { machine with trace } with
  | .ok result after => .ok result { after with trace := after.trace.close }
  | .error fault after => .error fault { after with trace := after.trace.close }

def load (address : Json) : Action Value := fun machine =>
  match machine.context.memory.read address with
  | .ok (value, memory) => .ok value { machine with context.memory := memory }
  | .error fault => .error fault machine

def store (options : Options) (address : Json) (value : Value) : Action Unit := do
  record options (.write address value)
  let machine ← get
  match machine.context.memory.write address value with
  | .ok memory => set { machine with context.memory := memory }
  | .error fault => throw fault

def emit (bit : Json) : Action Unit := fun machine =>
  match machine.output.write bit with
  | (none, output) => .ok () { machine with output }
  | (some fault, output) => .error fault { machine with output }

def request : Action Json := fun machine =>
  let asked := { machine with output := machine.output.say machine.input.prompt }
  match machine.input.next with
  | (.ok bit, input) => .ok bit { asked with input }
  | (.error fault, input) => .error fault { asked with input }

end Action

end BitMachine
