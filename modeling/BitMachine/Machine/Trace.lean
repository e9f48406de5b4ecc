import BitMachine.Value

/-! The trace of a run: what happened, at three levels of detail, in a file that runs open and close. -/

set_option autoImplicit false

namespace BitMachine

inductive Event where
  | line (number : Json)
  | goto (number : Json)
  | halt (number : Json)
  | print (bit : Json)
  | read (bit : Json)
  | write (address : Json) (value : Value)
  | evaluate (node : String) (value : Value)
deriving DecidableEq, Repr

namespace Event

/-- The verbosity from which on an event is recorded: 1 for lines, 2 for what they do, 3 for how
their expressions come about. -/
def level : Event → Nat
  | .line _ | .goto _ | .halt _ => 1
  | .print _ | .read _ | .write _ _ => 2
  | .evaluate _ _ => 3

/-- An event as a line of text, unless a number in it is too long to be written. -/
def render? : Event → Option String
  | .line number => number.display?.map ("line " ++ ·)
  | .goto number => number.display?.map ("goto " ++ ·)
  | .halt number => number.display?.map ("halt after line " ++ ·)
  | .print bit => bit.display?.map ("print " ++ ·)
  | .read bit => bit.display?.map ("read " ++ ·)
  | .write address value => do return "write " ++ (← address.display?) ++ " <- " ++ (← value.render?)
  | .evaluate node value => value.render?.map ("eval " ++ node ++ " -> " ++ ·)

/-- Events as text, a line each. -/
def renderAll (events : List Event) : String :=
  String.join ((events.filterMap render?).map (· ++ "\n"))

end Event

/-- Where events are recorded: in a file while it is open, and else on standard output. -/
structure Trace where
  /-- What the file held before the events, if there is a file. -/
  earlier : Option String := none
  filed : Array Event := #[]
  shown : Array Event := #[]
  isOpen : Bool := false
  /-- Whether the file is continued when it is opened, and not begun anew. -/
  appends : Bool := false
deriving DecidableEq, Repr

namespace Trace

def add (trace : Trace) (event : Event) : Trace :=
  if trace.isOpen then { trace with filed := trace.filed.push event }
  else { trace with shown := trace.shown.push event }

/-- Opens the file: the first time it is begun anew, and from then on continued. -/
def start (trace : Trace) : Trace :=
  if trace.appends then { trace with earlier := some (trace.earlier.getD ""), isOpen := true }
  else { trace with earlier := some "", filed := #[], isOpen := true, appends := true }

def close (trace : Trace) : Trace :=
  { trace with isOpen := false }

/-- The text of the file, if there is one. -/
def text? (trace : Trace) : Option String :=
  trace.earlier.map (· ++ Event.renderAll trace.filed.toList)

end Trace

end BitMachine
