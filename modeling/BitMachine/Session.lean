import BitMachine.Failure
import BitMachine.Grammar.FrontEnd
import BitMachine.Machine.Run

/-! Sessions: programs are loaded, and run or probed piece by piece, on one machine. -/

set_option autoImplicit false

namespace BitMachine

/-- A machine and the program it holds. -/
structure Session where
  options : Options
  machine : Machine
  program : Option Program := none

namespace Session

inductive Call where
  | load (frontEnd : FrontEnd) (source : String)
  | loadGraph (graph : Json)
  /-- Starts over with a fresh context. -/
  | refresh
  /-- Runs the program on the current context. -/
  | run
  /-- Runs the program on a fresh context, which becomes the current one. -/
  | runFresh
  | store (address : Json) (value : Value)
  | evaluate (node : Json)
  | execute (node : Json)
  /-- Finds the line after a line. -/
  | successor (line : Json)

inductive Reply where
  | nothing
  | lineNumbers (numbers : List Json)
  | steps (count : Nat)
  | value (value : Value)
  | lineNumber (number : Json)

/-- What a call gives, and the session after it. -/
abbrev Answer := Except Failure Reply × Session

/-- Takes over a program that was loaded; one that was not leaves the old one in place. -/
def adopt (session : Session) : Except Failure Program → Answer
  | .ok program => (.ok (.lineNumbers program.lineNumbers), { session with program := some program })
  | .error failure => (.error failure, session)

def programOfJson (graph : Json) : Except Failure Program := do
  match (← Node.load graph).toProgram? with
  | some program => return program
  | none => throw (.malformed .notAnObject)

def perform {α : Type} (session : Session) (reply : α → Machine → Reply) (action : Action α) :
    Answer :=
  match action session.machine with
  | .ok result machine => (.ok (reply result machine), { session with machine })
  | .error fault machine => (.error (.faulted fault), { session with machine })

/-- Puts what was traced outside a run on standard output, behind the prompt of a reading but before
a bit that is printed. -/
def showTrace (session : Session) (asks : Bool) : Session :=
  let { trace, output, .. } := session.machine
  let shown := Event.renderAll trace.shown.toList
  { session with
    machine := { session.machine with
      trace := { trace with shown := #[] }
      output := { output with
        text := if asks then output.text ++ shown else shown ++ output.text } } }

/-- Performs an action outside a run. -/
def probe {α : Type} (session : Session) (reply : α → Reply) (action : Action α)
    (asks : Bool := false) : Answer :=
  let (result, after) := session.perform (fun value _ => reply value) action
  (result, after.showTrace asks)

def withContext (session : Session) (context : Context) : Session :=
  { session with machine := { session.machine with context } }

def run (session : Session) : Answer :=
  session.perform (fun _ machine => .steps machine.context.steps)
    (Action.runLoaded session.options session.program)

/-- Runs the program on a fresh context. If the run fails the context is fresh again. -/
def runFresh (session : Session) : Answer :=
  match (session.withContext {}).run with
  | (.ok reply, after) => (.ok reply, after)
  | (.error failure, after) => (.error failure, after.withContext {})

/-- Makes a call on a session whose output is empty. -/
def dispatch (session : Session) : Call → Answer
  | .load frontEnd source => session.adopt ((frontEnd.parse source).mapError (.rejected frontEnd))
  | .loadGraph graph => session.adopt (programOfJson graph)
  | .refresh => (.ok .nothing, session.withContext {})
  | .run => session.run
  | .runFresh => session.runFresh
  | .store address value =>
    match session.machine.context.memory.write address value with
    | .ok memory =>
      (.ok .nothing, session.withContext { session.machine.context with memory })
    | .error fault => (.error (.faulted fault), session)
  | .evaluate node =>
    match Node.load node with
    | .ok expression => session.probe .value (Action.evaluate session.options expression)
    | .error failure => (.error failure, session)
  | .execute node =>
    match Node.load node with
    | .ok instruction =>
      session.probe (fun _ => .nothing) (Action.execute session.options instruction)
        instruction.isRead
    | .error failure => (.error failure, session)
  | .successor node =>
    match Node.load node with
    | .ok (.line line) => session.probe .lineNumber (Action.successor session.options line)
    | .ok _ => (.error (.malformed .notAnObject), session)
    | .error failure => (.error failure, session)

/-- Makes a call. The output of the session after it is what the call put out. -/
def call (session : Session) (request : Call) : Answer :=
  let drained := { session.machine with output := session.machine.output.drain }
  { session with machine := drained }.dispatch request

end Session

/-- The result of reading and running a text. -/
structure Outcome where
  output : List Json
  text : String
  result : Except Failure Context

/-- Reads a text and runs it on a fresh context, its bits collected. -/
def runProgram (options : Options) (input : Input) (source : String) : Outcome :=
  match FrontEnd.descent.parse source with
  | .error diagnostic => ⟨[], "", .error (.rejected .descent diagnostic)⟩
  | .ok program =>
    match Action.run options program { input } with
    | .ok _ machine => ⟨machine.output.bits.toList, machine.output.text, .ok machine.context⟩
    | .error fault machine =>
      ⟨machine.output.bits.toList, machine.output.text, .error (.faulted fault)⟩

end BitMachine
