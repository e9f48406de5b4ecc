import BitMachine.CommandLine.Job

/-! The program: reads what its arguments name, and carries out the report. A run is shown line by
line, and asks for input only when a line reads. -/

set_option autoImplicit false

open BitMachine CommandLine

namespace BitMachine.CommandLine

def entryAt (name : String) : IO Entry := do
  try
    return .text (← IO.FS.readFile name)
  catch
    | .noFileOrDirectory .. => return .missing
    | _ => return .folder

/-- All that is left on standard input. -/
partial def readRest (stream : IO.FS.Stream) (before : String) : IO String := do
  let line ← stream.getLine
  if line.isEmpty then return before else readRest stream (before ++ line)

/-- Where the program runs, as far as its arguments look at it. -/
def survey (arguments : List String) : IO Surroundings := do
  match sourceName? arguments with
  | none => return { entry := fun _ => .missing }
  | some "-" =>
    let stdin ← readRest (← IO.getStdin) ""
    return { entry := fun _ => .missing, stdin }
  | some name =>
    let entry ← entryAt name
    return { entry := fun path => if path == .ofString name then entry else .missing }

/-- Fetches a line from the console if the next instruction reads and none is waiting. -/
def fetch (line : Line) (machine : Machine) : IO Machine := do
  match line.instruction, machine.input with
  | .read, .console prompt [] =>
    let text ← (← IO.getStdin).getLine
    return { machine with input := .console prompt (Text.lines text) }
  | _, _ => return machine

/-- Runs a program from a line on, and shows what each line puts out. -/
partial def showRun (job : Job) (program : Program) (line : Line) (machine : Machine) :
    IO Report := do
  let ready ← fetch line machine
  match Action.located (Action.runFrom job.options program 1 line) ready with
  | .ok none after => return Job.report none after
  | .error fault after => return Job.report (some fault) after
  | .ok (some next) after =>
    if !after.output.text.isEmpty then
      let stdout ← IO.getStdout
      stdout.putStr after.output.text
      stdout.flush
    showRun job program next { after with output := after.output.drain }

def showJob (job : Job) (surroundings : Surroundings) : IO Report := do
  match job.program.bind fun program => program.entry?.map (program, ·) with
  | some (program, line) =>
    let trace := if job.options.verbosity = 0 then job.machine.trace else job.machine.trace.start
    showRun job program line { job.machine with trace }
  | none => return job.perform surroundings

def deliver (report : Report) : IO UInt32 := do
  for (path, content) in report.written do
    IO.FS.writeFile path.render content
  IO.print report.stdout
  IO.eprint report.stderr
  match report.ending with
  | .exit code => return code.toUInt32
  | .crash _ =>
    IO.eprintln "The program cannot be run."
    return 1

end BitMachine.CommandLine

def main (arguments : List String) : IO UInt32 := do
  let surroundings ← survey arguments
  match plan surroundings arguments with
  | .done report => deliver report
  | .run job => deliver (← showJob job surroundings)
