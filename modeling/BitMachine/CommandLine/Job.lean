import BitMachine.CommandLine.Folder
import BitMachine.CommandLine.Usage
import BitMachine.Json.Parser
import BitMachine.Json.Printer
import BitMachine.Session

/-! The command line as a function of its arguments, the files it finds and the text it is given. -/

set_option autoImplicit false

namespace BitMachine.CommandLine

/-- A defect that ends the program without a message for the user. -/
inductive Crash where
  | unreadableGraph (defect : Json.Defect)
  | folderInPlaceOfFile
  | overlongPath
  /-- A graph holds a number that is too long to be written. -/
  | unwritableGraph
  | failure (failure : Failure)
deriving DecidableEq, Repr

inductive Ending where
  | exit (code : Nat)
  | crash (cause : Crash)
deriving DecidableEq, Repr

/-- What the program leaves behind: what it said, the files it wrote and how it ended. -/
structure Report where
  ending : Ending := .exit 0
  stdout : String := ""
  stderr : String := ""
  written : List (Path × String) := []

/-- Where the program runs: what stands at a path, and the text on standard input. -/
structure Surroundings where
  entry : Path → Entry
  stdin : String := ""

/-- A run that is ready to begin. There is no program if the graph that was loaded is none. -/
structure Job where
  options : Options
  program : Option Program
  machine : Machine

/-- Either the end, or a run that is still to be made. -/
inductive Plan where
  | done (report : Report)
  | run (job : Job)

namespace Report

def usage (error : UsageError) : Report :=
  { ending := .exit 2, stderr := error.report }

def crash (cause : Crash) : Report :=
  { ending := .crash cause }

def notFound (path : Path) : Report :=
  { ending := .exit 1, stderr := "Error: file " ++ path.render ++ " not found\n" }

/-- What the user is told about a failure. -/
def failure (failure : Failure) : Report :=
  match failure with
  | .rejected _ diagnostic =>
    match diagnostic.summary? with
    | some summary =>
      let excerpt := diagnostic.excerpt
      { ending := .exit 1
        stderr := "ERROR: " ++ summary ++ "\n" ++
          (if excerpt == "" then "" else excerpt ++ "\n") }
    | none => crash (.failure failure)
  | .faulted fault =>
    match fault.message? with
    | some message => { ending := .exit 1, stderr := "RUNTIME ERROR: " ++ message ++ "\n" }
    | none => crash (.failure failure)
  | .malformed error =>
    match error.complaint?.bind fun (message, position) => Diagnostic.locate? message position with
    | some complaint => { ending := .exit 1, stderr := "ERROR: " ++ complaint ++ "\n" }
    | none => crash (.failure failure)

end Report

def normalText (text : String) : String :=
  String.ofList (Text.unifyBreaks text.toList)

/-- A text argument that counts as given. -/
def given? : Option String → Option String
  | some "" => none
  | value => value

namespace Surroundings

def readFile (surroundings : Surroundings) (path : Path) : Except Report String :=
  match surroundings.entry path with
  | .missing => .error (.notFound path)
  | .folder => .error (.crash .folderInPlaceOfFile)
  | .overlong => .error (.crash .overlongPath)
  | .text content => .ok (normalText content)

/-- The text of a program, a dash standing for standard input. -/
def readSource (surroundings : Surroundings) (name : String) : Except Report String :=
  if name == "-" then .ok (normalText surroundings.stdin)
  else surroundings.readFile (.ofString name)

end Surroundings

namespace Request

def options (request : Request) : Options where
  indirectGoto := request.indirectGoto
  magnitudeGuards := request.magnitudeGuards
  stepLimit := request.stepLimit
  verbosity := request.verbosity

def frontEnd (request : Request) : FrontEnd :=
  if request.bottomUp then .automaton else .descent

def parse (request : Request) (source : String) : Except Report Program :=
  (request.frontEnd.parse source).mapError fun diagnostic =>
    .failure (.rejected request.frontEnd diagnostic)

/-- Writes the graph of a program beside its text, as far as it can be written. -/
def emit (request : Request) (surroundings : Surroundings) (name : String) :
    Except Report Report := do
  let program ← request.parse (← surroundings.readSource name)
  let path := (Path.ofString name).extend ".ast.json"
  match surroundings.entry path with
  | .folder => throw (.crash .folderInPlaceOfFile)
  | .overlong => throw (.crash .overlongPath)
  | _ =>
    let draft := program.toNode.toJson.pretty 0
    let written := [(path, draft.text)]
    if draft.complete then return { stdout := path.render ++ "\n", written }
    else throw { ending := .crash .unwritableGraph, written }

/-- How much of a graph is read. -/
def graphLimits : Json.Limits where
  depth := 985
  digits := Text.numeralLimit

def loadGraph (surroundings : Surroundings) (name : String) : Except Report (Option Program) := do
  match Json.parse graphLimits (← surroundings.readFile (.ofString name)) with
  | .error defect => throw (.crash (.unreadableGraph defect))
  | .ok value => return (← (Node.load value).mapError .failure).toProgram?

def loadProgram (request : Request) (surroundings : Surroundings) :
    Except Report (Option Program) :=
  match given? request.graph, given? request.program with
  | some name, _ => loadGraph surroundings name
  | none, some name => do return some (← request.parse (← surroundings.readSource name))
  | none, none => .error (.usage .missingProgram)

/-- The input of the program. A text read from standard input leaves nothing there. -/
def prepareInput (request : Request) (surroundings : Surroundings) : Except Report Input :=
  match request.input with
  | some text => (Input.ofString text).mapError fun fault => .failure (.faulted fault)
  | none =>
    let used := (given? request.graph).isNone && given? request.program == some "-"
    .ok (.ofConsole (if used then "" else surroundings.stdin))

def prepare (request : Request) (surroundings : Surroundings) : Except Report Job := do
  let program ← request.loadProgram surroundings
  let input ← request.prepareInput surroundings
  let style := if request.characters then OutputStyle.characters else .digits
  return { options := request.options, program, machine := { input, output := { style } } }

end Request

def tracePath : Path := .ofString "debug.txt"

namespace Job

/-- The report on a run. A run that halts ends its output with a line feed. -/
def report (result : Option Fault) (machine : Machine) : Report :=
  let base : Report := match result with
    | none => { stdout := "\n" }
    | some fault => .failure (.faulted fault)
  { base with
    stdout := machine.output.text ++ base.stdout
    written := machine.trace.text?.toList.map (tracePath, ·) }

def perform (job : Job) (surroundings : Surroundings) : Report :=
  if job.options.verbosity ≠ 0 && surroundings.entry tracePath == .folder then
    .crash .folderInPlaceOfFile
  else match Action.runLoaded job.options job.program job.machine with
    | .ok _ machine => report none machine
    | .error fault machine => report (some fault) machine

end Job

/-- The name of the text that arguments ask to read; a dash stands for standard input if the text is
a program's. -/
def sourceName? (arguments : List String) : Option String :=
  match readArguments arguments with
  | .ok request => given? request.emitGraph <|> given? request.graph <|> given? request.program
  | .error _ => none

/-- What arguments lead to, up to the run they ask for. -/
def plan (surroundings : Surroundings) (arguments : List String) : Plan :=
  match readArguments arguments with
  | .error .help => .done { stdout := helpText }
  | .error (.usage error) => .done (.usage error)
  | .ok request =>
    match given? request.emitGraph with
    | some name =>
      match request.emit surroundings name with
      | .ok report => .done report
      | .error report => .done report
    | none =>
      match request.prepare surroundings with
      | .ok job => .run job
      | .error report => .done report

/-- The program as a whole. -/
def execute (surroundings : Surroundings) (arguments : List String) : Report :=
  match plan surroundings arguments with
  | .done report => report
  | .run job => job.perform surroundings

end BitMachine.CommandLine
