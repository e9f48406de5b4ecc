import BitMachine.Machine.Evaluate

/-! Running programs, line by line. -/

set_option autoImplicit false

namespace BitMachine

namespace Action

def placeOf (options : Options) (node : Node) : Action Json := do
  let value ← evaluate options node
  if !options.magnitudeGuards && !value.isAddress then throw .targetNotAddress
  return value.magnitude

def execute (options : Options) : Node → Action Unit
  | .print bit => do
    record options (.print bit)
    emit bit
  | .read => do
    let bit ← request
    if !isLegalBit bit then throw .invalidInput
    record options (.read bit)
    store options registerAddress (.bit bit)
  | .assignment address .absent source => do
    let value ← evaluate options source
    store options address value
  | .assignment _ place source => do
    let value ← evaluate options source
    let address ← placeOf options place
    store options address value
  | node => throw (.cannotExecute node.kindName)

/-- The line number that a target leads to. -/
def resolve (options : Options) : Node → Action Json
  | .target number indirect => do
    if indirect.truth && options.indirectGoto then
      return (← load number).magnitude
    return number
  | _ => throw .missingTarget

/-- The number of the line after a line, or null if the program halts there. -/
def successor (options : Options) (line : Line) : Action Json := do
  match line.branch with
  | .absent => return .null
  | .unconditional goal => resolve options goal
  | .conditional ifZero ifOne =>
    let register := (← get).context.memory.register
    if register.is 0 && !ifZero.isAbsent then resolve options ifZero
    else if register.is 1 && !ifOne.isAbsent then resolve options ifOne
    else return .null
  | node => throw (.cannotBranch node.kindName)

/-- Counts a line that is about to be executed, and stops if it is one too many. -/
def enter (options : Options) (line : Line) : Action Unit := do
  modify fun machine => { machine with context.steps := machine.context.steps + 1 }
  if let some limit := options.stepLimit then
    if ← needed (limit.below? (← get).context.steps) then throw (.stepLimit limit)
  modify fun machine => { machine with context.line := line.number }
  record options (.line line.number)

/-- Executes a line and finds the one after it. -/
def step (options : Options) (program : Program) (line : Line) : Action (Option Line) := do
  enter options line
  execute options line.instruction
  match ← successor options line with
  | .null =>
    record options (.halt line.number)
    return none
  | number =>
    if !number.isKey then throw .unsuitable
    match program.line? number with
    | none => throw (.missingLine number)
    | some next =>
      record options (.goto number)
      return some next

/-- Executes at most `fuel` lines, the given one first. If the program has not halted by then, the
result is the line to go on with. -/
def runFrom (options : Options) (program : Program) : Nat → Line → Action (Option Line)
  | 0, line => return some line
  | fuel + 1, line => do
    match ← step options program line with
    | none => return none
    | some next => runFrom options program fuel next

end Action

namespace Fault

/-- The fault of a run, which knows the line it was in. -/
def within (line : Json) : Fault → Fault
  | .nestedTooDeeply none => .nestedTooDeeply (some line)
  | fault => fault

end Fault

namespace Action

/-- Names the current line in the faults of an action. -/
def located {α : Type} (action : Action α) : Action α := fun machine =>
  match action machine with
  | .ok result after => .ok result after
  | .error fault after => .error (fault.within after.context.line) after

/-- Runs a program from its first line for at most `fuel` lines, wherever traces go by then. -/
def runFor (options : Options) (fuel : Nat) (program : Program) : Action (Option Line) :=
  match program.entry? with
  | none => throw .missingProgram
  | some line => located (runFrom options program fuel line)

/-- Runs a program until it halts, or until patience runs out, and traces it to the file. -/
def run (options : Options) (program : Program) : Action Unit := traced options do
  match ← runFor options options.patience program with
  | none => return ()
  | some _ => throw .unfinished

/-- Runs what was loaded. Without a program the run fails as soon as it has begun. -/
def runLoaded (options : Options) : Option Program → Action Unit
  | some program => run options program
  | none => traced options (throw .missingProgram)

end Action

end BitMachine
