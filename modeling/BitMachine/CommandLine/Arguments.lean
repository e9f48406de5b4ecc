import BitMachine.Json.Basic
import BitMachine.Text.Numeral

/-! Command-line arguments: options in any order, at most one program, and `--` before words that
are not to be taken for options. -/

set_option autoImplicit false

namespace BitMachine.CommandLine

inductive Switch where
  | help
  | verbose
  | emitGraph
  | graph
  | characters
  | input
  | indirectGoto
  | magnitudeGuards
  | stepLimit
  | bottomUp
deriving DecidableEq, Repr

namespace Switch

/-- The spellings of the switches, in the order in which help and messages list them. -/
def spellings : List (String × Switch) :=
  [("-h", .help), ("--help", .help), ("-v", .verbose), ("--emit-ast", .emitGraph),
    ("--ast", .graph), ("--ascii", .characters), ("--input", .input),
    ("--indirect-goto", .indirectGoto), ("--legacy-guards", .magnitudeGuards),
    ("--max-steps", .stepLimit), ("--lark", .bottomUp)]

def name (switch : Switch) : String :=
  "/".intercalate ((spellings.filter (·.2 == switch)).map (·.1))

def takesValue : Switch → Bool
  | .emitGraph | .graph | .input | .stepLimit => true
  | _ => false

def ofSpelling? (word : String) : Option Switch :=
  spellings.lookup word

end Switch

/-- Why the arguments are refused. -/
inductive UsageError where
  | ambiguous (word : String) (candidates : List String)
  | missingValue (switch : Switch)
  | unwantedValue (switch : Switch) (value : String)
  | notAnInteger (switch : Switch) (value : String)
  | exclusive (switch other : Switch)
  | unrecognized (words : List String)
  | missingProgram
deriving DecidableEq, Repr

namespace UsageError

def about (switch : Switch) (complaint : String) : String :=
  "argument " ++ switch.name ++ ": " ++ complaint

def message : UsageError → String
  | .ambiguous word candidates =>
    "ambiguous option: " ++ word ++ " could match " ++ ", ".intercalate candidates
  | .missingValue switch => about switch "expected one argument"
  | .unwantedValue switch value => about switch ("ignored explicit argument " ++ Text.quoted value)
  | .notAnInteger switch value => about switch ("invalid int value: " ++ Text.quoted value)
  | .exclusive switch other => about switch ("not allowed with argument " ++ other.name)
  | .unrecognized words => "unrecognized arguments: " ++ " ".intercalate words
  | .missingProgram => "missing program file; or use --emit-ast/--ast"

end UsageError

structure Request where
  verbosity : Nat := 0
  emitGraph : Option String := none
  graph : Option String := none
  characters : Bool := false
  input : Option String := none
  indirectGoto : Bool := false
  magnitudeGuards : Bool := false
  stepLimit : Option Json := none
  bottomUp : Bool := false
  program : Option String := none
deriving DecidableEq, Repr

/-- Why reading the arguments stops. -/
inductive Interruption where
  | help
  | usage (error : UsageError)
deriving DecidableEq, Repr

/-- How a word is to be read. -/
inductive Token where
  | plain (word : String)
  | separator
  /-- A switch by its spelling, with the value given in the same word. -/
  | option (switch : Switch) (short : Bool) (attached : Option String)
  /-- Something that looks like a switch and is none. -/
  | unknown (word : String)
deriving DecidableEq, Repr

section Classification

/-- The parts of a text before and after its first equals sign. -/
def splitEquals : List Char → List Char × Option (List Char)
  | [] => ([], none)
  | '=' :: rest => ([], some rest)
  | c :: rest =>
    let (before, after) := splitEquals rest
    (c :: before, after)

/-- Whether a word is a dash and a number, which is no switch. A line feed may follow. -/
def looksNegative (word : List Char) : Bool :=
  let isDigit := fun c => (Text.digitValue? c).isSome
  let body := match word.reverse with
    | '\n' :: rest => rest.reverse
    | _ => word
  match body with
  | '-' :: digits =>
    match digits.dropWhile isDigit with
    | [] => !digits.isEmpty
    | '.' :: decimals => !decimals.isEmpty && decimals.all isDigit
    | _ => false
  | _ => false

/-- The readings of a word that starts with a dash as a shortened or combined switch. -/
def readings (word : String) : List (String × Token) :=
  match word.toList with
  | '-' :: '-' :: _ =>
    let (stem, value) := splitEquals word.toList
    let attached := value.map String.ofList
    (Switch.spellings.filter fun entry => stem.isPrefixOf entry.1.toList).map fun entry =>
      (entry.1, .option entry.2 (entry.1.length == 2) attached)
  | '-' :: letter :: rest =>
    Switch.spellings.filterMap fun entry =>
      if entry.1.toList == ['-', letter] then
        some (entry.1, .option entry.2 true (some (String.ofList rest)))
      else none
  | _ => []

/-- The reading of a word with an equals sign behind a full spelling. -/
def joinedReading? (word : String) : Option Token :=
  let (stem, value) := splitEquals word.toList
  match value, Switch.ofSpelling? (String.ofList stem) with
  | some text, some switch =>
    some (.option switch (stem.length == 2) (some (String.ofList text)))
  | _, _ => none

def classify (word : String) : Except UsageError Token :=
  match word.toList with
  | '-' :: _ :: _ =>
    match Switch.ofSpelling? word, joinedReading? word, readings word with
    | some switch, _, _ => .ok (.option switch (word.length == 2) none)
    | none, some token, _ => .ok token
    | none, none, [(_, token)] => .ok token
    | none, none, [] =>
      if looksNegative word.toList || word.toList.contains ' ' then .ok (.plain word)
      else .ok (.unknown word)
    | none, none, candidates => .error (.ambiguous word (candidates.map (·.1)))
  | _ => .ok (.plain word)

/-- How words are to be read. Behind the first separator all words are plain. -/
def classifyAll : List String → Except UsageError (List Token)
  | [] => .ok []
  | "--" :: rest => .ok (.separator :: rest.map .plain)
  | word :: rest => do
    let token ← classify word
    return token :: (← classifyAll rest)

end Classification

/-- What has been read of the arguments. The program's place is taken once it was looked for, and
words without a place are left over. -/
structure Progress where
  request : Request := {}
  placeTaken : Bool := false
  leftOver : List String := []

namespace Progress

def leave (progress : Progress) (word : String) : Progress :=
  { progress with leftOver := progress.leftOver ++ [word] }

def place (progress : Progress) (program : Option String) : Progress :=
  { progress with placeTaken := true, request := { progress.request with program } }

def update (progress : Progress) (change : Request → Request) : Progress :=
  { progress with request := change progress.request }

/-- Puts a switch without a value into effect. -/
def apply (progress : Progress) : Switch → Except Interruption Progress
  | .help => .error .help
  | .verbose => .ok (progress.update fun r => { r with verbosity := r.verbosity + 1 })
  | .characters => .ok (progress.update fun r => { r with characters := true })
  | .indirectGoto => .ok (progress.update fun r => { r with indirectGoto := true })
  | .magnitudeGuards => .ok (progress.update fun r => { r with magnitudeGuards := true })
  | .bottomUp => .ok (progress.update fun r => { r with bottomUp := true })
  | switch => .error (.usage (.missingValue switch))

/-- Puts a switch with a value into effect. A graph cannot be both written and run. -/
def applyValue (progress : Progress) (switch : Switch) (value : String) :
    Except Interruption Progress :=
  match switch with
  | .emitGraph =>
    if progress.request.graph.isSome then .error (.usage (.exclusive .emitGraph .graph))
    else .ok (progress.update fun r => { r with emitGraph := some value })
  | .graph =>
    if progress.request.emitGraph.isSome then .error (.usage (.exclusive .graph .emitGraph))
    else .ok (progress.update fun r => { r with graph := some value })
  | .input => .ok (progress.update fun r => { r with input := some value })
  | .stepLimit =>
    match Text.readInteger value with
    | some limit => .ok (progress.update fun r => { r with stepLimit := some (.int limit) })
    | none => .error (.usage (.notAnInteger .stepLimit value))
  | _ => .error (.usage (.unwantedValue switch value))

/-- Puts a switch into effect whose value is a mere separator. The separator is dropped, so that
nothing is left: a text is empty, and a number is an empty list, which is no limit to count up to. -/
def applyNothing (progress : Progress) (switch : Switch) : Except Interruption Progress :=
  match switch with
  | .stepLimit => .ok (progress.update fun r => { r with stepLimit := some (.arr []) })
  | _ => progress.applyValue switch ""

/-- A short switch and those in the rest of its word. From a letter on that is none, the rest is a
value that the switch before it does not want. -/
def expandShort (current : Switch) : List Char → Except Interruption (List Switch)
  | [] => .ok [current]
  | letter :: rest =>
    match Switch.ofSpelling? (String.ofList ['-', letter]) with
    | some next => (expandShort next rest).map (current :: ·)
    | none => .error (.usage (.unwantedValue current (String.ofList (letter :: rest))))

/-- Puts a switch with an attached value into effect. -/
def applyAttached (progress : Progress) (switch : Switch) (short : Bool) (attached : String) :
    Except Interruption Progress :=
  if switch.takesValue then
    if attached == "--" then progress.applyNothing switch
    else progress.applyValue switch attached
  else if short && attached != "" then do
    let switches ← expandShort switch attached.toList
    switches.foldlM (fun current next => current.apply next) progress
  else .error (.usage (.unwantedValue switch attached))

def readAll (progress : Progress) : List Token → Except Interruption Progress
  | [] => .ok progress
  | .unknown word :: rest => (progress.leave word).readAll rest
  | .option switch short (some attached) :: rest => do
    (← progress.applyAttached switch short attached).readAll rest
  | .option switch _ none :: .plain word :: rest =>
    if switch.takesValue then do (← progress.applyValue switch word).readAll rest
    else do (← progress.apply switch).readAll (.plain word :: rest)
  | .option switch _ none :: rest => do (← progress.apply switch).readAll rest
  | .plain word :: .separator :: rest =>
    if progress.placeTaken then ((progress.leave word).leave "--").readAll rest
    else (progress.place (some word)).readAll rest
  | .plain word :: rest =>
    if progress.placeTaken then (progress.leave word).readAll rest
    else (progress.place (some word)).readAll rest
  | .separator :: .plain word :: rest =>
    if progress.placeTaken then ((progress.leave "--").leave word).readAll rest
    else (progress.place (some word)).readAll rest
  | .separator :: rest =>
    if progress.placeTaken then (progress.leave "--").readAll rest
    else (progress.place none).readAll rest

end Progress

def readArguments (arguments : List String) : Except Interruption Request := do
  let tokens ← (classifyAll arguments).mapError .usage
  let progress ← Progress.readAll {} tokens
  if progress.leftOver.isEmpty then return progress.request
  else throw (.usage (.unrecognized progress.leftOver))

end BitMachine.CommandLine
