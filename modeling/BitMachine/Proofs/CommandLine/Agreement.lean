import BitMachine.CommandLine.Job
import BitMachine.Proofs.CommandLine.Paths
import BitMachine.Proofs.CommandLine.Settings
import BitMachine.Proofs.Grammar.Spacing
import BitMachine.Proofs.Graph.Keys
import BitMachine.Proofs.Json.RoundTrip
import BitMachine.Proofs.Machine.Regularity
import BitMachine.Proofs.Machine.Rendering

/-! The command line agrees with the library: what it says about a program is what a run of the text
comes to, and a graph that it writes is run like the text. Only a number that is too long to be written
keeps it from saying what has failed, and from writing a graph. -/

set_option autoImplicit false

namespace BitMachine

namespace Failure

/-- What users are told of a failure: what is wrong with a text and where, or what went wrong in a
run. -/
def announcement? : Failure → Option String
  | .rejected _ diagnostic => do
    let message ← diagnostic.message
    let position ← Text.writeInteger? diagnostic.position
    return "ERROR: " ++ message ++ ". Position " ++ position ++ "\n" ++ diagnostic.excerpt ++ "\n"
  | .faulted fault => fault.message?.map ("RUNTIME ERROR: " ++ · ++ "\n")
  | .malformed _ => none

/-- A failure is about a number that is too long to be written: the position in a text, a line number
that is repeated there, or a number in a fault. -/
def TooLong (source : String) : Failure → Prop
  | .rejected _ _ => ∃ rejection, FrontEnd.descent.read source = .error rejection ∧
      (10 ^ Text.numeralLimit ≤ rejection.position ∨ ∃ number : Nat,
        rejection.cause = .duplicateLine number ∧ 10 ^ Text.numeralLimit ≤ number)
  | .faulted fault => ¬fault.Legible
  | .malformed _ => False

end Failure

namespace CommandLine

/-- The options of the run that settings ask for. -/
def runOptions (settings : List Setting) : Options where
  indirectGoto := settings.contains .indirectGoto
  magnitudeGuards := settings.contains .magnitudeGuards
  stepLimit := (settings.filterMap Setting.limit?).getLast?.map Json.int
  verbosity := totalVerbosity settings

/-- How settings ask for the output to be written. -/
def outputStyle (settings : List Setting) : OutputStyle :=
  if settings.contains .characters then .characters else .digits

/-- The bits that a text spells, whatever stands between them. -/
def spelledBits (text : String) : List Int :=
  text.toList.filterMap fun c => if c = '0' then some 0 else if c = '1' then some 1 else none

/-- The input that settings give, if they do. -/
def givenInput? (settings : List Setting) : Option Input :=
  (settings.filterMap Setting.input?).getLast?.map fun text =>
    .prepared ((spelledBits text).map Json.int)

namespace Report

/-- A report tells what became of a text: the bits that were put out, with a line feed behind them if
the run halted, and what went wrong if something did. A failure that cannot be told is what the program
dies of. -/
structure Tells (report : Report) (style : OutputStyle) (outcome : Outcome) : Prop where
  stdout : ∃ bits, outcome.output = bits.map Json.ofBit ∧
    report.stdout = Output.shown style bits ++ (if outcome.result.isOk then "\n" else "")
  ending : match outcome.result with
    | .ok _ => report.ending = .exit 0 ∧ report.stderr = ""
    | .error failure =>
      match failure.announcement? with
      | some text => report.ending = .exit 1 ∧ report.stderr = text
      | none => report.ending = .crash (.failure failure) ∧ report.stderr = ""

/-- A failure is reported in the words for it, and if there are none the program dies of it. -/
def ofFailure (failure : Failure) : Report :=
  match failure.announcement? with
  | some text => { ending := .exit 1, stderr := text }
  | none => .crash (.failure failure)

theorem stdout_ofFailure (failure : Failure) : (ofFailure failure).stdout = "" := by
  unfold ofFailure
  split <;> rfl

end Report

/-- The same surroundings with a file in them. -/
def Surroundings.holding (surroundings : Surroundings) (path : Path) (content : String) :
    Surroundings :=
  { surroundings with
    entry := fun other => if other = path then .text content else surroundings.entry other }

/-- The run that settings ask for. -/
def jobOf (settings : List Setting) (input : Input) (program : Program) : Job where
  options := runOptions settings
  program := some program
  machine := { input, output := { style := outputStyle settings } }

section Input

theorem bitsOfString_of_sound {text : List Char}
    (sound : ∀ c ∈ text, c = '0' ∨ c = '1' ∨ Text.isBlank c = true) :
    Input.bitsOfString text = .ok ((text.filterMap fun c =>
      if c = '0' then some 0 else if c = '1' then some 1 else none).map Json.int) := by
  induction text with
  | nil => rfl
  | cons c text ih =>
    rw [List.forall_mem_cons] at sound
    obtain ⟨first, others⟩ := sound
    rw [Input.bitsOfString, ih others]
    rcases first with rfl | rfl | blank
    · rfl
    · rfl
    · have solid : c ≠ '0' ∧ c ≠ '1' := by
        constructor <;> rintro rfl <;> cases blank
      rw [if_pos blank, List.filterMap_cons, if_neg solid.1, if_neg solid.2]

theorem ofString_of_sound {text : String} (sound : (Setting.input text).Sound) :
    Input.ofString text = .ok (.prepared ((spelledBits text).map Json.int)) := by
  unfold Input.ofString
  rw [bitsOfString_of_sound sound]
  rfl

theorem sound_of_getLast? {settings : List Setting} (sound : ∀ setting ∈ settings, setting.Sound)
    {text : String} (last : (settings.filterMap Setting.input?).getLast? = some text) :
    (Setting.input text).Sound := by
  have inside := List.mem_of_getLast? last
  obtain ⟨setting, member, given⟩ := List.mem_filterMap.mp inside
  cases setting with
  | input bits =>
    cases given
    exact sound _ member
  | _ => cases given

end Input

section Plans

variable {surroundings : Surroundings} {front back : List Setting} {name content : String}
  {input : Input}

theorem given?_of_ne (named : name ≠ "") : given? (some name) = some name := by
  unfold given?
  split
  · next empty => exact absurd (Option.some.inj empty) named
  · rfl

theorem prepareInput_install {settings : List Setting} (subject : Subject)
    (sound : ∀ setting ∈ settings, setting.Sound) (given : givenInput? settings = some input)
    (surroundings : Surroundings) :
    (subject.install (chosen settings)).prepareInput surroundings = .ok input := by
  unfold givenInput? at given
  obtain ⟨text, last, rfl⟩ := Option.map_eq_some_iff.mp given
  have spelled : (subject.install (chosen settings)).input = some text := by
    cases subject <;> exact last
  unfold Request.prepareInput
  rw [spelled]
  dsimp only
  rw [ofString_of_sound (sound_of_getLast? sound last)]
  rfl

/-- Once its program is known, a request is prepared as the job that its settings ask for. -/
theorem prepare_install {settings : List Setting} {subject : Subject} {program : Program}
    (sound : ∀ setting ∈ settings, setting.Sound) (given : givenInput? settings = some input)
    (loaded : (subject.install (chosen settings)).loadProgram surroundings = .ok (some program)) :
    (subject.install (chosen settings)).prepare surroundings =
      .ok (jobOf settings input program) := by
  unfold Request.prepare
  rw [loaded, prepareInput_install subject sound given]
  cases subject <;> rfl

theorem parse_install (subject : Subject) (settings : List Setting) (source : String) :
    (subject.install (chosen settings)).parse source =
      (FrontEnd.descent.parse source).mapError fun diagnostic =>
        .failure (.rejected .descent diagnostic) := by
  have reader : (subject.install (chosen settings)).frontEnd = .descent := by
    cases subject <;> rfl
  unfold Request.parse
  rw [reader]

theorem readSource_file (file : name ≠ "-")
    (found : surroundings.entry (.ofString name) = .text content) :
    surroundings.readSource name = .ok (normalText content) := by
  unfold Surroundings.readSource Surroundings.readFile
  rw [if_neg (by rwa [beq_iff_eq]), found]

/-- The text of a program is read and parsed from the top down. -/
theorem loadProgram_program (settings : List Setting) (named : name ≠ "") (file : name ≠ "-")
    (found : surroundings.entry (.ofString name) = .text content) :
    ((Subject.program name).install (chosen settings)).loadProgram surroundings =
      ((FrontEnd.descent.parse (normalText content)).mapError fun diagnostic =>
        Report.failure (.rejected .descent diagnostic)).map some := by
  have graph : given? ((Subject.program name).install (chosen settings)).graph = none := rfl
  have program : given? ((Subject.program name).install (chosen settings)).program = some name :=
    given?_of_ne named
  unfold Request.loadProgram
  rw [graph, program]
  dsimp only
  rw [readSource_file file found]
  dsimp only [bind, Except.bind]
  rw [parse_install]
  generalize FrontEnd.descent.parse (normalText content) = result
  cases result <;> rfl

/-- Arguments that ask for a run lead to it, or to the reason why there is none. -/
theorem execute_of_prepare {arguments : List String} {request : Request}
    (read : readArguments arguments = .ok request) (runs : request.emitGraph = none)
    (surroundings : Surroundings) :
    execute surroundings arguments =
      match request.prepare surroundings with
      | .ok job => job.perform surroundings
      | .error report => report := by
  have silent : given? request.emitGraph = none := by rw [runs]; rfl
  unfold execute plan
  rw [read]
  dsimp only
  rw [silent]
  dsimp only
  cases request.prepare surroundings <;> rfl

/-- A text that is no program is reported, and one that is is run. -/
theorem execute_program (sound : ∀ setting ∈ front ++ back, setting.Sound)
    (given : givenInput? (front ++ back) = some input) (plain : Plain name) (named : name ≠ "")
    (file : name ≠ "-") (found : surroundings.entry (.ofString name) = .text content) :
    execute surroundings (command front (.program name) back) =
      match FrontEnd.descent.parse (normalText content) with
      | .error diagnostic => .failure (.rejected .descent diagnostic)
      | .ok program => (jobOf (front ++ back) input program).perform surroundings := by
  have read : readArguments (command front (.program name) back) =
      .ok ((Subject.program name).install (chosen (front ++ back))) :=
    readArguments_command sound plain
  have loaded := loadProgram_program (front ++ back) named file found
  rw [execute_of_prepare read rfl]
  cases parsed : FrontEnd.descent.parse (normalText content) with
  | error diagnostic =>
    rw [parsed] at loaded
    have refused : ((Subject.program name).install (chosen (front ++ back))).prepare surroundings =
        .error (.failure (.rejected .descent diagnostic)) := by
      unfold Request.prepare
      rw [loaded]
      rfl
    rw [refused]
  | ok program =>
    rw [parsed] at loaded
    rw [prepare_install sound given loaded]

/-- A graph that loads is run. -/
theorem execute_graph {program : Program} (sound : ∀ setting ∈ front ++ back, setting.Sound)
    (given : givenInput? (front ++ back) = some input) (plain : Plain name) (named : name ≠ "")
    (loaded : Request.loadGraph surroundings name = .ok (some program)) :
    execute surroundings (command front (.graph name) back) =
      (jobOf (front ++ back) input program).perform surroundings := by
  have read : readArguments (command front (.graph name) back) =
      .ok ((Subject.graph name).install (chosen (front ++ back))) :=
    readArguments_command sound plain
  have graph : given? ((Subject.graph name).install (chosen (front ++ back))).graph = some name :=
    given?_of_ne named
  have loads : ((Subject.graph name).install (chosen (front ++ back))).loadProgram surroundings =
      .ok (some program) := by
    unfold Request.loadProgram
    rw [graph]
    exact loaded
  rw [execute_of_prepare read rfl, prepare_install sound given loads]

/-- A job is performed alike wherever its trace, if it leaves one, can be written. -/
theorem perform_of_traceable {job : Job}
    (traceable : job.options.verbosity ≠ 0 → surroundings.entry tracePath ≠ .folder) :
    job.perform surroundings =
      match Action.runLoaded job.options job.program job.machine with
      | .ok _ machine => Job.report none machine
      | .error fault machine => Job.report (some fault) machine := by
  have free : ¬(job.options.verbosity ≠ 0 && surroundings.entry tracePath == .folder) = true := by
    rw [Bool.and_eq_true, decide_eq_true_eq, beq_iff_eq]
    rintro ⟨traced, folder⟩
    exact traceable traced folder
  unfold Job.perform
  exact if_neg free

end Plans

section Reports

variable {settings : List Setting} {input : Input} {program : Program}

theorem failure_rejected (frontEnd : FrontEnd) {diagnostic : Diagnostic} {source : String}
    (about : diagnostic.source = some source) :
    Report.failure (.rejected frontEnd diagnostic) =
      .ofFailure (.rejected frontEnd diagnostic) := by
  have shows : (diagnostic.excerpt == "") = false := by
    rw [beq_eq_false_iff_ne]
    intro empty
    unfold Diagnostic.excerpt at empty
    rw [about] at empty
    have letters := congrArg String.toList empty
    simp only [String.toList_append] at letters
    cases letters
  have summary : diagnostic.summary? = diagnostic.message.bind fun message =>
      (Text.writeInteger? diagnostic.position).map (message ++ ". Position " ++ ·) := rfl
  unfold Report.failure Report.ofFailure Failure.announcement?
  dsimp only
  rw [summary, shows]
  cases diagnostic.message with
  | none => rfl
  | some message =>
    cases Text.writeInteger? diagnostic.position with
    | none => rfl
    | some position =>
      simp [String.append_assoc]

theorem failure_faulted (fault : Fault) :
    Report.failure (.faulted fault) = .ofFailure (.faulted fault) := by
  unfold Report.failure Report.ofFailure Failure.announcement?
  dsimp only
  cases fault.message? <;> rfl

/-- What is reported of a failure tells it, behind the bits that were put out. -/
theorem tells_of_failure {report : Report} {style : OutputStyle} {outcome : Outcome}
    {failure : Failure} {bits : List Bool} (ended : outcome.result = .error failure)
    (collected : outcome.output = bits.map Json.ofBit)
    (stdout : report.stdout = Output.shown style bits)
    (ending : report.ending = (Report.failure failure).ending)
    (stderr : report.stderr = (Report.failure failure).stderr)
    (reported : Report.failure failure = .ofFailure failure) :
    report.Tells style outcome := by
  refine ⟨⟨bits, collected, ?_⟩, ?_⟩
  · rw [stdout, ended]
    exact String.append_empty.symm
  · rw [ended]
    dsimp only
    rw [ending, stderr, reported]
    unfold Report.ofFailure
    cases failure.announcement? with
    | some text => exact ⟨rfl, rfl⟩
    | none => exact ⟨rfl, rfl⟩

theorem parse_eq_error {source : String} {diagnostic : Diagnostic}
    (parsed : FrontEnd.descent.parse source = .error diagnostic) :
    ∃ rejection, FrontEnd.descent.read source = .error rejection ∧
      diagnostic = rejection.diagnostic source := by
  unfold FrontEnd.parse at parsed
  cases read : FrontEnd.descent.read source with
  | ok program =>
    rw [read] at parsed
    cases parsed
  | error rejection =>
    rw [read] at parsed
    cases parsed
    exact ⟨rejection, rfl, rfl⟩

/-- Users are told what is wrong with a text unless a number in that is too long. -/
theorem announcement?_rejected {source : String} {diagnostic : Diagnostic}
    (parsed : FrontEnd.descent.parse source = .error diagnostic) :
    (Failure.rejected .descent diagnostic).announcement? = none ↔
      (Failure.rejected .descent diagnostic).TooLong source := by
  obtain ⟨rejection, refused, rfl⟩ := parse_eq_error parsed
  have place : Text.writeInteger? rejection.position = none ↔
      10 ^ Text.numeralLimit ≤ rejection.position := by
    rw [Text.writeInteger?_eq_none, Int.natAbs_natCast]
  have cause := (FrontEnd.ofText_of_read refused).message?_eq_none
  have announced : (Failure.rejected .descent (rejection.diagnostic source)).announcement? = none ↔
      Text.writeInteger? rejection.position = none ∨ rejection.cause.message? = none := by
    unfold Failure.announcement? Rejection.diagnostic
    dsimp only
    cases rejection.cause.message? with
    | none => exact iff_of_true rfl (Or.inr rfl)
    | some message =>
      cases Text.writeInteger? rejection.position with
      | none => exact iff_of_true rfl (Or.inl rfl)
      | some position => exact iff_of_false nofun (by rintro (long | long) <;> cases long)
  rw [announced, place, cause]
  constructor
  · intro long
    exact ⟨rejection, refused, long⟩
  · rintro ⟨other, again, long⟩
    cases refused.symm.trans again
    exact long

/-- So they are of the fault of a run that ends. -/
theorem announcement?_faulted (settings : List Setting) (complete : program.Complete)
    (bits : List Int) {fault : Fault} {after : Machine}
    (failed : Action.run (runOptions settings) program { input := .prepared (bits.map .int) } =
      .error fault after) (ends : fault ≠ .unfinished) (source : String) :
    (Failure.faulted fault).announcement? = none ↔ (Failure.faulted fault).TooLong source := by
  have bounded : ∀ limit, (runOptions settings).stepLimit = some limit → limit.Whole := by
    intro limit limited
    obtain ⟨n, -, rfl⟩ := Option.map_eq_some_iff.mp limited
    exact ⟨n, rfl⟩
  have runs : (Action.run (runOptions settings) program).Ensures
      { input := .prepared (bits.map .int) } (fun _ _ => True)
      (fun fault _ => fault = .unfinished ∨ (fault.message?.isSome = true ↔ fault.Legible)) := by
    apply Action.traced_ensures
    intro trace
    have lines : (Action.runFor (runOptions settings) (runOptions settings).patience
        program).Ensures { input := .prepared (bits.map .int), trace } (fun _ _ => True)
        (fun fault _ =>
          fault = .unfinished ∨ (fault.message?.isSome = true ↔ fault.Legible)) := by
      apply (Action.runFor_ensures bounded complete (runOptions settings).patience
        (Action.regular_fresh bits .collected trace)).mono (fun _ _ _ => trivial)
      rintro _ after ⟨bare, rfl, blames⟩
      exact Or.inr (blames.expected.isSome_message? _)
    apply lines.bind
    intro left between _ _
    cases left with
    | none => exact .of_ok rfl trivial
    | some line => exact .of_error rfl (Or.inl rfl)
  have worded := (runs.error failed).resolve_left ends
  rw [Failure.announcement?, Failure.TooLong, Option.map_eq_none_iff, ← worded,
    Option.not_isSome_iff_eq_none]

/-- A fresh machine that shows its output, and one that collects it. -/
theorem renders_fresh (style : OutputStyle) (shows : style ≠ .collected) (bits : List Json) :
    Machine.Renders style { input := .prepared bits }
      { input := .prepared bits, output := { style } } := by
  have empty : Output.Shows style [] { style } := by
    cases style with
    | collected => exact absurd rfl shows
    | digits => exact .digits []
    | characters => exact .characters [] [] rfl (by decide)
  exact ⟨rfl, rfl, rfl, rfl, rfl, [], rfl, empty⟩

theorem outputStyle_ne_collected (settings : List Setting) :
    outputStyle settings ≠ .collected := by
  unfold outputStyle
  split <;> exact nofun

theorem shown_nil (style : OutputStyle) : Output.shown style [] = "" := by
  cases style <;> rfl

/-- What is reported of a text that is no program is where it stops being one. -/
theorem failure_tells {source : String} {diagnostic : Diagnostic}
    (parsed : FrontEnd.descent.parse source = .error diagnostic) (options : Options) (input : Input)
    (style : OutputStyle) :
    (Report.failure (.rejected .descent diagnostic)).Tells style
      (runProgram options input source) := by
  obtain ⟨rejection, -, rfl⟩ := parse_eq_error parsed
  have ended : runProgram options input source =
      ⟨[], "", .error (.rejected .descent (rejection.diagnostic source))⟩ := by
    unfold runProgram
    rw [parsed]
  have reported := failure_rejected .descent (show (rejection.diagnostic source).source = _ from rfl)
  refine tells_of_failure (show _ = _ from congrArg Outcome.result ended)
    (show _ = [].map Json.ofBit from congrArg Outcome.output ended) ?_ rfl rfl reported
  rw [shown_nil, reported, Report.stdout_ofFailure]

/-- What is reported of a run is what a run with collected output comes to. -/
theorem perform_tells {surroundings : Surroundings} (settings : List Setting)
    (complete : program.Complete) (bits : List Int)
    (traceable : totalVerbosity settings ≠ 0 → surroundings.entry tracePath ≠ .folder)
    {source : String}
    (parsed : FrontEnd.descent.parse source = .ok program) :
    ((jobOf settings (.prepared (bits.map .int)) program).perform surroundings).Tells
      (outputStyle settings)
      (runProgram (runOptions settings) (.prepared (bits.map .int)) source) := by
  have renders := renders_fresh (outputStyle settings) (outputStyle_ne_collected settings)
    (bits.map .int)
  rw [perform_of_traceable traceable]
  unfold runProgram
  rw [parsed]
  dsimp only [Action.runLoaded, jobOf]
  rcases (Action.run_renders (runOptions settings) complete _ _ renders).cases with
    ⟨_, after, after', ran, ran', kept⟩ | ⟨fault, after, after', ran, ran', kept⟩
  · rw [ran, ran']
    obtain ⟨shown, collected, displays⟩ := kept.shown
    refine ⟨⟨shown, collected, ?_⟩, rfl, rfl⟩
    show after'.output.text ++ "\n" = _
    rw [displays.text]
    rfl
  · rw [ran, ran']
    obtain ⟨shown, collected, displays⟩ := kept.shown
    have reported := failure_faulted fault
    refine tells_of_failure rfl collected ?_ rfl rfl reported
    show after'.output.text ++ (Report.failure (.faulted fault)).stdout = _
    rw [reported, Report.stdout_ofFailure, String.append_empty, displays.text]

/-- Why users are not told of the failure of a run that ends. -/
theorem announcement?_runProgram {source : String} {failure : Failure} (settings : List Setting)
    (bits : List Int)
    (failed : (runProgram (runOptions settings) (.prepared (bits.map .int)) source).result =
      .error failure) (ends : failure ≠ .faulted .unfinished) :
    failure.announcement? = none ↔ failure.TooLong source := by
  unfold runProgram at failed
  cases parsed : FrontEnd.descent.parse source with
  | error diagnostic =>
    rw [parsed] at failed
    cases failed
    exact announcement?_rejected parsed
  | ok program =>
    rw [parsed] at failed
    dsimp only at failed
    split at failed
    · cases failed
    · next fault after ran =>
      cases failed
      refine announcement?_faulted settings (FrontEnd.complete_of_parse parsed) bits ran ?_ source
      rintro rfl
      exact ends rfl

end Reports

section Graphs

variable {surroundings : Surroundings} {front back : List Setting} {name content : String}
  {program : Program}

/-- Where the graph of a program is written. -/
def graphPath (name : String) : Path :=
  (Path.ofString name).extend ".ast.json"

/-- What is written there, at least. -/
def graphText (program : Program) : String :=
  (program.toNode.toJson.pretty 0).text

/-- The name that is shown leads there. -/
theorem ofString_render_graphPath (name : String) :
    Path.ofString (graphPath name).render = graphPath name :=
  Path.ofString_render ((Path.clean_ofString name).extend (by decide) (by decide))

/-- A graph is written and its name shown, or the program dies of a number that it cannot write. -/
theorem execute_emit (sound : ∀ setting ∈ front ++ back, setting.Sound) (plain : Plain name)
    (named : name ≠ "") (file : name ≠ "-")
    (found : surroundings.entry (.ofString name) = .text content)
    (parsed : FrontEnd.descent.parse (normalText content) = .ok program)
    (noFolder : surroundings.entry (graphPath name) ≠ .folder)
    (short : surroundings.entry (graphPath name) ≠ .overlong) :
    execute surroundings (command front (.emitGraph name) back) =
      if program.toNode.toJson.Writable then
        { stdout := (graphPath name).render ++ "\n"
          written := [(graphPath name, graphText program)] }
      else
        { ending := .crash .unwritableGraph, written := [(graphPath name, graphText program)] } := by
  have read : readArguments (command front (.emitGraph name) back) =
      .ok ((Subject.emitGraph name).install (chosen (front ++ back))) :=
    readArguments_command sound plain
  have asked : given? ((Subject.emitGraph name).install (chosen (front ++ back))).emitGraph =
      some name := given?_of_ne named
  have emitted : ((Subject.emitGraph name).install (chosen (front ++ back))).emit surroundings name =
      if program.toNode.toJson.Writable then
        .ok { stdout := (graphPath name).render ++ "\n"
              written := [(graphPath name, graphText program)] }
      else
        .error { ending := .crash .unwritableGraph
                 written := [(graphPath name, graphText program)] } := by
    unfold Request.emit
    rw [readSource_file file found]
    dsimp only [bind, Except.bind]
    rw [parse_install, parsed]
    dsimp only [Except.mapError]
    split
    · next folder => exact absurd folder noFolder
    · next overlong => exact absurd overlong short
    · rw [Json.complete_pretty]
      rfl
  unfold execute plan
  rw [read]
  dsimp only
  rw [asked]
  dsimp only
  rw [emitted]
  cases program.toNode.toJson.Writable <;> rfl

/-- The graph that was written is loaded as the program. -/
theorem loadGraph_holding {graph : String} (wellKeyed : program.toNode.WellKeyed)
    (there : Path.ofString graph = graphPath name)
    (undone : Json.parse Request.graphLimits (normalText (graphText program)) =
      .ok program.toNode.toJson) :
    Request.loadGraph (surroundings.holding (graphPath name) (graphText program)) graph =
      .ok (some program) := by
  have found : (surroundings.holding (graphPath name) (graphText program)).readFile
      (.ofString graph) = .ok (normalText (graphText program)) := by
    unfold Surroundings.readFile Surroundings.holding
    dsimp only
    rw [if_pos there]
  unfold Request.loadGraph
  rw [found]
  dsimp only [bind, Except.bind]
  rw [undone]
  dsimp only
  unfold Node.load
  rw [Node.ofJson_toJson _ wellKeyed]
  rfl

/-- Reading a graph undoes writing it if it is not too deep and its numbers are not too long. -/
theorem parse_graphText
    (readable : Json.Readable Request.graphLimits Request.graphLimits.depth
      program.toNode.toJson) :
    Json.parse Request.graphLimits (normalText (graphText program)) =
      .ok program.toNode.toJson := by
  have writable := Json.Readable.writable (Nat.le_refl _) _ readable
  have free := Json.return_not_mem_fullText 0 _ readable
  unfold normalText graphText
  rw [Json.pretty_of_writable 0 _ writable]
  dsimp only
  rw [Json.unifyBreaks_of_not_mem free, String.ofList_toList]
  exact Json.parse_fullText readable

theorem holding_traceable {path : Path} {text : String}
    (traceable : surroundings.entry tracePath ≠ .folder) :
    (surroundings.holding path text).entry tracePath ≠ .folder := by
  unfold Surroundings.holding
  dsimp only
  split
  · exact nofun
  · exact traceable

end Graphs

/-- The command line agrees with the library. Whatever settings stand around the name of a file, what
it says is what the text of the file comes to when it is run with the options, the input and the
output that the settings ask for. If that fails, a run that is given up aside, users are told of the
failure unless it is about a number that is too long to be written; then the program dies of it. If the
text is a program, its graph is written to the file whose name is shown, unless a number in it is too
long; and running that one with the same settings is reported alike, provided that reading the graph
undoes writing it. -/
theorem command_line_agrees (surroundings : Surroundings) {name content : String} {input : Input}
    {front back : List Setting} (sound : ∀ setting ∈ front ++ back, setting.Sound)
    (given : givenInput? (front ++ back) = some input) (plain : Plain name) (named : name ≠ "")
    (file : name ≠ "-") (found : surroundings.entry (.ofString name) = .text content)
    (traceable : totalVerbosity (front ++ back) ≠ 0 → surroundings.entry tracePath ≠ .folder) :
    (execute surroundings (command front (.program name) back)).Tells (outputStyle (front ++ back))
      (runProgram (runOptions (front ++ back)) input (normalText content)) ∧
    (∀ failure, failure ≠ .faulted .unfinished →
      (runProgram (runOptions (front ++ back)) input (normalText content)).result =
        .error failure →
      (failure.announcement? = none ↔ failure.TooLong (normalText content))) ∧
    ∀ program, FrontEnd.descent.parse (normalText content) = .ok program →
      surroundings.entry (graphPath name) ≠ .folder →
      surroundings.entry (graphPath name) ≠ .overlong →
      (∀ before after : List Setting, (∀ setting ∈ before ++ after, setting.Sound) →
        execute surroundings (command before (.emitGraph name) after) =
          if program.toNode.toJson.Writable then
            { stdout := (graphPath name).render ++ "\n"
              written := [(graphPath name, graphText program)] }
          else
            { ending := .crash .unwritableGraph
              written := [(graphPath name, graphText program)] }) ∧
      Path.ofString (graphPath name).render = graphPath name ∧
      (Json.parse Request.graphLimits (normalText (graphText program)) =
          .ok program.toNode.toJson →
        ∀ graph, Plain graph → graph ≠ "" → Path.ofString graph = graphPath name →
          execute (surroundings.holding (graphPath name) (graphText program))
              (command front (.graph graph) back) =
            execute surroundings (command front (.program name) back)) := by
  have direct := execute_program sound given plain named file found
  refine ⟨?_, ?_, ?_⟩
  · obtain ⟨text, last, rfl⟩ := Option.map_eq_some_iff.mp given
    rw [direct]
    cases parsed : FrontEnd.descent.parse (normalText content) with
    | error diagnostic => exact failure_tells parsed _ _ _
    | ok program =>
      exact perform_tells _ (FrontEnd.complete_of_parse parsed) _ traceable parsed
  · intro failure ends failed
    obtain ⟨text, last, rfl⟩ := Option.map_eq_some_iff.mp given
    exact announcement?_runProgram _ _ failed ends
  · intro program parsed noFolder short
    refine ⟨?_, ofString_render_graphPath name, ?_⟩
    · intro before after sound'
      exact execute_emit sound' plain named file found parsed noFolder short
    · intro undone graph plain' named' there
      have loaded : Request.loadGraph (surroundings.holding (graphPath name) (graphText program))
          graph = .ok (some program) :=
        loadGraph_holding (FrontEnd.wellKeyed_of_parse parsed) there undone
      rw [execute_graph sound given plain' named' loaded, direct, parsed]
      exact (perform_of_traceable fun traced => holding_traceable (traceable traced)).trans
        (perform_of_traceable traceable).symm

/-- A program that prints before it asks for input that is not there. -/
def printThenFail : String :=
  "LINE NUMBER ZERO CODE PRINT ONE GOTO ONE LINE NUMBER ONE CODE READ"

/-- What it comes to, traced and with a limit. -/
def printThenFailOutcome : Outcome :=
  runProgram { stepLimit := some (.int 5), verbosity := 1 } (.prepared []) (normalText printThenFail)

/-- Surroundings in which there is nothing but that program. -/
def onlyPrintThenFail : Surroundings where
  entry path := if path = .ofString "p" then .text printThenFail else .missing

theorem command_line_agrees_printThenFail :
    printThenFailOutcome.output = [.int 1] ∧
    printThenFailOutcome.result = .error (.faulted .noMoreInput) ∧
    (execute onlyPrintThenFail ["-v", "p", "--input", " ", "--max-steps", "5"]).Tells .digits
      printThenFailOutcome ∧
    ∃ text, execute onlyPrintThenFail ["--emit-ast", "p"] =
        { stdout := "p.ast.json\n", written := [(.ofString "p.ast.json", text)] } ∧
      execute (onlyPrintThenFail.holding (.ofString "p.ast.json") text)
          ["-v", "--ast", "p.ast.json", "--input", " ", "--max-steps", "5"] =
        execute onlyPrintThenFail ["-v", "p", "--input", " ", "--max-steps", "5"] := by
  have source : Path.ofString "p" = { parts := ["p"] } :=
    Path.ofString_of_not_mem (by decide) (by decide)
  have trace : tracePath = { parts := ["debug.txt"] } :=
    Path.ofString_of_not_mem (by decide) (by decide)
  have graph : graphPath "p" = { parts := ["p.ast.json"] } := by
    unfold graphPath
    rw [source]
    decide
  have there : Path.ofString "p.ast.json" = graphPath "p" :=
    (Path.ofString_of_not_mem (by decide) (by decide)).trans graph.symm
  have absent : ∀ name, name ≠ "p" → onlyPrintThenFail.entry { parts := [name] } = .missing := by
    intro name other
    unfold onlyPrintThenFail
    rw [source]
    exact if_neg fun same => other (List.cons.inj (Path.mk.inj same).2).1
  have sound : ∀ setting ∈ [Setting.verbose 0] ++ [.input " ", .stepLimit "5" 5],
      setting.Sound := by
    have blank : (Setting.input " ").Sound := List.forall_mem_singleton.mpr (.inr (.inr rfl))
    simp only [List.cons_append, List.nil_append, List.forall_mem_cons]
    exact ⟨trivial, blank, ⟨rfl, rfl⟩, nofun⟩
  have stops : (match printThenFailOutcome.result with
      | .error failure => decide (failure = .faulted .noMoreInput)
      | .ok _ => false) = true := by
    decide +kernel
  have failed : printThenFailOutcome.result = .error (.faulted .noMoreInput) := by
    split at stops
    · next same => rw [same, of_decide_eq_true stops]
    · cases stops
  have readable : (match FrontEnd.descent.parse (normalText printThenFail) with
      | .ok program => decide (Json.Readable Request.graphLimits Request.graphLimits.depth
          program.toNode.toJson)
      | .error _ => false) = true := by
    decide +kernel
  obtain ⟨tells, -, emits⟩ := command_line_agrees onlyPrintThenFail sound rfl
    (show Plain "p" from rfl) (by decide) (by decide) (if_pos rfl)
    (fun _ => by rw [trace, absent _ (by decide)]; exact nofun)
  refine ⟨by decide +kernel, failed, tells, ?_⟩
  split at readable
  · next program parsed =>
    have readable := of_decide_eq_true readable
    obtain ⟨written, -, same⟩ := emits program parsed
      (by rw [graph, absent _ (by decide)]; exact nofun)
      (by rw [graph, absent _ (by decide)]; exact nofun)
    have emitted := written [] [] nofun
    rw [if_pos (Json.Readable.writable (Nat.le_refl _) _ readable)] at emitted
    rw [there]
    refine ⟨graphText program, ?_, ?_⟩
    · refine emitted.trans ?_
      rw [graph]
      rfl
    · exact same (parse_graphText readable) "p.ast.json" rfl (by decide) there
  · cases readable

end CommandLine

end BitMachine
