import BitMachine.Proofs.Machine.Lockstep
import BitMachine.Proofs.Machine.TraceText
import BitMachine.Session

/-! What tracing changes. Runs on one session come out the same at every verbosity, until a run fails
since a number that it is to trace is too long to be written. What is traced goes to a file only, and at
a lower verbosity it is the full trace without the lines of the higher levels. -/

set_option autoImplicit false

namespace BitMachine

namespace Event

/-- The word that the line of an event begins with. -/
def word : Event → String
  | .line _ => "line"
  | .goto _ => "goto"
  | .halt _ => "halt"
  | .print _ => "print"
  | .read _ => "read"
  | .write _ _ => "write"
  | .evaluate _ _ => "eval"

/-- Whether a verbosity records an event. -/
def isHeeded (verbosity : Nat) (event : Event) : Bool :=
  decide (event.level ≤ verbosity)

theorem level_pos (event : Event) : 0 < event.level := by
  cases event <;> simp only [level] <;> omega

/-- The full trace is that of verbosity 3. -/
theorem level_le (event : Event) : event.level ≤ 3 := by
  cases event <;> simp only [level] <;> omega

end Event

namespace Trace

def wordOf (line : String) : String :=
  String.ofList (line.toList.takeWhile (· != ' '))

/-- Whether a verbosity keeps a line of the full trace: none, those that tell which lines are executed,
those that also tell what is printed, read and written, or all. -/
def keeps : Nat → String → Bool
  | 0, _ => false
  | 1, line => ["line", "goto", "halt"].contains (wordOf line)
  | 2, line => ["line", "goto", "halt", "print", "read", "write"].contains (wordOf line)
  | _, _ => true

/-- Lines as the text of a file. -/
def textOf (lines : List String) : String :=
  String.join (lines.map (· ++ "\n"))

section Lines

variable {event : Event} {line : String}

theorem wordOf_append {front word : String} {more : List Char}
    (begins : front.toList = word.toList ++ ' ' :: more)
    (solid : word.toList.all (· != ' ') = true) (rest : String) :
    wordOf (front ++ rest) = word := by
  have taken : ∀ c ∈ word.toList, (c != ' ') = true := List.all_eq_true.mp solid
  rw [wordOf, String.toList_append, begins, List.append_assoc, List.takeWhile_append_of_pos taken,
    List.cons_append, List.takeWhile_cons_of_neg (by decide), List.append_nil, String.ofList_toList]

theorem wordOf_of_render? (rendered : event.render? = some line) : wordOf line = event.word := by
  cases event with
  | write address value =>
    obtain ⟨digits, -, rest⟩ := Option.bind_eq_some_iff.mp rendered
    obtain ⟨shown, -, last⟩ := Option.bind_eq_some_iff.mp rest
    cases last
    have begins : "write ".toList = "write".toList ++ ' ' :: [] := rfl
    rw [String.append_assoc, String.append_assoc]
    exact wordOf_append begins rfl _
  | evaluate node value =>
    obtain ⟨shown, -, rfl⟩ := Option.map_eq_some_iff.mp rendered
    have begins : "eval ".toList = "eval".toList ++ ' ' :: [] := rfl
    rw [String.append_assoc, String.append_assoc]
    exact wordOf_append begins rfl _
  | line number =>
    obtain ⟨digits, -, rfl⟩ := Option.map_eq_some_iff.mp rendered
    have begins : "line ".toList = "line".toList ++ ' ' :: [] := rfl
    exact wordOf_append begins rfl digits
  | goto number =>
    obtain ⟨digits, -, rfl⟩ := Option.map_eq_some_iff.mp rendered
    have begins : "goto ".toList = "goto".toList ++ ' ' :: [] := rfl
    exact wordOf_append begins rfl digits
  | halt number =>
    obtain ⟨digits, -, rfl⟩ := Option.map_eq_some_iff.mp rendered
    have begins : "halt after line ".toList = "halt".toList ++ ' ' :: "after line ".toList := rfl
    exact wordOf_append begins rfl digits
  | print bit =>
    obtain ⟨digits, -, rfl⟩ := Option.map_eq_some_iff.mp rendered
    have begins : "print ".toList = "print".toList ++ ' ' :: [] := rfl
    exact wordOf_append begins rfl digits
  | read bit =>
    obtain ⟨digits, -, rfl⟩ := Option.map_eq_some_iff.mp rendered
    have begins : "read ".toList = "read".toList ++ ' ' :: [] := rfl
    exact wordOf_append begins rfl digits

/-- A verbosity keeps the lines of the events that it records. -/
theorem keeps_of_render? (rendered : event.render? = some line) (verbosity : Nat) :
    keeps verbosity line = event.isHeeded verbosity := by
  match verbosity with
  | 0 => exact (decide_eq_false (Nat.not_le.mpr event.level_pos)).symm
  | 1 =>
    rw [keeps, wordOf_of_render? rendered]
    cases event <;> rfl
  | 2 =>
    rw [keeps, wordOf_of_render? rendered]
    cases event <;> rfl
  | more + 3 =>
    have low : event.level ≤ more + 3 := Nat.le_trans event.level_le (Nat.le_add_left 3 more)
    exact (decide_eq_true low).symm

theorem filterMap_render?_filter (verbosity : Nat) (events : List Event) :
    (events.filter (Event.isHeeded verbosity)).filterMap Event.render? =
      (events.filterMap Event.render?).filter (keeps verbosity) := by
  induction events with
  | nil => rfl
  | cons event events ih =>
    rw [List.filter_cons, List.filterMap_cons]
    cases rendered : event.render? with
    | none =>
      dsimp only
      split
      · rw [List.filterMap_cons, rendered]
        exact ih
      · exact ih
    | some line =>
      dsimp only
      rw [List.filter_cons, keeps_of_render? rendered]
      split
      · rw [List.filterMap_cons, rendered, ih]
      · exact ih

theorem textOf_flatten (traces : List (List String)) :
    textOf traces.flatten = String.join (traces.map textOf) := by
  induction traces with
  | nil => rfl
  | cons lines traces ih =>
    rw [List.map_cons, String.join_cons, ← ih]
    unfold textOf
    rw [List.flatten_cons, List.map_append, String.join_append]

end Lines

section Files

/-- A file that was opened for a run stays as it is when it is opened once more. -/
theorem start_close_addAll (trace : Trace) (events : List Event) :
    (trace.start.addAll events).close.start = trace.start.addAll events := by
  have opened : trace.start.isOpen = true := by
    unfold start
    split <;> rfl
  rw [addAll_of_open opened]
  unfold start close
  split <;> rfl

end Files

end Trace

/-- Machines that differ in their traces only are in the same context. -/
theorem Machine.Alike.context {traces : Trace → Trace → Prop} {left right : Machine}
    (alike : Machine.Alike Eq traces left right) : left.context = right.context := by
  obtain ⟨memory, steps, line, -⟩ := alike
  rcases left with ⟨⟨_, _, _⟩, _⟩
  rcases right with ⟨⟨_, _, _⟩, _⟩
  dsimp only at memory steps line
  rw [memory, steps, line]

namespace Action

/-- The machine that is left behind, whether an action succeeded or failed. -/
def machineAfter {α : Type} : EStateM.Result Fault Machine α → Machine
  | .ok _ after => after
  | .error _ after => after

/-- Events up to a level have been recorded, in order. -/
def Recorded (level : Nat) (before after : Trace) (events : List Event) : Prop :=
  after = before.addAll events ∧ ∀ event ∈ events, event.level ≤ level

theorem Recorded.concat {level : Nat} {before after : Trace} {events : List Event} {event : Event}
    (recorded : Recorded level before after events) (heeded : event.level ≤ level) :
    Recorded level before (after.add event) (events ++ [event]) := by
  obtain ⟨rfl, low⟩ := recorded
  rw [Recorded, Trace.addAll_append]
  exact ⟨rfl, List.forall_mem_append.mpr ⟨low, List.forall_mem_singleton.mpr heeded⟩⟩

/-- Two traces have grown by the same events, of which one has only those up to a level. -/
def Grown (low high : Nat) (base base' left right : Trace) : Prop :=
  ∃ events, Recorded low base left (events.filter (Event.isHeeded low)) ∧
    Recorded high base' right events

/-- The one action comes out like the other, which is more verbose, unless that fails since an event
cannot be written. -/
def Follows (low high : Nat) (base base' : Trace) : Relation := fun _ action action' =>
  ∀ left right, Machine.Alike Eq (Grown low high base base') left right →
    Agree (Machine.Alike Eq (Grown low high base base')) (action left) (action' right) ∨
      ∃ after events, action' right = .error .unwritable after ∧
        Recorded high base' after.trace events

section Follows

variable {α β : Type} {low high : Nat} {base base' : Trace}

theorem Matches.follows {action action' : Action α}
    (same : Matches (Machine.Alike Eq (Grown low high base base')) α action action') :
    Follows low high base base' α action action' :=
  fun left right alike => Or.inl (same left right alike)

theorem Follows.bind {first first' : Action α} {next next' : α → Action β}
    (before : Follows low high base base' α first first')
    (after : ∀ value, Follows low high base base' β (next value) (next' value)) :
    Follows low high base base' β (first >>= next) (first' >>= next') := by
  intro left right alike
  rcases before left right alike with agree | ⟨stuck, events, failed, recorded⟩
  · rcases agree.cases with
      ⟨value, between, between', ran, ran', kept⟩ | ⟨fault, between, between', ran, ran', kept⟩
    · rw [bind_of_ok _ ran, bind_of_ok _ ran']
      exact after value between between' kept
    · rw [bind_of_error _ ran, bind_of_error _ ran']
      exact Or.inl ⟨rfl, kept⟩
  · exact Or.inr ⟨stuck, events, bind_of_error _ failed, recorded⟩

theorem Follows.located {action action' : Action α}
    (same : Follows low high base base' α action action') :
    Follows low high base base' α (located action) (located action') := by
  intro left right alike
  rcases same left right alike with agree | ⟨stuck, events, failed, recorded⟩
  · exact Or.inl (agree.located fun kept => kept.line)
  · refine Or.inr ⟨stuck, events, ?_, recorded⟩
    unfold Action.located
    rw [failed]
    rfl

/-- Only here the verbosities make a difference. -/
theorem record_follows (nested : ∀ event : Event, event.level ≤ low → event.level ≤ high)
    (options : Options) (event : Event) :
    Follows low high base base' Unit (record { options with verbosity := low } event)
      (record { options with verbosity := high } event) := by
  intro left right alike
  obtain ⟨events, recorded, recorded'⟩ := alike.trace
  unfold record
  dsimp only
  by_cases heeded : event.level ≤ high
  · rw [if_pos heeded]
    by_cases legible : event.render?.isSome = true
    · have longer := recorded'.concat heeded
      rw [if_pos legible, if_pos legible]
      by_cases kept : event.level ≤ low
      · rw [if_pos kept]
        refine Or.inl ⟨rfl, alike.memory, alike.steps, alike.line, alike.input, alike.output,
          events ++ [event], ?_, longer⟩
        have listed : event.isHeeded low = true := decide_eq_true kept
        rw [List.filter_append, List.filter_cons_of_pos listed, List.filter_nil]
        exact recorded.concat kept
      · rw [if_neg kept]
        refine Or.inl ⟨rfl, alike.memory, alike.steps, alike.line, alike.input, alike.output,
          events ++ [event], ?_, longer⟩
        have dropped : ¬event.isHeeded low = true := by
          rwa [Event.isHeeded, decide_eq_true_eq]
        rw [List.filter_append, List.filter_cons_of_neg dropped, List.filter_nil, List.append_nil]
        exact recorded
    · rw [if_neg legible, if_neg legible]
      exact Or.inr ⟨right, events, rfl, recorded'⟩
  · have dropped : ¬event.level ≤ low := fun kept => heeded (nested event kept)
    rw [if_neg heeded, if_neg dropped]
    exact Or.inl ⟨rfl, alike⟩

theorem follows_congruence (nested : ∀ event : Event, event.level ≤ low → event.level ≤ high)
    (options : Options) :
    LineCongruence (Follows low high base base') { options with verbosity := low }
      { options with verbosity := high } where
  guards := rfl
  frames := rfl
  jumps := rfl
  limits := rfl
  returns value := (matches_pure value).follows
  fails fault _ := (matches_throw fault).follows
  exceeds limit := (matches_throw (.stepLimit limit)).follows
  continues := Follows.bind
  locates := Follows.located
  records := record_follows nested options
  loads address := (load_matches Memory.indistinct_eq address).follows
  writes address value := (write_matches Memory.indistinct_eq address value).follows
  registers := by
    apply Matches.follows
    intro left right alike
    exact ⟨congrArg Memory.register alike.memory, alike⟩
  emits bit := (emit_matches bit).follows
  requests := request_matches.follows
  counts := count_matches.follows
  notes number := by
    apply Matches.follows
    intro left right alike
    exact ⟨rfl, alike.memory, alike.steps, rfl, alike.input, alike.output, alike.trace⟩

end Follows

/-- The trace of a run while it runs, when nothing has been recorded yet. -/
def opened (verbosity : Nat) (trace : Trace) : Trace :=
  if verbosity = 0 then trace else trace.start

/-- A run at a verbosity and one that is more verbose, on machines that differ in their traces only. -/
theorem run_follows {low high : Nat}
    (nested : ∀ event : Event, event.level ≤ low → event.level ≤ high) (options : Options)
    (program : Program) {left right : Machine}
    (alike : Machine.Alike Eq (fun _ _ => True) left right) :
    Agree (Machine.Alike Eq fun trace trace' => ∃ inner inner',
        Grown low high (opened low left.trace) (opened high right.trace) inner inner' ∧
          trace = inner.close ∧ trace' = inner'.close)
      (run { options with verbosity := low } program left)
      (run { options with verbosity := high } program right) ∨
    ∃ after inner events, run { options with verbosity := high } program right =
        .error .unwritable after ∧
      Recorded high (opened high right.trace) inner events ∧ after.trace = inner.close := by
  have begun : Machine.Alike Eq
      (Grown low high (opened low left.trace) (opened high right.trace))
      { left with trace := opened low left.trace }
      { right with trace := opened high right.trace } :=
    ⟨alike.memory, alike.steps, alike.line, alike.input, alike.output, [], ⟨rfl, nofun⟩,
      ⟨rfl, nofun⟩⟩
  have runs := (follows_congruence nested options).runToEnd_related rfl program _ _ begun
  rw [run_eq, run_eq]
  rcases runs with agree | ⟨stuck, events, failed, recorded⟩
  · refine Or.inl (Agree.traced ?_ agree)
    intro left right kept
    exact ⟨kept.memory, kept.steps, kept.line, kept.input, kept.output, _, _, kept.trace, rfl, rfl⟩
  · refine Or.inr ⟨{ stuck with trace := stuck.trace.close }, _, events, ?_, recorded, rfl⟩
    unfold traced
    unfold opened at failed
    dsimp only at failed ⊢
    rw [failed]

end Action

namespace Session

/-- A run that is asked for: its program, and the context to run it on. The context may be fresh, one
that an earlier run left behind, or made from these; the latest comes first. -/
structure Turn where
  program : Program
  context : List Context → Context

/-- Makes a run. -/
def take (session : Session) (left : List Context) (turn : Turn) : Answer :=
  ({ session with program := some turn.program }.withContext (turn.context left)).run

/-- Makes runs in order. -/
def takeAll (session : Session) (left : List Context) : List Turn → List Answer × Session
  | [] => ([], session)
  | turn :: turns =>
    let answer := session.take left turn
    let rest := answer.2.takeAll (answer.2.machine.context :: left) turns
    (answer :: rest.1, rest.2)

/-- What is seen of a run apart from its trace. -/
structure Sight where
  reply : Except Failure Reply
  context : Context
  input : Input
  output : Output

def sight (answer : Answer) : Sight :=
  ⟨answer.1, answer.2.machine.context, answer.2.machine.input, answer.2.machine.output⟩

/-- A run has failed since a number is too long to be written. -/
def IsUnwritable (answer : Answer) : Prop :=
  answer.1 = .error (.faulted .unwritable)

/-- The machine that a run starts on. -/
def ready (session : Session) (left : List Context) (turn : Turn) : Machine :=
  { session.machine with context := turn.context left }

/-- How a run comes out. -/
def outcome (session : Session) (left : List Context) (turn : Turn) :
    EStateM.Result Fault Machine Unit :=
  Action.run session.options turn.program (session.ready left turn)

/-- The lines that a run writes to a trace file of its own. -/
def linesOf (session : Session) (left : List Context) (turn : Turn) : List String :=
  let ended := Action.run session.options turn.program { session.ready left turn with trace := {} }
  (Action.machineAfter ended).trace.filed.toList.filterMap Event.render?

/-- The lines of each of the runs in order. -/
def linesOfAll (session : Session) (left : List Context) : List Turn → List (List String)
  | [] => []
  | turn :: turns =>
    let after := (session.take left turn).2
    session.linesOf left turn :: after.linesOfAll (after.machine.context :: left) turns

def replyTo : EStateM.Result Fault Machine Unit → Except Failure Reply
  | .ok _ after => .ok (.steps after.context.steps)
  | .error fault _ => .error (.faulted fault)

theorem take_eq (session : Session) (left : List Context) (turn : Turn) :
    session.take left turn =
      (replyTo (session.outcome left turn),
        { session with
          program := some turn.program
          machine := Action.machineAfter (session.outcome left turn) }) := by
  cases ran : session.outcome left turn with
  | ok result after =>
    unfold outcome ready at ran
    unfold take run perform
    dsimp only [withContext, Action.runLoaded]
    rw [ran]
    rfl
  | error fault after =>
    unfold outcome ready at ran
    unfold take run perform
    dsimp only [withContext, Action.runLoaded]
    rw [ran]
    rfl

theorem isUnwritable_take {session : Session} {left : List Context} {turn : Turn}
    {after : Machine} (failed : session.outcome left turn = .error .unwritable after) :
    IsUnwritable (session.take left turn) := by
  rw [take_eq, failed]
  rfl

theorem replyTo_of_agree {traces : Trace → Trace → Prop}
    {outcome outcome' : EStateM.Result Fault Machine Unit}
    (agree : Action.Agree (Machine.Alike Eq traces) outcome outcome') :
    replyTo outcome = replyTo outcome' ∧
      Machine.Alike Eq traces (Action.machineAfter outcome) (Action.machineAfter outcome') := by
  rcases agree.cases with
    ⟨_, after, after', rfl, rfl, alike⟩ | ⟨fault, after, after', rfl, rfl, alike⟩
  · refine ⟨?_, alike⟩
    show Except.ok (Reply.steps after.context.steps) = _
    rw [alike.steps]
    rfl
  · exact ⟨rfl, alike⟩

/-- Two sessions in the same state, at two verbosities and with traces of their own. -/
structure Peers (options : Options) (low high : Nat) (session other : Session) : Prop where
  one : session.options = { options with verbosity := low }
  another : other.options = { options with verbosity := high }
  input : session.machine.input = other.machine.input
  output : session.machine.output = other.machine.output

section Peers

variable {options : Options} {low high : Nat} {session other : Session}
  (nested : ∀ event : Event, event.level ≤ low → event.level ≤ high)

include nested

/-- The outcomes of a run agree unless the more verbose one fails since it cannot write. -/
theorem Peers.outcome (peers : Peers options low high session other) (left : List Context)
    (turn : Turn) (written : ¬IsUnwritable (other.take left turn)) :
    Action.Agree (Machine.Alike Eq fun trace trace' => ∃ inner inner',
        Action.Grown low high (Action.opened low session.machine.trace)
          (Action.opened high other.machine.trace) inner inner' ∧
          trace = inner.close ∧ trace' = inner'.close)
      (session.outcome left turn) (other.outcome left turn) := by
  have alike : Machine.Alike Eq (fun _ _ => True) (session.ready left turn)
      (other.ready left turn) := ⟨rfl, rfl, rfl, peers.input, peers.output, trivial⟩
  have runs := Action.run_follows nested options turn.program alike
  rw [← peers.one, ← peers.another] at runs
  apply runs.resolve_right
  rintro ⟨after, inner, events, failed, -⟩
  exact written (isUnwritable_take failed)

/-- One run: what is seen of it is the same, and the sessions are in the same state again. -/
theorem Peers.take (peers : Peers options low high session other) (left : List Context)
    (turn : Turn) (written : ¬IsUnwritable (other.take left turn)) :
    sight (session.take left turn) = sight (other.take left turn) ∧
      Peers options low high (session.take left turn).2 (other.take left turn).2 := by
  obtain ⟨reply, alike⟩ := replyTo_of_agree (peers.outcome nested left turn written)
  rw [take_eq, take_eq]
  constructor
  · unfold sight
    dsimp only
    rw [reply, alike.context, alike.input, alike.output]
  · exact ⟨peers.one, peers.another, alike.input, alike.output⟩

/-- The runs come out the same one by one, until one fails that cannot write. -/
theorem Peers.takeAll (peers : Peers options low high session other) (left : List Context)
    (turns : List Turn) :
    ∃ count, ((other.takeAll left turns).1.map sight).take count =
        ((session.takeAll left turns).1.map sight).take count ∧
      (count = turns.length ∨ ∃ answer, (other.takeAll left turns).1[count]? = some answer ∧
        IsUnwritable answer) := by
  induction turns generalizing session other left with
  | nil => exact ⟨0, rfl, Or.inl rfl⟩
  | cons turn turns ih =>
    by_cases spoilt : IsUnwritable (other.take left turn)
    · exact ⟨0, rfl, Or.inr ⟨_, rfl, spoilt⟩⟩
    · obtain ⟨same, next⟩ := peers.take nested left turn spoilt
      have context : (session.take left turn).2.machine.context =
          (other.take left turn).2.machine.context := congrArg Sight.context same
      obtain ⟨count, alike, ends⟩ := ih next ((other.take left turn).2.machine.context :: left)
      refine ⟨count + 1, ?_, ends.imp (congrArg (· + 1)) id⟩
      unfold Session.takeAll
      dsimp only
      rw [List.map_cons, List.map_cons, List.take_succ_cons, List.take_succ_cons, same, context,
        alike]

/-- One run adds to its file the lines that the verbosity keeps of those of the other run. -/
theorem Peers.trace_take (peers : Peers options low high session other) (traced : low ≠ 0)
    (traced' : high ≠ 0) (left : List Context) (turn : Turn)
    (written : ¬IsUnwritable (other.take left turn)) :
    ∃ events : List Event, (session.take left turn).2.machine.trace =
        (session.machine.trace.start.addAll (events.filter (Event.isHeeded low))).close ∧
      other.linesOf left turn = events.filterMap Event.render? := by
  -- The run that has a file of its own does not fail for that either.
  let apart : Session := { other with machine := { other.machine with trace := {} } }
  have again : Peers options high high apart other :=
    ⟨peers.another, peers.another, rfl, rfl⟩
  have legible : ¬IsUnwritable (apart.take left turn) := by
    obtain ⟨reply, -⟩ := replyTo_of_agree (again.outcome (fun _ => id) left turn written)
    unfold IsUnwritable at written ⊢
    rw [take_eq] at written ⊢
    rwa [reply]
  have beside : Peers options low high session apart :=
    ⟨peers.one, peers.another, peers.input, peers.output⟩
  obtain ⟨-, alike⟩ := replyTo_of_agree (beside.outcome nested left turn legible)
  obtain ⟨_, _, ⟨events, ⟨rfl, -⟩, ⟨rfl, -⟩⟩, kept, full⟩ := alike.trace
  refine ⟨events, ?_, ?_⟩
  · rw [take_eq]
    dsimp only
    rw [kept, Action.opened, if_neg traced]
  · have filed : (Action.machineAfter (apart.outcome left turn)).trace.filed = events.toArray := by
      rw [full, Action.opened, if_neg traced', Trace.addAll_of_open rfl]
      exact Array.empty_append
    show List.filterMap _ (Action.machineAfter (apart.outcome left turn)).trace.filed.toList = _
    rw [filed]

/-- The file grows by what is kept of the lines of each run. -/
theorem Peers.trace_takeAll (peers : Peers options low high session other) (traced : low ≠ 0)
    (traced' : high ≠ 0) (left : List Context) (turn : Turn) (turns : List Turn)
    (written : ∀ answer ∈ (other.takeAll left (turn :: turns)).1, ¬IsUnwritable answer) :
    ∃ events : List Event, (session.takeAll left (turn :: turns)).2.machine.trace =
        (session.machine.trace.start.addAll events).close ∧
      events.filterMap Event.render? =
        ((other.linesOfAll left (turn :: turns)).map (·.filter (Trace.keeps low))).flatten := by
  induction turns generalizing session other left turn with
  | nil =>
    obtain ⟨events, trace, lines⟩ := peers.trace_take nested traced traced' left turn
      (written _ List.mem_cons_self)
    refine ⟨_, trace, ?_⟩
    rw [Trace.filterMap_render?_filter, ← lines]
    exact (List.append_nil _).symm
  | cons next turns ih =>
    have first := written _ List.mem_cons_self
    obtain ⟨events, trace, lines⟩ := peers.trace_take nested traced traced' left turn first
    obtain ⟨same, later⟩ := peers.take nested left turn first
    have context : (session.take left turn).2.machine.context =
        (other.take left turn).2.machine.context := congrArg Sight.context same
    obtain ⟨more, trace', lines'⟩ := ih later
      ((other.take left turn).2.machine.context :: left) next
      (fun answer inside => written answer (List.mem_cons_of_mem _ inside))
    refine ⟨events.filter (Event.isHeeded low) ++ more, ?_, ?_⟩
    · rw [trace, Trace.start_close_addAll] at trace'
      rw [Trace.addAll_append, ← trace', ← context]
      rfl
    · rw [List.filterMap_append, lines', Trace.filterMap_render?_filter, ← lines]
      rfl

end Peers

/-- A run leaves what was traced to standard output as it was, and its file closed. -/
theorem shown_take (session : Session) (left : List Context) (turn : Turn) :
    (session.take left turn).2.machine.trace.shown = session.machine.trace.shown ∧
      (session.take left turn).2.machine.trace.isOpen = false := by
  have grown : ∃ inner events, Action.Recorded session.options.verbosity
      (Action.opened session.options.verbosity session.machine.trace) inner events ∧
      (session.take left turn).2.machine.trace = inner.close := by
    rw [take_eq]
    rcases Action.run_follows (fun _ => id) session.options turn.program
        (show Machine.Alike Eq (fun _ _ => True) (session.ready left turn)
          (session.ready left turn) from ⟨rfl, rfl, rfl, rfl, rfl, trivial⟩) with
      agree | ⟨after, inner, events, failed, recorded, trace⟩
    · obtain ⟨-, alike⟩ := replyTo_of_agree agree
      obtain ⟨inner, inner', ⟨events, -, recorded⟩, -, trace⟩ := alike.trace
      exact ⟨inner', events, recorded, trace⟩
    · have stuck : session.outcome left turn = .error .unwritable after := failed
      rw [stuck]
      exact ⟨inner, events, recorded, trace⟩
  obtain ⟨inner, events, ⟨rfl, low⟩, trace⟩ := grown
  rw [trace]
  refine ⟨?_, rfl⟩
  show (Trace.addAll _ events).shown = _
  unfold Action.opened
  split
  · next untraced =>
    have none : events = [] := by
      rw [List.eq_nil_iff_forall_not_mem]
      intro event inside
      have heeded := low event inside
      have positive := event.level_pos
      omega
    rw [none]
    rfl
  · have started : session.machine.trace.start.isOpen = true ∧
        session.machine.trace.start.shown = session.machine.trace.shown := by
      unfold Trace.start
      split <;> exact ⟨rfl, rfl⟩
    rw [Trace.addAll_of_open started.1]
    exact started.2

theorem shown_takeAll (session : Session) (left : List Context) (turns : List Turn) :
    ∀ answer ∈ (session.takeAll left turns).1,
      answer.2.machine.trace.shown = session.machine.trace.shown := by
  induction turns generalizing session left with
  | nil => exact List.forall_mem_nil _
  | cons turn turns ih =>
    have first := (session.shown_take left turn).1
    refine List.forall_mem_cons.mpr ⟨first, ?_⟩
    rw [← first]
    exact ih _ _

/-- Tracing changes nothing for as long as it can write. A sequence of runs on one session, each on a
context that may come from the earlier ones, shows the same replies, faults, contexts, input and output
at every verbosity as without tracing, one run after the other, until a run fails since a number is too
long to be written. No run traces to standard output. And if no run fails so with the full trace, the
file after the sequence holds the traces of the runs and nothing else, whatever it held before; and the
trace of each run is its full trace with only those lines that the verbosity keeps. -/
theorem tracing_changes_nothing_until_unwritable (options : Options) (input : Input)
    (output : Output) (stale : Option String) (verbosity : Nat) (turns : List Turn) :
    let session (level : Nat) : Session :=
      { options := { options with verbosity := level }
        machine := { input, output, trace := { earlier := stale } } }
    let answers (level : Nat) : List Answer := ((session level).takeAll [] turns).1
    (∃ count, ((answers verbosity).map sight).take count = ((answers 0).map sight).take count ∧
      (count = turns.length ∨
        ∃ answer, (answers verbosity)[count]? = some answer ∧ IsUnwritable answer)) ∧
    (∀ answer ∈ answers verbosity, answer.2.machine.trace.shown = #[]) ∧
    (0 < verbosity → turns ≠ [] → (∀ answer ∈ answers 3, ¬IsUnwritable answer) →
      ((session verbosity).takeAll [] turns).2.machine.trace.text? =
        some (String.join (((session 3).linesOfAll [] turns).map fun lines =>
          Trace.textOf (lines.filter (Trace.keeps verbosity))))) := by
  intro session answers
  have peers (low high : Nat) : Peers options low high (session low) (session high) :=
    ⟨rfl, rfl, rfl, rfl⟩
  refine ⟨?_, (session verbosity).shown_takeAll [] turns, ?_⟩
  · apply (peers 0 verbosity).takeAll
    intro event none
    exact absurd none (Nat.not_le.mpr event.level_pos)
  · intro traced runs written
    obtain ⟨turn, others, rfl⟩ := List.exists_cons_of_ne_nil runs
    obtain ⟨events, trace, lines⟩ := (peers verbosity 3).trace_takeAll
      (fun event _ => event.level_le) (Nat.pos_iff_ne_zero.mp traced) (by decide) [] turn others
      written
    have emptied : (session verbosity).machine.trace.start.text? = some "" := rfl
    have held : ∀ trace : Trace, trace.close.text? = trace.text? := fun _ => rfl
    rw [trace, held, Trace.text?_addAll rfl, emptied, Option.map_some, String.empty_append]
    show some (Trace.textOf (events.filterMap Event.render?)) = _
    rw [lines, Trace.textOf_flatten, List.map_map]
    rfl

/-- A program that prints a bit is run, and run again on the context that this leaves. -/
def printTwice : List Turn :=
  let program : Program := ⟨.int 0, [⟨.int 0, .print (.int 1), .absent, .int 0⟩]⟩
  [⟨program, fun _ => {}⟩, ⟨program, fun left => left.headD {}⟩]

/-- What the file held before is gone, and the second run continues it. -/
theorem tracing_changes_nothing_until_unwritable_printTwice :
    let session : Session :=
      { options := { verbosity := 1 }
        machine := { input := .prepared [], trace := { earlier := some "stale" } } }
    (session.takeAll [] printTwice).2.machine.trace.text? =
      some "line 0\nhalt after line 0\nline 0\nhalt after line 0\n" := by
  intro session
  let full : Session :=
    { options := { verbosity := 3 }
      machine := { input := .prepared [], trace := { earlier := some "stale" } } }
  have replies : (full.takeAll [] printTwice).1.all (fun answer => answer.1.isOk) = true := by
    decide +kernel
  have written : ∀ answer ∈ (full.takeAll [] printTwice).1, ¬IsUnwritable answer := by
    intro answer inside failed
    have halted := List.all_eq_true.mp replies answer inside
    rw [failed] at halted
    cases halted
  have lines : String.join ((full.linesOfAll [] printTwice).map fun lines =>
      Trace.textOf (lines.filter (Trace.keeps 1))) =
      "line 0\nhalt after line 0\nline 0\nhalt after line 0\n" := by
    decide +kernel
  have text := (tracing_changes_nothing_until_unwritable {} (.prepared []) {} (some "stale") 1
    printTwice).2.2 (by decide) (List.cons_ne_nil _ _) written
  rw [← lines]
  exact text

end Session

end BitMachine
