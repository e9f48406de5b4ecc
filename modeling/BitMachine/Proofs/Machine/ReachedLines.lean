import Mathlib.Data.List.Pairwise
import BitMachine.Proofs.Graph.Keys
import BitMachine.Proofs.Machine.StepLimit

/-! Lines that are never reached. Where targets are not looked up in memory, the lines that a run can
come to are known beforehand: the first one, and those that the branches of such lines lead to. Two
programs that have these lines in common run alike, whatever their other lines, their order, the
positions of the lines and the markers of their targets. -/

set_option autoImplicit false

namespace BitMachine

namespace Node

mutual

/-- The graph without the positions of its lines and the markers of its targets. -/
def unmarked : Node → Node
  | .target number _ => .target number (.bool false)
  | .valueAt child => .valueAt child.unmarked
  | .valueBeyond child => .valueBeyond child.unmarked
  | .addressOf child => .addressOf child.unmarked
  | .nand left right => .nand left.unmarked right.unmarked
  | .assignment address place source => .assignment address place.unmarked source.unmarked
  | .unconditional goal => .unconditional goal.unmarked
  | .conditional ifZero ifOne => .conditional ifZero.unmarked ifOne.unmarked
  | .line content => .line (unmarkedLine content)
  | .program first lines => .program first (unmarkedLines lines)
  | node => node

def unmarkedLine : LineOf Node → LineOf Node
  | ⟨number, instruction, branch, _⟩ => ⟨number, instruction.unmarked, branch.unmarked, .int 0⟩

def unmarkedLines : List (LineOf Node) → List (LineOf Node)
  | [] => []
  | content :: rest => unmarkedLine content :: unmarkedLines rest

end

/-- The line number of a target. -/
def goal? : Node → Option Json
  | .target number _ => some number
  | _ => none

/-- The line numbers of the targets of a branch. -/
def goals : Node → List Json
  | .unconditional goal => goal.goal?.toList
  | .conditional ifZero ifOne => ifZero.goal?.toList ++ ifOne.goal?.toList
  | _ => []

@[simp] theorem unmarkedLine_number (line : Line) : (unmarkedLine line).number = line.number := by
  cases line
  rfl

@[simp] theorem unmarkedLine_instruction (line : Line) :
    (unmarkedLine line).instruction = line.instruction.unmarked := by
  cases line
  rfl

@[simp] theorem unmarkedLine_branch (line : Line) :
    (unmarkedLine line).branch = line.branch.unmarked := by
  cases line
  rfl

@[simp] theorem kindName_unmarked (node : Node) : node.unmarked.kindName = node.kindName := by
  cases node <;> rfl

@[simp] theorem isAbsent_unmarked (node : Node) : node.unmarked.isAbsent = node.isAbsent := by
  cases node <;> rfl

end Node

namespace Program

/-- The numbers of the lines that a run can come to: the first one, and from each line of the program
with such a number those of its targets. -/
inductive Reaches (program : Program) : Json → Prop where
  | first : program.Reaches program.first
  | branch {number goal : Json} {line : Line} : program.Reaches number → line ∈ program.lines →
      line.number.same number = true → goal ∈ line.branch.goals → program.Reaches goal

/-- For every number that the one program reaches, neither program has a line, or both have the same
line, positions and markers aside. -/
def SameReached (left right : Program) : Prop :=
  ∀ number, left.Reaches number →
    (left.line? number).map Node.unmarkedLine = (right.line? number).map Node.unmarkedLine

theorem line?_of_same (program : Program) {number other : Json}
    (same : number.same other = true) : program.line? number = program.line? other := by
  unfold line? Json.same
  rw [Json.same_iff.mp same]

theorem same_of_line? {program : Program} {number : Json} {line : Line}
    (found : program.line? number = some line) : line.number.same number = true := by
  unfold line? at found
  have holds := List.find?_some found
  exact holds

/-- A line that can be told apart by its number is the one that its number leads to. -/
theorem line?_of_mem {program : Program} (listed : Node.Listed program.lines) {number : Json}
    {line : Line} (inside : line ∈ program.lines) (same : line.number.same number = true) :
    program.line? number = some line := by
  cases found : program.line? number with
  | none =>
    unfold line? at found
    exact absurd same (List.find?_eq_none.mp found line inside)
  | some other =>
    by_cases equal : other = line
    · rw [equal]
    · have symmetric : Std.Symm fun first later : Line =>
          first.number.same later.number = false := by
        constructor
        intro first later apart
        unfold Json.same at apart ⊢
        rwa [Bool.beq_comm]
      have apart := listed.distinct.forall (Action.mem_of_line? found) inside equal
      have joined : other.number.same line.number = true := by
        rw [Json.same_iff, Json.same_iff.mp (same_of_line? found), Json.same_iff.mp same]
      rw [joined] at apart
      cases apart

/-- A line with a number that is reached. -/
def ReachesLine (program : Program) (line : Line) : Prop :=
  ∃ number, program.Reaches number ∧ line.number.same number = true

/-- Programs whose lines can be told apart need only have the same lines, in whatever order. -/
theorem sameReached_of_mem {left right : Program} (listed : Node.Listed left.lines)
    (listed' : Node.Listed right.lines)
    (same : ∀ line, left.ReachesLine line →
      (Node.unmarkedLine line ∈ left.lines.map Node.unmarkedLine ↔
        Node.unmarkedLine line ∈ right.lines.map Node.unmarkedLine)) :
    left.SameReached right := by
  intro number reached
  have numbers : ∀ {line other : Line}, Node.unmarkedLine other = Node.unmarkedLine line →
      line.number.same number = true → other.number.same number = true := by
    intro line other equal here
    rwa [← Node.unmarkedLine_number, equal, Node.unmarkedLine_number]
  cases found : left.line? number with
  | some line =>
    have here := same_of_line? found
    have inside := List.mem_map_of_mem (f := Node.unmarkedLine) (Action.mem_of_line? found)
    obtain ⟨other, there, equal⟩ := List.mem_map.mp ((same line ⟨number, reached, here⟩).mp inside)
    rw [line?_of_mem listed' there (numbers equal here), Option.map_some, Option.map_some, equal]
  | none =>
    cases found' : right.line? number with
    | none => rfl
    | some line =>
      have here := same_of_line? found'
      have inside := List.mem_map_of_mem (f := Node.unmarkedLine) (Action.mem_of_line? found')
      obtain ⟨other, there, equal⟩ :=
        List.mem_map.mp ((same line ⟨number, reached, here⟩).mpr inside)
      rw [line?_of_mem listed there (numbers equal here)] at found
      cases found

end Program

namespace Action

section Unmarked

@[simp] theorem isRegister_unmarked (node : Node) : isRegister node.unmarked = isRegister node := by
  cases node <;> rfl

@[simp] theorem callsOf_unmarked (node : Node) : callsOf node.unmarked = callsOf node := by
  cases node <;> rfl

/-- Expressions have neither positions nor markers. -/
theorem evaluateWithin_unmarked (options : Options) (frames : Nat) (node : Node) :
    evaluateWithin options frames node.unmarked = evaluateWithin options frames node := by
  induction frames, node using frames_induction with
  | short frames node short =>
    rw [evaluateWithin_of_lt short, evaluateWithin_of_lt (callsOf_unmarked node ▸ short)]
  | enough rest node ih =>
    have parts : evaluateOver options (evaluateWithin options rest) node.unmarked =
        evaluateOver options (evaluateWithin options rest) node := by
      cases node with
      | nand left right =>
        rw [Node.unmarked, evaluateOver_nand, evaluateOver_nand, Node.isAbsent_unmarked, ih, ih]
      | addressOf child =>
        rw [Node.unmarked, evaluateOver_addressOf, evaluateOver_addressOf, isRegister_unmarked, ih]
      | valueBeyond child =>
        rw [Node.unmarked, evaluateOver, evaluateOver, ih]
      | valueAt child =>
        rw [Node.unmarked, evaluateOver, evaluateOver, ih]
      | _ => rfl
    have remarks : remark options node.unmarked = remark options node := by
      funext value
      rw [remark, remark, Node.kindName_unmarked]
    rw [← callsOf_unmarked node, evaluateWithin_add, callsOf_unmarked node, evaluateWithin_add,
      parts, remarks]

theorem evaluate_unmarked (options : Options) (node : Node) :
    evaluate options node.unmarked = evaluate options node :=
  evaluateWithin_unmarked options options.frames node

theorem execute_unmarked (options : Options) (node : Node) :
    execute options node.unmarked = execute options node := by
  cases node with
  | assignment address place source =>
    rw [Node.unmarked, execute_assignment, execute_assignment, Node.isAbsent_unmarked,
      placeOf_eq, placeOf_eq, evaluate_unmarked, evaluate_unmarked]
  | _ => rfl

variable {options : Options}

/-- Where targets are not looked up, their markers make no difference. -/
theorem resolve_unmarked (direct : options.indirectGoto = false) (node : Node) :
    resolve options node.unmarked = resolve options node := by
  cases node with
  | target number indirect =>
    rw [Node.unmarked, resolve_target, resolve_target, direct, Bool.and_false, Bool.and_false]
  | _ => rfl

theorem successor_unmarked (direct : options.indirectGoto = false) (line : Line) :
    successor options (Node.unmarkedLine line) = successor options line := by
  rw [successor_eq, successor_eq, Node.unmarkedLine_branch]
  cases line.branch with
  | unconditional goal => exact resolve_unmarked direct goal
  | conditional ifZero ifOne =>
    simp only [Node.unmarked, Node.isAbsent_unmarked, resolve_unmarked direct]
  | _ => rfl

end Unmarked

section Successors

variable {options : Options} {machine after : Machine}

theorem resolve_eq_ok (direct : options.indirectGoto = false) {node : Node} {number : Json}
    (resolved : resolve options node machine = .ok number after) : number ∈ node.goal?.toList := by
  cases node with
  | target goal indirect =>
    rw [resolve_target, direct, Bool.and_false] at resolved
    cases resolved
    exact List.mem_singleton_self _
  | _ => cases resolved

/-- The line after a line is one that its branch leads to. -/
theorem successor_eq_ok (direct : options.indirectGoto = false) {line : Line} {number : Json}
    (found : successor options line machine = .ok number after) :
    number = .null ∨ number ∈ line.branch.goals := by
  cases branches : line.branch with
  | unconditional goal =>
    rw [successor_eq, branches] at found
    exact Or.inr (resolve_eq_ok direct found)
  | conditional ifZero ifOne =>
    rw [successor_conditional options branches machine] at found
    split at found
    · exact Or.inr (List.mem_append_left _ (resolve_eq_ok direct found))
    · split at found
      · exact Or.inr (List.mem_append_right _ (resolve_eq_ok direct found))
      · cases found
        exact Or.inl rfl
  | absent =>
    rw [successor_eq, branches] at found
    cases found
    exact Or.inl rfl
  | _ =>
    rw [successor_eq, branches] at found
    cases found

end Successors

section Runs

variable {options : Options} {left right : Program} {line line' : Line} {machine : Machine}

/-- Two lines that stand for each other in the runs of two programs. -/
structure Corresponds (left : Program) (line line' : Line) : Prop where
  reached : ∃ number, left.Reaches number ∧ left.line? number = some line
  same : Node.unmarkedLine line = Node.unmarkedLine line'

/-- What the lines after two lines lead to. -/
inductive Together (left : Program) :
    EStateM.Result Fault Machine (Option Line) → EStateM.Result Fault Machine (Option Line) → Prop
  | failed (fault : Fault) (after : Machine) : Together left (.error fault after) (.error fault after)
  | halted (after : Machine) : Together left (.ok none after) (.ok none after)
  | going {next next' : Line} (after : Machine) (lines : Corresponds left next next') :
      Together left (.ok (some next) after) (.ok (some next') after)

/-- Both programs have the line that a reached number stands for, or both lack it. -/
theorem arrive_together (agree : left.SameReached right) (same : line.number = line'.number)
    {number : Json} (reached : number = .null ∨ left.Reaches number) :
    Together left (arrive options left line number machine)
      (arrive options right line' number machine) := by
  unfold arrive
  rw [same]
  by_cases last : number = .null
  · rw [if_pos last, if_pos last]
    rcases record_run options (.halt line'.number) machine with ⟨trace, recorded⟩ | failed
    · rw [bind_of_ok _ recorded]
      exact .halted _
    · rw [bind_of_error _ failed]
      exact .failed _ _
  · have reaches := reached.resolve_left last
    rw [if_neg last, if_neg last]
    by_cases key : (!number.isKey) = true
    · rw [if_pos key, if_pos key]
      exact .failed _ _
    · rw [if_neg key, if_neg key]
      have lines := agree number reaches
      cases found : left.line? number with
      | none =>
        rw [found, Option.map_none, eq_comm, Option.map_eq_none_iff] at lines
        rw [lines]
        exact .failed _ _
      | some next =>
        rw [found, Option.map_some, eq_comm, Option.map_eq_some_iff] at lines
        obtain ⟨next', found', equal⟩ := lines
        rw [found']
        dsimp only
        rcases record_run options (.goto number) machine with ⟨trace, recorded⟩ | failed
        · rw [bind_of_ok _ recorded, bind_of_ok _ recorded]
          exact .going _ ⟨⟨number, reaches, found⟩, equal.symm⟩
        · rw [bind_of_error _ failed, bind_of_error _ failed]
          exact .failed _ _

/-- One step: the lines that correspond do the same, and lead to lines that correspond. -/
theorem step_together (direct : options.indirectGoto = false) (agree : left.SameReached right)
    (lines : Corresponds left line line') :
    Together left (step options left line machine) (step options right line' machine) := by
  obtain ⟨⟨number, reached, found⟩, same⟩ := lines
  have numbers : line.number = line'.number := by
    rw [← Node.unmarkedLine_number, same, Node.unmarkedLine_number]
  have enters : enter options line = enter options line' := by
    rw [enter_eq, enter_eq, numbers]
  have executes : execute options line.instruction = execute options line'.instruction := by
    rw [← execute_unmarked, ← Node.unmarkedLine_instruction, same, Node.unmarkedLine_instruction,
      execute_unmarked]
  have follows : successor options line = successor options line' := by
    rw [← successor_unmarked direct, same, successor_unmarked direct]
  rw [step_eq, step_eq, ← enters, ← executes, ← follows]
  cases began : enter options line machine with
  | error fault after =>
    rw [bind_of_error _ began, bind_of_error _ began]
    exact .failed _ _
  | ok _ entered =>
    rw [bind_of_ok _ began, bind_of_ok _ began]
    cases done : execute options line.instruction entered with
    | error fault after =>
      rw [bind_of_error _ done, bind_of_error _ done]
      exact .failed _ _
    | ok _ executed =>
      rw [bind_of_ok _ done, bind_of_ok _ done]
      cases chosen : successor options line executed with
      | error fault after =>
        rw [bind_of_error _ chosen, bind_of_error _ chosen]
        exact .failed _ _
      | ok goal after =>
        rw [bind_of_ok _ chosen, bind_of_ok _ chosen]
        apply arrive_together agree numbers
        refine (successor_eq_ok direct chosen).imp_right fun inside => ?_
        exact .branch reached (mem_of_line? found) (Program.same_of_line? found) inside

theorem runFrom_together (direct : options.indirectGoto = false) (agree : left.SameReached right)
    (fuel : Nat) (lines : Corresponds left line line') :
    Together left (runFrom options left fuel line machine)
      (runFrom options right fuel line' machine) := by
  induction fuel generalizing line line' machine with
  | zero => exact .going machine lines
  | succ fuel ih =>
    rw [runFrom_succ, runFrom_succ]
    have first : Together left (step options left line machine) (step options right line' machine) :=
      step_together direct agree lines
    generalize stepped : step options left line machine = outcome at first
    generalize stepped' : step options right line' machine = outcome' at first
    cases first with
    | failed fault after =>
      rw [bind_of_error _ stepped, bind_of_error _ stepped']
      exact .failed fault after
    | halted after =>
      rw [bind_of_ok _ stepped, bind_of_ok _ stepped']
      exact .halted after
    | going after lines =>
      rw [bind_of_ok _ stepped, bind_of_ok _ stepped']
      exact ih lines

/-- The first lines of the two programs correspond. -/
theorem runFor_together (direct : options.indirectGoto = false)
    (first : left.first.same right.first = true) (agree : left.SameReached right) (fuel : Nat) :
    Together left (runFor options fuel left machine) (runFor options fuel right machine) := by
  have entries : (left.entry?).map Node.unmarkedLine = (right.entry?).map Node.unmarkedLine := by
    unfold Program.entry?
    rw [← right.line?_of_same first]
    exact agree left.first .first
  rw [runFor_eq, runFor_eq]
  cases found : left.entry? with
  | none =>
    rw [found, Option.map_none, eq_comm, Option.map_eq_none_iff] at entries
    rw [entries]
    exact .failed _ _
  | some line =>
    rw [found, Option.map_some, eq_comm, Option.map_eq_some_iff] at entries
    obtain ⟨line', found', equal⟩ := entries
    rw [found']
    have together : Together left (runFrom options left fuel line machine)
        (runFrom options right fuel line' machine) :=
      runFrom_together direct agree fuel ⟨⟨left.first, .first, found⟩, equal.symm⟩
    dsimp only [located]
    generalize runFrom options left fuel line machine = outcome at together
    generalize runFrom options right fuel line' machine = outcome' at together
    cases together with
    | failed fault after => exact .failed _ _
    | halted after => exact .halted _
    | going after lines => exact .going _ lines

/-- An outcome in which the line to go on with has neither a position nor markers. -/
def unmarkedOutcome :
    EStateM.Result Fault Machine (Option Line) → EStateM.Result Fault Machine (Option Line)
  | .ok next after => .ok (next.map Node.unmarkedLine) after
  | .error fault after => .error fault after

theorem Together.unmarkedOutcome_eq
    {outcome outcome' : EStateM.Result Fault Machine (Option Line)}
    (together : Together left outcome outcome') :
    unmarkedOutcome outcome = unmarkedOutcome outcome' := by
  cases together with
  | failed fault after => rfl
  | halted after => rfl
  | going after lines =>
    rw [unmarkedOutcome, unmarkedOutcome, Option.map_some, Option.map_some, lines.same]

theorem run_eq_of_sameReached (direct : options.indirectGoto = false)
    (first : left.first.same right.first = true) (agree : left.SameReached right) :
    run options left machine = run options right machine := by
  apply traced_congr rfl
  intro trace
  have together : Together left (runFor options options.patience left { machine with trace })
      (runFor options options.patience right { machine with trace }) :=
    runFor_together direct first agree options.patience
  generalize ran : runFor options options.patience left { machine with trace } = outcome at together
  generalize ran' : runFor options options.patience right { machine with trace } = outcome'
    at together
  cases together with
  | failed fault after => rw [bind_of_error _ ran, bind_of_error _ ran']
  | halted after => rw [bind_of_ok _ ran, bind_of_ok _ ran']
  | going after lines =>
    rw [bind_of_ok _ ran, bind_of_ok _ ran']

/-- Where targets are not looked up in memory, a run depends on the lines that are reached and on
nothing else of the program. If two programs start with the same number and have the same line or
none for every number that is reached, positions and markers aside, then from equal machines they
come to the same result or fault, output, input, trace and context, however long they are followed.
For programs whose lines are told apart by their numbers this means: lines that are not reached, the
order of the lines and the markers of targets have no effect. -/
theorem only_reached_lines_matter (options : Options) (direct : options.indirectGoto = false)
    (left : Program) (start : Machine) :
    (∀ right : Program, left.first.same right.first = true → left.SameReached right →
      (∀ fuel, unmarkedOutcome (runFor options fuel left start) =
        unmarkedOutcome (runFor options fuel right start)) ∧
      run options left start = run options right start) ∧
    (∀ lines : List Line, Node.Listed left.lines → Node.Listed lines →
      (∀ line, left.ReachesLine line →
        (Node.unmarkedLine line ∈ left.lines.map Node.unmarkedLine ↔
          Node.unmarkedLine line ∈ lines.map Node.unmarkedLine)) →
      run options left start = run options ⟨left.first, lines⟩ start) := by
  constructor
  · intro right first agree
    constructor
    · intro fuel
      exact (runFor_together direct first agree fuel).unmarkedOutcome_eq
    · exact run_eq_of_sameReached direct first agree
  · intro lines listed listed' same
    have agree : left.SameReached ⟨left.first, lines⟩ :=
      Program.sameReached_of_mem listed listed' same
    exact run_eq_of_sameReached direct (Json.same_self _) agree

/-- A program that prints a bit and then reads one. Its last line is never reached. -/
def printThenRead : Program where
  first := .int 0
  lines := [
    ⟨.int 0, .print (.int 1), .unconditional (.target (.int 1) (.bool false)), .int 0⟩,
    ⟨.int 1, .read, .absent, .int 30⟩,
    ⟨.int 2, .print (.int 0), .unconditional (.target (.int 0) (.bool false)), .int 60⟩]

/-- The same program without the last line, in another order, and with a marked target. -/
def printThenReadRearranged : Program where
  first := .int 0
  lines := [
    ⟨.int 1, .read, .absent, .int 0⟩,
    ⟨.int 0, .print (.int 1), .unconditional (.target (.int 1) (.bool true)), .int 10⟩]

theorem only_reached_lines_matter_printThenRead :
    let start : Machine := { input := .prepared [.int 1] }
    printThenReadRearranged.lineNumbers = [.int 1, .int 0] ∧
      run {} printThenRead start = run {} printThenReadRearranged start := by
  intro start
  have reached : ∀ number, printThenRead.Reaches number → number = .int 0 ∨ number = .int 1 := by
    intro number reaches
    induction reaches with
    | first => exact Or.inl rfl
    | branch _ inside same leads ih =>
      simp only [printThenRead, List.mem_cons, List.not_mem_nil, or_false] at inside
      rcases inside with rfl | rfl | rfl
      · exact Or.inr (List.mem_singleton.mp leads)
      · cases leads
      · rcases ih with rfl | rfl <;> cases same
  have agree : printThenRead.SameReached printThenReadRearranged := by
    intro number reaches
    rcases reached number reaches with rfl | rfl <;> rfl
  have matters := (only_reached_lines_matter {} rfl printThenRead start).1
  exact ⟨rfl, (matters printThenReadRearranged rfl agree).2⟩

end Runs

end Action

end BitMachine
