import BitMachine.Grammar.Automaton.Parser

/-! The automaton on keywords: between two keywords it applies productions until none is complete
under the next keyword, and then it takes that keyword in. -/

set_option autoImplicit false

namespace BitMachine.Automaton

/-- A keyword and where it starts. -/
abbrev Token := Keyword × Nat

/-- The keyword that comes next. -/
def next (tokens : List Token) : Lookahead :=
  tokens.head?.map (·.1)

@[simp] theorem next_nil : next [] = none := rfl

@[simp] theorem next_cons (token : Token) (tokens : List Token) :
    next (token :: tokens) = some token.1 := rfl

namespace State

def all : List State :=
  [.start, .accepted, .lines, .firstLine, .linesLine, .lineNumber, .lineNumberBits, .code,
    .codeInstruction, .lineBranch, .command, .assignment, .print, .printBit, .read,
    .assignedVariable, .variableEquals, .variableEqualsExpression, .computedPlace,
    .computedEquals, .computedEqualsExpression, .placeOperand, .placeNand, .placeNandOperand,
    .placeBeyond, .placeTheAddressOf, .placeAddressOfOperand, .placeAt, .placeTheValueBeyond,
    .placeValueBeyondOperand, .placePrimary, .placeTheValueAt, .placeValueAtPrimary, .placeBits,
    .placeOpen, .placeOpenExpression, .placeClosed, .operand, .operandNand, .operandNandOperand,
    .beyondOperand, .theAddressOf, .addressOfOperand, .atOperand, .theValueBeyond,
    .valueBeyondOperand, .primary, .theValueAt, .valueAtPrimary, .primaryVariable, .primaryBits,
    .openParenthesis, .openExpression, .closed, .variableKeyword, .variableBits, .theJumpRegister,
    .goto, .gotoGoal, .gotoGoalCondition, .secondGoto, .secondGoal, .secondCondition, .goalBits,
    .markerKeyword, .marker, .markerBits, .ifTheJumpRegisterIs, .ifBit, .ifEqualTo, .ifEqualToBit,
    .run, .runBit, .firstBit, .zero, .one]

theorem mem_all (state : State) : state ∈ all := by
  cases state <;> decide

/-- Whether no production is complete in a state under a lookahead. -/
def waits (state : State) (lookahead : Lookahead) : Bool :=
  match state.reduction? with
  | none => true
  | some (_, followers) => !followers.contains lookahead

/-- A bound on how many productions with a single part may be applied from a state on. -/
def rank : State → Nat
  | .zero | .one | .theJumpRegister | .markerKeyword | .read => 15
  | .firstBit | .runBit | .printBit | .ifBit | .ifEqualToBit => 14
  | .run => 13
  | .placeBits | .primaryBits | .goalBits | .lineNumberBits | .variableBits | .markerBits => 12
  | .primaryVariable | .assignedVariable => 11
  | .primary | .placePrimary | .valueAtPrimary | .placeValueAtPrimary => 10
  | .atOperand | .placeAt | .valueBeyondOperand | .placeValueBeyondOperand => 9
  | .beyondOperand | .placeBeyond | .addressOfOperand | .placeAddressOfOperand => 8
  | .operand | .placeOperand | .operandNandOperand | .placeNandOperand => 7
  | .command | .assignment => 6
  | .firstLine => 5
  | .lines => 4
  | _ => 0

theorem rank_le (state : State) : state.rank ≤ 15 := by
  cases state <;> decide

/-- A production with a single part leads to a state of lower rank. -/
theorem rank_goto_lt {state below next : State} {production : Production}
    {followers : List Lookahead} (complete : state.reduction? = some (production, followers))
    (single : production.rhs.length = 1) (leads : below.gotos.lookup production.lhs = some next) :
    next.rank < state.rank := by
  have checked : ∀ state ∈ all, ∀ entry ∈ state.reduction?, entry.1.rhs.length = 1 →
      ∀ below ∈ all, ∀ next ∈ below.gotos.lookup entry.1.lhs, next.rank < state.rank := by
    decide +kernel
  exact checked state (mem_all state) _ complete single below (mem_all below) next leads

end State

theorem Production.rhs_ne_nil (production : Production) : production.rhs ≠ [] := by
  cases production <;> decide

/-- A production is built from as many parts as it has. -/
theorem Production.length_of_build {production : Production} {parts : List Payload}
    {payload : Payload} (built : production.build parts = some payload) :
    parts.length = production.rhs.length := by
  unfold build at built
  split at built <;> first | rfl | cases built

/-- The positions of a draft: where its line starts, and where its branch clashes if it does. -/
def Draft.positions (draft : Draft) : List Nat :=
  draft.line.start :: draft.clash.toList

/-- The positions that are kept for a symbol. -/
def Payload.positions : Payload → List Nat
  | .word position => [position]
  | .number _ => []
  | .node _ => []
  | .branch _ clash => clash.toList
  | .line draft => draft.positions
  | .lines drafts => drafts.flatMap Draft.positions

theorem toList_clash_subset (clashes : Prop) [Decidable clashes] (position other : Nat) :
    (if clashes then some position else none).toList ⊆ [position, other] := by
  split <;> simp

/-- What a production makes of its parts keeps no positions but theirs. -/
theorem Production.positions_of_build {production : Production} {parts : List Payload}
    {payload : Payload} (built : production.build parts = some payload) :
    payload.positions ⊆ parts.flatMap Payload.positions := by
  unfold build at built
  split at built <;> cases built <;>
    simp [Payload.positions, Draft.positions, LineOf.start, toList_clash_subset]

namespace Stack

/-- Applies the production that is complete under a lookahead. -/
def reduceOnce? (stack : Stack) (lookahead : Lookahead) : Option Stack :=
  match (state stack).reduction? with
  | none => none
  | some (production, followers) =>
    if followers.contains lookahead then reduce? stack production else none

theorem settleWithin_succ (fuel : Nat) (stack : Stack) (lookahead : Lookahead) :
    settleWithin (fuel + 1) stack lookahead =
      match reduceOnce? stack lookahead with
      | some reduced => settleWithin fuel reduced lookahead
      | none => stack := by
  rw [settleWithin, reduceOnce?]
  cases (state stack).reduction? with
  | none => rfl
  | some entry =>
    obtain ⟨production, followers⟩ := entry
    dsimp only
    split
    · cases reduce? stack production <;> rfl
    · rfl

theorem reduceOnce?_of_waits {stack : Stack} {lookahead : Lookahead}
    (waits : (state stack).waits lookahead = true) : reduceOnce? stack lookahead = none := by
  unfold State.waits at waits
  rw [reduceOnce?]
  cases complete : (state stack).reduction? with
  | none => rfl
  | some entry =>
    rw [complete] at waits
    dsimp only at waits ⊢
    rw [if_neg (by simpa only [Bool.not_eq_true', Bool.not_eq_true] using waits)]

/-- How much settling is left at most. -/
def potential (stack : Stack) : Nat :=
  16 * stack.length + (state stack).rank

/-- Applying a production brings settling closer to its end. -/
theorem potential_lt {stack reduced : Stack} {lookahead : Lookahead}
    (step : reduceOnce? stack lookahead = some reduced) :
    potential reduced < potential stack := by
  unfold reduceOnce? at step
  cases complete : (state stack).reduction? with
  | none =>
    rw [complete] at step
    cases step
  | some entry =>
    obtain ⟨production, followers⟩ := entry
    rw [complete] at step
    dsimp only at step
    split at step
    · unfold reduce? at step
      dsimp only at step
      split at step
      · next payload next built leads =>
        cases step
        have count := Production.length_of_build built
        rw [List.length_map, List.length_reverse, List.length_take] at count
        have positive := List.length_pos_iff.mpr production.rhs_ne_nil
        have bound := State.rank_le next
        by_cases single : production.rhs.length = 1
        · have lower := State.rank_goto_lt complete single leads
          simp only [potential, List.length_cons, List.length_drop, state] at lower ⊢
          omega
        · simp only [potential, List.length_cons, List.length_drop, state]
          omega
      · cases step
    · cases step

theorem settleWithin_add {fuel : Nat} {stack : Stack} {lookahead : Lookahead}
    (enough : potential stack ≤ fuel) (extra : Nat) :
    settleWithin (fuel + extra) stack lookahead = settleWithin fuel stack lookahead := by
  induction fuel generalizing stack with
  | zero =>
    cases extra with
    | zero => rfl
    | succ extra =>
      rw [Nat.zero_add, settleWithin_succ]
      cases step : reduceOnce? stack lookahead with
      | none => rfl
      | some reduced =>
        have less := potential_lt step
        omega
  | succ fuel ih =>
    rw [Nat.add_right_comm, settleWithin_succ, settleWithin_succ]
    cases step : reduceOnce? stack lookahead with
    | none => rfl
    | some reduced =>
      have less := potential_lt step
      exact ih (by omega)

theorem settle_of_waits {stack : Stack} {lookahead : Lookahead}
    (waits : (state stack).waits lookahead = true) : settle stack lookahead = stack := by
  unfold settle
  cases bound : 16 * (stack.length + 1) with
  | zero => rfl
  | succ fuel => rw [settleWithin_succ, reduceOnce?_of_waits waits]

/-- The bound on settling is never reached, so one application more or less makes no difference. -/
theorem settle_of_reduceOnce? {stack reduced : Stack} {lookahead : Lookahead}
    (step : reduceOnce? stack lookahead = some reduced) :
    settle stack lookahead = settle reduced lookahead := by
  have less := potential_lt step
  have bound := State.rank_le (state stack)
  have room : potential reduced ≤ 16 * (reduced.length + 1) := by
    have bound := State.rank_le (state reduced)
    simp only [potential]
    omega
  have left : potential reduced ≤ 16 * stack.length + 15 := by
    simp only [potential] at less ⊢
    omega
  calc settle stack lookahead
      = settleWithin (16 * stack.length + 15) reduced lookahead := by
        rw [settle, show 16 * (stack.length + 1) = 16 * stack.length + 15 + 1 by omega,
          settleWithin_succ, step]
    _ = settleWithin (potential reduced) reduced lookahead := by
        rw [← Nat.add_sub_of_le left, settleWithin_add (Nat.le_refl _)]
    _ = settle reduced lookahead := by
        rw [settle, ← Nat.add_sub_of_le room, settleWithin_add (Nat.le_refl _)]

end Stack

/-- Takes in keywords up to the end, and gives the lines that they make. -/
def feed : Stack → List Token → Option (List Draft)
  | stack, [] => Stack.drafts? (Stack.settle stack none)
  | stack, (word, position) :: tokens =>
    let settled := Stack.settle stack (some word)
    match (Stack.state settled).shifts.lookup word with
    | some state => feed (⟨state, .word position⟩ :: settled) tokens
    | none => none

theorem feed_of_settle_eq {stack other : Stack} {tokens : List Token}
    (same : Stack.settle stack (next tokens) = Stack.settle other (next tokens)) :
    feed stack tokens = feed other tokens := by
  cases tokens with
  | nil =>
    rw [next_nil] at same
    rw [feed, feed, same]
  | cons token tokens =>
    rw [next_cons] at same
    obtain ⟨word, position⟩ := token
    rw [feed, feed, same]

/-- The topmost symbols are replaced by the phrase that they make. -/
theorem feed_reduce (frames : Stack) {below : Stack} {tokens : List Token} {production : Production}
    {followers : List Lookahead} {payload : Payload} {state : State}
    (complete : (Stack.state (frames ++ below)).reduction? = some (production, followers))
    (follows : next tokens ∈ followers) (count : frames.length = production.rhs.length)
    (built : production.build (frames.reverse.map (·.payload)) = some payload)
    (leads : (Stack.state below).gotos.lookup production.lhs = some state) :
    feed (frames ++ below) tokens = feed (⟨state, payload⟩ :: below) tokens := by
  refine feed_of_settle_eq (Stack.settle_of_reduceOnce? ?_)
  have taken : (frames ++ below).take production.rhs.length = frames := by
    rw [← count, List.take_left]
  have dropped : (frames ++ below).drop production.rhs.length = below := by
    rw [← count, List.drop_left]
  rw [Stack.reduceOnce?, complete]
  dsimp only
  rw [if_pos (List.contains_iff_mem.mpr follows), Stack.reduce?, taken, dropped, built, leads]

/-- The next keyword is taken in. -/
theorem feed_shift {stack : Stack} {word : Keyword} {position : Nat} {tokens : List Token}
    {state : State} (waits : (Stack.state stack).waits (some word) = true)
    (leads : (Stack.state stack).shifts.lookup word = some state) :
    feed stack ((word, position) :: tokens) = feed (⟨state, .word position⟩ :: stack) tokens := by
  rw [feed, Stack.settle_of_waits waits, leads]

end BitMachine.Automaton
