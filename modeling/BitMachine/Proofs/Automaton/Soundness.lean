import BitMachine.Proofs.Automaton.Completeness

/-! The automaton accepts nothing but the keywords of derivations. The symbols on its stack stand
for the keywords taken in so far, and a production is only applied where its parts lie on top of the
stack. -/

set_option autoImplicit false

namespace BitMachine.Automaton

open BitMachine.Derivation (bitWord Numeral Place Layer Expression StartsWithPlace Instruction Goal
  Condition Branch)

section Spans

/-- Some phrase of a layer with these keywords starts a computed place. -/
def Computes (layer : Layer) (words : List Keyword) : Prop :=
  ∃ phrase : Expression layer, ¬StartsWithPlace phrase.words ∧ phrase.words = words

/-- The keywords that a phrase may have. -/
def Nonterminal.Spans : Nonterminal → List Keyword → Prop
  | .program, words | .lines, words => ∃ derived : Derivation.Program, derived.words = words
  | .line, words => ∃ line : Derivation.Line, line.words = words
  | .instruction, words | .command, words | .assignment, words =>
    ∃ instruction : Instruction, instruction.words = words
  | .branch, words => ∃ branch : Branch, branch.words = words
  | .goal, words => ∃ goal : Goal, goal.words = words
  | .marker, words => [.variable] = words
  | .condition, words => ∃ condition : Condition, condition.words = words
  | .expression, words => ∃ phrase : Expression .expression, phrase.words = words
  | .operand, words => ∃ phrase : Expression .operand, phrase.words = words
  | .beyondOperand, words => ∃ phrase : Expression .valueBeyond, phrase.words = words
  | .atOperand, words => ∃ phrase : Expression .valueAt, phrase.words = words
  | .primary, words => ∃ phrase : Expression .primary, phrase.words = words
  | .computedPlace, words => Computes .expression words
  | .placeOperand, words => Computes .operand words
  | .placeBeyond, words => Computes .valueBeyond words
  | .placeAt, words => Computes .valueAt words
  | .placePrimary, words => Computes .primary words
  | .variable, words => ∃ spot : Place, spot.words = words
  | .bits, words | .run, words => ∃ numeral : Numeral, numeral.words = words
  | .bit, words => ∃ bit : Bool, [bitWord bit] = words

/-- The keywords that a symbol may stand for. -/
def Symbol.Spans : Symbol → List Keyword → Prop
  | .word keyword, words => [keyword] = words
  | .phrase name, words => name.Spans words

/-- The keywords that symbols in a row may stand for. -/
def SpansAll : List Symbol → List Keyword → Prop
  | [], words => [] = words
  | symbol :: symbols, words =>
    ∃ front, symbol.Spans front ∧ ∃ back, SpansAll symbols back ∧ front ++ back = words

theorem spansAll_concat {symbols : List Symbol} {symbol : Symbol} {front back : List Keyword}
    (first : SpansAll symbols front) (last : symbol.Spans back) :
    SpansAll (symbols ++ [symbol]) (front ++ back) := by
  induction symbols generalizing front with
  | nil =>
    cases first
    exact ⟨back, last, [], rfl, List.append_nil back⟩
  | cons other symbols ih =>
    obtain ⟨start, one, rest, more, rfl⟩ := first
    exact ⟨start, one, rest ++ back, ih more, (List.append_assoc ..).symm⟩

theorem spansAll_one {symbol : Symbol} {words : List Keyword} (parts : SpansAll [symbol] words) :
    symbol.Spans words := by
  obtain ⟨front, spans, back, rfl, rfl⟩ := parts
  rwa [List.append_nil]

theorem spansAll_two {first second : Symbol} {words : List Keyword}
    (parts : SpansAll [first, second] words) :
    ∃ front, first.Spans front ∧ ∃ back, second.Spans back ∧ front ++ back = words := by
  obtain ⟨front, spans, back, others, rfl⟩ := parts
  exact ⟨front, spans, back, spansAll_one others, rfl⟩

theorem spansAll_three {first second third : Symbol} {words : List Keyword}
    (parts : SpansAll [first, second, third] words) :
    ∃ front, first.Spans front ∧ ∃ middle, second.Spans middle ∧ ∃ back, third.Spans back ∧
      front ++ (middle ++ back) = words := by
  obtain ⟨front, spans, rest, others, rfl⟩ := parts
  obtain ⟨middle, inside, back, last, rfl⟩ := spansAll_two others
  exact ⟨front, spans, middle, inside, back, last, rfl⟩

theorem words_concat (numeral : Numeral) (bit : Bool) :
    (Numeral.mk numeral.first (numeral.more ++ [bit])).words = numeral.words ++ [bitWord bit] := by
  simp only [Numeral.words, List.map_append, List.map_cons, List.map_nil, List.cons_append]

/-- The keywords of a production's parts are those of a phrase that it builds. -/
theorem Production.spans (production : Production) {words : List Keyword}
    (parts : SpansAll production.rhs words) : production.lhs.Spans words := by
  cases production with
  | program => exact spansAll_one parts
  | firstLine =>
    obtain ⟨line, rfl⟩ := spansAll_one parts
    exact ⟨⟨line, []⟩, List.append_nil line.words⟩
  | nextLine =>
    obtain ⟨_, ⟨⟨first, more⟩, rfl⟩, _, ⟨line, rfl⟩, rfl⟩ := spansAll_two parts
    refine ⟨⟨first, more ++ [line]⟩, ?_⟩
    simp only [Derivation.Program.words, Derivation.Program.lines, List.flatMap_cons,
      List.flatMap_append, List.flatMap_nil, List.append_nil, List.append_assoc]
  | plainLine =>
    obtain ⟨_, rfl, _, ⟨_, ⟨number, rfl⟩, _, code, rfl⟩, rfl⟩ := parts
    obtain ⟨_, rfl, _, ⟨instruction, rfl⟩, rfl⟩ := spansAll_two code
    exact ⟨⟨number, instruction, none⟩, by simp only [Derivation.Line.words,
      Derivation.Line.branchWords, List.append_nil, List.cons_append, List.nil_append]⟩
  | branchingLine =>
    obtain ⟨_, rfl, _, ⟨_, ⟨number, rfl⟩, _, code, rfl⟩, rfl⟩ := parts
    obtain ⟨_, rfl, _, ⟨instruction, rfl⟩, _, ⟨branch, rfl⟩, rfl⟩ := spansAll_three code
    exact ⟨⟨number, instruction, some branch⟩, rfl⟩
  | commandInstruction => exact spansAll_one parts
  | assignmentInstruction => exact spansAll_one parts
  | print =>
    obtain ⟨_, rfl, _, ⟨bit, rfl⟩, rfl⟩ := spansAll_two parts
    exact ⟨.print bit, rfl⟩
  | read =>
    cases spansAll_one parts
    exact ⟨.read, rfl⟩
  | assignVariable =>
    obtain ⟨_, ⟨spot, rfl⟩, _, rfl, _, ⟨source, rfl⟩, rfl⟩ := spansAll_three parts
    exact ⟨.assignment (.place spot) source, rfl⟩
  | assignComputed =>
    obtain ⟨_, ⟨address, computes, rfl⟩, _, rfl, _, ⟨source, rfl⟩, rfl⟩ := spansAll_three parts
    exact ⟨.assignment (.computed address computes) source, rfl⟩
  | jump =>
    obtain ⟨_, rfl, _, ⟨goal, rfl⟩, rfl⟩ := spansAll_two parts
    exact ⟨.jump goal, rfl⟩
  | oneArm =>
    obtain ⟨_, rfl, _, ⟨goal, rfl⟩, _, ⟨asked, rfl⟩, rfl⟩ := spansAll_three parts
    exact ⟨.oneArm goal asked, rfl⟩
  | twoArms =>
    obtain ⟨_, rfl, _, ⟨_, ⟨first, rfl⟩, _, ⟨_, ⟨asked, rfl⟩, _, again, rfl⟩, rfl⟩, rfl⟩ := parts
    obtain ⟨_, rfl, _, ⟨second, rfl⟩, _, ⟨other, rfl⟩, rfl⟩ := spansAll_three again
    exact ⟨.twoArms first asked second other, rfl⟩
  | directGoal =>
    obtain ⟨number, rfl⟩ := spansAll_one parts
    exact ⟨⟨false, number⟩, rfl⟩
  | markedGoal =>
    obtain ⟨_, rfl, _, ⟨number, rfl⟩, rfl⟩ := spansAll_two parts
    exact ⟨⟨true, number⟩, rfl⟩
  | marker => exact spansAll_one parts
  | condition =>
    obtain ⟨_, rfl, _, ⟨bit, rfl⟩, rfl⟩ := spansAll_two parts
    exact ⟨⟨false, bit⟩, rfl⟩
  | longCondition =>
    obtain ⟨_, rfl, _, rfl, _, ⟨bit, rfl⟩, rfl⟩ := spansAll_three parts
    exact ⟨⟨true, bit⟩, rfl⟩
  | singleOperand =>
    obtain ⟨operand, rfl⟩ := spansAll_one parts
    exact ⟨.single operand, rfl⟩
  | nand =>
    obtain ⟨_, ⟨left, rfl⟩, _, rfl, _, ⟨right, rfl⟩, rfl⟩ := spansAll_three parts
    exact ⟨.nand left right, rfl⟩
  | plainOperand =>
    obtain ⟨inner, rfl⟩ := spansAll_one parts
    exact ⟨.plainOperand inner, rfl⟩
  | addressOf =>
    obtain ⟨_, rfl, _, ⟨inner, rfl⟩, rfl⟩ := spansAll_two parts
    exact ⟨.addressOf inner, rfl⟩
  | plainBeyond =>
    obtain ⟨inner, rfl⟩ := spansAll_one parts
    exact ⟨.plainBeyond inner, rfl⟩
  | valueBeyond =>
    obtain ⟨_, rfl, _, ⟨inner, rfl⟩, rfl⟩ := spansAll_two parts
    exact ⟨.valueBeyond inner, rfl⟩
  | plainAt =>
    obtain ⟨inner, rfl⟩ := spansAll_one parts
    exact ⟨.plainAt inner, rfl⟩
  | valueAt =>
    obtain ⟨_, rfl, _, ⟨inner, rfl⟩, rfl⟩ := spansAll_two parts
    exact ⟨.valueAt inner, rfl⟩
  | variablePrimary =>
    obtain ⟨spot, rfl⟩ := spansAll_one parts
    exact ⟨.place spot, rfl⟩
  | constantPrimary =>
    obtain ⟨magnitude, rfl⟩ := spansAll_one parts
    exact ⟨.constant magnitude, rfl⟩
  | parenthesized =>
    obtain ⟨_, rfl, _, ⟨inner, rfl⟩, _, rfl, rfl⟩ := spansAll_three parts
    exact ⟨.parenthesized inner, rfl⟩
  | singlePlace =>
    obtain ⟨operand, computes, rfl⟩ := spansAll_one parts
    exact ⟨.single operand, computes, rfl⟩
  | nandPlace =>
    obtain ⟨_, ⟨left, computes, rfl⟩, _, rfl, _, ⟨right, rfl⟩, rfl⟩ := spansAll_three parts
    refine ⟨.nand left right, fun starts => ?_, rfl⟩
    exact computes ((left.startsWithPlace_append _).mp starts)
  | plainPlaceOperand =>
    obtain ⟨inner, computes, rfl⟩ := spansAll_one parts
    exact ⟨.plainOperand inner, computes, rfl⟩
  | addressOfPlace =>
    obtain ⟨_, rfl, _, ⟨inner, rfl⟩, rfl⟩ := spansAll_two parts
    exact ⟨.addressOf inner, by simp [StartsWithPlace, Expression.words], rfl⟩
  | plainPlaceBeyond =>
    obtain ⟨inner, computes, rfl⟩ := spansAll_one parts
    exact ⟨.plainBeyond inner, computes, rfl⟩
  | valueBeyondPlace =>
    obtain ⟨_, rfl, _, ⟨inner, rfl⟩, rfl⟩ := spansAll_two parts
    exact ⟨.valueBeyond inner, by simp [StartsWithPlace, Expression.words], rfl⟩
  | plainPlaceAt =>
    obtain ⟨inner, computes, rfl⟩ := spansAll_one parts
    exact ⟨.plainAt inner, computes, rfl⟩
  | valueAtPlace =>
    obtain ⟨_, rfl, _, ⟨inner, rfl⟩, rfl⟩ := spansAll_two parts
    exact ⟨.valueAt inner, by simp [StartsWithPlace, Expression.words], rfl⟩
  | constantPlace =>
    obtain ⟨magnitude, rfl⟩ := spansAll_one parts
    refine ⟨.constant magnitude, ?_, rfl⟩
    cases first : magnitude.first <;>
      simp [StartsWithPlace, Expression.words, Numeral.words, first, bitWord]
  | parenthesizedPlace =>
    obtain ⟨_, rfl, _, ⟨inner, rfl⟩, _, rfl, rfl⟩ := spansAll_three parts
    exact ⟨.parenthesized inner, by simp [StartsWithPlace, Expression.words], rfl⟩
  | cell =>
    obtain ⟨_, rfl, _, ⟨address, rfl⟩, rfl⟩ := spansAll_two parts
    exact ⟨.cell address, rfl⟩
  | register =>
    cases spansAll_one parts
    exact ⟨.register, rfl⟩
  | bits => exact spansAll_one parts
  | firstBit =>
    obtain ⟨bit, rfl⟩ := spansAll_one parts
    exact ⟨⟨bit, []⟩, rfl⟩
  | nextBit =>
    obtain ⟨_, ⟨numeral, rfl⟩, _, ⟨bit, rfl⟩, rfl⟩ := spansAll_two parts
    exact ⟨_, words_concat numeral bit⟩
  | zero =>
    cases spansAll_one parts
    exact ⟨false, rfl⟩
  | one =>
    cases spansAll_one parts
    exact ⟨true, rfl⟩

end Spans

namespace State

/-- A symbol leads from one state to another. -/
def Leads (below : State) : Symbol → State → Prop
  | .word keyword, above => below.shifts.lookup keyword = some above
  | .phrase name, above => below.gotos.lookup name = some above

/-- The states from which a state is reached, and the symbols that lead there. -/
def arrivals (state : State) : List (State × Symbol) :=
  all.flatMap fun below =>
    ((below.shifts.filter (·.2 == state)).map fun entry => (below, .word entry.1)) ++
      (below.gotos.filter (·.2 == state)).map fun entry => (below, .phrase entry.1)

theorem mem_of_lookup {α β : Type} [DecidableEq α] {entries : List (α × β)} {key : α} {value : β}
    (found : entries.lookup key = some value) : (key, value) ∈ entries := by
  obtain ⟨front, back, rfl, -⟩ := List.lookup_eq_some_iff.mp found
  exact List.mem_append_right _ (List.mem_cons_self ..)

theorem mem_arrivals {below above : State} {symbol : Symbol} (leads : below.Leads symbol above) :
    (below, symbol) ∈ arrivals above := by
  refine List.mem_flatMap.mpr ⟨below, mem_all below, ?_⟩
  cases symbol with
  | word keyword =>
    refine List.mem_append_left _ (List.mem_map.mpr ⟨(keyword, above), ?_, rfl⟩)
    exact List.mem_filter.mpr ⟨mem_of_lookup leads, beq_self_eq_true above⟩
  | phrase name =>
    refine List.mem_append_right _ (List.mem_map.mpr ⟨(name, above), ?_, rfl⟩)
    exact List.mem_filter.mpr ⟨mem_of_lookup leads, beq_self_eq_true above⟩

/-- Whether, in a state, symbols surely lie on top of the stack, the latest first. -/
def pops : State → List Symbol → Bool
  | _, [] => true
  | state, symbol :: symbols =>
    state != .start && (arrivals state).all fun arrival =>
      arrival.2 == symbol && pops arrival.1 symbols

/-- Wherever a production is complete, its parts lie on top of the stack. -/
theorem pops_rhs {state : State} {production : Production} {followers : List Lookahead}
    (complete : state.reduction? = some (production, followers)) :
    state.pops production.rhs.reverse = true := by
  have checked : ∀ state ∈ all, ∀ entry ∈ state.reduction?,
      state.pops entry.1.rhs.reverse = true := by decide +kernel
  exact checked state (mem_all state) _ complete

end State

namespace Stack

/-- The symbols on a stack stand for some keywords, and each led to the state above it. -/
inductive Holds : Stack → List Keyword → Prop where
  | empty : Holds [] []
  | push {stack : Stack} {words slice : List Keyword} {symbol : Symbol} {above : State}
      {payload : Payload} (below : Holds stack words)
      (leads : (Stack.state stack).Leads symbol above) (spans : symbol.Spans slice) :
      Holds (⟨above, payload⟩ :: stack) (words ++ slice)

/-- Symbols that surely lie on top of a stack can be taken off it. -/
theorem Holds.drop {stack : Stack} {words : List Keyword} {symbols : List Symbol}
    (holds : Holds stack words) (pops : (state stack).pops symbols = true) :
    ∃ front back, Holds (stack.drop symbols.length) front ∧ SpansAll symbols.reverse back ∧
      words = front ++ back := by
  induction symbols generalizing stack words with
  | nil => exact ⟨words, [], holds, rfl, (List.append_nil words).symm⟩
  | cons symbol symbols ih =>
    rw [State.pops, Bool.and_eq_true, List.all_eq_true] at pops
    obtain ⟨proper, arrivals⟩ := pops
    cases holds with
    | empty => cases proper
    | push below leads spans =>
      have arrived := arrivals _ (State.mem_arrivals leads)
      rw [Bool.and_eq_true, beq_iff_eq] at arrived
      obtain ⟨rfl, deeper⟩ := arrived
      obtain ⟨front, back, left, others, rfl⟩ := ih below deeper
      refine ⟨front, back ++ _, left, ?_, List.append_assoc ..⟩
      rw [List.reverse_cons]
      exact spansAll_concat others spans

theorem Holds.reduceOnce? {stack reduced : Stack} {words : List Keyword} {lookahead : Lookahead}
    (holds : Holds stack words) (step : reduceOnce? stack lookahead = some reduced) :
    Holds reduced words := by
  unfold Stack.reduceOnce? at step
  cases complete : (state stack).reduction? with
  | none =>
    rw [complete] at step
    cases step
  | some entry =>
    obtain ⟨production, followers⟩ := entry
    rw [complete] at step
    dsimp only at step
    split at step
    · obtain ⟨front, back, left, parts, rfl⟩ := holds.drop (State.pops_rhs complete)
      rw [List.reverse_reverse] at parts
      rw [List.length_reverse] at left
      unfold reduce? at step
      dsimp only at step
      split at step
      · next payload next built leads =>
        cases step
        have arrives : (state (stack.drop production.rhs.length)).Leads (.phrase production.lhs)
            next := leads
        exact .push left arrives (production.spans parts)
      · cases step
    · cases step

theorem Holds.settleWithin {stack : Stack} {words : List Keyword} (holds : Holds stack words)
    (fuel : Nat) (lookahead : Lookahead) : Holds (settleWithin fuel stack lookahead) words := by
  induction fuel generalizing stack with
  | zero => exact holds
  | succ fuel ih =>
    rw [settleWithin_succ]
    cases step : Stack.reduceOnce? stack lookahead with
    | none => exact holds
    | some reduced => exact ih (holds.reduceOnce? step)

theorem Holds.settle {stack : Stack} {words : List Keyword} (holds : Holds stack words)
    (lookahead : Lookahead) : Holds (settle stack lookahead) words :=
  holds.settleWithin _ lookahead

theorem Holds.of_drafts? {stack : Stack} {words : List Keyword} {drafts : List Draft}
    (holds : Holds stack words) (accepted : drafts? stack = some drafts) :
    ∃ derived : Derivation.Program, derived.words = words := by
  unfold drafts? at accepted
  split at accepted
  · have pops : State.accepted.pops [.phrase .program] = true := by decide +kernel
    obtain ⟨front, back, nothing, program, rfl⟩ := holds.drop pops
    cases nothing
    exact spansAll_one program
  · cases accepted

end Stack

/-- What the automaton accepts are the keywords of a derivation. -/
theorem feed_sound {stack : Stack} {words : List Keyword} {tokens : List Token}
    {drafts : List Draft} (holds : Stack.Holds stack words)
    (fed : feed stack tokens = some drafts) :
    ∃ derived : Derivation.Program, derived.words = words ++ wordsOf tokens := by
  induction tokens generalizing stack words with
  | nil =>
    obtain ⟨derived, equal⟩ := (holds.settle none).of_drafts? fed
    exact ⟨derived, equal.trans (List.append_nil words).symm⟩
  | cons token tokens ih =>
    obtain ⟨word, position⟩ := token
    rw [feed] at fed
    split at fed
    · next state leads =>
      have arrives : (Stack.state (Stack.settle stack (some word))).Leads (.word word) state :=
        leads
      have one : (Symbol.word word).Spans [word] := rfl
      obtain ⟨derived, equal⟩ := ih ((holds.settle (some word)).push arrives one) fed
      exact ⟨derived, equal.trans (List.append_assoc ..)⟩
    · cases fed

end BitMachine.Automaton
