import BitMachine.Proofs.Automaton.Feeding
import BitMachine.Proofs.Grammar.Unambiguity

/-! The automaton takes in every phrase of a derivation. Fed with the keywords of a phrase and then
with some keyword that may follow it, a state pushes the phrase, provided that it knows where the
phrase and its parts lead. -/

set_option autoImplicit false

namespace BitMachine.Automaton

open BitMachine.Derivation (bitWord Numeral Place Layer Expression StartsWithPlace Destination
  Instruction Goal Condition Branch)

/-- What a state does with some keywords and with some finished phrases. -/
structure State.Admits (state : State) (shifts : List (Keyword × State))
    (gotos : List (Nonterminal × State)) : Prop where
  takes : ∀ entry ∈ shifts,
    state.waits (some entry.1) = true ∧ state.shifts.lookup entry.1 = some entry.2
  leads : ∀ entry ∈ gotos, state.gotos.lookup entry.1 = some entry.2

instance (state : State) (shifts : List (Keyword × State)) (gotos : List (Nonterminal × State)) :
    Decidable (state.Admits shifts gotos) :=
  decidable_of_iff ((∀ entry ∈ shifts,
      state.waits (some entry.1) = true ∧ state.shifts.lookup entry.1 = some entry.2) ∧
    ∀ entry ∈ gotos, state.gotos.lookup entry.1 = some entry.2)
    ⟨fun both => ⟨both.1, both.2⟩, fun admits => ⟨admits.takes, admits.leads⟩⟩

theorem State.Admits.mono {state : State} {shifts fewer : List (Keyword × State)}
    {gotos less : List (Nonterminal × State)} (admits : state.Admits shifts gotos)
    (inside : fewer ⊆ shifts) (within : less ⊆ gotos) : state.Admits fewer less :=
  ⟨fun entry listed => admits.takes entry (inside listed),
    fun entry listed => admits.leads entry (within listed)⟩

theorem feed_admitted {stack : Stack} {shifts : List (Keyword × State)}
    {gotos : List (Nonterminal × State)} {word : Keyword} {position : Nat} {state : State}
    {tokens : List Token} (admits : (Stack.state stack).Admits shifts gotos)
    (listed : (word, state) ∈ shifts) :
    feed stack ((word, position) :: tokens) = feed (⟨state, .word position⟩ :: stack) tokens := by
  obtain ⟨waits, leads⟩ := admits.takes (word, state) listed
  exact feed_shift waits leads

/-- The keywords of some tokens. -/
abbrev wordsOf (tokens : List Token) : List Keyword :=
  tokens.map (·.1)

theorem exists_cons_of_wordsOf {tokens : List Token} {word : Keyword} {words : List Keyword}
    (spelled : wordsOf tokens = word :: words) :
    ∃ position more, tokens = (word, position) :: more ∧ wordsOf more = words := by
  obtain ⟨⟨first, position⟩, more, rfl, rfl, rest⟩ := List.map_eq_cons_iff.mp spelled
  exact ⟨position, more, rfl, rest⟩

theorem exists_append_of_wordsOf {tokens : List Token} {front back : List Keyword}
    (spelled : wordsOf tokens = front ++ back) :
    ∃ left right, tokens = left ++ right ∧ wordsOf left = front ∧ wordsOf right = back :=
  List.map_eq_append_iff.mp spelled

section Bits

theorem feed_bit {stack : Stack} {behind : State} {position : Nat} {rest : List Token} (bit : Bool)
    (admits : (Stack.state stack).Admits State.bitShifts [(.bit, behind)])
    (follows : next rest ∈ State.bitEnd) :
    feed stack ((bitWord bit, position) :: rest) =
      feed (⟨behind, .number bit.toNat⟩ :: stack) rest := by
  have leads := admits.leads (.bit, behind) (List.mem_singleton.mpr rfl)
  cases bit with
  | false =>
    calc feed stack ((.zero, position) :: rest)
        = feed (⟨.zero, .word position⟩ :: stack) rest := feed_admitted admits (by decide)
      _ = _ := feed_reduce [_] rfl follows rfl rfl leads
  | true =>
    calc feed stack ((.one, position) :: rest)
        = feed (⟨.one, .word position⟩ :: stack) rest := feed_admitted admits (by decide)
      _ = _ := feed_reduce [_] rfl follows rfl rfl leads

theorem next_bits {bits : List Bool} {tokens rest : List Token}
    (spelled : wordsOf tokens = bits.map bitWord) (follows : next rest ∈ State.bitsEnd) :
    next (tokens ++ rest) ∈ State.bitEnd := by
  cases bits with
  | nil =>
    cases List.map_eq_nil_iff.mp spelled
    exact List.mem_append_left _ follows
  | cons bit bits =>
    obtain ⟨position, more, rfl, -⟩ := exists_cons_of_wordsOf spelled
    show some (bitWord bit) ∈ State.bitEnd
    cases bit <;> decide

/-- A run of bits takes in the bits that come next. -/
theorem feed_run {stack : Stack} {behind : State} {bits : List Bool} {tokens rest : List Token}
    (value : Nat) (leads : (Stack.state stack).gotos.lookup .bits = some behind)
    (runs : (Stack.state stack).gotos.lookup .run = some .run)
    (spelled : wordsOf tokens = bits.map bitWord) (follows : next rest ∈ State.bitsEnd) :
    feed (⟨.run, .number value⟩ :: stack) (tokens ++ rest) =
      feed (⟨behind, .number (bits.foldl (fun value bit => 2 * value + bit.toNat) value)⟩ :: stack)
        rest := by
  induction bits generalizing tokens value with
  | nil =>
    cases List.map_eq_nil_iff.mp spelled
    exact feed_reduce [_] rfl follows rfl rfl leads
  | cons bit bits ih =>
    obtain ⟨position, more, rfl, others⟩ := exists_cons_of_wordsOf spelled
    have continues := next_bits others follows
    calc feed (⟨.run, .number value⟩ :: stack) ((bitWord bit, position) :: (more ++ rest))
        = feed (⟨.runBit, .number bit.toNat⟩ :: ⟨.run, .number value⟩ :: stack) (more ++ rest) :=
          feed_bit bit (show State.run.Admits _ _ by decide) continues
      _ = feed (⟨.run, .number (2 * value + bit.toNat)⟩ :: stack) (more ++ rest) :=
          feed_reduce [_, _] rfl continues rfl rfl runs
      _ = _ := ih (2 * value + bit.toNat) others

theorem feed_numeral {stack : Stack} {behind : State} {tokens rest : List Token}
    (numeral : Numeral)
    (admits : (Stack.state stack).Admits State.bitShifts (State.bitsGotos behind))
    (spelled : wordsOf tokens = numeral.words) (follows : next rest ∈ State.bitsEnd) :
    feed stack (tokens ++ rest) = feed (⟨behind, .number numeral.value⟩ :: stack) rest := by
  obtain ⟨first, bits⟩ := numeral
  obtain ⟨position, more, rfl, others⟩ := exists_cons_of_wordsOf spelled
  have runs := admits.leads (.run, .run) (List.mem_cons_self ..)
  have leads := admits.leads (.bits, behind) (by simp [State.bitsGotos])
  have continues : next (more ++ rest) ∈ State.bitEnd := next_bits others follows
  calc feed stack ((bitWord first, position) :: (more ++ rest))
      = feed (⟨.firstBit, .number first.toNat⟩ :: stack) (more ++ rest) :=
        feed_bit first (admits.mono (List.Subset.refl _) (by simp [State.bitsGotos])) continues
    _ = feed (⟨.run, .number first.toNat⟩ :: stack) (more ++ rest) :=
        feed_reduce [_] rfl continues rfl rfl runs
    _ = feed (⟨behind, .number (Numeral.value ⟨first, bits⟩)⟩ :: stack) rest :=
        feed_run first.toNat leads runs others follows

end Bits

section Expressions

theorem feed_place {stack : Stack} {behind : State} {tokens rest : List Token} (spot : Place)
    (admits : (Stack.state stack).Admits
      [(.theJumpRegister, .theJumpRegister), (.variable, .variableKeyword)] [(.variable, behind)])
    (spelled : wordsOf tokens = spot.words) (follows : next rest ∈ State.operandEnd) :
    feed stack (tokens ++ rest) =
      feed (⟨behind, .node (.variable spot.address)⟩ :: stack) rest := by
  have leads := admits.leads (.variable, behind) (List.mem_singleton.mpr rfl)
  cases spot with
  | cell address =>
    obtain ⟨position, more, rfl, digits⟩ := exists_cons_of_wordsOf spelled
    calc feed stack ((.variable, position) :: (more ++ rest))
        = feed (⟨.variableKeyword, .word position⟩ :: stack) (more ++ rest) :=
          feed_admitted admits (by decide)
      _ = feed (⟨.variableBits, .number address.value⟩ ::
            ⟨.variableKeyword, .word position⟩ :: stack) rest :=
          feed_numeral address (show State.variableKeyword.Admits _ _ by decide) digits
            (List.mem_append_left _ follows)
      _ = _ := feed_reduce [_, _] rfl follows rfl rfl leads
  | register =>
    obtain ⟨position, more, rfl, nothing⟩ := exists_cons_of_wordsOf spelled
    cases List.map_eq_nil_iff.mp nothing
    calc feed stack ((.theJumpRegister, position) :: rest)
        = feed (⟨.theJumpRegister, .word position⟩ :: stack) rest :=
          feed_admitted admits (by decide)
      _ = _ := feed_reduce [_] rfl follows rfl rfl leads

/-- The keywords with which a phrase of a layer starts, and the states that they lead to. -/
def shiftsFor : Layer → List (Keyword × State)
  | .primary => State.primaryShifts
  | .valueAt => State.atShifts
  | .valueBeyond => State.beyondShifts
  | .operand | .expression => State.operandShifts

/-- Where the phrases lead of which a phrase of a layer is made, itself included. -/
def gotosFor : Layer → State → List (Nonterminal × State)
  | .primary => State.primaryGotos
  | .valueAt => State.atGotos
  | .valueBeyond => State.beyondGotos
  | .operand => State.operandGotos
  | .expression => State.expressionGotos

/-- What may come after a phrase of a layer. -/
def endFor : Layer → List Lookahead
  | .expression => State.expressionEnd
  | _ => State.operandEnd

theorem feed_expression {layer : Layer} (phrase : Expression layer) {stack : Stack}
    {behind : State} {tokens rest : List Token}
    (admits : (Stack.state stack).Admits (shiftsFor layer) (gotosFor layer behind))
    (spelled : wordsOf tokens = phrase.words) (follows : next rest ∈ endFor layer) :
    feed stack (tokens ++ rest) = feed (⟨behind, .node phrase.node⟩ :: stack) rest := by
  induction phrase generalizing stack behind tokens rest with
  | place spot =>
    have leads := admits.leads (.primary, behind) (by simp [gotosFor, State.primaryGotos])
    calc feed stack (tokens ++ rest)
        = feed (⟨.primaryVariable, .node (.variable spot.address)⟩ :: stack) rest :=
          feed_place spot (admits.mono (by decide) (by simp [gotosFor, State.primaryGotos]))
            spelled follows
      _ = _ := feed_reduce [_] rfl follows rfl rfl leads
  | constant magnitude =>
    have leads := admits.leads (.primary, behind) (by simp [gotosFor, State.primaryGotos])
    calc feed stack (tokens ++ rest)
        = feed (⟨.primaryBits, .number magnitude.value⟩ :: stack) rest :=
          feed_numeral magnitude (admits.mono (by decide) (List.subset_append_left _ _)) spelled
            (List.mem_append_left _ follows)
      _ = _ := feed_reduce [_] rfl follows rfl rfl leads
  | parenthesized inner ih =>
    have leads := admits.leads (.primary, behind) (by simp [gotosFor, State.primaryGotos])
    obtain ⟨position, more, rfl, others⟩ := exists_cons_of_wordsOf spelled
    obtain ⟨middle, last, rfl, inside, closing⟩ := exists_append_of_wordsOf others
    obtain ⟨close, nothing, rfl, empty⟩ := exists_cons_of_wordsOf closing
    cases List.map_eq_nil_iff.mp empty
    rw [List.cons_append, List.append_assoc]
    calc feed stack ((.openParenthesis, position) :: (middle ++ (.closeParenthesis, close) :: rest))
        = feed (⟨.openParenthesis, .word position⟩ :: stack)
            (middle ++ (.closeParenthesis, close) :: rest) := feed_admitted admits (by decide)
      _ = feed (⟨.openExpression, .node inner.node⟩ ::
            ⟨.openParenthesis, .word position⟩ :: stack) ((.closeParenthesis, close) :: rest) :=
          ih (show State.openParenthesis.Admits _ _ by decide) inside
            (show some Keyword.closeParenthesis ∈ State.expressionEnd by decide)
      _ = feed (⟨.closed, .word close⟩ :: ⟨.openExpression, .node inner.node⟩ ::
            ⟨.openParenthesis, .word position⟩ :: stack) rest := feed_shift rfl rfl
      _ = _ := feed_reduce [_, _, _] rfl follows rfl rfl leads
  | plainAt inner ih =>
    have leads := admits.leads (.atOperand, behind) (by simp [gotosFor, State.atGotos])
    calc feed stack (tokens ++ rest)
        = feed (⟨.primary, .node inner.node⟩ :: stack) rest :=
          ih (admits.mono (by decide) (List.subset_append_left _ _)) spelled follows
      _ = _ := feed_reduce [_] rfl follows rfl rfl leads
  | valueAt inner ih =>
    have leads := admits.leads (.atOperand, behind) (by simp [gotosFor, State.atGotos])
    obtain ⟨position, more, rfl, others⟩ := exists_cons_of_wordsOf spelled
    calc feed stack ((.theValueAt, position) :: (more ++ rest))
        = feed (⟨.theValueAt, .word position⟩ :: stack) (more ++ rest) :=
          feed_admitted admits (by decide)
      _ = feed (⟨.valueAtPrimary, .node inner.node⟩ :: ⟨.theValueAt, .word position⟩ :: stack)
            rest := ih (show State.theValueAt.Admits _ _ by decide) others follows
      _ = _ := feed_reduce [_, _] rfl follows rfl rfl leads
  | plainBeyond inner ih =>
    have leads := admits.leads (.beyondOperand, behind) (by simp [gotosFor, State.beyondGotos])
    calc feed stack (tokens ++ rest)
        = feed (⟨.atOperand, .node inner.node⟩ :: stack) rest :=
          ih (admits.mono (by decide) (List.subset_append_left _ _)) spelled follows
      _ = _ := feed_reduce [_] rfl follows rfl rfl leads
  | valueBeyond inner ih =>
    have leads := admits.leads (.beyondOperand, behind) (by simp [gotosFor, State.beyondGotos])
    obtain ⟨position, more, rfl, others⟩ := exists_cons_of_wordsOf spelled
    calc feed stack ((.theValueBeyond, position) :: (more ++ rest))
        = feed (⟨.theValueBeyond, .word position⟩ :: stack) (more ++ rest) :=
          feed_admitted admits (by decide)
      _ = feed (⟨.valueBeyondOperand, .node inner.node⟩ ::
            ⟨.theValueBeyond, .word position⟩ :: stack) rest :=
          ih (show State.theValueBeyond.Admits _ _ by decide) others follows
      _ = _ := feed_reduce [_, _] rfl follows rfl rfl leads
  | plainOperand inner ih =>
    have leads := admits.leads (.operand, behind) (by simp [gotosFor, State.operandGotos])
    calc feed stack (tokens ++ rest)
        = feed (⟨.beyondOperand, .node inner.node⟩ :: stack) rest :=
          ih (admits.mono (by decide) (List.subset_append_left _ _)) spelled follows
      _ = _ := feed_reduce [_] rfl follows rfl rfl leads
  | addressOf inner ih =>
    have leads := admits.leads (.operand, behind) (by simp [gotosFor, State.operandGotos])
    obtain ⟨position, more, rfl, others⟩ := exists_cons_of_wordsOf spelled
    calc feed stack ((.theAddressOf, position) :: (more ++ rest))
        = feed (⟨.theAddressOf, .word position⟩ :: stack) (more ++ rest) :=
          feed_admitted admits (by decide)
      _ = feed (⟨.addressOfOperand, .node inner.node⟩ ::
            ⟨.theAddressOf, .word position⟩ :: stack) rest :=
          ih (show State.theAddressOf.Admits _ _ by decide) others follows
      _ = _ := feed_reduce [_, _] rfl follows rfl rfl leads
  | single operand ih =>
    have leads := admits.leads (.expression, behind) (by simp [gotosFor, State.expressionGotos])
    calc feed stack (tokens ++ rest)
        = feed (⟨.operand, .node operand.node⟩ :: stack) rest :=
          ih (admits.mono (List.Subset.refl _) (List.subset_append_left _ _)) spelled
            (List.mem_append_left _ follows)
      _ = _ := feed_reduce [_] rfl follows rfl rfl leads
  | nand left right leftIh rightIh =>
    have leads := admits.leads (.expression, behind) (by simp [gotosFor, State.expressionGotos])
    obtain ⟨front, back, rfl, before, after⟩ := exists_append_of_wordsOf spelled
    obtain ⟨position, more, rfl, others⟩ := exists_cons_of_wordsOf after
    rw [List.append_assoc]
    calc feed stack (front ++ (.nand, position) :: (more ++ rest))
        = feed (⟨.operand, .node left.node⟩ :: stack) ((.nand, position) :: (more ++ rest)) :=
          leftIh (admits.mono (List.Subset.refl _) (List.subset_append_left _ _)) before
            (show some Keyword.nand ∈ State.operandEnd by decide)
      _ = feed (⟨.operandNand, .word position⟩ :: ⟨.operand, .node left.node⟩ :: stack)
            (more ++ rest) := feed_shift rfl rfl
      _ = feed (⟨.operandNandOperand, .node right.node⟩ :: ⟨.operandNand, .word position⟩ ::
            ⟨.operand, .node left.node⟩ :: stack) rest :=
          rightIh (show State.operandNand.Admits _ _ by decide) others
            (List.mem_append_left _ follows)
      _ = _ := feed_reduce [_, _, _] rfl follows rfl rfl leads

/-- The state behind a phrase of a layer with which a computed place starts. -/
def placeStateFor : Layer → State
  | .primary => .placePrimary
  | .valueAt => .placeAt
  | .valueBeyond => .placeBeyond
  | .operand => .placeOperand
  | .expression => .computedPlace

/-- What may come after a phrase of a layer with which a computed place starts. -/
def placeEndFor : Layer → List Lookahead
  | .expression => [some .equals]
  | _ => State.placeEnd

/-- A computed place has states of its own. They are reached because it does not start with a
variable. -/
theorem feed_computed {layer : Layer} (phrase : Expression layer) {stack : Stack}
    {tokens rest : List Token} (here : Stack.state stack = .code)
    (computes : ¬StartsWithPlace phrase.words) (spelled : wordsOf tokens = phrase.words)
    (follows : next rest ∈ placeEndFor layer) :
    feed stack (tokens ++ rest) =
      feed (⟨placeStateFor layer, .node phrase.node⟩ :: stack) rest := by
  induction phrase generalizing tokens rest with
  | place spot =>
    have starts := spot.startsWithPlace []
    rw [List.append_nil] at starts
    exact absurd starts computes
  | constant magnitude =>
    calc feed stack (tokens ++ rest)
        = feed (⟨.placeBits, .number magnitude.value⟩ :: stack) rest :=
          feed_numeral magnitude (here ▸ by decide) spelled
            (List.mem_append_left _ (List.mem_append_right _ follows))
      _ = _ := feed_reduce [_] rfl follows rfl rfl (by rw [here]; rfl)
  | parenthesized inner =>
    obtain ⟨position, more, rfl, others⟩ := exists_cons_of_wordsOf spelled
    obtain ⟨middle, last, rfl, inside, closing⟩ := exists_append_of_wordsOf others
    obtain ⟨close, nothing, rfl, empty⟩ := exists_cons_of_wordsOf closing
    cases List.map_eq_nil_iff.mp empty
    rw [List.cons_append, List.append_assoc]
    calc feed stack ((.openParenthesis, position) :: (middle ++ (.closeParenthesis, close) :: rest))
        = feed (⟨.placeOpen, .word position⟩ :: stack)
            (middle ++ (.closeParenthesis, close) :: rest) :=
          feed_shift (by rw [here]; rfl) (by rw [here]; rfl)
      _ = feed (⟨.placeOpenExpression, .node inner.node⟩ :: ⟨.placeOpen, .word position⟩ :: stack)
            ((.closeParenthesis, close) :: rest) :=
          feed_expression inner (show State.placeOpen.Admits _ _ by decide) inside
            (show some Keyword.closeParenthesis ∈ State.expressionEnd by decide)
      _ = feed (⟨.placeClosed, .word close⟩ :: ⟨.placeOpenExpression, .node inner.node⟩ ::
            ⟨.placeOpen, .word position⟩ :: stack) rest := feed_shift rfl rfl
      _ = _ := feed_reduce [_, _, _] rfl follows rfl rfl (by rw [here]; rfl)
  | plainAt inner ih =>
    calc feed stack (tokens ++ rest)
        = feed (⟨.placePrimary, .node inner.node⟩ :: stack) rest := ih computes spelled follows
      _ = _ := feed_reduce [_] rfl follows rfl rfl (by rw [here]; rfl)
  | valueAt inner =>
    obtain ⟨position, more, rfl, others⟩ := exists_cons_of_wordsOf spelled
    calc feed stack ((.theValueAt, position) :: (more ++ rest))
        = feed (⟨.placeTheValueAt, .word position⟩ :: stack) (more ++ rest) :=
          feed_shift (by rw [here]; rfl) (by rw [here]; rfl)
      _ = feed (⟨.placeValueAtPrimary, .node inner.node⟩ ::
            ⟨.placeTheValueAt, .word position⟩ :: stack) rest :=
          feed_expression inner (show State.placeTheValueAt.Admits _ _ by decide) others
            (List.mem_append_right _ follows)
      _ = _ := feed_reduce [_, _] rfl follows rfl rfl (by rw [here]; rfl)
  | plainBeyond inner ih =>
    calc feed stack (tokens ++ rest)
        = feed (⟨.placeAt, .node inner.node⟩ :: stack) rest := ih computes spelled follows
      _ = _ := feed_reduce [_] rfl follows rfl rfl (by rw [here]; rfl)
  | valueBeyond inner =>
    obtain ⟨position, more, rfl, others⟩ := exists_cons_of_wordsOf spelled
    calc feed stack ((.theValueBeyond, position) :: (more ++ rest))
        = feed (⟨.placeTheValueBeyond, .word position⟩ :: stack) (more ++ rest) :=
          feed_shift (by rw [here]; rfl) (by rw [here]; rfl)
      _ = feed (⟨.placeValueBeyondOperand, .node inner.node⟩ ::
            ⟨.placeTheValueBeyond, .word position⟩ :: stack) rest :=
          feed_expression inner (show State.placeTheValueBeyond.Admits _ _ by decide) others
            (List.mem_append_right _ follows)
      _ = _ := feed_reduce [_, _] rfl follows rfl rfl (by rw [here]; rfl)
  | plainOperand inner ih =>
    calc feed stack (tokens ++ rest)
        = feed (⟨.placeBeyond, .node inner.node⟩ :: stack) rest := ih computes spelled follows
      _ = _ := feed_reduce [_] rfl follows rfl rfl (by rw [here]; rfl)
  | addressOf inner =>
    obtain ⟨position, more, rfl, others⟩ := exists_cons_of_wordsOf spelled
    calc feed stack ((.theAddressOf, position) :: (more ++ rest))
        = feed (⟨.placeTheAddressOf, .word position⟩ :: stack) (more ++ rest) :=
          feed_shift (by rw [here]; rfl) (by rw [here]; rfl)
      _ = feed (⟨.placeAddressOfOperand, .node inner.node⟩ ::
            ⟨.placeTheAddressOf, .word position⟩ :: stack) rest :=
          feed_expression inner (show State.placeTheAddressOf.Admits _ _ by decide) others
            (List.mem_append_right _ follows)
      _ = _ := feed_reduce [_, _] rfl follows rfl rfl (by rw [here]; rfl)
  | single operand ih =>
    calc feed stack (tokens ++ rest)
        = feed (⟨.placeOperand, .node operand.node⟩ :: stack) rest :=
          ih computes spelled (List.mem_append_left [some Keyword.nand] follows)
      _ = _ := feed_reduce [_] rfl follows rfl rfl (by rw [here]; rfl)
  | nand left right leftIh =>
    obtain ⟨front, back, rfl, before, after⟩ := exists_append_of_wordsOf spelled
    obtain ⟨position, more, rfl, others⟩ := exists_cons_of_wordsOf after
    rw [List.append_assoc]
    calc feed stack (front ++ (.nand, position) :: (more ++ rest))
        = feed (⟨.placeOperand, .node left.node⟩ :: stack) ((.nand, position) :: (more ++ rest)) :=
          leftIh (fun starts => computes ((left.startsWithPlace_append _).mpr starts)) before
            (show some Keyword.nand ∈ State.placeEnd by decide)
      _ = feed (⟨.placeNand, .word position⟩ :: ⟨.placeOperand, .node left.node⟩ :: stack)
            (more ++ rest) := feed_shift rfl rfl
      _ = feed (⟨.placeNandOperand, .node right.node⟩ :: ⟨.placeNand, .word position⟩ ::
            ⟨.placeOperand, .node left.node⟩ :: stack) rest :=
          feed_expression right (show State.placeNand.Admits _ _ by decide) others
            (List.mem_append_right _ (List.mem_append_left [some Keyword.nand] follows))
      _ = _ := feed_reduce [_, _, _] rfl follows rfl rfl (by rw [here]; rfl)

end Expressions

theorem feed_instruction (instruction : Instruction) {stack : Stack} {tokens rest : List Token}
    (here : Stack.state stack = .code) (spelled : wordsOf tokens = instruction.words)
    (follows : next rest ∈ State.instructionEnd) :
    feed stack (tokens ++ rest) =
      feed (⟨.codeInstruction, .node instruction.node⟩ :: stack) rest := by
  have bitFollows : next rest ∈ State.bitEnd :=
    List.mem_append_left _ (List.mem_append_left _ (List.mem_append_left _
      (List.mem_append_left _ follows)))
  match instruction with
  | .print bit =>
    obtain ⟨position, more, rfl, others⟩ := exists_cons_of_wordsOf spelled
    obtain ⟨digit, nothing, rfl, empty⟩ := exists_cons_of_wordsOf others
    cases List.map_eq_nil_iff.mp empty
    calc feed stack ((.print, position) :: (bitWord bit, digit) :: rest)
        = feed (⟨.print, .word position⟩ :: stack) ((bitWord bit, digit) :: rest) :=
          feed_shift (by rw [here]; rfl) (by rw [here]; rfl)
      _ = feed (⟨.printBit, .number bit.toNat⟩ :: ⟨.print, .word position⟩ :: stack) rest :=
          feed_bit bit (show State.print.Admits _ _ by decide) bitFollows
      _ = feed (⟨.command, .node (.print bit.toNat)⟩ :: stack) rest :=
          feed_reduce [_, _] rfl follows rfl rfl (by rw [here]; rfl)
      _ = _ := feed_reduce [_] rfl follows rfl rfl (by rw [here]; rfl)
  | .read =>
    obtain ⟨position, nothing, rfl, empty⟩ := exists_cons_of_wordsOf spelled
    cases List.map_eq_nil_iff.mp empty
    calc feed stack ((.read, position) :: rest)
        = feed (⟨.read, .word position⟩ :: stack) rest :=
          feed_shift (by rw [here]; rfl) (by rw [here]; rfl)
      _ = feed (⟨.command, .node .read⟩ :: stack) rest :=
          feed_reduce [_] rfl follows rfl rfl (by rw [here]; rfl)
      _ = _ := feed_reduce [_] rfl follows rfl rfl (by rw [here]; rfl)
  | .assignment (.place spot) source =>
    obtain ⟨front, back, rfl, before, after⟩ := exists_append_of_wordsOf spelled
    obtain ⟨position, more, rfl, others⟩ := exists_cons_of_wordsOf after
    rw [List.append_assoc]
    calc feed stack (front ++ (.equals, position) :: (more ++ rest))
        = feed (⟨.assignedVariable, .node (.variable spot.address)⟩ :: stack)
            ((.equals, position) :: (more ++ rest)) :=
          feed_place spot (here ▸ by decide) before
            (show some Keyword.equals ∈ State.operandEnd by decide)
      _ = feed (⟨.variableEquals, .word position⟩ ::
            ⟨.assignedVariable, .node (.variable spot.address)⟩ :: stack) (more ++ rest) :=
          feed_shift rfl rfl
      _ = feed (⟨.variableEqualsExpression, .node source.node⟩ ::
            ⟨.variableEquals, .word position⟩ ::
            ⟨.assignedVariable, .node (.variable spot.address)⟩ :: stack) rest :=
          feed_expression source (show State.variableEquals.Admits _ _ by decide) others
            (List.mem_append_left _ follows)
      _ = feed (⟨.assignment, .node (.assignment spot.address .absent source.node)⟩ :: stack)
            rest := feed_reduce [_, _, _] rfl follows rfl rfl (by rw [here]; rfl)
      _ = _ := feed_reduce [_] rfl follows rfl rfl (by rw [here]; rfl)
  | .assignment (.computed address computes) source =>
    obtain ⟨front, back, rfl, before, after⟩ := exists_append_of_wordsOf spelled
    obtain ⟨position, more, rfl, others⟩ := exists_cons_of_wordsOf after
    rw [List.append_assoc]
    calc feed stack (front ++ (.equals, position) :: (more ++ rest))
        = feed (⟨.computedPlace, .node address.node⟩ :: stack)
            ((.equals, position) :: (more ++ rest)) :=
          feed_computed address here computes before (List.mem_singleton.mpr rfl)
      _ = feed (⟨.computedEquals, .word position⟩ :: ⟨.computedPlace, .node address.node⟩ :: stack)
            (more ++ rest) := feed_shift rfl rfl
      _ = feed (⟨.computedEqualsExpression, .node source.node⟩ ::
            ⟨.computedEquals, .word position⟩ :: ⟨.computedPlace, .node address.node⟩ :: stack)
            rest :=
          feed_expression source (show State.computedEquals.Admits _ _ by decide) others
            (List.mem_append_left _ follows)
      _ = feed (⟨.assignment, .node (.assignment .null address.node source.node)⟩ :: stack) rest :=
          feed_reduce [_, _, _] rfl follows rfl rfl (by rw [here]; rfl)
      _ = _ := feed_reduce [_] rfl follows rfl rfl (by rw [here]; rfl)

section Branches

theorem feed_goal (goal : Goal) {stack : Stack} {behind : State} {tokens rest : List Token}
    (admits : (Stack.state stack).Admits (State.bitShifts ++ [(.variable, .markerKeyword)])
      (State.bitsGotos .goalBits ++ [(.marker, .marker), (.goal, behind)]))
    (spelled : wordsOf tokens = goal.words) (follows : next rest ∈ State.goalEnd) :
    feed stack (tokens ++ rest) = feed (⟨behind, .node goal.node⟩ :: stack) rest := by
  have leads := admits.leads (.goal, behind) (by simp)
  have bitsFollow : next rest ∈ State.bitsEnd := by
    have included : State.goalEnd ⊆ State.bitsEnd := by decide
    exact included follows
  obtain ⟨marked, number⟩ := goal
  cases marked with
  | false =>
    calc feed stack (tokens ++ rest)
        = feed (⟨.goalBits, .number number.value⟩ :: stack) rest :=
          feed_numeral number (admits.mono (by decide) (List.subset_append_left _ _)) spelled
            bitsFollow
      _ = _ := feed_reduce [_] rfl follows rfl rfl leads
  | true =>
    have marks := admits.leads (.marker, .marker) (by simp)
    obtain ⟨position, more, rfl, others⟩ := exists_cons_of_wordsOf spelled
    have digit : next (more ++ rest) ∈ [some Keyword.one, some Keyword.zero] := by
      obtain ⟨first, digits, rfl, -⟩ := exists_cons_of_wordsOf others
      show some (bitWord number.first) ∈ [some Keyword.one, some Keyword.zero]
      cases number.first <;> decide
    calc feed stack ((.variable, position) :: (more ++ rest))
        = feed (⟨.markerKeyword, .word position⟩ :: stack) (more ++ rest) :=
          feed_admitted admits (by decide)
      _ = feed (⟨.marker, .word position⟩ :: stack) (more ++ rest) :=
          feed_reduce [_] rfl digit rfl rfl marks
      _ = feed (⟨.markerBits, .number number.value⟩ :: ⟨.marker, .word position⟩ :: stack) rest :=
          feed_numeral number (show State.marker.Admits _ _ by decide) others bitsFollow
      _ = _ := feed_reduce [_, _] rfl follows rfl rfl leads

theorem feed_condition (condition : Condition) {stack : Stack} {behind : State}
    {tokens rest : List Token}
    (admits : (Stack.state stack).Admits [(.ifTheJumpRegisterIs, .ifTheJumpRegisterIs)]
      [(.condition, behind)])
    (spelled : wordsOf tokens = condition.words) (follows : next rest ∈ State.instructionEnd) :
    feed stack (tokens ++ rest) = feed (⟨behind, .number condition.bit.toNat⟩ :: stack) rest := by
  have leads := admits.leads (.condition, behind) (List.mem_singleton.mpr rfl)
  have bitFollows : next rest ∈ State.bitEnd := by
    have included : State.instructionEnd ⊆ State.bitEnd := by decide
    exact included follows
  obtain ⟨wordy, bit⟩ := condition
  cases wordy with
  | false =>
    obtain ⟨position, more, rfl, others⟩ := exists_cons_of_wordsOf spelled
    obtain ⟨digit, nothing, rfl, empty⟩ := exists_cons_of_wordsOf others
    cases List.map_eq_nil_iff.mp empty
    calc feed stack ((.ifTheJumpRegisterIs, position) :: (bitWord bit, digit) :: rest)
        = feed (⟨.ifTheJumpRegisterIs, .word position⟩ :: stack) ((bitWord bit, digit) :: rest) :=
          feed_admitted admits (by decide)
      _ = feed (⟨.ifBit, .number bit.toNat⟩ :: ⟨.ifTheJumpRegisterIs, .word position⟩ :: stack)
            rest := feed_bit bit (show State.ifTheJumpRegisterIs.Admits _ _ by decide) bitFollows
      _ = _ := feed_reduce [_, _] rfl follows rfl rfl leads
  | true =>
    obtain ⟨position, more, rfl, others⟩ := exists_cons_of_wordsOf spelled
    obtain ⟨second, most, rfl, remaining⟩ := exists_cons_of_wordsOf others
    obtain ⟨digit, nothing, rfl, empty⟩ := exists_cons_of_wordsOf remaining
    cases List.map_eq_nil_iff.mp empty
    calc feed stack ((.ifTheJumpRegisterIs, position) :: (.equalTo, second) ::
            (bitWord bit, digit) :: rest)
        = feed (⟨.ifTheJumpRegisterIs, .word position⟩ :: stack)
            ((.equalTo, second) :: (bitWord bit, digit) :: rest) :=
          feed_admitted admits (by decide)
      _ = feed (⟨.ifEqualTo, .word second⟩ :: ⟨.ifTheJumpRegisterIs, .word position⟩ :: stack)
            ((bitWord bit, digit) :: rest) := feed_shift rfl rfl
      _ = feed (⟨.ifEqualToBit, .number bit.toNat⟩ :: ⟨.ifEqualTo, .word second⟩ ::
            ⟨.ifTheJumpRegisterIs, .word position⟩ :: stack) rest :=
          feed_bit bit (show State.ifEqualTo.Admits _ _ by decide) bitFollows
      _ = _ := feed_reduce [_, _, _] rfl follows rfl rfl leads

theorem next_condition (condition : Condition) {tokens rest : List Token}
    (spelled : wordsOf tokens = condition.words) : next (tokens ++ rest) ∈ State.goalEnd := by
  obtain ⟨words, equal⟩ := condition.words_eq_cons
  rw [equal] at spelled
  obtain ⟨position, more, rfl, -⟩ := exists_cons_of_wordsOf spelled
  show some Keyword.ifTheJumpRegisterIs ∈ State.goalEnd
  decide

/-- A branch remembers where it starts if it asks for one bit twice. -/
theorem feed_branch (branch : Branch) {stack : Stack} {tokens rest : List Token}
    (here : Stack.state stack = .codeInstruction) (spelled : wordsOf tokens = branch.words)
    (follows : next rest ∈ State.lineEnd) :
    ∃ clash : Option Nat, clash.isSome = branch.clashes ∧
      feed stack (tokens ++ rest) =
        feed (⟨.lineBranch, .branch branch.node clash⟩ :: stack) rest := by
  cases branch with
  | jump goal =>
    obtain ⟨position, more, rfl, others⟩ := exists_cons_of_wordsOf spelled
    refine ⟨none, rfl, ?_⟩
    calc feed stack ((.goto, position) :: (more ++ rest))
        = feed (⟨.goto, .word position⟩ :: stack) (more ++ rest) :=
          feed_shift (by rw [here]; rfl) (by rw [here]; rfl)
      _ = feed (⟨.gotoGoal, .node goal.node⟩ :: ⟨.goto, .word position⟩ :: stack) rest :=
          feed_goal goal (show State.goto.Admits _ _ by decide) others
            (List.mem_append_left _ follows)
      _ = _ := feed_reduce [_, _] rfl follows rfl rfl (by rw [here]; rfl)
  | oneArm goal asked =>
    obtain ⟨position, more, rfl, others⟩ := exists_cons_of_wordsOf spelled
    obtain ⟨front, back, rfl, before, after⟩ := exists_append_of_wordsOf others
    refine ⟨none, rfl, ?_⟩
    rw [List.cons_append, List.append_assoc]
    calc feed stack ((.goto, position) :: (front ++ (back ++ rest)))
        = feed (⟨.goto, .word position⟩ :: stack) (front ++ (back ++ rest)) :=
          feed_shift (by rw [here]; rfl) (by rw [here]; rfl)
      _ = feed (⟨.gotoGoal, .node goal.node⟩ :: ⟨.goto, .word position⟩ :: stack) (back ++ rest) :=
          feed_goal goal (show State.goto.Admits _ _ by decide) before (next_condition asked after)
      _ = feed (⟨.gotoGoalCondition, .number asked.bit.toNat⟩ :: ⟨.gotoGoal, .node goal.node⟩ ::
            ⟨.goto, .word position⟩ :: stack) rest :=
          feed_condition asked (show State.gotoGoal.Admits _ _ by decide) after
            (List.mem_append_left _ follows)
      _ = _ := feed_reduce [_, _, _] rfl follows rfl rfl (by rw [here]; rfl)
  | twoArms first asked second other =>
    obtain ⟨position, more, rfl, arms⟩ := exists_cons_of_wordsOf spelled
    obtain ⟨goalTokens, most, rfl, firstSpelled, behindGoal⟩ := exists_append_of_wordsOf arms
    obtain ⟨askedTokens, half, rfl, askedSpelled, secondArm⟩ := exists_append_of_wordsOf behindGoal
    obtain ⟨again, last, rfl, behindGoto⟩ := exists_cons_of_wordsOf secondArm
    obtain ⟨front, back, rfl, secondSpelled, otherSpelled⟩ := exists_append_of_wordsOf behindGoto
    refine ⟨if asked.bit.toNat = other.bit.toNat then some position else none, ?_, ?_⟩
    · show Option.isSome _ = (asked.bit == other.bit)
      cases asked.bit <;> cases other.bit <;> rfl
    · simp only [List.cons_append, List.append_assoc]
      calc feed stack ((.goto, position) ::
              (goalTokens ++ (askedTokens ++ (.goto, again) :: (front ++ (back ++ rest)))))
          = feed (⟨.goto, .word position⟩ :: stack)
              (goalTokens ++ (askedTokens ++ (.goto, again) :: (front ++ (back ++ rest)))) :=
            feed_shift (by rw [here]; rfl) (by rw [here]; rfl)
        _ = feed (⟨.gotoGoal, .node first.node⟩ :: ⟨.goto, .word position⟩ :: stack)
              (askedTokens ++ (.goto, again) :: (front ++ (back ++ rest))) :=
            feed_goal first (show State.goto.Admits _ _ by decide) firstSpelled
              (next_condition asked askedSpelled)
        _ = feed (⟨.gotoGoalCondition, .number asked.bit.toNat⟩ :: ⟨.gotoGoal, .node first.node⟩ ::
              ⟨.goto, .word position⟩ :: stack) ((.goto, again) :: (front ++ (back ++ rest))) :=
            feed_condition asked (show State.gotoGoal.Admits _ _ by decide) askedSpelled
              (show some Keyword.goto ∈ State.instructionEnd by decide)
        _ = feed (⟨.secondGoto, .word again⟩ :: ⟨.gotoGoalCondition, .number asked.bit.toNat⟩ ::
              ⟨.gotoGoal, .node first.node⟩ :: ⟨.goto, .word position⟩ :: stack)
              (front ++ (back ++ rest)) := feed_shift rfl rfl
        _ = feed (⟨.secondGoal, .node second.node⟩ :: ⟨.secondGoto, .word again⟩ ::
              ⟨.gotoGoalCondition, .number asked.bit.toNat⟩ :: ⟨.gotoGoal, .node first.node⟩ ::
              ⟨.goto, .word position⟩ :: stack) (back ++ rest) :=
            feed_goal second (show State.secondGoto.Admits _ _ by decide) secondSpelled
              (next_condition other otherSpelled)
        _ = feed (⟨.secondCondition, .number other.bit.toNat⟩ ::
              ⟨.secondGoal, .node second.node⟩ :: ⟨.secondGoto, .word again⟩ ::
              ⟨.gotoGoalCondition, .number asked.bit.toNat⟩ :: ⟨.gotoGoal, .node first.node⟩ ::
              ⟨.goto, .word position⟩ :: stack) rest :=
            feed_condition other (show State.secondGoal.Admits _ _ by decide) otherSpelled
              (List.mem_append_left _ follows)
        _ = _ := feed_reduce [_, _, _, _, _, _] rfl follows rfl rfl (by rw [here]; rfl)

end Branches

section Lines

/-- Where some tokens start. -/
abbrev startsOf (tokens : List Token) : List Nat :=
  tokens.map (·.2)

/-- A draft is that of a line at a position: it has its meaning, and an objection if the line's
branch asks for one bit twice. -/
structure Drafts (line : Derivation.Line) (position : Nat) (draft : Draft) : Prop where
  means : draft.line = line.meaning position
  clash : draft.clash.isSome = line.clashes

/-- The stack behind the instruction of a line. -/
def instructedStack (line : Derivation.Line) (position behind : Nat) (stack : Stack) : Stack :=
  ⟨.codeInstruction, .node line.instruction.node⟩ :: ⟨.code, .word behind⟩ ::
    ⟨.lineNumberBits, .number line.number.value⟩ :: ⟨.lineNumber, .word position⟩ :: stack

theorem feed_instructed (line : Derivation.Line) {stack : Stack} {position behind : Nat}
    {digits front rest : List Token}
    (waits : (Stack.state stack).waits (some .lineNumber) = true)
    (leads : (Stack.state stack).shifts.lookup .lineNumber = some .lineNumber)
    (numbered : wordsOf digits = line.number.words)
    (instructed : wordsOf front = line.instruction.words)
    (follows : next rest ∈ State.instructionEnd) :
    feed stack ((.lineNumber, position) :: (digits ++ (.code, behind) :: (front ++ rest))) =
      feed (instructedStack line position behind stack) rest := by
  calc feed stack ((.lineNumber, position) :: (digits ++ (.code, behind) :: (front ++ rest)))
      = feed (⟨.lineNumber, .word position⟩ :: stack)
          (digits ++ (.code, behind) :: (front ++ rest)) :=
        feed_shift waits leads
    _ = feed (⟨.lineNumberBits, .number line.number.value⟩ ::
          ⟨.lineNumber, .word position⟩ :: stack) ((.code, behind) :: (front ++ rest)) :=
        feed_numeral line.number (show State.lineNumber.Admits _ _ by decide) numbered
          (show some Keyword.code ∈ State.bitsEnd by decide)
    _ = feed (⟨.code, .word behind⟩ :: ⟨.lineNumberBits, .number line.number.value⟩ ::
          ⟨.lineNumber, .word position⟩ :: stack) (front ++ rest) := feed_shift rfl rfl
    _ = feed (instructedStack line position behind stack) rest :=
        feed_instruction line.instruction rfl instructed follows

theorem feed_line (line : Derivation.Line) {stack : Stack} {behind : State}
    {tokens rest : List Token}
    (admits : (Stack.state stack).Admits [(.lineNumber, .lineNumber)] [(.line, behind)])
    (spelled : wordsOf tokens = line.words) (follows : next rest ∈ State.lineEnd) :
    ∃ draft : Draft, Drafts line ((startsOf tokens).headD 0) draft ∧
      feed stack (tokens ++ rest) = feed (⟨behind, .line draft⟩ :: stack) rest := by
  have leads := admits.leads (.line, behind) (List.mem_singleton.mpr rfl)
  obtain ⟨waits, starts⟩ := admits.takes (.lineNumber, .lineNumber) (List.mem_singleton.mpr rfl)
  obtain ⟨number, instruction, branch⟩ := line
  obtain ⟨position, more, rfl, content⟩ := exists_cons_of_wordsOf spelled
  obtain ⟨digits, most, rfl, numbered, coded⟩ := exists_append_of_wordsOf content
  obtain ⟨code, half, rfl, behindCode⟩ := exists_cons_of_wordsOf coded
  obtain ⟨front, back, rfl, instructed, branched⟩ := exists_append_of_wordsOf behindCode
  simp only [List.cons_append, List.append_assoc]
  cases branch with
  | none =>
    cases List.map_eq_nil_iff.mp branched
    refine ⟨⟨⟨number.value, instruction.node, .absent, position⟩, none⟩, ⟨rfl, rfl⟩, ?_⟩
    rw [List.nil_append, feed_instructed _ waits starts numbered instructed
      (List.mem_append_left _ follows)]
    exact feed_reduce [_, _, _, _] rfl follows rfl rfl leads
  | some branch =>
    have continues : next (back ++ rest) ∈ State.instructionEnd := by
      obtain ⟨words, equal⟩ := branch.words_eq_cons
      obtain ⟨position, more, rfl, -⟩ := exists_cons_of_wordsOf (branched.trans equal)
      show some Keyword.goto ∈ State.instructionEnd
      decide
    rw [feed_instructed _ waits starts numbered instructed continues]
    have here : Stack.state (instructedStack ⟨number, instruction, some branch⟩ position code stack)
        = .codeInstruction := rfl
    obtain ⟨clash, clashes, passed⟩ := feed_branch branch here branched follows
    refine ⟨⟨⟨number.value, instruction.node, branch.node, position⟩, clash⟩, ⟨rfl, clashes⟩, ?_⟩
    refine passed.trans ?_
    exact feed_reduce [_, _, _, _, _] rfl follows rfl rfl leads

theorem next_lines (lines : List Derivation.Line) {tokens : List Token}
    (spelled : wordsOf tokens = lines.flatMap (·.words)) : next tokens ∈ State.lineEnd := by
  cases lines with
  | nil =>
    cases List.map_eq_nil_iff.mp spelled
    decide
  | cons line lines =>
    obtain ⟨position, more, rfl, -⟩ := exists_cons_of_wordsOf spelled
    show some Keyword.lineNumber ∈ State.lineEnd
    decide

/-- The drafts of lines in a text. -/
structure DraftsAt (starts : List Nat) (lines : List Derivation.Line) (drafts : List Draft) :
    Prop where
  mean : drafts.map (·.line) = Derivation.linesAt starts lines
  clashes : drafts.map (·.clash.isSome) = lines.map (·.clashes)

theorem DraftsAt.cons {line : Derivation.Line} {lines : List Derivation.Line} {draft : Draft}
    {drafts : List Draft} {front back : List Token} (spelled : wordsOf front = line.words)
    (first : Drafts line ((startsOf front).headD 0) draft)
    (rest : DraftsAt (startsOf back) lines drafts) :
    DraftsAt (startsOf (front ++ back)) (line :: lines) (draft :: drafts) := by
  have length : (startsOf front).length = line.words.length := by
    rw [← spelled, List.length_map, List.length_map]
  constructor
  · rw [List.map_cons, Derivation.linesAt, startsOf, List.map_append, ← length, List.drop_left,
      rest.mean, first.means]
    congr 2
    cases front with
    | nil => cases spelled
    | cons token front => rfl
  · rw [List.map_cons, List.map_cons, first.clash, rest.clashes]

theorem feed_lines (lines : List Derivation.Line) (done : List Draft) {tokens : List Token}
    (spelled : wordsOf tokens = lines.flatMap (·.words)) :
    ∃ drafts : List Draft, DraftsAt (startsOf tokens) lines drafts ∧
      feed [⟨.lines, .lines done⟩] tokens = some (done.reverse ++ drafts) := by
  induction lines generalizing done tokens with
  | nil =>
    cases List.map_eq_nil_iff.mp spelled
    refine ⟨[], ⟨rfl, rfl⟩, ?_⟩
    calc feed [⟨.lines, .lines done⟩] []
        = feed [⟨.accepted, .lines done⟩] [] :=
          feed_reduce [_] rfl (List.mem_singleton.mpr rfl) rfl rfl rfl
      _ = some done.reverse := by rw [feed, Stack.settle_of_waits rfl]; rfl
      _ = some (done.reverse ++ []) := by rw [List.append_nil]
  | cons line lines ih =>
    obtain ⟨front, back, rfl, first, others⟩ := exists_append_of_wordsOf spelled
    have follows := next_lines lines others
    have admits : State.lines.Admits [(.lineNumber, .lineNumber)] [(.line, .linesLine)] := by decide
    have here : Stack.state [⟨.lines, .lines done⟩] = .lines := rfl
    obtain ⟨draft, drawn, taken⟩ := feed_line line (here.symm ▸ admits) first follows
    obtain ⟨drafts, rest, fed⟩ := ih (draft :: done) others
    refine ⟨draft :: drafts, rest.cons first drawn, ?_⟩
    calc feed [⟨.lines, .lines done⟩] (front ++ back)
        = feed [⟨.linesLine, .line draft⟩, ⟨.lines, .lines done⟩] back := taken
      _ = feed [⟨.lines, .lines (draft :: done)⟩] back :=
          feed_reduce [_, _] rfl follows rfl rfl rfl
      _ = some (done.reverse ++ draft :: drafts) := by
          rw [fed, List.reverse_cons, List.append_assoc]
          rfl

/-- The automaton accepts the keywords of every derivation. -/
theorem feed_complete (derived : Derivation.Program) {tokens : List Token}
    (spelled : wordsOf tokens = derived.words) :
    ∃ drafts : List Draft, DraftsAt (startsOf tokens) derived.lines drafts ∧
      feed [] tokens = some drafts := by
  obtain ⟨front, back, rfl, first, others⟩ := exists_append_of_wordsOf spelled
  have follows := next_lines derived.more others
  have admits : State.start.Admits [(.lineNumber, .lineNumber)] [(.line, .firstLine)] := by decide
  have here : Stack.state [] = .start := rfl
  obtain ⟨draft, drawn, taken⟩ := feed_line derived.first (here.symm ▸ admits) first follows
  obtain ⟨drafts, rest, fed⟩ := feed_lines derived.more [draft] others
  refine ⟨draft :: drafts, rest.cons first drawn, ?_⟩
  calc feed [] (front ++ back)
      = feed [⟨.firstLine, .line draft⟩] back := taken
    _ = feed [⟨.lines, .lines [draft]⟩] back := feed_reduce [_] rfl follows rfl rfl rfl
    _ = some (draft :: drafts) := fed

end Lines

end BitMachine.Automaton
