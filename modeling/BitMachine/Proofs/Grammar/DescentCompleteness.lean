import BitMachine.Proofs.Grammar.DescentSoundness

/-! Reading by descent is complete: a derivation whose words stand in the text is read to its end,
unless the parentheses in one of its expressions are nested too deeply. -/

set_option autoImplicit false

namespace BitMachine.Descent

open BitMachine.Derivation (Numeral Place Layer Expression Destination Instruction Goal Condition
  Branch bitWord bitWords)
open Cursor (Passes)

section Outcomes

variable {α β : Type}

/-- A reader ends as given, or because of nesting, which then is excessive. -/
def Settles (reader : Reader α) (before : Cursor) (outcome : EStateM.Result Rejection Cursor α)
    (excess : Prop) : Prop :=
  reader before = outcome ∨
    excess ∧ ∃ position stuck, reader before = .error ⟨.nestedTooDeeply, position⟩ stuck

theorem Settles.of_eq {reader : Reader α} {before : Cursor}
    {outcome : EStateM.Result Rejection Cursor α} {excess : Prop}
    (done : reader before = outcome) : Settles reader before outcome excess :=
  Or.inl done

theorem Settles.mono {reader : Reader α} {before : Cursor}
    {outcome : EStateM.Result Rejection Cursor α} {excess larger : Prop}
    (settled : Settles reader before outcome excess) (weaken : excess → larger) :
    Settles reader before outcome larger :=
  settled.imp id fun deep => ⟨weaken deep.1, deep.2⟩

theorem Settles.congr {reader other : Reader α} {before place : Cursor}
    {outcome : EStateM.Result Rejection Cursor α} {excess : Prop}
    (settled : Settles other place outcome excess) (same : reader before = other place) :
    Settles reader before outcome excess := by
  rw [Settles, same]
  exact settled

theorem Settles.bind {first : Reader α} {next : α → Reader β} {before between : Cursor} {value : α}
    {outcome : EStateM.Result Rejection Cursor β} {excess : Prop}
    (start : Settles first before (.ok value between) excess)
    (rest : Settles (next value) between outcome excess) :
    Settles (first >>= next) before outcome excess := by
  rcases start with done | ⟨deep, position, stuck, failed⟩
  · exact rest.congr (Reader.bind_of_ok done)
  · exact Or.inr ⟨deep, position, stuck, Reader.bind_of_error failed⟩

theorem Settles.keyword {word : Keyword} {next : Reader α} {before between : Cursor}
    {outcome : EStateM.Result Rejection Cursor α} {excess : Prop}
    (moved : before.advance word.letters = (true, between))
    (rest : Settles next between outcome excess) :
    Settles (Reader.keyword word >>= fun _ => next) before outcome excess :=
  rest.congr (Reader.bind_of_ok (Reader.keyword_eq_ok.mpr moved))

end Outcomes

/-- None of the keywords comes next. -/
def Unseen (words : List Keyword) (cursor : Cursor) : Prop :=
  ∀ word ∈ words, cursor.sees word.spelling = false

theorem Unseen.mono {small large : List Keyword} {cursor : Cursor} (unseen : Unseen large cursor)
    (inside : ∀ word ∈ small, word ∈ large) : Unseen small cursor :=
  fun word member => unseen word (inside word member)

/-- Where a keyword stands, no other one does. -/
theorem unseen_of_passes {words others : List Keyword} {word : Keyword} {before after : Cursor}
    (passed : Passes (word :: words) before after) (absent : word ∉ others) :
    Unseen others before :=
  fun _ inside => Cursor.sees_eq_false_of_ne passed.sees fun same => absent (same ▸ inside)

section Bits

theorem bit_complete {b : Bool} {before after : Cursor} (passed : Passes [bitWord b] before after) :
    bit before = .ok b.toNat after := by
  unfold bit
  cases b with
  | false =>
    have moved : before.advance Keyword.zero.letters = (true, after) :=
      Cursor.passes_singleton.mp passed
    rw [Reader.choose_of_sees _ _ (Cursor.sees_of_advance moved),
      Reader.bind_of_ok (Reader.keyword_eq_ok.mpr moved)]
    rfl
  | true =>
    have unseen : Unseen [.zero] before := unseen_of_passes passed (by decide)
    have moved : before.advance Keyword.one.letters = (true, after) :=
      Cursor.passes_singleton.mp passed
    rw [Reader.choose_of_not_sees _ _ (unseen .zero (by decide)),
      Reader.choose_of_sees _ _ (Cursor.sees_of_advance moved),
      Reader.bind_of_ok (Reader.keyword_eq_ok.mpr moved)]
    rfl

theorem seesBit_of_passes {b : Bool} {words : List Keyword} {before after : Cursor}
    (passed : Passes (bitWord b :: words) before after) : seesBit before = .ok true before := by
  have seen := passed.sees
  rw [seesBit_run]
  cases b <;> simp only [bitWord] at seen <;> simp only [seen, Bool.or_true, Bool.true_or]

theorem seesBit_of_unseen {before : Cursor} (unseen : Unseen bitWords before) :
    seesBit before = .ok false before := by
  rw [seesBit_run, unseen .zero (by decide), unseen .one (by decide), Bool.or_self]

theorem moreBits_complete {more : List Bool} {fuel value : Nat} {before after : Cursor}
    (enough : more.length ≤ fuel) (passed : Passes (more.map bitWord) before after)
    (ends : Unseen bitWords after) :
    moreBits fuel value before =
      .ok (more.foldl (fun value bit => 2 * value + bit.toNat) value) after := by
  induction more generalizing fuel value before with
  | nil =>
    cases passed
    cases fuel with
    | zero => rfl
    | succ fuel =>
      unfold moreBits
      rw [Reader.bind_of_ok (seesBit_of_unseen ends)]
      rfl
  | cons b more ih =>
    cases fuel with
    | zero => cases enough
    | succ fuel =>
      unfold moreBits
      rw [Reader.bind_of_ok (seesBit_of_passes passed)]
      obtain ⟨between, moved, rest⟩ := passed
      rw [if_pos rfl, Reader.bind_of_ok (bit_complete (Cursor.passes_singleton.mpr moved))]
      exact ih (Nat.le_of_succ_le_succ enough) rest

theorem bits_complete {numeral : Numeral} {before after : Cursor}
    (passed : Passes numeral.words before after) (ends : Unseen bitWords after) :
    bits before = .ok numeral.value after := by
  obtain ⟨between, moved, rest⟩ := passed
  unfold bits
  rw [Reader.bind_of_ok (bit_complete (Cursor.passes_singleton.mpr moved))]
  have enough := rest.length_le
  rw [List.length_map] at enough
  exact moreBits_complete enough rest ends

theorem place_complete {spot : Place} {before after : Cursor}
    (passed : Passes spot.words before after) (ends : Unseen bitWords after) :
    place before = .ok spot.address after := by
  unfold place
  cases spot with
  | cell address =>
    rw [Reader.choose_of_sees _ _ passed.sees]
    obtain ⟨between, moved, rest⟩ := passed
    rw [Reader.bind_of_ok (Reader.keyword_eq_ok.mpr moved),
      Reader.bind_of_ok (bits_complete rest ends)]
    rfl
  | register =>
    have unseen : Unseen [.variable] before := unseen_of_passes passed (by decide)
    rw [Reader.choose_of_not_sees _ _ (unseen .variable (by decide)),
      Reader.choose_of_sees _ _ passed.sees,
      Reader.bind_of_ok (Reader.keyword_eq_ok.mpr (Cursor.passes_singleton.mp passed))]
    rfl

theorem seesVariable_of_passes {spot : Place} {words : List Keyword} {before after : Cursor}
    (passed : Passes (spot.words ++ words) before after) :
    seesVariable before = .ok true before := by
  rw [seesVariable_run]
  cases spot with
  | cell address =>
    have seen : before.sees Keyword.variable.spelling = true := passed.sees
    rw [seen, Bool.true_or]
  | register =>
    have seen : before.sees Keyword.theJumpRegister.spelling = true := passed.sees
    rw [seen, Bool.or_true]

theorem seesVariable_of_unseen {before : Cursor}
    (unseen : Unseen [.variable, .theJumpRegister] before) :
    seesVariable before = .ok false before := by
  rw [seesVariable_run, unseen .variable (by decide), unseen .theJumpRegister (by decide),
    Bool.or_self]

end Bits

section Expressions

/-- The reader for a layer, inside at most `depth` more parentheses. -/
def readerFor (layer : Layer) (depth : Nat) : Reader Node :=
  match layer with
  | .primary => primaryOver (expressionWithin depth)
  | .valueAt => valueAtOver (expressionWithin depth)
  | .valueBeyond => valueBeyondOver (expressionWithin depth)
  | .operand => addressOfOver (expressionWithin depth)
  | .expression => expressionOver (expressionWithin depth)

theorem unseen_of_expression {layer : Layer} (phrase : Expression layer) {words : List Keyword}
    {before after : Cursor} (passed : Passes phrase.words before after)
    (absent : ∀ word ∈ words, word ∉ layer.first) : Unseen words before := by
  obtain ⟨word, inside, rest, equal⟩ := phrase.exists_first
  rw [equal] at passed
  exact unseen_of_passes passed fun member => absent word member inside

/-- An operator in front of a phrase of the layer below. -/
theorem operator_complete {word : Keyword} {reader : Reader Node} {wrap : Node → Node}
    {before between after : Cursor} {node : Node} {excess : Prop}
    (moved : before.advance word.letters = (true, between))
    (settled : Settles reader between (.ok node after) excess) :
    Settles (Reader.seesKeyword word >>= fun seen =>
      if seen = true then
        Reader.keyword word >>= fun _ => reader >>= fun node => pure (wrap node)
      else reader) before (.ok (wrap node) after) excess := by
  refine Settles.congr ?_ (Reader.choose_of_sees _ _ (Cursor.sees_of_advance moved))
  exact .keyword moved (settled.bind (.of_eq rfl))

/-- No operator in front of a phrase of the layer below. -/
theorem plain_complete {word : Keyword} {reader : Reader Node} (other : Reader Node)
    {before after : Cursor} {node : Node} {excess : Prop}
    (unseen : Unseen [word] before) (settled : Settles reader before (.ok node after) excess) :
    Settles (Reader.seesKeyword word >>= fun seen => if seen = true then other else reader) before
      (.ok node after) excess :=
  settled.congr (Reader.choose_of_not_sees _ _ (unseen word (by simp)))

theorem readerFor_complete {layer : Layer} (phrase : Expression layer) (depth : Nat)
    {before after : Cursor} (passed : Passes phrase.words before after)
    (ends : Unseen layer.more after) :
    Settles (readerFor layer depth) before (.ok phrase.node after) (depth < phrase.depth) := by
  induction phrase generalizing depth before after with
  | place spot =>
    refine .of_eq ?_
    have found : Passes (spot.words ++ []) before after := by rwa [List.append_nil]
    change primaryOver (expressionWithin depth) before = _
    unfold primaryOver
    rw [Reader.bind_of_ok (seesVariable_of_passes found), if_pos rfl]
    unfold variableNode
    rw [Reader.bind_of_ok (place_complete passed ends)]
    rfl
  | constant magnitude =>
    refine .of_eq ?_
    change primaryOver (expressionWithin depth) before = _
    unfold primaryOver
    have noVariable : Unseen [.variable, .theJumpRegister] before := by
      refine unseen_of_passes passed ?_
      cases magnitude.first <;> decide
    rw [Reader.bind_of_ok (seesVariable_of_unseen noVariable), if_neg (by decide),
      Reader.bind_of_ok (seesBit_of_passes passed), if_pos rfl,
      Reader.bind_of_ok (bits_complete passed ends)]
    rfl
  | parenthesized inner ih =>
    have unseen : Unseen [.variable, .theJumpRegister, .zero, .one] before :=
      unseen_of_passes passed (by decide)
    obtain ⟨opened, moved, rest⟩ := passed
    obtain ⟨between, body, closing⟩ := Cursor.passes_append.mp rest
    have settled : Settles (expressionWithin depth) opened (.ok inner.node between)
        (depth < inner.depth + 1) := by
      cases depth with
      | zero => exact Or.inr ⟨Nat.succ_pos _, _, _, rfl⟩
      | succ depth =>
        refine (ih depth body (unseen_of_passes closing (by decide))).mono ?_
        exact Nat.succ_lt_succ
    change Settles (primaryOver (expressionWithin depth)) before _ _
    unfold primaryOver
    refine Settles.congr ?_ (Reader.bind_of_ok (seesVariable_of_unseen (unseen.mono (by decide))))
    refine Settles.congr ?_ (Reader.bind_of_ok (seesBit_of_unseen (unseen.mono (by decide))))
    refine Settles.congr ?_ (Reader.choose_of_sees _ _ (Cursor.sees_of_advance moved))
    exact .keyword moved (settled.bind (.keyword (Cursor.passes_singleton.mp closing) (.of_eq rfl)))
  | plainAt inner ih =>
    exact plain_complete _ (unseen_of_expression inner passed (by decide)) (ih depth passed ends)
  | valueAt inner ih =>
    obtain ⟨between, moved, rest⟩ := passed
    exact operator_complete moved (ih depth rest ends)
  | plainBeyond inner ih =>
    exact plain_complete _ (unseen_of_expression inner passed (by decide)) (ih depth passed ends)
  | valueBeyond inner ih =>
    obtain ⟨between, moved, rest⟩ := passed
    exact operator_complete moved (ih depth rest ends)
  | plainOperand inner ih =>
    exact plain_complete _ (unseen_of_expression inner passed (by decide)) (ih depth passed ends)
  | addressOf inner ih =>
    obtain ⟨between, moved, rest⟩ := passed
    exact operator_complete moved (ih depth rest ends)
  | single operand ih =>
    exact (ih depth passed (ends.mono (by decide))).bind
      (plain_complete _ (ends.mono (by decide)) (.of_eq rfl))
  | nand left right ihLeft ihRight =>
    obtain ⟨between, front, rest⟩ := Cursor.passes_append.mp passed
    have first := ihLeft depth front (unseen_of_passes rest (by decide))
    obtain ⟨joined, moved, back⟩ := rest
    have second := ihRight depth back (ends.mono (by decide))
    refine (first.mono fun deep => Nat.lt_of_lt_of_le deep (Nat.le_max_left _ _)).bind ?_
    refine Settles.congr ?_ (Reader.choose_of_sees _ _ (Cursor.sees_of_advance moved))
    refine .keyword moved (Settles.bind ?_ (.of_eq rfl))
    exact second.mono fun deep => Nat.lt_of_lt_of_le deep (Nat.le_max_right _ _)

theorem expression_complete (phrase : Expression .expression) {before after : Cursor}
    (passed : Passes phrase.words before after) (ends : Unseen (Layer.more .expression) after) :
    Settles expression before (.ok phrase.node after) (nestingLimit ≤ phrase.depth) :=
  (readerFor_complete phrase (nestingLimit - 1) passed ends).mono Nat.succ_le_of_lt

end Expressions

section Lines

/-- A line cannot go on: the text ends, or another line starts. -/
def LineDone (cursor : Cursor) : Prop :=
  ∀ word : Keyword, word ≠ .lineNumber → cursor.sees word.spelling = false

theorem LineDone.unseen {cursor : Cursor} (ended : LineDone cursor) {words : List Keyword}
    (absent : .lineNumber ∉ words) : Unseen words cursor :=
  fun word inside => ended word fun same => absent (same ▸ inside)

theorem target_complete {goal : Goal} {before after : Cursor}
    (passed : Passes goal.words before after) (ends : Unseen bitWords after) :
    target before = .ok goal.node after := by
  obtain ⟨marked, numeral⟩ := goal
  unfold target
  cases marked with
  | false =>
    have passed : Passes numeral.words before after := passed
    have unseen : Unseen [.variable] before :=
      unseen_of_passes passed (by cases numeral.first <;> decide)
    rw [Reader.choose_of_not_sees _ _ (unseen .variable (by decide)),
      Reader.bind_of_ok (bits_complete passed ends)]
    rfl
  | true =>
    have passed : Passes (.variable :: numeral.words) before after := passed
    rw [Reader.choose_of_sees _ _ passed.sees]
    obtain ⟨between, moved, rest⟩ := passed
    rw [Reader.bind_of_ok (Reader.keyword_eq_ok.mpr moved),
      Reader.bind_of_ok (bits_complete rest ends)]
    rfl

theorem condition_complete {asked : Condition} {before after : Cursor}
    (passed : Passes asked.words before after) : condition before = .ok asked.bit.toNat after := by
  obtain ⟨wordy, b⟩ := asked
  unfold condition
  cases wordy with
  | false =>
    obtain ⟨between, moved, rest⟩ := passed
    have unseen : Unseen [.equalTo] between :=
      unseen_of_passes rest (by cases b <;> decide)
    rw [Reader.bind_of_ok (Reader.keyword_eq_ok.mpr moved),
      Reader.choose_of_not_sees _ _ (unseen .equalTo (by decide))]
    exact bit_complete rest
  | true =>
    obtain ⟨between, moved, rest⟩ := passed
    rw [Reader.bind_of_ok (Reader.keyword_eq_ok.mpr moved), Reader.choose_of_sees _ _ rest.sees]
    obtain ⟨stop, extra, last⟩ := rest
    rw [Reader.bind_of_ok (Reader.keyword_eq_ok.mpr extra)]
    exact bit_complete last

theorem unseen_of_condition (asked : Condition) {words others : List Keyword}
    {before after : Cursor} (passed : Passes (asked.words ++ words) before after)
    (absent : .ifTheJumpRegisterIs ∉ others) : Unseen others before := by
  obtain ⟨rest, equal⟩ := asked.words_eq_cons
  rw [equal] at passed
  exact unseen_of_passes passed absent

theorem condition_complete_skipBlanks {asked : Condition} {before after : Cursor}
    (passed : Passes asked.words before after) :
    condition before.skipBlanks = .ok asked.bit.toNat after := by
  refine condition_complete ?_
  obtain ⟨rest, equal⟩ := asked.words_eq_cons
  rw [equal] at passed ⊢
  exact passed.skipBlanks

theorem seesCondition_of_passes (asked : Condition) {words : List Keyword} {before after : Cursor}
    (passed : Passes (asked.words ++ words) before after) :
    Reader.seesKeyword .ifTheJumpRegisterIs before = .ok true before := by
  obtain ⟨rest, equal⟩ := asked.words_eq_cons
  rw [equal] at passed
  exact congrArg (EStateM.Result.ok · before) passed.sees

theorem branch_complete {derived : Branch} {before after : Cursor}
    (passed : Passes derived.words before after) (decided : derived.clashes = false)
    (ended : LineDone after) : branch before = .ok derived.node after := by
  unfold branch
  cases derived with
  | jump goal =>
    obtain ⟨between, moved, led⟩ := passed
    have noCondition : Reader.seesKeyword .ifTheJumpRegisterIs after = .ok false after :=
      congrArg (EStateM.Result.ok · after) (ended .ifTheJumpRegisterIs (by decide))
    rw [Reader.bind_of_ok (Reader.keyword_eq_ok.mpr moved),
      Reader.bind_of_ok (target_complete led (ended.unseen (by decide))),
      Reader.bind_of_ok noCondition]
    rfl
  | oneArm goal asked =>
    obtain ⟨between, moved, rest⟩ := passed
    obtain ⟨reached, led, question⟩ := Cursor.passes_append.mp rest
    have question' : Passes (asked.words ++ []) reached after := by rwa [List.append_nil]
    rw [Reader.bind_of_ok (Reader.keyword_eq_ok.mpr moved),
      Reader.bind_of_ok (target_complete led (unseen_of_condition asked question' (by decide))),
      Reader.bind_of_ok (seesCondition_of_passes asked question'), if_neg (by decide),
      Reader.bind_of_ok (condition_complete question),
      Reader.choose_of_not_sees _ _ (ended .goto (by decide))]
    rfl
  | twoArms goal asked second other =>
    obtain ⟨between, moved, rest⟩ := passed
    obtain ⟨reached, led, question⟩ := Cursor.passes_append.mp rest
    obtain ⟨answered, reply, again⟩ := Cursor.passes_append.mp question
    rw [Reader.bind_of_ok (Reader.keyword_eq_ok.mpr moved),
      Reader.bind_of_ok (target_complete led (unseen_of_condition asked question (by decide))),
      Reader.bind_of_ok (seesCondition_of_passes asked question), if_neg (by decide),
      Reader.bind_of_ok (condition_complete reply), Reader.choose_of_sees _ _ again.sees]
    obtain ⟨turned, jumped, rest'⟩ := again
    obtain ⟨stop, led', question'⟩ := Cursor.passes_append.mp rest'
    have question'' : Passes (other.words ++ []) stop after := by rwa [List.append_nil]
    rw [Reader.bind_of_ok (Reader.keyword_eq_ok.mpr jumped),
      Reader.bind_of_ok (target_complete led' (unseen_of_condition other question'' (by decide))),
      Reader.bind_of_ok (Reader.skipBlanks_run stop),
      Reader.bind_of_ok (condition_complete_skipBlanks question')]
    have differs : ¬other.bit.toNat = asked.bit.toNat := by
      rw [Branch.clashes, beq_eq_false_iff_ne] at decided
      revert decided
      cases asked.bit <;> cases other.bit <;> decide
    rw [if_neg differs]
    rfl

theorem assignment_complete {destination : Destination} {source : Expression .expression}
    {before after : Cursor}
    (passed : Passes (Instruction.assignment destination source).words before after)
    (ends : Unseen (Layer.more .expression) after) :
    Settles assignment before (.ok (Instruction.assignment destination source).node after)
      (nestingLimit ≤ max destination.depth source.depth) := by
  unfold assignment
  obtain ⟨between, found, rest⟩ := Cursor.passes_append.mp passed
  have assigned : Unseen (Layer.more .expression) between := unseen_of_passes rest (by decide)
  obtain ⟨opened, moved, body⟩ := rest
  have settled : Settles expression opened (.ok source.node after)
      (nestingLimit ≤ max destination.depth source.depth) :=
    (expression_complete source body ends).mono fun deep => Nat.le_trans deep (Nat.le_max_right _ _)
  cases destination with
  | place spot =>
    refine Settles.congr ?_ (Reader.bind_of_ok (seesVariable_of_passes passed))
    refine Settles.congr ?_
      (Reader.bind_of_ok (place_complete found (assigned.mono (by decide))))
    exact .keyword moved (settled.bind (.of_eq rfl))
  | computed address computes =>
    have unseen : Unseen [.variable, .theJumpRegister] before := by
      obtain ⟨word, -, rest, equal⟩ := address.exists_first
      have found : Passes address.words before between := found
      rw [equal] at found computes
      refine unseen_of_passes found fun inside => computes ?_
      simp only [List.mem_cons, List.not_mem_nil, or_false] at inside
      exact inside.imp (congrArg some) (congrArg some)
    refine Settles.congr ?_ (Reader.bind_of_ok (seesVariable_of_unseen unseen))
    refine Settles.bind ?_ (.keyword moved (settled.bind (.of_eq rfl)))
    exact (expression_complete address found assigned).mono fun deep =>
      Nat.le_trans deep (Nat.le_max_left _ _)

theorem command_complete {derived : Instruction} {before after : Cursor}
    (passed : Passes derived.words before after)
    (commanding : derived = .read ∨ ∃ b, derived = .print b) :
    command before = .ok derived.node after := by
  unfold command
  rcases commanding with rfl | ⟨b, rfl⟩
  · have unseen : Unseen [.print] before := unseen_of_passes passed (by decide)
    rw [Reader.choose_of_not_sees _ _ (unseen .print (by decide)),
      Reader.choose_of_sees _ _ passed.sees,
      Reader.bind_of_ok (Reader.keyword_eq_ok.mpr (Cursor.passes_singleton.mp passed))]
    rfl
  · rw [Reader.choose_of_sees _ _ passed.sees]
    obtain ⟨between, moved, rest⟩ := passed
    rw [Reader.bind_of_ok (Reader.keyword_eq_ok.mpr moved), Reader.bind_of_ok (bit_complete rest)]
    rfl

theorem instruction_complete {derived : Instruction} {before after : Cursor}
    (passed : Passes derived.words before after) (ends : Unseen (Layer.more .expression) after) :
    Settles instruction before (.ok derived.node after) (nestingLimit ≤ derived.depth) := by
  unfold instruction
  cases derived with
  | print b =>
    refine Settles.congr ?_ (Reader.choose_of_sees _ _ passed.sees)
    exact .of_eq (command_complete passed (Or.inr ⟨b, rfl⟩))
  | read =>
    have unseen : Unseen [.print] before := unseen_of_passes passed (by decide)
    refine Settles.congr ?_ (Reader.choose_of_not_sees _ _ (unseen .print (by decide)))
    refine Settles.congr ?_ (Reader.choose_of_sees _ _ passed.sees)
    exact .of_eq (command_complete passed (Or.inl rfl))
  | assignment destination source =>
    have unseen : Unseen [.print, .read] before := by
      obtain ⟨word, inside, rest, equal⟩ := destination.exists_first
      have passed : Passes (destination.words ++ .equals :: source.words) before after := passed
      rw [equal] at passed
      have distinct : ∀ word ∈ [Keyword.print, .read], word ∉ Layer.first .expression := by decide
      exact unseen_of_passes passed fun command => distinct word command inside
    refine Settles.congr ?_ (Reader.choose_of_not_sees _ _ (unseen .print (by decide)))
    refine Settles.congr ?_ (Reader.choose_of_not_sees _ _ (unseen .read (by decide)))
    exact assignment_complete passed ends

theorem line_complete {derived : Derivation.Line} {before after : Cursor}
    (passed : Passes derived.words before after) (decided : derived.clashes = false)
    (ended : LineDone after) :
    Settles line before (.ok (derived.meaning before.skipBlanks.position) after)
      (nestingLimit ≤ derived.instruction.depth) := by
  obtain ⟨number, content, branch⟩ := derived
  unfold line
  obtain ⟨numbered, moved, rest⟩ := passed
  obtain ⟨labelled, counted, rest⟩ := Cursor.passes_append.mp rest
  have ends : Unseen bitWords labelled := unseen_of_passes rest (by decide)
  obtain ⟨coded, opened, rest⟩ := rest
  obtain ⟨stop, body, turned⟩ := Cursor.passes_append.mp rest
  refine Settles.congr ?_ (Reader.bind_of_ok (Reader.skipBlanks_run before))
  refine .keyword ((Cursor.advance_skipBlanks before .lineNumber).trans moved) ?_
  refine Settles.congr ?_ (Reader.bind_of_ok (bits_complete counted ends))
  refine .keyword opened ?_
  cases branch with
  | none =>
    cases turned
    refine (instruction_complete body (ended.unseen (by decide))).bind (.of_eq ?_)
    rw [Reader.choose_of_not_sees _ _ (ended .goto (by decide))]
    rfl
  | some branch =>
    have turned : Passes branch.words stop after := turned
    have seen : stop.sees Keyword.goto.spelling = true := by
      obtain ⟨rest, equal⟩ := branch.words_eq_cons
      rw [equal] at turned
      exact turned.sees
    have unseen : Unseen (Layer.more .expression) stop := by
      obtain ⟨rest, equal⟩ := branch.words_eq_cons
      rw [equal] at turned
      exact unseen_of_passes turned (by decide)
    refine (instruction_complete body unseen).bind (.of_eq ?_)
    rw [Reader.choose_of_sees _ _ seen, Reader.bind_of_ok (branch_complete turned decided ended)]
    rfl

/-- A line is followed by another one or by nothing. -/
theorem lineDone_of_passes {lines : List Derivation.Line} {before after : Cursor}
    (passed : Passes (lines.flatMap (·.words)) before after) (ends : after.ahead = []) :
    LineDone before := by
  intro word other
  cases lines with
  | nil =>
    cases passed
    exact Cursor.sees_eq_false_of_ahead ends word
  | cons line rest => exact Cursor.sees_eq_false_of_ne passed.sees other

end Lines

section Programs

/-- Reading a line with a number of its own. -/
theorem moreLines_step {line : Derivation.Line} {fuel : Nat} {lines : List Line}
    {numbers : List Nat} {before between : Cursor}
    {outcome : EStateM.Result Rejection Cursor (List Line)} {excess : Prop}
    (labelled : lines.map (·.number) = numbers.map fun n : Nat => Json.int n)
    (passed : Passes line.words before between) (decided : line.clashes = false)
    (ended : LineDone between) (fresh : line.number.value ∉ numbers)
    (deep : nestingLimit ≤ line.instruction.depth → excess)
    (rest : Settles (moreLines fuel (lines ++ [line.meaning before.skipBlanks.position])) between
      outcome excess) :
    Settles (moreLines (fuel + 1) lines) before outcome excess := by
  unfold moreLines
  refine Settles.congr ?_ (Reader.choose_of_sees _ _ passed.sees)
  refine ((line_complete passed decided ended).mono deep).bind ?_
  rw [show (line.meaning before.skipBlanks.position).number = .int line.number.value from rfl,
    any_same_meaning lines numbers line.number.value labelled,
    if_neg (by simpa only [decide_eq_true_eq] using fresh)]
  exact rest

/-- Reading a line with the number of an earlier one. -/
theorem moreLines_taken {line : Derivation.Line} {fuel : Nat} {lines : List Line}
    {numbers : List Nat} {before between : Cursor} {excess : Prop}
    (labelled : lines.map (·.number) = numbers.map fun n : Nat => Json.int n)
    (passed : Passes line.words before between) (decided : line.clashes = false)
    (ended : LineDone between) (taken : line.number.value ∈ numbers)
    (deep : nestingLimit ≤ line.instruction.depth → excess) :
    Settles (moreLines (fuel + 1) lines) before
      (.error ⟨.duplicateLine line.number.value, before.skipBlanks.position⟩ between) excess := by
  unfold moreLines
  refine Settles.congr ?_ (Reader.choose_of_sees _ _ passed.sees)
  refine ((line_complete passed decided ended).mono deep).bind (.of_eq ?_)
  rw [show (line.meaning before.skipBlanks.position).number = .int line.number.value from rfl,
    any_same_meaning lines numbers line.number.value labelled,
    if_pos (by simpa only [decide_eq_true_eq] using taken)]
  rfl

theorem labelled_append {lines : List Line} {numbers : List Nat} (line : Derivation.Line)
    (position : Nat) (labelled : lines.map (·.number) = numbers.map fun n : Nat => Json.int n) :
    (lines ++ [line.meaning position]).map (·.number) =
      (numbers ++ [line.number.value]).map fun n : Nat => Json.int n := by
  rw [List.map_append, List.map_append, labelled]
  rfl

theorem moreLines_complete {derived : List Derivation.Line} {fuel : Nat} (lines : List Line)
    (numbers : List Nat) {before after : Cursor} {excess : Prop} (enough : derived.length ≤ fuel)
    (labelled : lines.map (·.number) = numbers.map fun n : Nat => Json.int n)
    (passed : Passes (derived.flatMap (·.words)) before after) (ends : after.ahead = [])
    (decided : ∀ line ∈ derived, line.clashes = false)
    (distinct : (numbers ++ derived.map (·.number.value)).Nodup)
    (deep : ∀ line ∈ derived, nestingLimit ≤ line.instruction.depth → excess) :
    Settles (moreLines fuel lines) before
      (.ok (lines ++ Derivation.linesAt (Cursor.starts (derived.flatMap (·.words)) before) derived)
        after) excess := by
  induction derived generalizing fuel lines numbers before with
  | nil =>
    cases passed
    refine .of_eq ?_
    rw [Derivation.linesAt, List.append_nil]
    cases fuel with
    | zero => rfl
    | succ fuel =>
      unfold moreLines
      rw [Reader.choose_of_not_sees _ _ (Cursor.sees_eq_false_of_ahead ends .lineNumber)]
      rfl
  | cons line derived ih =>
    cases fuel with
    | zero => cases enough
    | succ fuel =>
      obtain ⟨between, first, rest⟩ := Cursor.passes_append.mp passed
      rw [List.map_cons, ← List.singleton_append, ← List.append_assoc] at distinct
      have fresh : line.number.value ∉ numbers := by
        intro taken
        have front := (List.nodup_append.mp distinct).1
        exact (List.nodup_append.mp front).2.2 _ taken _ (List.mem_singleton.mpr rfl) rfl
      refine moreLines_step labelled first (decided line List.mem_cons_self)
        (lineDone_of_passes rest ends) fresh (deep line List.mem_cons_self) ?_
      have settled := ih _ _ (Nat.le_of_succ_le_succ enough)
        (labelled_append line before.skipBlanks.position labelled) rest
        (fun other inside => decided other (List.mem_cons_of_mem _ inside)) distinct
        (fun other inside => deep other (List.mem_cons_of_mem _ inside))
      rw [List.append_assoc] at settled
      rw [Derivation.linesAt, List.flatMap_cons, first.drop_starts]
      exact settled

theorem moreLines_repeats {front back : List Derivation.Line} {line : Derivation.Line} {fuel : Nat}
    (lines : List Line) (numbers : List Nat) {before after : Cursor} {excess : Prop}
    (enough : (front ++ line :: back).length ≤ fuel)
    (labelled : lines.map (·.number) = numbers.map fun n : Nat => Json.int n)
    (passed : Passes ((front ++ line :: back).flatMap (·.words)) before after)
    (ends : after.ahead = []) (decided : ∀ other ∈ front ++ line :: back, other.clashes = false)
    (distinct : (numbers ++ front.map (·.number.value)).Nodup)
    (taken : line.number.value ∈ numbers ++ front.map (·.number.value))
    (deep : ∀ other ∈ front ++ line :: back, nestingLimit ≤ other.instruction.depth → excess) :
    ∃ stuck, Settles (moreLines fuel lines) before
      (.error ⟨.duplicateLine line.number.value,
        ((Cursor.starts ((front ++ line :: back).flatMap (·.words)) before).drop
          (front.flatMap (·.words)).length).headD 0⟩ stuck) excess := by
  induction front generalizing fuel lines numbers before with
  | nil =>
    cases fuel with
    | zero => cases enough
    | succ fuel =>
      obtain ⟨between, first, rest⟩ := Cursor.passes_append.mp passed
      rw [List.map_nil, List.append_nil] at taken
      exact ⟨between, moreLines_taken labelled first (decided line List.mem_cons_self)
        (lineDone_of_passes rest ends) taken (deep line List.mem_cons_self)⟩
  | cons other front ih =>
    cases fuel with
    | zero => cases enough
    | succ fuel =>
      obtain ⟨between, first, rest⟩ := Cursor.passes_append.mp passed
      rw [List.map_cons, ← List.singleton_append, ← List.append_assoc] at distinct taken
      have fresh : other.number.value ∉ numbers := by
        intro taken
        have front := (List.nodup_append.mp distinct).1
        exact (List.nodup_append.mp front).2.2 _ taken _ (List.mem_singleton.mpr rfl) rfl
      obtain ⟨stuck, settled⟩ := ih _ _ (Nat.le_of_succ_le_succ enough)
        (labelled_append other before.skipBlanks.position labelled) rest
        (fun later inside => decided later (List.mem_cons_of_mem _ inside)) distinct taken
        (fun later inside => deep later (List.mem_cons_of_mem _ inside))
      refine ⟨stuck, moreLines_step labelled first (decided other List.mem_cons_self)
        (lineDone_of_passes rest ends) fresh (deep other List.mem_cons_self) ?_⟩
      rw [List.cons_append, List.flatMap_cons, List.flatMap_cons, List.length_append,
        ← List.drop_drop, first.drop_starts]
      exact settled

/-- The first line is read, and what follows depends on the others. -/
theorem program_start {derived : Derivation.Program} {before after : Cursor}
    (passed : Passes derived.words before after) (ends : after.ahead = [])
    (decided : ∀ line ∈ derived.lines, line.clashes = false) :
    ∃ between, Passes derived.first.words before between ∧
      Passes (derived.more.flatMap (·.words)) between after ∧
      derived.more.length ≤ between.rest.length ∧
      Settles line before (.ok (derived.first.meaning before.skipBlanks.position) between)
        (nestingLimit ≤ derived.first.instruction.depth) := by
  obtain ⟨between, first, rest⟩ := Cursor.passes_append.mp passed
  refine ⟨between, first, rest, ?_, line_complete first (decided _ List.mem_cons_self)
    (lineDone_of_passes rest ends)⟩
  exact Nat.le_trans (Derivation.length_le_length_words derived.more) rest.length_le

theorem program_complete {derived : Derivation.Program} (before : Cursor)
    (spelled : before.ahead = Keyword.spell derived.words) (lawful : derived.Lawful) :
    ∃ after, Settles program before
      (.ok (derived.meaning (Cursor.starts derived.words before)) after)
      (¬derived.Shallow nestingLimit) := by
  obtain ⟨after, passed, ends⟩ := Cursor.exists_passes
    (spelled.trans (List.append_nil _).symm)
  have deep : ∀ line ∈ derived.lines, nestingLimit ≤ line.instruction.depth →
      ¬derived.Shallow nestingLimit :=
    fun line inside deep shallow => Nat.not_lt.mpr deep (shallow line inside)
  obtain ⟨between, first, rest, enough, start⟩ := program_start passed ends lawful.decided
  refine ⟨after.skipBlanks, ?_⟩
  unfold program
  refine (start.mono (deep _ List.mem_cons_self)).bind ?_
  refine Settles.congr ?_ (Reader.bind_of_ok (Reader.get_run between))
  refine (moreLines_complete [derived.first.meaning before.skipBlanks.position]
    [derived.first.number.value] enough rfl rest ends
    (fun line inside => lawful.decided line (List.mem_cons_of_mem _ inside)) lawful.distinct
    (fun line inside => deep line (List.mem_cons_of_mem _ inside))).bind (.of_eq ?_)
  rw [Reader.bind_of_ok (Reader.get_run after),
    if_neg (by rw [(Cursor.atEnd_iff after).mpr ends]; decide), Derivation.Program.words,
    Derivation.Program.lines, List.flatMap_cons, Derivation.Program.meaning,
    Derivation.Program.lines, Derivation.linesAt, first.drop_starts]
  rfl

theorem program_repeats {derived : Derivation.Program} (before : Cursor)
    {front back : List Derivation.Line} {line : Derivation.Line}
    (spelled : before.ahead = Keyword.spell derived.words)
    (decided : ∀ line ∈ derived.lines, line.clashes = false)
    (split : derived.lines = front ++ line :: back)
    (distinct : (front.map (·.number.value)).Nodup)
    (taken : line.number.value ∈ front.map (·.number.value)) :
    ∃ stuck, Settles program before
      (.error ⟨.duplicateLine line.number.value,
        ((Cursor.starts derived.words before).drop (front.flatMap (·.words)).length).headD 0⟩ stuck)
      (¬derived.Shallow nestingLimit) := by
  obtain ⟨after, passed, ends⟩ := Cursor.exists_passes
    (spelled.trans (List.append_nil _).symm)
  have deep : ∀ line ∈ derived.lines, nestingLimit ≤ line.instruction.depth →
      ¬derived.Shallow nestingLimit :=
    fun line inside deep shallow => Nat.not_lt.mpr deep (shallow line inside)
  obtain ⟨between, first, rest, enough, start⟩ := program_start passed ends decided
  cases front with
  | nil => cases taken
  | cons head front =>
    obtain ⟨rfl, more⟩ := List.cons.inj split
    rw [more] at rest enough
    obtain ⟨stuck, settled⟩ := moreLines_repeats
      [derived.first.meaning before.skipBlanks.position] [derived.first.number.value]
      enough rfl rest ends
      (fun line inside => decided line (List.mem_cons_of_mem _ (more ▸ inside))) distinct taken
      (fun line inside => deep line (List.mem_cons_of_mem _ (more ▸ inside)))
    refine ⟨stuck, ?_⟩
    unfold program
    refine (start.mono (deep _ List.mem_cons_self)).bind ?_
    refine Settles.congr ?_ (Reader.bind_of_ok (Reader.get_run between))
    rw [Derivation.Program.words, Derivation.Program.lines, List.flatMap_cons, List.flatMap_cons,
      List.length_append, ← List.drop_drop, first.drop_starts, more]
    rcases settled with done | ⟨nested, position, stuck, failed⟩
    · exact .of_eq (Reader.bind_of_error done)
    · exact Or.inr ⟨nested, position, stuck, Reader.bind_of_error failed⟩

end Programs

end BitMachine.Descent
