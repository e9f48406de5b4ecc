import BitMachine.Proofs.Grammar.Reading
import BitMachine.Proofs.Grammar.Unambiguity

/-! Reading by descent is sound: whatever a reader accepts has a derivation, and the reader's result
is what the derivation means. -/

set_option autoImplicit false

namespace BitMachine.Descent

open BitMachine.Derivation (Numeral Place Layer Expression Destination Instruction Goal Condition
  Branch bitWord bitWords)
open Cursor (Passes)

/-- What a successful start of a reader with a keyword amounts to. -/
theorem keyword_bind_ok {α : Type} {word : Keyword} {next : Reader α} {before after : Cursor}
    {result : α} (read : (Reader.keyword word >>= fun _ => next) before = .ok result after) :
    ∃ between, before.advance word.letters = (true, between) ∧ next between = .ok result after := by
  obtain ⟨_, between, moved, done⟩ := Reader.bind_eq_ok.mp read
  exact ⟨between, Reader.keyword_eq_ok.mp moved, done⟩

theorem bit_sound {before after : Cursor} {value : Nat} (read : bit before = .ok value after) :
    ∃ b : Bool, value = b.toNat ∧ Passes [bitWord b] before after := by
  unfold bit at read
  rw [Reader.choose_run] at read
  split at read
  · obtain ⟨between, moved, done⟩ := keyword_bind_ok read
    obtain ⟨rfl, rfl⟩ := Reader.pure_eq_ok.mp done
    exact ⟨false, rfl, Cursor.passes_singleton.mpr moved⟩
  · rw [Reader.choose_run] at read
    split at read
    · obtain ⟨between, moved, done⟩ := keyword_bind_ok read
      obtain ⟨rfl, rfl⟩ := Reader.pure_eq_ok.mp done
      exact ⟨true, rfl, Cursor.passes_singleton.mpr moved⟩
    · exact (Reader.fail_ne_ok _ read).elim

theorem moreBits_sound {fuel value result : Nat} {before after : Cursor}
    (read : moreBits fuel value before = .ok result after) :
    ∃ bits : List Bool, result = bits.foldl (fun value bit => 2 * value + bit.toNat) value ∧
      Passes (bits.map bitWord) before after := by
  induction fuel generalizing value before with
  | zero =>
    obtain ⟨rfl, rfl⟩ := Reader.pure_eq_ok.mp read
    exact ⟨[], rfl, rfl⟩
  | succ fuel ih =>
    unfold moreBits at read
    rw [Reader.bind_of_ok (seesBit_run before)] at read
    split at read
    · obtain ⟨next, between, first, rest⟩ := Reader.bind_eq_ok.mp read
      obtain ⟨b, rfl, moved⟩ := bit_sound first
      obtain ⟨bits, rfl, passed⟩ := ih rest
      exact ⟨b :: bits, rfl, moved.trans passed⟩
    · obtain ⟨rfl, rfl⟩ := Reader.pure_eq_ok.mp read
      exact ⟨[], rfl, rfl⟩

theorem bits_sound {before after : Cursor} {value : Nat} (read : bits before = .ok value after) :
    ∃ numeral : Numeral, value = numeral.value ∧ Passes numeral.words before after := by
  unfold bits at read
  obtain ⟨first, between, start, rest⟩ := Reader.bind_eq_ok.mp read
  obtain ⟨cursor, same, kept, rest⟩ := Reader.bind_eq_ok.mp rest
  cases kept
  obtain ⟨b, rfl, moved⟩ := bit_sound start
  obtain ⟨more, rfl, passed⟩ := moreBits_sound rest
  exact ⟨⟨b, more⟩, rfl, moved.trans passed⟩

theorem place_sound {before after : Cursor} {address : Int}
    (read : place before = .ok address after) :
    ∃ spot : Place, address = spot.address ∧ Passes spot.words before after := by
  unfold place at read
  rw [Reader.choose_run] at read
  split at read
  · obtain ⟨between, moved, rest⟩ := keyword_bind_ok read
    obtain ⟨value, stop, number, done⟩ := Reader.bind_eq_ok.mp rest
    obtain ⟨rfl, rfl⟩ := Reader.pure_eq_ok.mp done
    obtain ⟨numeral, rfl, passed⟩ := bits_sound number
    exact ⟨.cell numeral, rfl, between, moved, passed⟩
  · rw [Reader.choose_run] at read
    split at read
    · obtain ⟨between, moved, done⟩ := keyword_bind_ok read
      obtain ⟨rfl, rfl⟩ := Reader.pure_eq_ok.mp done
      exact ⟨.register, rfl, Cursor.passes_singleton.mpr moved⟩
    · exact (Reader.fail_ne_ok _ read).elim

section Expressions

/-- A reader accepts only phrases of a layer, and gives their nodes. -/
def SoundFor (layer : Layer) (reader : Reader Node) : Prop :=
  ∀ ⦃before after : Cursor⦄ ⦃node : Node⦄, reader before = .ok node after →
    ∃ phrase : Expression layer, node = phrase.node ∧ Passes phrase.words before after

variable {inner : Reader Node}

theorem primaryOver_sound (sound : SoundFor .expression inner) :
    SoundFor .primary (primaryOver inner) := by
  intro before after node read
  unfold primaryOver at read
  rw [Reader.bind_of_ok (seesVariable_run before)] at read
  split at read
  · obtain ⟨address, stop, spelled, done⟩ := Reader.bind_eq_ok.mp read
    obtain ⟨rfl, rfl⟩ := Reader.pure_eq_ok.mp done
    obtain ⟨spot, rfl, passed⟩ := place_sound spelled
    exact ⟨.place spot, rfl, passed⟩
  · rw [Reader.bind_of_ok (seesBit_run before)] at read
    split at read
    · obtain ⟨value, stop, number, done⟩ := Reader.bind_eq_ok.mp read
      obtain ⟨rfl, rfl⟩ := Reader.pure_eq_ok.mp done
      obtain ⟨numeral, rfl, passed⟩ := bits_sound number
      exact ⟨.constant numeral, rfl, passed⟩
    · rw [Reader.choose_run] at read
      split at read
      · obtain ⟨opened, opening, rest⟩ := keyword_bind_ok read
        obtain ⟨content, stop, body, rest⟩ := Reader.bind_eq_ok.mp rest
        obtain ⟨closed, closing, done⟩ := keyword_bind_ok rest
        obtain ⟨rfl, rfl⟩ := Reader.pure_eq_ok.mp done
        obtain ⟨phrase, rfl, passed⟩ := sound body
        exact ⟨.parenthesized phrase, rfl, opened, opening,
          passed.trans (Cursor.passes_singleton.mpr closing)⟩
      · exact (Reader.fail_ne_ok _ read).elim

/-- A layer with an operator: the operator and a phrase of the layer below, or that phrase alone. -/
theorem operator_sound {word : Keyword} {layer below : Layer} {reader : Reader Node}
    {wrap : Node → Node} (apply plain : Expression below → Expression layer)
    (applied : ∀ phrase, (apply phrase).words = word :: phrase.words ∧
      (apply phrase).node = wrap phrase.node)
    (kept : ∀ phrase, (plain phrase).words = phrase.words ∧ (plain phrase).node = phrase.node)
    (sound : SoundFor below reader) :
    SoundFor layer (Reader.seesKeyword word >>= fun seen =>
      if seen = true then
        Reader.keyword word >>= fun _ => reader >>= fun node => pure (wrap node)
      else reader) := by
  intro before after node read
  rw [Reader.choose_run] at read
  split at read
  · obtain ⟨between, moved, rest⟩ := keyword_bind_ok read
    obtain ⟨content, stop, body, done⟩ := Reader.bind_eq_ok.mp rest
    obtain ⟨rfl, rfl⟩ := Reader.pure_eq_ok.mp done
    obtain ⟨phrase, rfl, passed⟩ := sound body
    refine ⟨apply phrase, (applied phrase).2.symm, ?_⟩
    rw [(applied phrase).1]
    exact ⟨between, moved, passed⟩
  · obtain ⟨phrase, rfl, passed⟩ := sound read
    refine ⟨plain phrase, (kept phrase).2.symm, ?_⟩
    rw [(kept phrase).1]
    exact passed

theorem valueAtOver_sound (sound : SoundFor .expression inner) :
    SoundFor .valueAt (valueAtOver inner) :=
  operator_sound .valueAt .plainAt (fun _ => ⟨rfl, rfl⟩) (fun _ => ⟨rfl, rfl⟩)
    (primaryOver_sound sound)

theorem valueBeyondOver_sound (sound : SoundFor .expression inner) :
    SoundFor .valueBeyond (valueBeyondOver inner) :=
  operator_sound .valueBeyond .plainBeyond (fun _ => ⟨rfl, rfl⟩) (fun _ => ⟨rfl, rfl⟩)
    (valueAtOver_sound sound)

theorem addressOfOver_sound (sound : SoundFor .expression inner) :
    SoundFor .operand (addressOfOver inner) :=
  operator_sound .addressOf .plainOperand (fun _ => ⟨rfl, rfl⟩) (fun _ => ⟨rfl, rfl⟩)
    (valueBeyondOver_sound sound)

theorem expressionOver_sound (sound : SoundFor .expression inner) :
    SoundFor .expression (expressionOver inner) := by
  intro before after node read
  unfold expressionOver at read
  obtain ⟨left, between, front, rest⟩ := Reader.bind_eq_ok.mp read
  obtain ⟨phrase, rfl, passed⟩ := addressOfOver_sound sound front
  rw [Reader.choose_run] at rest
  split at rest
  · obtain ⟨joined, moved, rest⟩ := keyword_bind_ok rest
    obtain ⟨right, stop, back, done⟩ := Reader.bind_eq_ok.mp rest
    obtain ⟨rfl, rfl⟩ := Reader.pure_eq_ok.mp done
    obtain ⟨other, rfl, passed'⟩ := addressOfOver_sound sound back
    exact ⟨.nand phrase other, rfl, passed.trans ⟨joined, moved, passed'⟩⟩
  · obtain ⟨rfl, rfl⟩ := Reader.pure_eq_ok.mp rest
    exact ⟨.single phrase, rfl, passed⟩

theorem expressionWithin_sound (depth : Nat) : SoundFor .expression (expressionWithin depth) := by
  induction depth with
  | zero =>
    intro before after node read
    cases read
  | succ depth ih => exact expressionOver_sound ih

theorem expression_sound : SoundFor .expression expression :=
  expressionWithin_sound nestingLimit

end Expressions

section Lines

theorem target_sound {before after : Cursor} {node : Node} (read : target before = .ok node after) :
    ∃ goal : Goal, node = goal.node ∧ Passes goal.words before after := by
  unfold target at read
  rw [Reader.choose_run] at read
  split at read
  · obtain ⟨between, moved, rest⟩ := keyword_bind_ok read
    obtain ⟨value, stop, number, done⟩ := Reader.bind_eq_ok.mp rest
    obtain ⟨rfl, rfl⟩ := Reader.pure_eq_ok.mp done
    obtain ⟨numeral, rfl, passed⟩ := bits_sound number
    exact ⟨⟨true, numeral⟩, rfl, between, moved, passed⟩
  · obtain ⟨value, stop, number, done⟩ := Reader.bind_eq_ok.mp read
    obtain ⟨rfl, rfl⟩ := Reader.pure_eq_ok.mp done
    obtain ⟨numeral, rfl, passed⟩ := bits_sound number
    exact ⟨⟨false, numeral⟩, rfl, passed⟩

theorem condition_sound {before after : Cursor} {bit : Nat}
    (read : condition before = .ok bit after) :
    ∃ asked : Condition, bit = asked.bit.toNat ∧ Passes asked.words before after := by
  unfold condition at read
  obtain ⟨between, moved, rest⟩ := keyword_bind_ok read
  rw [Reader.choose_run] at rest
  split at rest
  · obtain ⟨stop, extra, done⟩ := keyword_bind_ok rest
    obtain ⟨b, rfl, passed⟩ := bit_sound done
    exact ⟨⟨true, b⟩, rfl, between, moved, stop, extra, passed⟩
  · obtain ⟨b, rfl, passed⟩ := bit_sound rest
    exact ⟨⟨false, b⟩, rfl, between, moved, passed⟩

theorem condition_of_skipBlanks {before after : Cursor} {asked : Condition}
    (passed : Passes asked.words before.skipBlanks after) : Passes asked.words before after := by
  obtain ⟨rest, equal⟩ := asked.words_eq_cons
  rw [equal] at passed ⊢
  exact passed.of_skipBlanks

theorem branch_sound {before after : Cursor} {node : Node} (read : branch before = .ok node after) :
    ∃ derived : Branch, node = derived.node ∧ Passes derived.words before after ∧
      derived.clashes = false := by
  unfold branch at read
  obtain ⟨between, moved, rest⟩ := keyword_bind_ok read
  obtain ⟨first, reached, start, rest⟩ := Reader.bind_eq_ok.mp rest
  obtain ⟨goal, rfl, led⟩ := target_sound start
  rw [Reader.bind_of_ok (show Reader.seesKeyword .ifTheJumpRegisterIs reached =
    .ok (reached.sees Keyword.ifTheJumpRegisterIs.spelling) reached from rfl)] at rest
  split at rest
  · obtain ⟨rfl, rfl⟩ := Reader.pure_eq_ok.mp rest
    exact ⟨.jump goal, rfl, ⟨between, moved, led⟩, rfl⟩
  · obtain ⟨bit, decided, question, rest⟩ := Reader.bind_eq_ok.mp rest
    obtain ⟨asked, rfl, answered⟩ := condition_sound question
    rw [Reader.choose_run] at rest
    split at rest
    · obtain ⟨turned, jumped, rest⟩ := keyword_bind_ok rest
      obtain ⟨second, stop, end', rest⟩ := Reader.bind_eq_ok.mp rest
      obtain ⟨goal', rfl, led'⟩ := target_sound end'
      rw [Reader.bind_of_ok (Reader.skipBlanks_run stop)] at rest
      obtain ⟨bit', closed, question', rest⟩ := Reader.bind_eq_ok.mp rest
      obtain ⟨other, rfl, answered'⟩ := condition_sound question'
      split at rest
      · cases rest
      · next differs =>
        obtain ⟨rfl, rfl⟩ := Reader.pure_eq_ok.mp rest
        refine ⟨.twoArms goal asked goal' other, rfl, ⟨between, moved, led.trans
          (answered.trans ⟨turned, jumped, led'.trans (condition_of_skipBlanks answered')⟩)⟩, ?_⟩
        rw [Branch.clashes, beq_eq_false_iff_ne]
        intro same
        exact differs (by rw [same])
    · obtain ⟨rfl, rfl⟩ := Reader.pure_eq_ok.mp rest
      exact ⟨.oneArm goal asked, rfl, ⟨between, moved, led.trans answered⟩, rfl⟩

/-- An expression that is not seen to start with a place does not. -/
theorem not_startsWithPlace {before after : Cursor} {phrase : Expression .expression}
    (passed : Passes phrase.words before after)
    (noCell : before.sees Keyword.variable.spelling = false)
    (noRegister : before.sees Keyword.theJumpRegister.spelling = false) :
    ¬Derivation.StartsWithPlace phrase.words := by
  obtain ⟨word, -, rest, equal⟩ := phrase.exists_first
  rw [equal] at passed ⊢
  have seen := passed.sees
  rintro (same | same)
  · rw [List.head?_cons, Option.some.injEq] at same
    rw [same, noCell] at seen
    cases seen
  · rw [List.head?_cons, Option.some.injEq] at same
    rw [same, noRegister] at seen
    cases seen

theorem assignment_sound {before after : Cursor} {node : Node}
    (read : assignment before = .ok node after) :
    ∃ derived : Instruction, node = derived.node ∧ Passes derived.words before after := by
  unfold assignment at read
  rw [Reader.bind_of_ok (seesVariable_run before)] at read
  split at read
  · obtain ⟨address, between, spelled, rest⟩ := Reader.bind_eq_ok.mp read
    obtain ⟨spot, rfl, found⟩ := place_sound spelled
    obtain ⟨assigned, moved, rest⟩ := keyword_bind_ok rest
    obtain ⟨content, stop, body, done⟩ := Reader.bind_eq_ok.mp rest
    obtain ⟨rfl, rfl⟩ := Reader.pure_eq_ok.mp done
    obtain ⟨source, rfl, passed⟩ := expression_sound body
    exact ⟨.assignment (.place spot) source, rfl, found.trans ⟨assigned, moved, passed⟩⟩
  · next unseen =>
    rw [Bool.not_eq_true, Bool.or_eq_false_iff] at unseen
    obtain ⟨address, between, spelled, rest⟩ := Reader.bind_eq_ok.mp read
    obtain ⟨computed, rfl, found⟩ := expression_sound spelled
    obtain ⟨assigned, moved, rest⟩ := keyword_bind_ok rest
    obtain ⟨content, stop, body, done⟩ := Reader.bind_eq_ok.mp rest
    obtain ⟨rfl, rfl⟩ := Reader.pure_eq_ok.mp done
    obtain ⟨source, rfl, passed⟩ := expression_sound body
    exact ⟨.assignment (.computed computed (not_startsWithPlace found unseen.1 unseen.2)) source,
      rfl, found.trans ⟨assigned, moved, passed⟩⟩

theorem command_sound {before after : Cursor} {node : Node}
    (read : command before = .ok node after) :
    ∃ derived : Instruction, node = derived.node ∧ Passes derived.words before after := by
  unfold command at read
  rw [Reader.choose_run] at read
  split at read
  · obtain ⟨between, moved, rest⟩ := keyword_bind_ok read
    obtain ⟨value, stop, body, done⟩ := Reader.bind_eq_ok.mp rest
    obtain ⟨rfl, rfl⟩ := Reader.pure_eq_ok.mp done
    obtain ⟨b, rfl, passed⟩ := bit_sound body
    exact ⟨.print b, rfl, between, moved, passed⟩
  · rw [Reader.choose_run] at read
    split at read
    · obtain ⟨between, moved, done⟩ := keyword_bind_ok read
      obtain ⟨rfl, rfl⟩ := Reader.pure_eq_ok.mp done
      exact ⟨.read, rfl, Cursor.passes_singleton.mpr moved⟩
    · exact (Reader.fail_ne_ok _ read).elim

theorem instruction_sound {before after : Cursor} {node : Node}
    (read : instruction before = .ok node after) :
    ∃ derived : Instruction, node = derived.node ∧ Passes derived.words before after := by
  unfold instruction at read
  rw [Reader.choose_run] at read
  split at read
  · exact command_sound read
  · rw [Reader.choose_run] at read
    split at read
    · exact command_sound read
    · exact assignment_sound read

theorem line_sound {before after : Cursor} {content : Line}
    (read : line before = .ok content after) :
    ∃ derived : Derivation.Line, content = derived.meaning before.skipBlanks.position ∧
      Passes derived.words before after ∧ derived.clashes = false := by
  unfold line at read
  rw [Reader.bind_of_ok (Reader.skipBlanks_run before)] at read
  obtain ⟨numbered, moved, rest⟩ := keyword_bind_ok read
  obtain ⟨value, labelled, spelled, rest⟩ := Reader.bind_eq_ok.mp rest
  obtain ⟨number, rfl, counted⟩ := bits_sound spelled
  obtain ⟨coded, opened, rest⟩ := keyword_bind_ok rest
  obtain ⟨node, stop, body, rest⟩ := Reader.bind_eq_ok.mp rest
  obtain ⟨derived, rfl, passed⟩ := instruction_sound body
  rw [Cursor.advance_skipBlanks] at moved
  rw [Reader.choose_run] at rest
  split at rest
  · obtain ⟨target, end', turn, done⟩ := Reader.bind_eq_ok.mp rest
    obtain ⟨rfl, rfl⟩ := Reader.pure_eq_ok.mp done
    obtain ⟨branch, rfl, turned, decided⟩ := branch_sound turn
    exact ⟨⟨number, derived, some branch⟩, rfl,
      ⟨numbered, moved, counted.trans ⟨coded, opened, passed.trans turned⟩⟩, decided⟩
  · obtain ⟨rfl, rfl⟩ := Reader.pure_eq_ok.mp rest
    refine ⟨⟨number, derived, none⟩, rfl, ⟨numbered, moved, counted.trans ⟨coded, opened, ?_⟩⟩, rfl⟩
    rw [Derivation.Line.branchWords, List.append_nil]
    exact passed

/-- A line number is taken if an earlier line has it. -/
theorem any_same_meaning (lines : List Line) (numbers : List Nat) (number : Nat)
    (labelled : lines.map (·.number) = numbers.map fun n : Nat => Json.int n) :
    lines.any (·.number.same (.int number)) = decide (number ∈ numbers) := by
  rw [← Derivation.any_same_int, ← labelled, List.any_map]
  rfl

theorem moreLines_sound {fuel : Nat} {lines result : List Line} (numbers : List Nat)
    {before after : Cursor}
    (labelled : lines.map (·.number) = numbers.map fun n : Nat => Json.int n)
    (distinct : numbers.Nodup) (read : moreLines fuel lines before = .ok result after) :
    ∃ derived : List Derivation.Line,
      result = lines ++ Derivation.linesAt
        (Cursor.starts (derived.flatMap (·.words)) before) derived ∧
      Passes (derived.flatMap (·.words)) before after ∧
      (numbers ++ derived.map (·.number.value)).Nodup ∧
      ∀ line ∈ derived, line.clashes = false := by
  induction fuel generalizing lines numbers before with
  | zero =>
    obtain ⟨rfl, rfl⟩ := Reader.pure_eq_ok.mp read
    exact ⟨[], (List.append_nil lines).symm, rfl, by simpa using distinct, by simp⟩
  | succ fuel ih =>
    unfold moreLines at read
    rw [Reader.choose_run] at read
    split at read
    · obtain ⟨next, between, first, rest⟩ := Reader.bind_eq_ok.mp read
      obtain ⟨line, rfl, passed, decided⟩ := line_sound first
      rw [show (line.meaning before.skipBlanks.position).number = .int line.number.value from rfl,
        any_same_meaning lines numbers line.number.value labelled] at rest
      split at rest
      · cases rest
      · next fresh =>
        rw [decide_eq_true_eq] at fresh
        have labelled' : (lines ++ [line.meaning before.skipBlanks.position]).map (·.number) =
            (numbers ++ [line.number.value]).map fun n : Nat => Json.int n := by
          rw [List.map_append, List.map_append, labelled]
          rfl
        have distinct' : (numbers ++ [line.number.value]).Nodup := by
          rw [List.nodup_append]
          refine ⟨distinct, by simp, ?_⟩
          intro number inside other last same
          rw [List.mem_singleton] at last
          exact fresh (last ▸ same ▸ inside)
        obtain ⟨derived, rfl, passed', distinct'', decided'⟩ :=
          ih (numbers ++ [line.number.value]) labelled' distinct' rest
        refine ⟨line :: derived, ?_, passed.trans passed', ?_, ?_⟩
        · rw [List.append_assoc, Derivation.linesAt, List.flatMap_cons, passed.drop_starts]
          rfl
        · rw [List.append_assoc] at distinct''
          exact distinct''
        · intro other inside
          rcases List.mem_cons.mp inside with rfl | inside
          · exact decided
          · exact decided' other inside
    · obtain ⟨rfl, rfl⟩ := Reader.pure_eq_ok.mp read
      exact ⟨[], (List.append_nil lines).symm, rfl, by simpa using distinct, by simp⟩

/-- A program that was read has a lawful derivation, which takes up the whole text. -/
theorem program_sound {before after : Cursor} {whole : Program}
    (read : program before = .ok whole after) :
    ∃ derived : Derivation.Program, derived.Lawful ∧
      before.ahead = Keyword.spell derived.words ∧
      whole = derived.meaning (Cursor.starts derived.words before) := by
  unfold program at read
  obtain ⟨first, between, start, rest⟩ := Reader.bind_eq_ok.mp read
  obtain ⟨line, rfl, passed, decided⟩ := line_sound start
  obtain ⟨cursor, same, kept, rest⟩ := Reader.bind_eq_ok.mp rest
  cases kept
  obtain ⟨lines, stop, others, rest⟩ := Reader.bind_eq_ok.mp rest
  obtain ⟨derived, rfl, passed', distinct, decided'⟩ :=
    moreLines_sound [line.number.value] rfl (by simp) others
  obtain ⟨cursor, same, kept, rest⟩ := Reader.bind_eq_ok.mp rest
  cases kept
  split at rest
  · cases rest
  · next finished =>
    obtain ⟨_, last, -, done⟩ := Reader.bind_eq_ok.mp rest
    obtain ⟨rfl, rfl⟩ := Reader.pure_eq_ok.mp done
    rw [Bool.not_eq_true', Bool.not_eq_false, Cursor.atEnd_iff] at finished
    refine ⟨⟨line, derived⟩, ⟨distinct, ?_⟩, ?_, ?_⟩
    · intro other inside
      rcases List.mem_cons.mp inside with rfl | inside
      · exact decided
      · exact decided' other inside
    · have total := (passed.trans passed').ahead
      rwa [finished, List.append_nil] at total
    · rw [Derivation.Program.meaning, Derivation.Program.lines, Derivation.linesAt,
        Derivation.Program.words, Derivation.Program.lines, List.flatMap_cons, passed.drop_starts]
      rfl

end Lines

end BitMachine.Descent
