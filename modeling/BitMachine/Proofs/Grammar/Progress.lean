import Mathlib.Logic.Function.Iterate
import BitMachine.Proofs.Grammar.DescentCompleteness
import BitMachine.Proofs.Grammar.Positions
import BitMachine.Proofs.Grammar.Segmentation

/-! Reading by descent makes progress. Whatever a reader accepts takes up a keyword at least, so its
loops and its recursion through parentheses come to an end, and calls in any order lead onward
through the text and never beyond it. -/

set_option autoImplicit false

namespace BitMachine

theorem Keyword.three_le_length (keyword : Keyword) : 3 ≤ keyword.letters.length := by
  cases keyword <;> decide

namespace Cursor

theorem sees_eq_false_of_rest {cursor : Cursor} (ended : cursor.rest = []) (keyword : Keyword) :
    cursor.sees keyword.spelling = false := by
  refine sees_eq_false_of_ahead ?_ keyword
  rw [ahead, ended, Text.letters_nil]

/-- The second cursor stands in the same text, at least so many characters further on. -/
structure Gains (least : Nat) (before after : Cursor) : Prop extends before.Reaches after where
  gain : before.position + least ≤ after.position

variable {least : Nat} {before between after : Cursor}

theorem Gains.shorter (gains : Gains least before after) :
    after.rest.length + least ≤ before.rest.length := by
  have gain := gains.gain
  have total := gains.total
  omega

theorem Gains.reach (gains : Gains least before between) (reaches : between.Reaches after) :
    Gains least before after :=
  ⟨gains.toReaches.trans reaches, Nat.le_trans gains.gain reaches.onward⟩

theorem Reaches.gain (reaches : before.Reaches between) (gains : Gains least between after) :
    Gains least before after := by
  refine ⟨reaches.trans gains.toReaches, ?_⟩
  have onward := reaches.onward
  have gain := gains.gain
  omega

theorem gains_of_advance {symbol : List Char} (moved : before.advance symbol = (true, after)) :
    Gains symbol.length before after := by
  have reaches := reaches_advance symbol before
  rw [moved] at reaches
  obtain ⟨stretch, -, further, rfl, -⟩ := exists_stretch_of_advance moved
  have letters := Text.length_letters_le stretch
  exact ⟨reaches, by omega⟩

theorem Passes.reaches {words : List Keyword} (passed : Passes words before after) :
    before.Reaches after := by
  induction words generalizing before with
  | nil =>
    cases passed
    exact .refl _
  | cons word words ih =>
    obtain ⟨between, moved, rest⟩ := passed
    exact (gains_of_advance moved).toReaches.trans (ih rest)

/-- A keyword has three letters or more, so keywords take up as many characters. -/
theorem Passes.gains {words : List Keyword} (passed : Passes words before after)
    (some : words ≠ []) : Gains 3 before after := by
  cases words with
  | nil => exact absurd rfl some
  | cons word words =>
    obtain ⟨between, moved, rest⟩ := passed
    have gains := (gains_of_advance moved).reach rest.reaches
    have long := word.three_le_length
    have gain := gains.gain
    exact ⟨gains.toReaches, by omega⟩

end Cursor

namespace Reader

open Cursor (Gains)

variable {α β : Type}

theorem Proceeds.map {reader : Reader α} (proceeds : Proceeds reader) (wrap : α → β) :
    Proceeds (wrap <$> reader) := by
  rw [← bind_pure_comp]
  exact proceeds.bind fun value => .pure (wrap value)

/-- A reader that takes up a keyword at least whenever it accepts something. -/
def Consumes (reader : Reader α) : Prop :=
  ∀ ⦃before after value⦄, reader before = .ok value after → Gains 3 before after

/-- What a reader takes up at its start is not given back behind it. -/
theorem Consumes.bind {first : Reader α} {next : α → Reader β} (start : Consumes first)
    (continues : ∀ value, Proceeds (next value)) : Consumes (first >>= next) := by
  intro before after result read
  obtain ⟨value, between, done, rest⟩ := bind_eq_ok.mp read
  have stays := continues value between
  rw [rest] at stays
  cases stays with
  | read reaches => exact (start done).reach reaches

theorem Consumes.map {reader : Reader α} (consumes : Consumes reader) (wrap : α → β) :
    Consumes (wrap <$> reader) := by
  rw [← bind_pure_comp]
  exact consumes.bind fun value => .pure (wrap value)

/-- How a loop runs: while the guard holds, another turn is taken, and a turn that is refused ends
the loop. The number counts the turns that were completed. -/
inductive Rounds (guard : Reader Bool) (turn : α → Reader α) :
    Nat → α → Cursor → EStateM.Result Rejection Cursor α → Prop where
  | leave {value : α} {before : Cursor} (closed : guard before = .ok false before) :
      Rounds guard turn 0 value before (.ok value before)
  | refuse {value : α} {before stuck : Cursor} {rejection : Rejection}
      (opened : guard before = .ok true before)
      (refused : turn value before = .error rejection stuck) :
      Rounds guard turn 0 value before (.error rejection stuck)
  | again {rounds : Nat} {value next : α} {before between : Cursor}
      {outcome : EStateM.Result Rejection Cursor α} (opened : guard before = .ok true before)
      (taken : turn value before = .ok next between)
      (more : Rounds guard turn rounds next between outcome) :
      Rounds guard turn (rounds + 1) value before outcome

/-- A loop with a bound on its turns ends by itself and not by the bound if every turn takes up some
characters and the bound is not less than their number. -/
theorem exists_rounds {guard : Reader Bool} {turn : α → Reader α} {loop : Nat → α → Reader α}
    (idle : ∀ value, loop 0 value = pure value)
    (unfolds : ∀ fuel value, loop (fuel + 1) value =
      guard >>= fun more => if more = true then turn value >>= loop fuel else pure value)
    (looks : ∀ before, ∃ more, guard before = .ok more before ∧ (before.rest = [] → more = false))
    (consumes : ∀ value, Consumes (turn value))
    {fuel : Nat} {before : Cursor} (enough : before.rest.length ≤ fuel) (value : α) :
    ∃ rounds, 3 * rounds ≤ before.rest.length ∧
      Rounds guard turn rounds value before (loop fuel value before) := by
  induction fuel generalizing before value with
  | zero =>
    -- No character is left, so the guard fails and the bound cuts nothing short.
    obtain ⟨more, looked, ended⟩ := looks before
    cases ended (List.length_eq_zero_iff.mp (Nat.le_zero.mp enough))
    rw [idle]
    exact ⟨0, Nat.zero_le _, .leave looked⟩
  | succ fuel ih =>
    obtain ⟨more, looked, -⟩ := looks before
    rw [unfolds, bind_of_ok looked]
    cases more with
    | false => exact ⟨0, Nat.zero_le _, .leave looked⟩
    | true =>
      rw [if_pos rfl]
      cases taken : turn value before with
      | error rejection stuck =>
        rw [bind_of_error taken]
        exact ⟨0, Nat.zero_le _, .refuse looked taken⟩
      | ok next between =>
        have shorter := (consumes value taken).shorter
        have enough' : between.rest.length ≤ fuel := by omega
        obtain ⟨rounds, few, rest⟩ := ih enough' next
        rw [bind_of_ok taken]
        exact ⟨rounds + 1, by omega, .again looked taken rest⟩

end Reader

namespace Descent

open Cursor (Gains)
open Reader (Consumes Proceeds Rounds)

section Phrases

theorem bit_consumes : Consumes bit := by
  intro before after value read
  obtain ⟨b, -, passed⟩ := bit_sound read
  exact passed.gains (List.cons_ne_nil _ _)

theorem bits_consumes : Consumes bits := by
  intro before after value read
  obtain ⟨numeral, -, passed⟩ := bits_sound read
  exact passed.gains (List.cons_ne_nil _ _)

theorem place_consumes : Consumes place := by
  intro before after address read
  obtain ⟨spot, -, passed⟩ := place_sound read
  obtain ⟨word, -, rest, equal⟩ := spot.exists_first
  exact passed.gains (equal ▸ List.cons_ne_nil word rest)

theorem SoundFor.consumes {layer : Derivation.Layer} {reader : Reader Node}
    (sound : SoundFor layer reader) : Consumes reader := by
  intro before after node read
  obtain ⟨derived, -, passed⟩ := sound read
  obtain ⟨word, -, rest, equal⟩ := derived.exists_first
  exact passed.gains (equal ▸ List.cons_ne_nil word rest)

theorem condition_consumes : Consumes condition := by
  intro before after bit read
  obtain ⟨asked, -, passed⟩ := condition_sound read
  obtain ⟨rest, equal⟩ := asked.words_eq_cons
  exact passed.gains (equal ▸ List.cons_ne_nil _ rest)

theorem target_consumes : Consumes target := by
  intro before after node read
  obtain ⟨goal, -, passed⟩ := target_sound read
  refine passed.gains ?_
  unfold Derivation.Goal.words
  split <;> exact List.cons_ne_nil _ _

theorem branch_consumes : Consumes branch := by
  intro before after node read
  obtain ⟨derived, -, passed, -⟩ := branch_sound read
  obtain ⟨rest, equal⟩ := derived.words_eq_cons
  exact passed.gains (equal ▸ List.cons_ne_nil _ rest)

/-- Commands and assignments are instructions, which have words. -/
theorem consumes_of_instruction {reader : Reader Node}
    (sound : ∀ ⦃before after node⦄, reader before = .ok node after →
      ∃ derived : Derivation.Instruction, node = derived.node ∧
        Cursor.Passes derived.words before after) : Consumes reader := by
  intro before after node read
  obtain ⟨derived, -, passed⟩ := sound read
  refine passed.gains ?_
  cases derived with
  | print bit => exact List.cons_ne_nil _ _
  | read => exact List.cons_ne_nil _ _
  | assignment destination source =>
    exact List.append_ne_nil_of_right_ne_nil _ (List.cons_ne_nil _ _)

theorem line_consumes : Consumes line := by
  intro before after content read
  obtain ⟨derived, -, passed, -⟩ := line_sound read
  exact passed.gains (List.cons_ne_nil _ _)

theorem phrase_consumes (kind : Phrase) : Consumes (phrase kind) := by
  have inner := expressionWithin_sound (nestingLimit - 1)
  cases kind with
  | bit => exact bit_consumes.map _
  | bits => exact bits_consumes.map _
  | «variable» => exact (place_consumes.bind fun _ => .pure _).map _
  | primary => exact (primaryOver_sound inner).consumes.map _
  | valueAt => exact (valueAtOver_sound inner).consumes.map _
  | valueBeyond => exact (valueBeyondOver_sound inner).consumes.map _
  | addressOf => exact (addressOfOver_sound inner).consumes.map _
  | expression => exact expression_sound.consumes.map _
  | condition => exact condition_consumes.map _
  | target => exact target_consumes.map _
  | branch => exact branch_consumes.map _
  | assignment => exact (consumes_of_instruction fun _ _ _ => assignment_sound).map _
  | command => exact (consumes_of_instruction fun _ _ _ => command_sound).map _
  | instruction => exact (consumes_of_instruction fun _ _ _ => instruction_sound).map _
  | line => exact line_consumes.map _
  | program => exact (line_consumes.bind programRest_proceeds).map _

theorem phrase_proceeds (kind : Phrase) : Proceeds (phrase kind) := by
  have inner := expressionWithin_proceeds (nestingLimit - 1)
  cases kind with
  | bit => exact bit_proceeds.map _
  | bits => exact bits_proceeds.map _
  | «variable» => exact (place_proceeds.bind fun _ => .pure _).map _
  | primary => exact (primaryOver_proceeds inner).map _
  | valueAt => exact (valueAtOver_proceeds inner).map _
  | valueBeyond => exact (valueBeyondOver_proceeds inner).map _
  | addressOf => exact (addressOfOver_proceeds inner).map _
  | expression => exact expression_proceeds.map _
  | condition => exact condition_proceeds.map _
  | target => exact target_proceeds.map _
  | branch => exact branch_proceeds.map _
  | assignment => exact assignment_proceeds.map _
  | command => exact command_proceeds.map _
  | instruction => exact instruction_proceeds.map _
  | line => exact line_proceeds.map _
  | program => exact program_proceeds.map _

end Phrases

section Loops

/-- A turn of the loop that reads a number. -/
def anotherBit (value : Nat) : Reader Nat := do
  let next ← bit
  return 2 * value + next

/-- A turn of the loop that reads a program. -/
def anotherLine (lines : List Line) : Reader (List Line) := do
  let next ← line
  if lines.any (·.number.same next.number) then
    throw ⟨.duplicateLine next.number, next.start⟩
  return lines ++ [next]

theorem anotherBit_consumes (value : Nat) : Consumes (anotherBit value) :=
  bit_consumes.bind fun _ => .pure _

theorem anotherLine_consumes (lines : List Line) : Consumes (anotherLine lines) := by
  intro before after value read
  obtain ⟨next, between, first, rest⟩ := Reader.bind_eq_ok.mp read
  split at rest
  · cases rest
  · cases rest
    exact line_consumes first

theorem moreBits_succ (fuel value : Nat) :
    moreBits (fuel + 1) value =
      seesBit >>= fun more =>
        if more = true then anotherBit value >>= moreBits fuel else pure value := by
  simp only [moreBits, anotherBit, bind_assoc, pure_bind]

theorem moreLines_succ (fuel : Nat) (lines : List Line) :
    moreLines (fuel + 1) lines =
      Reader.seesKeyword .lineNumber >>= fun more =>
        if more = true then anotherLine lines >>= moreLines fuel else pure lines := by
  rw [moreLines]
  simp only [anotherLine, bind_assoc]
  congr 1
  funext more
  split
  · congr 1
    funext next
    split <;> rfl
  · rfl

theorem moreBits_rounds (before : Cursor) (value : Nat) :
    ∃ rounds, 3 * rounds ≤ before.rest.length ∧
      Rounds seesBit anotherBit rounds value before
        (moreBits before.rest.length value before) := by
  apply Reader.exists_rounds (fun _ => rfl) moreBits_succ _ anotherBit_consumes (Nat.le_refl _)
  intro before
  refine ⟨_, seesBit_run before, fun ended => ?_⟩
  rw [Cursor.sees_eq_false_of_rest ended, Cursor.sees_eq_false_of_rest ended, Bool.or_self]

theorem moreLines_rounds (before : Cursor) (lines : List Line) :
    ∃ rounds, 3 * rounds ≤ before.rest.length ∧
      Rounds (Reader.seesKeyword .lineNumber) anotherLine rounds lines before
        (moreLines before.rest.length lines before) := by
  apply Reader.exists_rounds (fun _ => rfl) moreLines_succ _ anotherLine_consumes (Nat.le_refl _)
  intro before
  exact ⟨_, rfl, fun ended => Cursor.sees_eq_false_of_rest ended .lineNumber⟩

end Loops

section Nesting

variable {α β : Type} {before : Cursor} {excess : Prop}

/-- Readers that settle like others may be put together. -/
theorem Settles.like_bind {first first' : Reader α} {next next' : α → Reader β}
    (start : Settles first before (first' before) excess)
    (continues : ∀ value after, first before = .ok value after →
      Settles (next value) after (next' value after) excess) :
    Settles (first >>= next) before ((first' >>= next') before) excess := by
  rcases start with same | ⟨deep, position, stuck, failed⟩
  · cases done : first before with
    | error rejection stuck =>
      rw [Reader.bind_of_error (same ▸ done)]
      exact .of_eq (Reader.bind_of_error done)
    | ok value after =>
      rw [Reader.bind_of_ok (same ▸ done)]
      exact (continues value after done).congr (Reader.bind_of_ok done)
  · exact Or.inr ⟨deep, position, stuck, Reader.bind_of_error failed⟩

/-- From a cursor on, a reader ends like another one, or because of nesting, which then is
excessive. -/
def SettlesLike (before : Cursor) (reader other : Reader α) (excess : Prop) : Prop :=
  ∀ ⦃after⦄, before.Reaches after → Settles reader after (other after) excess

theorem SettlesLike.refl (reader : Reader α) : SettlesLike before reader reader excess :=
  fun _ _ => .of_eq rfl

theorem SettlesLike.bind {first first' : Reader α} {next next' : α → Reader β}
    (start : SettlesLike before first first' excess) (proceeds : Proceeds first)
    (continues : ∀ value, SettlesLike before (next value) (next' value) excess) :
    SettlesLike before (first >>= next) (first' >>= next') excess := by
  intro after reaches
  refine (start reaches).like_bind fun value between done => ?_
  have stays := proceeds after
  rw [done] at stays
  cases stays with
  | read further => exact continues value (reaches.trans further)

theorem SettlesLike.choose {here here' there there' : Reader α} (word : Keyword)
    (found : SettlesLike before here here' excess)
    (missed : SettlesLike before there there' excess) :
    SettlesLike before
      (Reader.seesKeyword word >>= fun seen => if seen = true then here else there)
      (Reader.seesKeyword word >>= fun seen => if seen = true then here' else there') excess := by
  intro after reaches
  rw [Settles, Reader.choose_run, Reader.choose_run]
  split
  · exact found reaches
  · exact missed reaches

/-- What stands in parentheses begins behind the fifteen letters that open them. -/
theorem primaryOver_settles {inner other : Reader Node}
    (parts : ∀ ⦃after⦄, Gains 15 before after → Settles inner after (other after) excess) :
    SettlesLike before (primaryOver inner) (primaryOver other) excess := by
  unfold primaryOver
  refine SettlesLike.bind (.refl _) seesVariable_proceeds fun spot => ?_
  cases spot with
  | true => exact .refl _
  | false =>
    refine SettlesLike.bind (.refl _) seesBit_proceeds fun numeral => ?_
    cases numeral with
    | true => exact .refl _
    | false =>
      refine SettlesLike.choose _ ?_ (.refl _)
      intro after reaches
      refine Settles.like_bind (.of_eq rfl) fun _ opened opening => ?_
      have gains := Cursor.gains_of_advance (Reader.keyword_eq_ok.mp opening)
      exact (parts (reaches.gain gains)).like_bind fun _ _ _ => .of_eq rfl

theorem operator_settles (word : Keyword) (wrap : Node → Node) {operand other : Reader Node}
    (below : SettlesLike before operand other excess) (proceeds : Proceeds operand) :
    SettlesLike before
      (Reader.seesKeyword word >>= fun seen =>
        if seen = true then
          Reader.keyword word >>= fun _ => operand >>= fun node => pure (wrap node)
        else operand)
      (Reader.seesKeyword word >>= fun seen =>
        if seen = true then Reader.keyword word >>= fun _ => other >>= fun node => pure (wrap node)
        else other) excess := by
  refine SettlesLike.choose word ?_ below
  refine SettlesLike.bind (.refl _) (.keyword word) fun _ => ?_
  exact below.bind proceeds fun _ => .refl _

theorem addressOfOver_settles {inner other : Reader Node} (proceeds : Proceeds inner)
    (parts : ∀ ⦃after⦄, Gains 15 before after → Settles inner after (other after) excess) :
    SettlesLike before (addressOfOver inner) (addressOfOver other) excess := by
  have valueAt := operator_settles .theValueAt .valueAt (primaryOver_settles parts)
    (primaryOver_proceeds proceeds)
  have valueBeyond := operator_settles .theValueBeyond .valueBeyond valueAt
    (valueAtOver_proceeds proceeds)
  exact operator_settles .theAddressOf .addressOf valueBeyond (valueBeyondOver_proceeds proceeds)

theorem expressionOver_settles {inner other : Reader Node} (proceeds : Proceeds inner)
    (parts : ∀ ⦃after⦄, Gains 15 before after → Settles inner after (other after) excess) :
    SettlesLike before (expressionOver inner) (expressionOver other) excess := by
  have operand := addressOfOver_settles proceeds parts
  have onward := addressOfOver_proceeds proceeds
  unfold expressionOver
  refine operand.bind onward fun left => ?_
  refine SettlesLike.choose _ ?_ (.refl _)
  refine SettlesLike.bind (.refl _) (.keyword _) fun _ => ?_
  exact operand.bind onward fun _ => .refl _

/-- An expression is read to a limited depth as it would be with any other reader at that depth,
because no reader there is ever called. Otherwise it is refused for its nesting, and then there are
characters enough to open parentheses on every level. -/
theorem expressionWithin_settles (inner : Reader Node) (depth : Nat) (before : Cursor) :
    Settles (expressionWithin depth) before (expressionOver^[depth] inner before)
      (15 * depth ≤ before.rest.length) := by
  induction depth generalizing before with
  | zero => exact Or.inr ⟨Nat.zero_le _, before.position, before, rfl⟩
  | succ depth ih =>
    rw [Function.iterate_succ_apply']
    refine expressionOver_settles (expressionWithin_proceeds depth) ?_ (.refl before)
    -- Each level takes its fifteen characters from what is left of the text.
    intro after gains
    have shorter := gains.shorter
    exact (ih after).mono fun deep => by omega

end Nesting

section Calls

/-- Reading from a cursor comes to an end. The loops over bits and over lines are left by
themselves, after no more turns than the text has room for. Parentheses are entered no deeper than
the text has room for: what would be read at that depth does not matter. A limit that is less than
that shows only in a refusal. -/
structure Terminates (before : Cursor) : Prop where
  bits : ∀ value, ∃ rounds, 3 * rounds ≤ before.rest.length ∧
    Rounds seesBit anotherBit rounds value before (moreBits before.rest.length value before)
  lines : ∀ lines, ∃ rounds, 3 * rounds ≤ before.rest.length ∧
    Rounds (Reader.seesKeyword .lineNumber) anotherLine rounds lines before
      (moreLines before.rest.length lines before)
  parentheses : ∀ inner depth, Settles (expressionWithin depth) before
    (expressionOver^[depth] inner before) (15 * depth ≤ before.rest.length)

theorem terminates (before : Cursor) : Terminates before :=
  ⟨moreBits_rounds before, moreLines_rounds before,
    fun inner depth => expressionWithin_settles inner depth before⟩

/-- A call of a reader: which phrase it is to read, and where. -/
structure Call where
  kind : Phrase
  before : Cursor

namespace Call

def outcome (call : Call) : EStateM.Result Rejection Cursor Meaning :=
  phrase call.kind call.before

/-- Where a call leaves the cursor, whether it succeeds or fails. -/
def after (call : Call) : Cursor :=
  match call.outcome with
  | .ok _ after => after
  | .error _ stuck => stuck

theorem reaches (call : Call) : call.before.Reaches call.after := by
  have stays := phrase_proceeds call.kind call.before
  unfold after outcome
  cases done : phrase call.kind call.before with
  | ok meaning after =>
    rw [done] at stays
    cases stays with
    | read reaches => exact reaches
  | error rejection stuck =>
    rw [done] at stays
    cases stays with
    | refused reaches _ _ => exact reaches

end Call

/-- Calls one after the other, each from where the one before it left the cursor. -/
def callsFrom : Cursor → List Phrase → List Call
  | _, [] => []
  | before, kind :: kinds => ⟨kind, before⟩ :: callsFrom (Call.after ⟨kind, before⟩) kinds

theorem reaches_of_mem_callsFrom {kinds : List Phrase} {before : Cursor} {call : Call}
    (made : call ∈ callsFrom before kinds) : before.Reaches call.before := by
  induction kinds generalizing before with
  | nil => cases made
  | cons kind kinds ih =>
    rcases List.mem_cons.mp made with rfl | later
    · exact .refl before
    · exact (Call.reaches ⟨kind, before⟩).trans (ih later)

theorem pairwise_callsFrom (kinds : List Phrase) (before : Cursor) :
    (callsFrom before kinds).Pairwise fun earlier later =>
      earlier.after.Reaches later.before := by
  induction kinds generalizing before with
  | nil => exact .nil
  | cons kind kinds ih => exact .cons (fun _ later => reaches_of_mem_callsFrom later) (ih _)

/-- Readers may be called in any order, also after calls that failed. Every call comes to an end.
The cursor never moves back and never leaves the text; a call that succeeds moves it by three
characters at least, and one that fails reports a position from where it started to the end of the
text. -/
theorem calls_make_progress (source : String) (kinds : List Phrase) :
    (∀ cursor, Terminates cursor) ∧
    (callsFrom (.ofString source) kinds).Pairwise (fun earlier later =>
      earlier.after.position ≤ later.before.position) ∧
    ∀ call ∈ callsFrom (.ofString source) kinds,
      (call.before.position ≤ call.after.position ∧ call.after.position ≤ source.length) ∧
      (∀ meaning after, call.outcome = .ok meaning after →
        call.before.position + 3 ≤ after.position) ∧
      (∀ rejection stuck, call.outcome = .error rejection stuck →
        call.before.position ≤ rejection.position ∧ rejection.position ≤ source.length) := by
  refine ⟨terminates, (pairwise_callsFrom kinds _).imp (·.onward), ?_⟩
  intro call made
  have stop : call.before.stop = source.length :=
    (reaches_of_mem_callsFrom made).total.trans (Cursor.stop_ofString source)
  refine ⟨⟨call.reaches.onward, stop ▸ call.reaches.position_le⟩, ?_, ?_⟩
  · intro meaning after read
    exact (phrase_consumes call.kind read).gain
  · intro rejection stuck refused
    have stays := phrase_proceeds call.kind call.before
    rw [show phrase call.kind call.before = .error rejection stuck from refused] at stays
    cases stays with
    | refused _ onward within => exact ⟨onward, stop ▸ within⟩

/-- A keyword that breaks off, and a number behind it. -/
def brokenNumber : String :=
  "LINE NUMB ZERO ONE"

/-- The call for a line fails in the middle of its first keyword. From there a number is read. -/
theorem calls_make_progress_brokenNumber :
    ∃ line bits : Call, callsFrom (.ofString brokenNumber) [.line, .bits] = [line, bits] ∧
      (∃ rejection stuck, line.outcome = .error rejection stuck ∧ stuck.position = 10 ∧
        line.before.position ≤ rejection.position ∧ rejection.position ≤ 18) ∧
      line.after.position ≤ bits.before.position ∧
      ∃ meaning after, bits.outcome = .ok meaning after ∧ after.position = 18 ∧
        bits.before.position + 3 ≤ after.position := by
  obtain ⟨-, ordered, each⟩ := calls_make_progress brokenNumber [.line, .bits]
  let line : Call := ⟨.line, .ofString brokenNumber⟩
  let bits : Call := ⟨.bits, line.after⟩
  have made : callsFrom (.ofString brokenNumber) [.line, .bits] = [line, bits] := rfl
  have failed : (match line.outcome with
      | .ok _ _ => false
      | .error _ stuck => stuck.position == 10) = true := by decide +kernel
  have read : (match bits.outcome with
      | .ok _ after => after.position == 18
      | .error _ _ => false) = true := by decide +kernel
  rw [made] at ordered each
  have next := List.rel_of_pairwise_cons ordered (List.mem_singleton_self bits)
  refine ⟨line, bits, made, ?_, next, ?_⟩
  · cases outcome : line.outcome with
    | ok meaning after =>
      rw [outcome] at failed
      cases failed
    | error rejection stuck =>
      rw [outcome] at failed
      obtain ⟨-, -, within⟩ := each line (List.mem_cons_self ..)
      exact ⟨rejection, stuck, rfl, beq_iff_eq.mp failed, within rejection stuck outcome⟩
  · cases outcome : bits.outcome with
    | error rejection stuck =>
      rw [outcome] at read
      cases read
    | ok meaning after =>
      rw [outcome] at read
      obtain ⟨-, moved, -⟩ := each bits (List.mem_cons_of_mem line (List.mem_singleton_self bits))
      exact ⟨meaning, after, rfl, beq_iff_eq.mp read, moved meaning after outcome⟩

end Calls

end Descent

end BitMachine
