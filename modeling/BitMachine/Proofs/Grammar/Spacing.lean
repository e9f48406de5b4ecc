import Mathlib.Data.List.Forall2
import BitMachine.Grammar.FrontEnd
import BitMachine.Proofs.Grammar.DescentSoundness
import BitMachine.Proofs.Grammar.Messages

/-! Blanks never matter to reading by descent. On two texts with the same letters every reader goes
the same way: both times it gives the same result, or both times it fails with the same message, and
wherever it takes note of a position, as many letters stand before it in the one text as in the
other. -/

set_option autoImplicit false

namespace BitMachine

/-- How many letters of a text stand before a position. -/
def Text.lettersBefore (text : List Char) (position : Nat) : Nat :=
  (letters (text.take position)).length

namespace Cursor

section Places

variable {text text' : List Char} {cursor left right : Cursor}

/-- The cursor stands in a text. -/
def In (text : List Char) (cursor : Cursor) : Prop :=
  cursor.rest = text.drop cursor.position

theorem In.skipBlanks (inside : In text cursor) : In text cursor.skipBlanks := by
  unfold In at inside ⊢
  unfold Cursor.skipBlanks skipWhile
  rw [rest_skipFrom, position_skipFrom, ← List.drop_drop, ← inside]
  nth_rewrite 3 [← List.takeWhile_append_dropWhile (p := Text.isBlank) (l := cursor.rest)]
  rw [List.drop_left]

theorem In.next {position : Nat} {c : Char} {rest : List Char}
    (inside : In text ⟨position, c :: rest⟩) : In text ⟨position + 1, rest⟩ := by
  unfold In at inside ⊢
  dsimp only at inside ⊢
  rw [← List.drop_drop, ← inside]
  rfl

/-- The letters before a cursor and those ahead of it are all there are. -/
theorem In.lettersBefore (inside : In text cursor) :
    Text.lettersBefore text cursor.position + cursor.ahead.length =
      (Text.letters text).length := by
  unfold Text.lettersBefore ahead
  rw [inside, ← List.length_append, ← Text.letters_append, List.take_append_drop]

/-- Behind the blanks the text has ended, or its next letter stands there. -/
theorem skipBlanks_cases (cursor : Cursor) :
    (∃ position, cursor.skipBlanks = ⟨position, []⟩ ∧ cursor.ahead = []) ∨
      ∃ position c rest, cursor.skipBlanks = ⟨position, c :: rest⟩ ∧
        cursor.ahead = c :: Text.letters rest := by
  have skipped := rest_skipFrom Text.isBlank cursor.position cursor.rest
  change cursor.skipBlanks.rest = _ at skipped
  cases reached : cursor.skipBlanks with
  | mk position rest =>
    rw [reached] at skipped
    dsimp only at skipped
    rcases Text.dropWhile_isBlank_cases cursor.rest with ⟨nothing, none⟩ | ⟨c, more, found, -, some⟩
    · exact Or.inl ⟨position, by rw [skipped, nothing], none⟩
    · exact Or.inr ⟨position, c, more, by rw [skipped, found], some⟩

theorem ahead_skipBlanks (cursor : Cursor) : cursor.skipBlanks.ahead = cursor.ahead := by
  have skipped := rest_skipFrom Text.isBlank cursor.position cursor.rest
  change cursor.skipBlanks.rest = _ at skipped
  unfold ahead
  rw [skipped]
  rcases Text.dropWhile_isBlank_cases cursor.rest with
    ⟨nothing, none⟩ | ⟨c, rest, found, solid, some⟩
  · rw [nothing, none]
    rfl
  · rw [found, some, Text.letters_cons_solid solid]

/-- Two cursors in two texts, with the same letters ahead. -/
structure Level (text text' : List Char) (left right : Cursor) : Prop where
  inside : In text left
  inside' : In text' right
  ahead : left.ahead = right.ahead

theorem Level.ofString {source source' : String}
    (same : Text.letters source.toList = Text.letters source'.toList) :
    Level source.toList source'.toList (.ofString source) (.ofString source') :=
  ⟨rfl, rfl, same⟩

theorem Level.skipBlanks (level : Level text text' left right) :
    Level text text' left.skipBlanks right.skipBlanks := by
  refine ⟨level.inside.skipBlanks, level.inside'.skipBlanks, ?_⟩
  rw [ahead_skipBlanks, ahead_skipBlanks]
  exact level.ahead

theorem Level.sees (level : Level text text' left right) (word : Keyword) :
    left.sees word.spelling = right.sees word.spelling := by
  rw [Bool.eq_iff_iff, sees_iff, sees_iff, level.ahead]

theorem Level.atEnd (level : Level text text' left right) : left.atEnd = right.atEnd := by
  rw [Bool.eq_iff_iff, atEnd_iff, atEnd_iff, level.ahead]

theorem Level.lettersBefore (same : Text.letters text = Text.letters text')
    (level : Level text text' left right) :
    Text.lettersBefore text left.position = Text.lettersBefore text' right.position := by
  have before := level.inside.lettersBefore
  have before' := level.inside'.lettersBefore
  rw [← same, ← level.ahead] at before'
  omega

/-- Moving over a symbol goes equally far in both texts, whether or not all of it stands there. -/
theorem Level.advance (level : Level text text' left right) (symbol : List Char) :
    (left.advance symbol).1 = (right.advance symbol).1 ∧
      Level text text' (left.advance symbol).2 (right.advance symbol).2 := by
  induction symbol generalizing left right with
  | nil => exact ⟨rfl, level⟩
  | cons letter symbol ih =>
    have skipped := level.skipBlanks
    have ahead := level.ahead
    unfold Cursor.advance
    rcases left.skipBlanks_cases with ⟨p, stop, none⟩ | ⟨p, c, rest, stop, some⟩ <;>
      rcases right.skipBlanks_cases with ⟨q, stop', none'⟩ | ⟨q, c', rest', stop', some'⟩
    · rw [stop, stop'] at skipped ⊢
      exact ⟨rfl, skipped⟩
    · rw [none, some'] at ahead
      cases ahead
    · rw [some, none'] at ahead
      cases ahead
    · rw [some, some'] at ahead
      obtain ⟨rfl, letters⟩ := List.cons.inj ahead
      rw [stop, stop'] at skipped ⊢
      by_cases found : c = letter
      · simp only [if_pos found]
        exact ih ⟨skipped.inside.next, skipped.inside'.next, letters⟩
      · simp only [if_neg found]
        exact ⟨trivial, skipped⟩

end Places

end Cursor

namespace Reader

open Cursor (Level)

variable {α β : Type} {text text' : List Char}

/-- A reader came out alike on two texts: with related results and on level cursors, or with the same
cause of failure behind the same letters. -/
inductive Alike (text text' : List Char) (related : α → α → Prop) :
    EStateM.Result Rejection Cursor α → EStateM.Result Rejection Cursor α → Prop
  | read {value value' : α} {after after' : Cursor} (values : related value value')
      (level : Level text text' after after') : Alike text text' related (.ok value after)
        (.ok value' after')
  | refused {rejection rejection' : Rejection} {stuck stuck' : Cursor}
      (cause : rejection.cause = rejection'.cause) (ofText : rejection.cause.OfText)
      (place : Text.lettersBefore text rejection.position =
        Text.lettersBefore text' rejection'.position) :
      Alike text text' related (.error rejection stuck) (.error rejection' stuck')

/-- Readers that come out alike on level cursors. -/
def Parallel (text text' : List Char) (related : α → α → Prop) (reader reader' : Reader α) : Prop :=
  ∀ before before', Level text text' before before' →
    Alike text text' related (reader before) (reader' before')

theorem Alike.bind {related : α → α → Prop} {results : β → β → Prop} {first first' : Reader α}
    {next next' : α → Reader β} {before before' : Cursor}
    (alike : Alike text text' related (first before) (first' before'))
    (continues : ∀ value value' after after', first before = .ok value after →
      first' before' = .ok value' after' → related value value' → Level text text' after after' →
      Alike text text' results (next value after) (next' value' after')) :
    Alike text text' results ((first >>= next) before) ((first' >>= next') before') := by
  generalize done : first before = outcome at alike
  generalize done' : first' before' = outcome' at alike
  cases alike with
  | read values level =>
    rw [bind_of_ok done, bind_of_ok done']
    exact continues _ _ _ _ done done' values level
  | refused cause ofText place =>
    rw [bind_of_error done, bind_of_error done']
    exact .refused cause ofText place

namespace Parallel

variable {related : α → α → Prop} {results : β → β → Prop}

theorem pure {value value' : α} (values : related value value') :
    Parallel text text' related (pure value) (pure value') :=
  fun _ _ level => .read values level

theorem bind {first first' : Reader α} {next next' : α → Reader β}
    (start : Parallel text text' related first first')
    (continues : ∀ value value', related value value' →
      Parallel text text' results (next value) (next' value')) :
    Parallel text text' results (first >>= next) (first' >>= next') := by
  intro before before' level
  apply (start before before' level).bind
  intro value value' after after' _ _ values level
  exact continues value value' values after after' level

/-- Readers that go on from equal results. -/
theorem andThen {first : Reader α} {next next' : α → Reader β}
    (start : Parallel text text' Eq first first)
    (continues : ∀ value, Parallel text text' results (next value) (next' value)) :
    Parallel text text' results (first >>= next) (first >>= next') := by
  apply start.bind
  rintro value _ rfl
  exact continues value

/-- A choice by lookahead falls alike. -/
theorem choose {here here' there there' : Reader α} (word : Keyword)
    (found : Parallel text text' related here here')
    (missed : Parallel text text' related there there') :
    Parallel text text' related
      (seesKeyword word >>= fun seen => if seen = true then here else there)
      (seesKeyword word >>= fun seen => if seen = true then here' else there') := by
  intro before before' level
  rw [choose_run, choose_run, ← level.sees word]
  split
  · exact found before before' level
  · exact missed before before' level

section Failures

variable (same : Text.letters text = Text.letters text')

include same

theorem keyword (word : Keyword) :
    Parallel text text' Eq (Reader.keyword word) (Reader.keyword word) := by
  intro before before' level
  obtain ⟨success, level⟩ := level.advance word.letters
  unfold Reader.keyword symbol
  rcases moved : before.advance word.letters with ⟨reached, after⟩
  rcases moved' : before'.advance word.letters with ⟨reached', after'⟩
  rw [moved, moved'] at success level
  dsimp only at success level
  subst success
  cases reached with
  | true => exact .read rfl level
  | false => exact .refused rfl (.unexpected _) (level.lettersBefore same)

/-- A keyword and what follows it. -/
theorem expect (word : Keyword) {next next' : Reader α}
    (continues : Parallel text text' related next next') :
    Parallel text text' related (Reader.keyword word >>= fun _ => next)
      (Reader.keyword word >>= fun _ => next') :=
  (keyword same word).andThen fun _ => continues

theorem skipBlanks :
    Parallel text text'
      (fun position position' =>
        Text.lettersBefore text position = Text.lettersBefore text' position')
      Reader.skipBlanks Reader.skipBlanks := by
  intro before before' level
  rw [skipBlanks_run, skipBlanks_run]
  exact .read (level.skipBlanks.lettersBefore same) level.skipBlanks

theorem fail (expected : String) :
    Parallel text text' related (Reader.fail expected) (Reader.fail expected) := by
  apply (skipBlanks same).bind
  intro position position' place before before' level
  exact .refused rfl (.unexpected _) place

end Failures

end Parallel

end Reader

namespace Descent

open Cursor (Level)
open Reader (Parallel Alike)

variable {text text' : List Char}

theorem seesBit_parallel : Parallel text text' Eq seesBit seesBit := by
  unfold seesBit
  apply Parallel.choose
  · exact .pure rfl
  · intro before before' level
    exact .read (level.sees .one) level

theorem seesVariable_parallel : Parallel text text' Eq seesVariable seesVariable := by
  unfold seesVariable
  apply Parallel.choose
  · exact .pure rfl
  · intro before before' level
    exact .read (level.sees .theJumpRegister) level

/-- Reading a bit leaves fewer letters. -/
theorem length_ahead_of_bit {before after : Cursor} {value : Nat}
    (read : bit before = .ok value after) : after.ahead.length < before.ahead.length := by
  obtain ⟨b, -, passed⟩ := bit_sound read
  have positive := List.length_pos_iff.mpr (Derivation.bitWord b).letters_ne_nil
  rw [passed.ahead, Keyword.spell_cons, List.length_append, List.length_append]
  omega

/-- Where no bit comes next, a number has ended, however many bits it might still have. -/
theorem moreBits_of_ended {before : Cursor} (ended : before.ahead = []) (fuel value : Nat) :
    moreBits fuel value before = .ok value before := by
  cases fuel with
  | zero => rfl
  | succ fuel =>
    unfold moreBits
    rw [Reader.bind_of_ok (seesBit_run before), Cursor.sees_eq_false_of_ahead ended,
      Cursor.sees_eq_false_of_ahead ended]
    rfl

variable (same : Text.letters text = Text.letters text')

include same

section Numbers

theorem bit_parallel : Parallel text text' Eq bit bit := by
  unfold bit
  apply Parallel.choose
  · exact Parallel.expect same _ (.pure rfl)
  · apply Parallel.choose
    · exact Parallel.expect same _ (.pure rfl)
    · exact Parallel.fail same _

/-- The bits of a number are read alike if either text allows for as many bits as it has letters. -/
theorem moreBits_alike {fuel fuel' : Nat} (value : Nat) {before before' : Cursor}
    (level : Level text text' before before') (enough : before.ahead.length ≤ fuel)
    (enough' : before'.ahead.length ≤ fuel') :
    Alike text text' Eq (moreBits fuel value before) (moreBits fuel' value before') := by
  induction fuel generalizing fuel' value before before' with
  | zero =>
    have ended : before.ahead = [] := List.eq_nil_of_length_eq_zero (by omega)
    rw [moreBits_of_ended ended, moreBits_of_ended (level.ahead ▸ ended)]
    exact .read rfl level
  | succ fuel ih =>
    cases fuel' with
    | zero =>
      have ended : before'.ahead = [] := List.eq_nil_of_length_eq_zero (by omega)
      rw [moreBits_of_ended (level.ahead ▸ ended), moreBits_of_ended ended]
      exact .read rfl level
    | succ fuel' =>
      unfold moreBits
      rw [Reader.bind_of_ok (seesBit_run before), Reader.bind_of_ok (seesBit_run before'),
        ← level.sees .zero, ← level.sees .one]
      split
      · apply (bit_parallel same before before' level).bind
        rintro next _ after after' read read' rfl level
        have shorter := length_ahead_of_bit read
        have shorter' := length_ahead_of_bit read'
        exact ih _ level (by omega) (by omega)
      · exact .read rfl level

theorem bits_parallel : Parallel text text' Eq bits bits := by
  unfold bits
  apply (bit_parallel same).andThen
  intro first before before' level
  rw [Reader.bind_of_ok (Reader.get_run before), Reader.bind_of_ok (Reader.get_run before')]
  exact moreBits_alike same first level (Text.length_letters_le _) (Text.length_letters_le _)

theorem place_parallel : Parallel text text' Eq place place := by
  unfold place
  apply Parallel.choose
  · apply Parallel.expect same
    exact (bits_parallel same).andThen fun _ => .pure rfl
  · apply Parallel.choose
    · exact Parallel.expect same _ (.pure rfl)
    · exact Parallel.fail same _

end Numbers

section Expressions

variable {inner : Reader Node} (parts : Parallel text text' Eq inner inner)

theorem variableNode_parallel : Parallel text text' Eq variableNode variableNode :=
  (place_parallel same).andThen fun _ => .pure rfl

/-- An operator may stand before an operand. -/
theorem operator_parallel (word : Keyword) (wrap : Node → Node) {operand : Reader Node}
    (reads : Parallel text text' Eq operand operand) :
    Parallel text text' Eq
      (Reader.seesKeyword word >>= fun seen =>
        if seen = true then Reader.keyword word >>= fun _ => operand >>= fun node => pure (wrap node)
        else operand)
      (Reader.seesKeyword word >>= fun seen =>
        if seen = true then Reader.keyword word >>= fun _ => operand >>= fun node => pure (wrap node)
        else operand) := by
  apply Parallel.choose
  · exact Parallel.expect same _ (reads.andThen fun _ => .pure rfl)
  · exact reads

include parts

theorem primaryOver_parallel :
    Parallel text text' Eq (primaryOver inner) (primaryOver inner) := by
  unfold primaryOver
  apply seesVariable_parallel.andThen
  intro spot
  cases spot with
  | true => exact variableNode_parallel same
  | false =>
    apply seesBit_parallel.andThen
    intro numeral
    cases numeral with
    | true => exact (bits_parallel same).andThen fun _ => .pure rfl
    | false =>
      apply Parallel.choose
      · apply Parallel.expect same
        apply parts.andThen
        intro node
        exact Parallel.expect same _ (.pure rfl)
      · exact Parallel.fail same _

theorem valueAtOver_parallel : Parallel text text' Eq (valueAtOver inner) (valueAtOver inner) :=
  operator_parallel same .theValueAt .valueAt (primaryOver_parallel same parts)

theorem valueBeyondOver_parallel :
    Parallel text text' Eq (valueBeyondOver inner) (valueBeyondOver inner) :=
  operator_parallel same .theValueBeyond .valueBeyond (valueAtOver_parallel same parts)

theorem addressOfOver_parallel :
    Parallel text text' Eq (addressOfOver inner) (addressOfOver inner) :=
  operator_parallel same .theAddressOf .addressOf (valueBeyondOver_parallel same parts)

theorem expressionOver_parallel :
    Parallel text text' Eq (expressionOver inner) (expressionOver inner) := by
  unfold expressionOver
  apply (addressOfOver_parallel same parts).andThen
  intro left
  apply Parallel.choose
  · apply Parallel.expect same
    exact (addressOfOver_parallel same parts).andThen fun _ => .pure rfl
  · exact .pure rfl

omit parts

/-- Even an expression that is nested too deeply is given up behind the same letters. -/
theorem expressionWithin_parallel (depth : Nat) :
    Parallel text text' Eq (expressionWithin depth) (expressionWithin depth) := by
  induction depth with
  | zero =>
    intro before before' level
    exact .refused rfl .nestedTooDeeply (level.lettersBefore same)
  | succ depth ih => exact expressionOver_parallel same ih

theorem expression_parallel : Parallel text text' Eq expression expression :=
  expressionWithin_parallel same nestingLimit

end Expressions

section Branches

theorem target_parallel : Parallel text text' Eq target target := by
  unfold target
  apply Parallel.choose
  · apply Parallel.expect same
    exact (bits_parallel same).andThen fun _ => .pure rfl
  · exact (bits_parallel same).andThen fun _ => .pure rfl

theorem condition_parallel : Parallel text text' Eq condition condition := by
  unfold condition
  apply Parallel.expect same
  apply Parallel.choose
  · exact Parallel.expect same _ (bit_parallel same)
  · exact bit_parallel same

/-- The position of a second condition is noted behind the blanks, before it is known whether the
condition repeats the first one. -/
theorem secondArm_parallel (asked : Nat) (first : Node) :
    let second : Reader Node := do
      let second ← target
      let position ← Reader.skipBlanks
      let other ← condition
      if other = asked then
        throw ⟨.unexpected ["Conditional goto with different bit constant"], position⟩
      return .twoArms asked first second
    Parallel text text' Eq second second := by
  apply (target_parallel same).andThen
  intro second
  apply (Parallel.skipBlanks same).bind
  intro position position' place
  apply (condition_parallel same).andThen
  intro other
  by_cases repeats : other = asked
  · simp only [if_pos repeats]
    intro before before' _
    exact .refused rfl (.unexpected _) place
  · simp only [if_neg repeats]
    exact .pure rfl

theorem branch_parallel : Parallel text text' Eq branch branch := by
  unfold branch
  apply Parallel.expect same
  apply (target_parallel same).andThen
  intro first before before' level
  rw [Reader.bind_of_ok (show Reader.seesKeyword .ifTheJumpRegisterIs before = .ok _ before from rfl),
    Reader.bind_of_ok (show Reader.seesKeyword .ifTheJumpRegisterIs before' = .ok _ before' from rfl),
    ← level.sees .ifTheJumpRegisterIs]
  split
  · exact .read rfl level
  · refine (condition_parallel same).andThen ?_ before before' level
    intro asked
    apply Parallel.choose
    · exact Parallel.expect same _ (secondArm_parallel same asked first)
    · exact .pure rfl

end Branches

section Lines

theorem assignment_parallel : Parallel text text' Eq assignment assignment := by
  unfold assignment
  apply seesVariable_parallel.andThen
  intro spot
  cases spot with
  | true =>
    apply (place_parallel same).andThen
    intro address
    apply Parallel.expect same
    exact (expression_parallel same).andThen fun _ => .pure rfl
  | false =>
    apply (expression_parallel same).andThen
    intro computed
    apply Parallel.expect same
    exact (expression_parallel same).andThen fun _ => .pure rfl

theorem command_parallel : Parallel text text' Eq command command := by
  unfold command
  apply Parallel.choose
  · apply Parallel.expect same
    exact (bit_parallel same).andThen fun _ => .pure rfl
  · apply Parallel.choose
    · exact Parallel.expect same _ (.pure rfl)
    · exact Parallel.fail same _

theorem instruction_parallel : Parallel text text' Eq instruction instruction := by
  unfold instruction
  apply Parallel.choose
  · exact command_parallel same
  · apply Parallel.choose
    · exact command_parallel same
    · exact assignment_parallel same

omit same

/-- Two lines that differ in their positions at most, and start behind the same letters. -/
structure SameLine (text text' : List Char) (line line' : Line) : Prop where
  number : line.number = line'.number
  instruction : line.instruction = line'.instruction
  branch : line.branch = line'.branch
  position : ∃ place place' : Nat, line.position = .int place ∧ line'.position = .int place' ∧
    Text.lettersBefore text place = Text.lettersBefore text' place'

theorem SameLine.start {line line' : Line} (agree : SameLine text text' line line') :
    Text.lettersBefore text line.start = Text.lettersBefore text' line'.start := by
  obtain ⟨place, place', here, there, letters⟩ := agree.position
  unfold LineOf.start
  rw [here, there]
  exact letters

theorem any_same_of_forall₂ {lines lines' : List Line}
    (agree : List.Forall₂ (SameLine text text') lines lines') (number : Json) :
    lines.any (·.number.same number) = lines'.any (·.number.same number) := by
  induction agree with
  | nil => rfl
  | cons first _ ih => rw [List.any_cons, List.any_cons, first.number, ih]

/-- Reading a line leaves fewer letters. -/
theorem length_ahead_of_line {before after : Cursor} {content : Line}
    (read : line before = .ok content after) : after.ahead.length < before.ahead.length := by
  obtain ⟨derived, -, passed, -⟩ := line_sound read
  obtain ⟨between, moved, rest⟩ := passed
  have positive := List.length_pos_iff.mpr Keyword.lineNumber.letters_ne_nil
  have shorter := congrArg List.length (Cursor.ahead_of_advance moved)
  have shorter' := congrArg List.length rest.ahead
  rw [List.length_append] at shorter shorter'
  omega

theorem moreLines_of_ended {before : Cursor} (ended : before.ahead = []) (fuel : Nat)
    (lines : List Line) : moreLines fuel lines before = .ok lines before := by
  cases fuel with
  | zero => rfl
  | succ fuel =>
    unfold moreLines
    rw [Reader.choose_of_not_sees _ _ (Cursor.sees_eq_false_of_ahead ended _)]
    rfl

include same

theorem line_parallel : Parallel text text' (SameLine text text') line line := by
  unfold line
  apply (Parallel.skipBlanks same).bind
  intro position position' place
  apply Parallel.expect same
  apply (bits_parallel same).andThen
  intro number
  apply Parallel.expect same
  apply (instruction_parallel same).andThen
  intro content
  apply Parallel.choose
  · apply (branch_parallel same).andThen
    intro turn
    exact .pure ⟨rfl, rfl, rfl, position, position', rfl, rfl, place⟩
  · exact .pure ⟨rfl, rfl, rfl, position, position', rfl, rfl, place⟩

/-- Lines are read alike if either text allows for as many lines as it has letters. -/
theorem moreLines_alike {fuel fuel' : Nat} {lines lines' : List Line} {before before' : Cursor}
    (agree : List.Forall₂ (SameLine text text') lines lines')
    (level : Level text text' before before') (enough : before.ahead.length ≤ fuel)
    (enough' : before'.ahead.length ≤ fuel') :
    Alike text text' (List.Forall₂ (SameLine text text')) (moreLines fuel lines before)
      (moreLines fuel' lines' before') := by
  induction fuel generalizing fuel' lines lines' before before' with
  | zero =>
    have ended : before.ahead = [] := List.eq_nil_of_length_eq_zero (by omega)
    rw [moreLines_of_ended ended, moreLines_of_ended (level.ahead ▸ ended)]
    exact .read agree level
  | succ fuel ih =>
    cases fuel' with
    | zero =>
      have ended : before'.ahead = [] := List.eq_nil_of_length_eq_zero (by omega)
      rw [moreLines_of_ended (level.ahead ▸ ended), moreLines_of_ended ended]
      exact .read agree level
    | succ fuel' =>
      unfold moreLines
      rw [Reader.choose_run, Reader.choose_run, ← level.sees .lineNumber]
      split
      · apply (line_parallel same before before' level).bind
        intro next next' after after' read read' alike level
        have shorter := length_ahead_of_line read
        have shorter' := length_ahead_of_line read'
        rw [← alike.number, ← any_same_of_forall₂ agree next.number]
        split
        · obtain ⟨derived, rfl, -⟩ := line_sound read
          exact .refused rfl (.duplicateLine derived.number.value) alike.start
        · refine ih ?_ level (by omega) (by omega)
          exact List.rel_append agree (.cons alike .nil)
      · exact .read agree level

/-- Two programs with the same first number and the same lines in the same order, up to where these
start in their texts. -/
structure SameProgram (text text' : List Char) (whole whole' : Program) : Prop where
  first : whole.first = whole'.first
  lines : List.Forall₂ (SameLine text text') whole.lines whole'.lines

theorem program_parallel : Parallel text text' (SameProgram text text') program program := by
  unfold program
  apply (line_parallel same).bind
  intro first first' agree before before' level
  rw [Reader.bind_of_ok (Reader.get_run before), Reader.bind_of_ok (Reader.get_run before')]
  apply (moreLines_alike same (.cons agree .nil) level (Text.length_letters_le _)
    (Text.length_letters_le _)).bind
  intro lines lines' after after' _ _ agrees level
  rw [Reader.bind_of_ok (Reader.get_run after), Reader.bind_of_ok (Reader.get_run after'),
    ← level.atEnd]
  split
  · have failed : Parallel text text' Eq (Reader.fail Keyword.lineNumber.spelling : Reader Unit)
        (Reader.fail Keyword.lineNumber.spelling) := Parallel.fail same _
    apply (failed after after' level).bind
    intro _ _ _ _ read
    exact absurd read (Reader.fail_ne_ok _)
  · exact .read ⟨agree.number, agrees⟩ level.skipBlanks

end Lines

end Descent

namespace FrontEnd

theorem ofText_of_read {source : String} {rejection : Rejection}
    (refused : descent.read source = .error rejection) : rejection.cause.OfText := by
  have alike := Descent.program_parallel rfl (.ofString source) (.ofString source) (.ofString rfl)
  unfold read Descent.parse at refused
  dsimp only at refused
  cases ran : Descent.program (.ofString source) with
  | ok program rest =>
    rw [ran] at refused
    cases refused
  | error rejection rest =>
    rw [ran] at refused alike
    cases refused
    cases alike with
    | refused _ ofText _ => exact ofText

/-- Blanks never matter to reading by descent, not even for what is wrong with a text. Of two texts
with the same letters either both are read, as programs that are equal line by line and whose lines
start behind the same number of letters; or both are refused for the same cause, with the same message
and at positions behind the same number of letters. There is a message unless a line number that is
too long to be written is repeated. -/
theorem blanks_never_matter (source source' : String)
    (same : Text.letters source.toList = Text.letters source'.toList) :
    (∃ whole whole', descent.parse source = .ok whole ∧ descent.parse source' = .ok whole' ∧
        Descent.SameProgram source.toList source'.toList whole whole') ∨
      ∃ (cause : Cause) (position position' : Nat),
        descent.read source = .error ⟨cause, position⟩ ∧
        descent.read source' = .error ⟨cause, position'⟩ ∧
        descent.parse source = .error ⟨cause.message?, position, some source⟩ ∧
        descent.parse source' = .error ⟨cause.message?, position', some source'⟩ ∧
        Text.lettersBefore source.toList position = Text.lettersBefore source'.toList position' ∧
        (cause.message? = none ↔
          ∃ number : Nat, cause = .duplicateLine number ∧ 10 ^ Text.numeralLimit ≤ number) := by
  have alike := Descent.program_parallel same (.ofString source) (.ofString source')
    (.ofString same)
  unfold parse read Descent.parse
  dsimp only
  generalize Descent.program (.ofString source) = outcome at alike
  generalize Descent.program (.ofString source') = outcome' at alike
  cases alike with
  | read agree level => exact Or.inl ⟨_, _, rfl, rfl, agree⟩
  | @refused rejection rejection' _ _ cause ofText place =>
    obtain ⟨_, position'⟩ := rejection'
    cases cause
    exact Or.inr ⟨rejection.cause, rejection.position, position', rfl, rfl, rfl, rfl, place,
      ofText.message?_eq_none⟩

/-- A text whose second line breaks off, spread out and without blanks. -/
def brokenSpread : String :=
  "LINE NUMBER ZERO CODE READ\n  LINE NUM BER\tONE CODE PRI X"

def brokenTight : String :=
  "LINENUMBERZEROCODEREADLINENUMBERONECODEPRIX"

theorem blanks_never_matter_broken :
    ∃ (message : String) (position position' : Nat),
      descent.parse brokenSpread = .error ⟨some message, position, some brokenSpread⟩ ∧
      descent.parse brokenTight = .error ⟨some message, position', some brokenTight⟩ ∧
      Text.lettersBefore brokenSpread.toList position =
        Text.lettersBefore brokenTight.toList position' := by
  have same : Text.letters brokenSpread.toList = Text.letters brokenTight.toList := by
    decide +kernel
  have told : (match descent.parse brokenTight with
      | .ok _ => false
      | .error diagnostic => diagnostic.message.isSome) = true := by
    decide +kernel
  rcases blanks_never_matter brokenSpread brokenTight same with
    ⟨whole, whole', -, read, -⟩ | ⟨cause, position, position', -, -, spread, tight, place, -⟩
  · rw [read] at told
    cases told
  · rw [tight] at told
    obtain ⟨message, worded⟩ : ∃ message, cause.message? = some message :=
      Option.isSome_iff_exists.mp told
    rw [worded] at spread tight
    exact ⟨message, position, position', spread, tight, place⟩

end FrontEnd

end BitMachine
