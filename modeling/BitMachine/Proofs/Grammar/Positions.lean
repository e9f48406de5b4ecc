import BitMachine.Proofs.Grammar.DescentSoundness

/-! Where reading by descent may stop. A reader never moves back and never leaves the text, and what
it refuses it refuses at a position between the one where it started and the end of the text. -/

set_option autoImplicit false

namespace BitMachine

namespace Cursor

/-- The second cursor stands in the same text, and not before the first one. -/
structure Reaches (before after : Cursor) : Prop where
  onward : before.position ≤ after.position
  total : after.position + after.rest.length = before.position + before.rest.length

/-- The position of the end of the text. -/
def stop (cursor : Cursor) : Nat :=
  cursor.position + cursor.rest.length

theorem stop_ofString (source : String) : (ofString source).stop = source.length :=
  Nat.zero_add _

variable {before between after : Cursor}

theorem Reaches.refl (cursor : Cursor) : cursor.Reaches cursor :=
  ⟨Nat.le_refl _, rfl⟩

theorem Reaches.trans (first : before.Reaches between) (second : between.Reaches after) :
    before.Reaches after :=
  ⟨Nat.le_trans first.onward second.onward, second.total.trans first.total⟩

theorem Reaches.position_le (reaches : before.Reaches after) : after.position ≤ before.stop := by
  have total := reaches.total
  unfold stop
  omega

theorem reaches_skipWhile (p : Char → Bool) (cursor : Cursor) :
    cursor.Reaches (cursor.skipWhile p) := by
  have position := position_skipFrom p cursor.position cursor.rest
  have rest := congrArg List.length (rest_skipFrom p cursor.position cursor.rest)
  have whole := congrArg List.length (List.takeWhile_append_dropWhile (p := p) (l := cursor.rest))
  rw [List.length_append] at whole
  constructor
  · unfold skipWhile
    omega
  · unfold skipWhile
    omega

theorem reaches_skipBlanks (cursor : Cursor) : cursor.Reaches cursor.skipBlanks :=
  reaches_skipWhile Text.isBlank cursor

/-- However much of a symbol stands there, moving over it stays in the text. -/
theorem reaches_advance (symbol : List Char) (cursor : Cursor) :
    cursor.Reaches (cursor.advance symbol).2 := by
  induction symbol generalizing cursor with
  | nil => exact .refl cursor
  | cons letter symbol ih =>
    have skipped := reaches_skipBlanks cursor
    unfold advance
    split
    · next position c rest stop =>
      rw [stop] at skipped
      split
      · have next : Reaches ⟨position, c :: rest⟩ ⟨position + 1, rest⟩ := by
          constructor
          · exact Nat.le_succ position
          · simp only [List.length_cons]
            omega
        exact (skipped.trans next).trans (ih ⟨position + 1, rest⟩)
      · exact skipped
    · next position stop =>
      rw [stop] at skipped
      exact skipped

end Cursor

namespace Reader

open Cursor (Reaches)

variable {α β : Type}

/-- How reading from a cursor may end: further on in the text, and if it is refused, at a position
of what was left of the text. -/
inductive Stays (before : Cursor) : EStateM.Result Rejection Cursor α → Prop where
  | read {value : α} {after : Cursor} (reaches : before.Reaches after) :
      Stays before (.ok value after)
  | refused {rejection : Rejection} {stuck : Cursor} (reaches : before.Reaches stuck)
      (onward : before.position ≤ rejection.position) (within : rejection.position ≤ before.stop) :
      Stays before (.error rejection stuck)

/-- A reader that ends like that wherever it starts. -/
def Proceeds (reader : Reader α) : Prop :=
  ∀ before, Stays before (reader before)

theorem Stays.from {before between : Cursor} {outcome : EStateM.Result Rejection Cursor α}
    (reaches : before.Reaches between) (stays : Stays between outcome) : Stays before outcome := by
  have total := reaches.total
  cases stays with
  | read further => exact .read (reaches.trans further)
  | refused further onward within =>
    refine .refused (reaches.trans further) (Nat.le_trans reaches.onward onward) ?_
    unfold Cursor.stop at within ⊢
    omega

/-- A refusal where the cursor stands. -/
theorem Stays.here {before stuck : Cursor} (cause : Cause) (reaches : before.Reaches stuck) :
    Stays (α := α) before (.error ⟨cause, stuck.position⟩ stuck) :=
  .refused reaches reaches.onward reaches.position_le

theorem Stays.bind {first : Reader α} {next : α → Reader β} {before : Cursor}
    (start : Stays before (first before))
    (continues : ∀ value after, first before = .ok value after → before.Reaches after →
      Stays before (next value after)) : Stays before ((first >>= next) before) := by
  cases done : first before with
  | ok value after =>
    rw [done] at start
    cases start with
    | read reaches =>
      rw [bind_of_ok done]
      exact continues value after done reaches
  | error rejection stuck =>
    rw [done] at start
    cases start with
    | refused reaches onward within =>
      rw [bind_of_error done]
      exact .refused reaches onward within

namespace Proceeds

theorem pure (value : α) : Proceeds (pure value : Reader α) :=
  fun before => .read (.refl before)

theorem bind {first : Reader α} {next : α → Reader β} (start : Proceeds first)
    (continues : ∀ value, Proceeds (next value)) : Proceeds (first >>= next) := by
  intro before
  refine (start before).bind fun value after _ reaches => ?_
  exact (continues value after).from reaches

theorem choose {here there : Reader α} (word : Keyword) (found : Proceeds here)
    (missed : Proceeds there) :
    Proceeds (seesKeyword word >>= fun seen => if seen = true then here else there) := by
  intro before
  rw [choose_run]
  split
  · exact found before
  · exact missed before

theorem keyword (word : Keyword) : Proceeds (Reader.keyword word) := by
  intro before
  have reaches := Cursor.reaches_advance word.letters before
  unfold Reader.keyword symbol
  rcases moved : before.advance word.letters with ⟨all, after⟩
  rw [moved] at reaches
  cases all with
  | true => exact .read reaches
  | false => exact .here _ reaches

theorem expect (word : Keyword) {next : Reader α} (continues : Proceeds next) :
    Proceeds (Reader.keyword word >>= fun _ => next) :=
  (keyword word).bind fun _ => continues

theorem skipBlanks : Proceeds Reader.skipBlanks :=
  fun before => .read (Cursor.reaches_skipBlanks before)

theorem fail (expected : String) : Proceeds (Reader.fail expected : Reader α) :=
  fun before => .here _ (Cursor.reaches_skipBlanks before)

end Proceeds

end Reader

namespace Descent

open Reader (Proceeds Stays)

section Numbers

theorem bit_proceeds : Proceeds bit :=
  .choose .zero (.expect .zero (.pure 0)) (.choose .one (.expect .one (.pure 1)) (.fail _))

theorem seesBit_proceeds : Proceeds seesBit := by
  intro before
  rw [seesBit_run]
  exact .read (.refl before)

theorem seesVariable_proceeds : Proceeds seesVariable := by
  intro before
  rw [seesVariable_run]
  exact .read (.refl before)

theorem moreBits_proceeds (fuel value : Nat) : Proceeds (moreBits fuel value) := by
  induction fuel generalizing value with
  | zero => exact .pure value
  | succ fuel ih =>
    unfold moreBits
    refine seesBit_proceeds.bind fun more => ?_
    cases more with
    | true => exact bit_proceeds.bind fun next => ih (2 * value + next)
    | false => exact .pure value

theorem bits_proceeds : Proceeds bits := by
  unfold bits
  refine bit_proceeds.bind fun first before => ?_
  rw [Reader.bind_of_ok (Reader.get_run before)]
  exact moreBits_proceeds _ first before

theorem place_proceeds : Proceeds place := by
  unfold place
  apply Proceeds.choose
  · exact .expect .variable (bits_proceeds.bind fun _ => .pure _)
  · exact .choose .theJumpRegister (.expect _ (.pure _)) (.fail _)

end Numbers

section Expressions

variable {inner : Reader Node}

theorem primaryOver_proceeds (parts : Proceeds inner) : Proceeds (primaryOver inner) := by
  unfold primaryOver
  refine seesVariable_proceeds.bind fun spot => ?_
  cases spot with
  | true => exact place_proceeds.bind fun _ => .pure _
  | false =>
    refine seesBit_proceeds.bind fun numeral => ?_
    cases numeral with
    | true => exact bits_proceeds.bind fun _ => .pure _
    | false =>
      apply Proceeds.choose
      · exact .expect _ (parts.bind fun _ => .expect _ (.pure _))
      · exact .fail _

/-- An operator may stand before an operand. -/
theorem operator_proceeds (word : Keyword) (wrap : Node → Node) {operand : Reader Node}
    (reads : Proceeds operand) :
    Proceeds (Reader.seesKeyword word >>= fun seen =>
      if seen = true then Reader.keyword word >>= fun _ => operand >>= fun node => pure (wrap node)
      else operand) :=
  .choose word (.expect word (reads.bind fun _ => .pure _)) reads

theorem valueAtOver_proceeds (parts : Proceeds inner) : Proceeds (valueAtOver inner) :=
  operator_proceeds .theValueAt .valueAt (primaryOver_proceeds parts)

theorem valueBeyondOver_proceeds (parts : Proceeds inner) : Proceeds (valueBeyondOver inner) :=
  operator_proceeds .theValueBeyond .valueBeyond (valueAtOver_proceeds parts)

theorem addressOfOver_proceeds (parts : Proceeds inner) : Proceeds (addressOfOver inner) :=
  operator_proceeds .theAddressOf .addressOf (valueBeyondOver_proceeds parts)

theorem expressionOver_proceeds (parts : Proceeds inner) : Proceeds (expressionOver inner) := by
  unfold expressionOver
  refine (addressOfOver_proceeds parts).bind fun left => ?_
  apply Proceeds.choose
  · exact .expect _ ((addressOfOver_proceeds parts).bind fun _ => .pure _)
  · exact .pure left

theorem expressionWithin_proceeds (depth : Nat) : Proceeds (expressionWithin depth) := by
  induction depth with
  | zero => exact fun before => .here _ (.refl before)
  | succ depth ih => exact expressionOver_proceeds ih

theorem expression_proceeds : Proceeds expression :=
  expressionWithin_proceeds nestingLimit

end Expressions

section Lines

theorem target_proceeds : Proceeds target := by
  unfold target
  apply Proceeds.choose
  · exact .expect .variable (bits_proceeds.bind fun _ => .pure _)
  · exact bits_proceeds.bind fun _ => .pure _

theorem condition_proceeds : Proceeds condition := by
  unfold condition
  apply Proceeds.expect
  exact .choose .equalTo (.expect _ bit_proceeds) bit_proceeds

/-- The position of a second condition is noted before it is read, so a clash is reported there. -/
theorem secondArm_proceeds (asked : Nat) (first second : Node) :
    Proceeds (do
      let position ← Reader.skipBlanks
      let other ← condition
      if other = asked then
        throw ⟨.unexpected ["Conditional goto with different bit constant"], position⟩
      return Node.twoArms asked first second : Reader Node) := by
  intro before
  rw [Reader.bind_of_ok (Reader.skipBlanks_run before)]
  have noted := Cursor.reaches_skipBlanks before
  refine Stays.from noted ((condition_proceeds _).bind fun other after _ reaches => ?_)
  split
  · refine .refused reaches (Nat.le_refl _) ?_
    exact Nat.le_add_right _ _
  · exact .read reaches

theorem branch_proceeds : Proceeds branch := by
  unfold branch
  apply Proceeds.expect
  refine target_proceeds.bind fun first before => ?_
  rw [Reader.bind_of_ok (show Reader.seesKeyword .ifTheJumpRegisterIs before = .ok _ before from rfl)]
  split
  · exact .read (.refl before)
  · refine condition_proceeds.bind (fun asked => ?_) before
    apply Proceeds.choose
    · exact .expect _ (target_proceeds.bind fun second => secondArm_proceeds asked first second)
    · exact .pure _

theorem assignment_proceeds : Proceeds assignment := by
  unfold assignment
  refine seesVariable_proceeds.bind fun spot => ?_
  cases spot with
  | true =>
    refine place_proceeds.bind fun address => ?_
    exact .expect _ (expression_proceeds.bind fun _ => .pure _)
  | false =>
    refine expression_proceeds.bind fun computed => ?_
    exact .expect _ (expression_proceeds.bind fun _ => .pure _)

theorem command_proceeds : Proceeds command := by
  unfold command
  apply Proceeds.choose
  · exact .expect .print (bit_proceeds.bind fun _ => .pure _)
  · exact .choose .read (.expect _ (.pure _)) (.fail _)

theorem instruction_proceeds : Proceeds instruction :=
  .choose .print command_proceeds (.choose .read command_proceeds assignment_proceeds)

theorem line_proceeds : Proceeds line := by
  unfold line
  refine Proceeds.skipBlanks.bind fun position => ?_
  apply Proceeds.expect
  refine bits_proceeds.bind fun number => ?_
  apply Proceeds.expect
  refine instruction_proceeds.bind fun content => ?_
  apply Proceeds.choose
  · exact branch_proceeds.bind fun _ => .pure _
  · exact .pure _

/-- A line starts where its first keyword does. -/
theorem start_of_line {before after : Cursor} {content : Line}
    (read : line before = .ok content after) : content.start = before.skipBlanks.position := by
  obtain ⟨derived, rfl, -⟩ := line_sound read
  rfl

theorem moreLines_proceeds (fuel : Nat) (lines : List Line) : Proceeds (moreLines fuel lines) := by
  induction fuel generalizing lines with
  | zero => exact .pure lines
  | succ fuel ih =>
    unfold moreLines
    apply Proceeds.choose
    · intro before
      refine (line_proceeds before).bind fun next after read reaches => ?_
      split
      · have noted := Cursor.reaches_skipBlanks before
        refine .refused reaches ?_ ?_
        · rw [start_of_line read]
          exact noted.onward
        · rw [start_of_line read]
          exact noted.position_le
      · exact (ih (lines ++ [next]) after).from reaches
    · exact .pure lines

/-- Behind the first line of a program, further lines stand up to the end of the text. -/
theorem programRest_proceeds (first : Line) :
    Proceeds (do
      let cursor ← get
      let lines ← moreLines cursor.rest.length [first]
      if !(← get).atEnd then
        Reader.fail Keyword.lineNumber.spelling
      modify Cursor.skipBlanks
      return ⟨first.number, lines⟩ : Reader Program) := by
  intro before
  rw [Reader.bind_of_ok (Reader.get_run before)]
  refine (moreLines_proceeds _ [first] before).bind fun lines after _ reaches => ?_
  rw [Reader.bind_of_ok (Reader.get_run after)]
  refine Stays.from reaches ?_
  split
  · exact (Proceeds.fail Keyword.lineNumber.spelling after).bind fun _ _ read =>
      absurd read (Reader.fail_ne_ok _)
  · exact .read (Cursor.reaches_skipBlanks after)

theorem program_proceeds : Proceeds program :=
  line_proceeds.bind programRest_proceeds

/-- A text is refused at one of its positions or at its end. -/
theorem position_le_of_parse {source : String} {rejection : Rejection}
    (refused : parse source = .error rejection) : rejection.position ≤ source.length := by
  have stays := program_proceeds (.ofString source)
  unfold parse at refused
  cases done : program (.ofString source) with
  | ok whole after =>
    rw [done] at refused
    cases refused
  | error other stuck =>
    rw [done] at refused stays
    cases refused
    cases stays with
    | refused _ _ within => exact Cursor.stop_ofString source ▸ within

end Lines

end Descent

end BitMachine
