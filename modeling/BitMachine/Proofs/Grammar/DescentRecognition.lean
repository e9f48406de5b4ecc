import Mathlib.Data.List.Nodup
import BitMachine.Proofs.Grammar.ExpressionRecognition

/-! The readers for branches, instructions, lines and programs recognize their phrases. So where a
text is refused, either what was read can be completed but not with what comes next, or there is an
objection to what was read. -/

set_option autoImplicit false

namespace BitMachine.Descent

open BitMachine.Derivation (Numeral Place Layer Expression Destination Instruction Goal Condition
  Branch bitWords)
open Cursor (Passes)
open Reader (Recognized Closes Stuck Flawed Objection)
open Outlook (either phrase_either phrase_append phrase_cons phrase_keyword phrase_nil
  phrase_singleton phrase_provided inhabited_phrase inhabited_keyword avoids_keyword
  excluded_keyword)

section Branches

variable {before : Cursor} {rest : Outlook}

/-- A target may come. -/
def goalOutlook (rest : Outlook) : Outlook :=
  .phrase Goal.words (fun _ => True) fun _ => rest

/-- A condition may come. -/
def conditionOutlook (rest : Nat → Outlook) : Outlook :=
  .phrase Condition.words (fun _ => True) fun condition => rest condition.bit.toNat

/-- A branch may come. It is fine if it does not ask for one bit twice. -/
def branchOutlook (rest : Outlook) : Outlook :=
  .phrase Branch.words (fun branch => branch.clashes = false) fun _ => rest

theorem goalOutlook_eq (rest : Outlook) :
    goalOutlook rest =
      either (.keyword .variable (numeralOutlook fun _ => rest))
        (numeralOutlook fun _ => rest) := by
  refine (phrase_either (Goal.mk true) (Goal.mk false) ?_).trans
    (congrArg₂ either (phrase_cons .variable) rfl)
  rintro ⟨marked, number⟩
  cases marked <;> simp

theorem conditionOutlook_eq (rest : Nat → Outlook) :
    conditionOutlook rest =
      .keyword .ifTheJumpRegisterIs
        (either (.keyword .equalTo (bitOutlook rest)) (bitOutlook rest)) := by
  refine (phrase_keyword (fun condition => condition.words.tail) ?_).trans
    (congrArg _ ((phrase_either (Condition.mk true) (Condition.mk false) ?_).trans ?_))
  · rintro ⟨wordy, bit⟩
    cases wordy <;> rfl
  · rintro ⟨wordy, bit⟩
    cases wordy <;> simp
  · exact congrArg₂ either (phrase_cons .equalTo) rfl

/-- What may follow the first target of a branch: a condition, and then a second arm. -/
abbrev Arms : Type :=
  Option (Condition × Option (Goal × Condition))

def branchOf (goal : Goal) : Arms → Branch
  | none => .jump goal
  | some (asked, none) => .oneArm goal asked
  | some (asked, some (second, other)) => .twoArms goal asked second other

def secondWords (second : Option (Goal × Condition)) : List Keyword :=
  second.elim [] fun arm => .goto :: (arm.1.words ++ arm.2.words)

def armsWords (arms : Arms) : List Keyword :=
  arms.elim [] fun arm => arm.1.words ++ secondWords arm.2

/-- A second arm may come behind the condition for a bit. It is fine if it asks for the other
bit. -/
def secondOutlook (rest : Outlook) (bit : Nat) : Outlook :=
  .keyword .goto (goalOutlook (conditionOutlook fun other => .provided (other ≠ bit) rest))

theorem secondOutlook_eq (rest : Outlook) (bit : Bool) :
    .phrase secondWords (fun second => ∀ arm ∈ second, arm.2.bit ≠ bit) (fun _ => rest) =
      either (secondOutlook rest bit.toNat) rest := by
  refine (phrase_either some (fun _ : Unit => none) ?_).trans (congrArg₂ either ?_ ?_)
  · intro second
    cases second <;> simp
  · refine (phrase_cons .goto).trans (congrArg _ ?_)
    refine (phrase_append _ _ (fun _ => True) (fun _ other => other.bit ≠ bit) Prod.mk
      (fun arm => ⟨arm.1, arm.2, rfl⟩) (fun _ _ => rfl) (by simp)).trans
      (congrArg _ (funext fun _ => ?_))
    refine phrase_provided.trans
      (congrArg _ (funext fun other => congrArg (Outlook.provided · rest) ?_))
    cases other.bit <;> cases bit <;> simp
  · refine Eq.trans ?_ (phrase_nil rest)
    exact Outlook.phrase_congr (by simp)

theorem branchOutlook_eq (rest : Outlook) :
    branchOutlook rest =
      .keyword .goto (goalOutlook
        (either (conditionOutlook fun bit => either (secondOutlook rest bit) rest) rest)) := by
  refine (phrase_keyword (fun branch => branch.words.tail) ?_).trans (congrArg _ ?_)
  · intro branch
    cases branch <;> rfl
  · refine (phrase_append Goal.words armsWords (fun _ => True)
      (fun _ arms => ∀ arm ∈ arms, ∀ second ∈ arm.2, second.2.bit ≠ arm.1.bit) branchOf
      ?_ ?_ ?_).trans (congrArg _ (funext fun _ => ?_))
    · intro branch
      cases branch with
      | jump goal => exact ⟨goal, none, rfl⟩
      | oneArm goal asked => exact ⟨goal, some (asked, none), rfl⟩
      | twoArms goal asked second other => exact ⟨goal, some (asked, some (second, other)), rfl⟩
    · rintro goal (_ | ⟨asked, _ | second⟩)
      · exact (List.append_nil goal.words).symm
      · exact congrArg (goal.words ++ ·) (List.append_nil asked.words).symm
      · rfl
    · rintro goal (_ | ⟨asked, _ | second⟩)
      · simp [branchOf, Branch.clashes]
      · simp [branchOf, Branch.clashes]
      · obtain ⟨second, other⟩ := second
        simpa [branchOf, Branch.clashes] using ne_comm
    · refine (phrase_either some (fun _ : Unit => none) ?_).trans (congrArg₂ either ?_ ?_)
      · intro arms
        cases arms <;> simp
      · refine (phrase_append _ _ (fun _ => True)
          (fun asked second => ∀ arm ∈ second, arm.2.bit ≠ asked.bit) Prod.mk
          (fun arm => ⟨arm.1, arm.2, rfl⟩) (fun _ _ => rfl) (by simp)).trans
          (congrArg _ (funext fun asked => ?_))
        exact secondOutlook_eq rest asked.bit
      · refine Eq.trans ?_ (phrase_nil rest)
        exact Outlook.phrase_congr (by simp)

theorem target_recognized (inhabited : rest.Inhabited) (avoids : rest.Avoids bitWords) :
    Recognized (goalOutlook rest) (fun _ => rest) before (target before) := by
  have number : ∀ before, Recognized (numeralOutlook fun _ => rest) (fun _ => rest) before
      (bits before) :=
    fun before => bits_recognized (fun _ => inhabited) fun _ => avoids
  rw [goalOutlook_eq]
  refine .choose (fun seen => ?_) (fun _ => (number before).map _)
    (avoids_numeralOutlook _ (by decide))
  exact .keyword seen fun after _ => (number after).map _

theorem condition_recognized {rest : Nat → Outlook} (inhabited : ∀ bit, (rest bit).Inhabited)
    (seen : before.sees Keyword.ifTheJumpRegisterIs.spelling = true) :
    Recognized (conditionOutlook rest) rest before (condition before) := by
  rw [conditionOutlook_eq]
  refine .keyword seen fun after _ => ?_
  refine .choose (fun seen => ?_) (fun _ => bit_recognized inhabited) ?_
  · exact .keyword seen fun after _ => bit_recognized inhabited
  · rw [bitOutlook_eq]
    exact (avoids_keyword _ (by decide)).either (avoids_keyword _ (by decide))

/-- The condition of a second arm, which must ask for another bit than the first one. -/
def otherCondition (asked position : Nat) (node : Node) : Reader Node := do
  let other ← condition
  if other = asked then
    throw ⟨.unexpected ["Conditional goto with different bit constant"], position⟩
  return node

theorem otherCondition_recognized {asked : Nat} (position : Nat) (node : Node)
    (inhabited : rest.Inhabited)
    (seen : before.sees Keyword.ifTheJumpRegisterIs.spelling = true) :
    Recognized (conditionOutlook fun other => .provided (other ≠ asked) rest) (fun _ => rest) before
      (otherCondition asked position node before) := by
  have ends : ∀ other, (Outlook.provided (other ≠ asked) rest).Inhabited := fun _ => inhabited
  refine (condition_recognized ends seen).continue ?_
  intro other after words read leads
  split
  · next clash =>
    -- Whatever comes behind the condition, the arms ask for one bit.
    obtain ⟨derived, rfl, passed⟩ := condition_sound read
    rw [leads.passed.unique passed] at leads
    obtain ⟨more, equal⟩ := derived.words_eq_cons
    refine .flawed .clash ⟨by rw [equal]; simp, ⟨after, passed⟩, leads.opens, ?_⟩
    rintro tail ⟨phrase, -, left, ⟨differs, -⟩, same⟩
    obtain ⟨rfl, -⟩ := Condition.unique same
    exact differs clash
  · exact leads.then ((Reader.recognized_pure (fun _ => rest) node inhabited).agree
      inhabited (fun _ _ _ => Iff.rfl) fun _ _ _ inside => inside.2)

theorem goal_closes {after : Cursor} {node : Node} (inhabited : rest.Inhabited)
    (read : target before = .ok node after) :
    ∃ words, Passes words before after ∧
      Closes (goalOutlook (.keyword .ifTheJumpRegisterIs rest)) .ifTheJumpRegisterIs words := by
  obtain ⟨goal, -, passed⟩ := target_sound read
  refine ⟨goal.words, passed, Reader.closes_phrase bitWords goal ?_ inhabited (by decide)
    fun other left right same leftEnds rightEnds => (Goal.unique same leftEnds rightEnds).2⟩
  rw [Goal.words]
  split <;> exact List.cons_ne_nil _ _

theorem otherCondition_skipBlanks (asked position : Nat) (node : Node) (cursor : Cursor) :
    otherCondition asked position node cursor.skipBlanks =
      otherCondition asked position node cursor :=
  Reader.bind_skipBlanks _ (Reader.bind_skipBlanks _ (Reader.keyword_skipBlanks _ cursor))

/-- A target and a condition behind it, which is awaited. -/
theorem secondArm_recognized {asked : Nat} {first : Node} (inhabited : rest.Inhabited) :
    Recognized (goalOutlook (conditionOutlook fun other => .provided (other ≠ asked) rest))
      (fun _ => rest) before ((do
        let second ← target
        let position ← Reader.skipBlanks
        otherCondition asked position (.twoArms asked first second) : Reader Node) before) := by
  have question : (conditionOutlook fun other => .provided (other ≠ asked) rest).Inhabited :=
    inhabited_phrase ⟨false, false⟩ inhabited
  have leaves : (conditionOutlook fun other => .provided (other ≠ asked) rest).Avoids bitWords := by
    rw [conditionOutlook_eq]
    exact avoids_keyword _ (by decide)
  refine (target_recognized question leaves).continue fun second middle words read leads => ?_
  -- Where the second condition starts is noted before it is read, which does not change how it is.
  rw [Reader.bind_of_ok (Reader.skipBlanks_run middle), otherCondition_skipBlanks]
  rcases moved : middle.advance Keyword.ifTheJumpRegisterIs.letters with ⟨reached, stuck⟩
  cases reached with
  | true =>
    exact leads.then (otherCondition_recognized _ _ inhabited (Cursor.sees_of_advance moved))
  | false =>
    have failed : otherCondition asked middle.skipBlanks.position (.twoArms asked first second)
        middle =
          .error ⟨.unexpected [Keyword.ifTheJumpRegisterIs.spelling], stuck.position⟩ stuck :=
      Reader.bind_of_error (Reader.bind_of_error (Reader.keyword_of_short moved))
    rw [failed]
    rw [conditionOutlook_eq] at leads question ⊢
    obtain ⟨_, passed, closes⟩ := goal_closes (inhabited_keyword.mp question) read
    rw [passed.unique leads.passed] at closes
    exact leads.missing closes moved

theorem branch_recognized (inhabited : rest.Inhabited)
    (avoids : rest.Avoids [.zero, .one, .goto, .ifTheJumpRegisterIs])
    (seen : before.sees Keyword.goto.spelling = true) :
    Recognized (branchOutlook rest) (fun _ => rest) before (branch before) := by
  rw [branchOutlook_eq]
  unfold branch
  refine .keyword seen fun start _ => ?_
  refine (target_recognized inhabited.right ?_).bind fun first middle _ => ?_
  · rw [conditionOutlook_eq]
    exact (avoids_keyword _ (by decide)).either (avoids.mono (by decide))
  rw [Reader.bind_of_ok (show Reader.seesKeyword .ifTheJumpRegisterIs middle =
    .ok (middle.sees Keyword.ifTheJumpRegisterIs.spelling) middle from rfl)]
  split
  · next unseen =>
    refine (Reader.recognized_pure (fun _ => rest) _ inhabited).right ?_
    rw [conditionOutlook_eq]
    exact excluded_keyword _ (by simpa using unseen)
  · next seen =>
    rw [Bool.not_eq_true', Bool.not_eq_false] at seen
    refine Recognized.left ?_ (avoids.excluded (by decide) seen)
    refine (condition_recognized (fun _ => inhabited.right) seen).bind fun asked decided _ => ?_
    refine .choose (fun seen => ?_) (fun _ => ?_) (avoids.mono (by decide))
    · exact .keyword seen fun after _ => secondArm_recognized inhabited
    · exact Reader.recognized_pure (fun _ => rest) _ inhabited

end Branches

section Instructions

variable {before : Cursor} {rest : Outlook}

/-- A computed place may come. -/
def computedOutlook (rest : Outlook) : Outlook :=
  .phrase (fun address : {address : Expression .expression //
      ¬Derivation.StartsWithPlace address.words} => address.1.words)
    (fun address => address.1.depth < nestingLimit) fun _ => rest

/-- What a place is given may come. -/
def sourceOutlook (rest : Outlook) : Outlook :=
  .keyword .equals (layerOutlook .expression nestingLimit rest)

/-- An instruction may come. It is fine if its parentheses are not nested too deeply. -/
def instructionOutlook (rest : Outlook) : Outlook :=
  .phrase Instruction.words (fun instruction => instruction.depth < nestingLimit) fun _ => rest

/-- A place and what it is given may come. -/
def assignmentOutlook (rest : Outlook) : Outlook :=
  either (placeOutlook (sourceOutlook rest)) (computedOutlook (sourceOutlook rest))

theorem assignmentOutlook_eq (rest : Outlook) :
    .phrase (fun parts : Destination × Expression .expression =>
        (Instruction.assignment parts.1 parts.2).words)
      (fun parts => (Instruction.assignment parts.1 parts.2).depth < nestingLimit) (fun _ => rest) =
      assignmentOutlook rest := by
  refine (phrase_append Destination.words
    (fun source : Expression .expression => .equals :: source.words)
    (fun place => place.depth < nestingLimit) (fun _ source => source.depth < nestingLimit) Prod.mk
    (fun parts => ⟨parts.1, parts.2, rfl⟩) (fun _ _ => rfl) fun _ _ => Nat.max_lt).trans ?_
  simp only [phrase_cons]
  refine (phrase_either Destination.place (fun address : {address : Expression .expression //
      ¬Derivation.StartsWithPlace address.words} => Destination.computed address.1 address.2)
    ?_).trans (congrArg₂ either ?_ rfl)
  · intro destination
    cases destination with
    | place spot => exact Or.inl ⟨spot, rfl⟩
    | computed address computes => exact Or.inr ⟨⟨address, computes⟩, rfl⟩
  · exact Outlook.phrase_congr fun _ => by simp [Destination.depth, nestingLimit]

theorem instructionOutlook_eq (rest : Outlook) :
    instructionOutlook rest =
      either (.keyword .print (bitOutlook fun _ => rest))
        (either (.keyword .read rest) (assignmentOutlook rest)) := by
  refine (phrase_either Instruction.print
    (Sum.elim (fun _ : Unit => Instruction.read) fun parts : Destination × Expression .expression =>
      Instruction.assignment parts.1 parts.2) ?_).trans (congrArg₂ either ?_ ?_)
  · intro instruction
    cases instruction with
    | print bit => exact Or.inl ⟨bit, rfl⟩
    | read => exact Or.inr ⟨.inl (), rfl⟩
    | assignment destination source => exact Or.inr ⟨.inr (destination, source), rfl⟩
  · refine (phrase_cons .print).trans (congrArg _ (Outlook.phrase_congr fun _ => ?_))
    simp [Instruction.depth, nestingLimit]
  · refine (phrase_either Sum.inl Sum.inr ?_).trans
      (congrArg₂ either ?_ (assignmentOutlook_eq rest))
    · intro instruction
      cases instruction <;> simp
    · refine (Outlook.phrase_congr fun _ => ?_).trans (phrase_singleton .read rest)
      simp [Instruction.depth, nestingLimit]

theorem expression_recognized (inhabited : rest.Inhabited)
    (avoids : rest.Avoids (Layer.more .expression)) :
    Recognized (layerOutlook .expression nestingLimit rest) (fun _ => rest) before
      (expression before) :=
  expressionWithin_recognized nestingLimit (by decide) rest before inhabited avoids

theorem place_closes {after : Cursor} {address : Int} (inhabited : rest.Inhabited)
    (read : place before = .ok address after) :
    ∃ words, Passes words before after ∧
      Closes (placeOutlook (.keyword .equals rest)) .equals words := by
  obtain ⟨spot, -, passed⟩ := place_sound read
  refine ⟨spot.words, passed, Reader.closes_phrase bitWords spot ?_ inhabited (by decide)
    fun other left right same leftEnds rightEnds => (Place.unique same leftEnds rightEnds).2⟩
  cases spot <;> exact List.cons_ne_nil _ _

/-- Where no place that is written down comes next, computed places are all the expressions that can
come. -/
theorem computed_agrees {outcome : EStateM.Result Rejection Cursor Node} {last : Node → Outlook}
    (inhabited : rest.Inhabited)
    (noCell : before.sees Keyword.variable.spelling ≠ true)
    (noRegister : before.sees Keyword.theJumpRegister.spelling ≠ true)
    (recognized : Recognized (layerOutlook .expression nestingLimit rest) last before outcome) :
    Recognized (computedOutlook rest) last before outcome := by
  have computes : ∀ {word : Keyword} {tail left : List Keyword} {phrase : Expression .expression},
      before.sees word.spelling = true → word :: tail = phrase.words ++ left →
      ¬Derivation.StartsWithPlace phrase.words := by
    intro word tail left phrase seen equal starts
    rw [← phrase.startsWithPlace_append left, ← equal] at starts
    rcases starts with same | same
    · exact noCell (Option.some.inj same ▸ seen)
    · exact noRegister (Option.some.inj same ▸ seen)
  refine recognized.agree ?_ ?_ ?_
  · let zero : Expression .expression :=
      .single (.plainOperand (.plainBeyond (.plainAt (.constant ⟨false, []⟩))))
    exact inhabited_phrase ⟨zero, by decide⟩ inhabited
  · intro word seen tail
    constructor
    · rintro ⟨address, left, inside, equal⟩
      exact ⟨address.1, left, inside, equal⟩
    · rintro ⟨phrase, left, inside, equal⟩
      exact ⟨⟨phrase, computes seen equal⟩, left, inside, equal⟩
  · rintro word seen tail ⟨address, shallow, left, inside, equal⟩
    exact ⟨address.1, shallow, left, inside, equal⟩

theorem assignment_recognized (inhabited : rest.Inhabited)
    (avoids : rest.Avoids (Layer.more .expression)) :
    Recognized (assignmentOutlook rest) (fun _ => rest) before (assignment before) := by
  have source : (layerOutlook .expression nestingLimit rest).Inhabited :=
    inhabited_layerOutlook .expression nestingLimit inhabited
  have given : (sourceOutlook rest).Inhabited := inhabited_keyword.mpr source
  unfold assignment
  rw [Reader.bind_of_ok (seesVariable_run before)]
  split
  · next seen =>
    refine Recognized.left ?_ ?_
    · refine (place_recognized given (avoids_keyword _ (by decide))).await ?_ ?_
      · exact fun address middle => place_closes source
      · exact fun address middle after _ _ => (expression_recognized inhabited avoids).map _
    · have away : (computedOutlook (sourceOutlook rest)).Avoids [.variable, .theJumpRegister] := by
        rintro word inside tail ⟨address, left, -, equal⟩
        have starts : Derivation.StartsWithPlace (address.1.words ++ left) := by
          rw [← equal]
          simpa [Derivation.StartsWithPlace] using inside
        exact address.2 ((address.1.startsWithPlace_append left).mp starts)
      exact away.excluded_either (by decide) (by decide) seen
  · next unseen =>
    rw [Bool.or_eq_true, not_or] at unseen
    refine Recognized.right ?_ (excluded_placeOutlook unseen.1 unseen.2)
    refine computed_agrees given unseen.1 unseen.2 ?_
    refine (expression_recognized given (avoids_keyword _ (by decide))).await ?_ ?_
    · exact fun node middle => expression_closes nestingLimit source (by decide)
    · exact fun node middle after _ _ => (expression_recognized inhabited avoids).map _

theorem avoids_assignmentOutlook {avoided : List Keyword} (rest : Outlook)
    (absent : ∀ word ∈ avoided, word ∉ Layer.first .expression) :
    (assignmentOutlook rest).Avoids avoided := by
  refine Outlook.Avoids.either ?_ ?_
  · rintro word inside tail ⟨spot, left, -, equal⟩
    exact (Destination.place spot).words_ne_cons (absent word inside) left tail equal.symm
  · rintro word inside tail ⟨address, left, -, equal⟩
    exact address.1.words_ne_cons (absent word inside) left tail equal.symm

theorem instruction_recognized (inhabited : rest.Inhabited)
    (avoids : rest.Avoids (Layer.more .expression)) :
    Recognized (instructionOutlook rest) (fun _ => rest) before (instruction before) := by
  rw [instructionOutlook_eq]
  refine .choose (fun seen => ?_) (fun unseen => ?_)
    ((avoids_keyword _ (by decide)).either (avoids_assignmentOutlook rest (by decide)))
  · unfold command
    rw [Reader.choose_of_sees _ _ seen]
    refine .keyword seen fun after _ => ?_
    have number : Recognized (bitOutlook fun _ => rest) (fun _ => rest) after (bit after) :=
      bit_recognized fun _ => inhabited
    exact number.map _
  · refine .choose (fun seen => ?_) (fun _ => assignment_recognized inhabited avoids)
      (avoids_assignmentOutlook rest (by decide))
    unfold command
    rw [Reader.choose_of_not_sees _ _ (Bool.eq_false_iff.mpr unseen),
      Reader.choose_of_sees _ _ seen]
    exact .keyword seen fun after _ =>
      Reader.recognized_pure (fun _ => rest) Node.read inhabited

end Instructions

section Lines

variable {before : Cursor}

/-- There is no objection to a line as such. -/
def Sound (line : Derivation.Line) : Prop :=
  line.instruction.depth < nestingLimit ∧ line.clashes = false

/-- A line may come. -/
def lineOutlook (rest : Json → Outlook) : Outlook :=
  .phrase Derivation.Line.words Sound fun line => rest (.int line.number.value)

theorem lineOutlook_eq (rest : Json → Outlook) :
    lineOutlook rest =
      .keyword .lineNumber (numeralOutlook fun number =>
        .keyword .code (instructionOutlook
          (either (branchOutlook (rest (.int number))) (rest (.int number))))) := by
  refine (phrase_keyword (fun line : Derivation.Line => line.words.tail) fun _ => rfl).trans
    (congrArg _ ?_)
  refine (phrase_append Numeral.words
    (fun parts : Instruction × Option Branch =>
      .code :: (parts.1.words ++ Derivation.Line.branchWords parts.2))
    (fun _ => True)
    (fun _ parts => parts.1.depth < nestingLimit ∧ parts.2.any (·.clashes) = false)
    (fun number parts => ⟨number, parts.1, parts.2⟩) ?_ (fun _ _ => rfl) ?_).trans
    (congrArg _ (funext fun number => ?_))
  · rintro ⟨number, instruction, branch⟩
    exact ⟨number, (instruction, branch), rfl⟩
  · intro number parts
    exact (iff_of_eq (true_and _)).symm
  · refine (phrase_cons .code).trans (congrArg _ ?_)
    refine (phrase_append _ _ (fun instruction => instruction.depth < nestingLimit)
      (fun _ branch => branch.any (·.clashes) = false) Prod.mk
      (fun parts => ⟨parts.1, parts.2, rfl⟩) (fun _ _ => rfl) fun _ _ => Iff.rfl).trans
      (congrArg _ (funext fun _ => ?_))
    refine (phrase_either some (fun _ : Unit => none) ?_).trans (congrArg₂ either rfl ?_)
    · intro branch
      cases branch <;> simp
    · exact (Outlook.phrase_congr (by simp)).trans (phrase_nil _)

theorem number_closes {after : Cursor} {value : Nat} {rest : Nat → Outlook}
    (inhabited : ∀ value, (rest value).Inhabited) (read : bits before = .ok value after) :
    ∃ words, Passes words before after ∧
      Closes (numeralOutlook fun value => .keyword .code (rest value)) .code words := by
  obtain ⟨numeral, -, passed⟩ := bits_sound read
  exact ⟨numeral.words, passed, Reader.closes_phrase bitWords numeral (List.cons_ne_nil _ _)
    (inhabited _) (by decide)
    fun other left right same leftEnds rightEnds => (Numeral.unique same leftEnds rightEnds).2⟩

theorem line_recognized {rest : Json → Outlook} (inhabited : ∀ number, (rest number).Inhabited)
    (avoids : ∀ number, (rest number).Avoids [.zero, .one, .nand, .goto, .ifTheJumpRegisterIs])
    (seen : before.sees Keyword.lineNumber.spelling = true) :
    Recognized (lineOutlook rest) (fun line => rest line.number) before (line before) := by
  have content : ∀ value : Nat,
      (instructionOutlook (either (branchOutlook (rest value)) (rest value))).Inhabited :=
    fun value => inhabited_phrase .read (inhabited value).right
  rw [lineOutlook_eq]
  unfold line
  rw [Reader.bind_of_ok (Reader.skipBlanks_run before),
    Reader.bind_skipBlanks _ (Reader.keyword_skipBlanks _ before)]
  refine .keyword seen fun start _ => ?_
  refine (bits_recognized (fun value => inhabited_keyword.mpr (content value))
    fun value => avoids_keyword _ (by decide)).await
    (fun value middle => number_closes content) fun value middle after _ _ => ?_
  refine (instruction_recognized (inhabited value).right ?_).bind fun node stop _ => ?_
  · rw [branchOutlook_eq]
    exact (avoids_keyword _ (by decide)).either ((avoids value).mono (by decide))
  rw [Reader.choose_run]
  split
  · next seen =>
    refine Recognized.left ?_ ((avoids value).excluded (by decide) seen)
    exact (branch_recognized (inhabited value) ((avoids value).mono (by decide)) seen).continue
      fun _ _ _ _ leads => .read leads
  · next unseen =>
    let last : Line := ⟨value, node, .absent, before.skipBlanks.position⟩
    have ends : Recognized (rest last.number) (fun line => rest line.number) stop (.ok last stop) :=
      Reader.recognized_pure (fun line => rest line.number) last (inhabited value)
    refine ends.right ?_
    rw [branchOutlook_eq]
    exact excluded_keyword _ unseen

end Lines

section Programs

variable {before : Cursor}

/-- Further lines may come. They are fine if there is no objection to any of them, and if their
numbers differ from one another and from those that are taken. -/
def linesOutlook (taken : List Json) : Outlook :=
  .phrase (fun lines : List Derivation.Line => lines.flatMap (·.words))
    (fun lines => (∀ line ∈ lines, Sound line) ∧
      (lines.map fun line => Json.int line.number.value).Nodup ∧
      ∀ line ∈ lines, Json.int line.number.value ∉ taken) fun _ => .finished

theorem linesOutlook_eq (taken : List Json) :
    linesOutlook taken =
      either .finished
        (lineOutlook fun number =>
          .provided (number ∉ taken) (linesOutlook (taken ++ [number]))) := by
  refine (phrase_either (fun _ : Unit => []) (fun lines : Derivation.Line × List Derivation.Line =>
    lines.1 :: lines.2) ?_).trans (congrArg₂ either ?_ ?_)
  · intro lines
    cases lines <;> simp
  · exact (Outlook.phrase_congr (by simp)).trans (phrase_nil _)
  · refine (phrase_append _ _ Sound (fun line lines =>
        Json.int line.number.value ∉ taken ∧ (∀ line ∈ lines, Sound line) ∧
          (lines.map fun line => Json.int line.number.value).Nodup ∧
          ∀ other ∈ lines, Json.int other.number.value ∉ taken ++ [Json.int line.number.value])
      Prod.mk (fun lines => ⟨lines.1, lines.2, rfl⟩) (fun _ _ => rfl) ?_).trans
      (congrArg _ (funext fun line => Outlook.phrase_and _))
    intro line lines
    simp only [List.mem_append, List.mem_singleton, not_or, List.forall_mem_cons, List.map_cons,
      List.nodup_cons, List.mem_map, not_exists, not_and]
    constructor
    · rintro ⟨⟨sound, sounds⟩, ⟨apart, distinct⟩, fresh, others⟩
      exact ⟨sound, fresh, sounds, distinct, fun other inside =>
        ⟨others other inside, apart other inside⟩⟩
    · rintro ⟨sound, fresh, sounds, distinct, others⟩
      exact ⟨⟨sound, sounds⟩, ⟨fun other inside => (others other inside).2, distinct⟩, fresh,
        fun other inside => (others other inside).1⟩

theorem inhabited_linesOutlook (taken : List Json) : (linesOutlook taken).Inhabited :=
  inhabited_phrase [] ⟨[], rfl⟩

theorem avoids_linesOutlook {avoided : List Keyword} (taken : List Json)
    (absent : .lineNumber ∉ avoided) : (linesOutlook taken).Avoids avoided := by
  rw [linesOutlook_eq, lineOutlook_eq]
  exact Outlook.Avoids.either (fun _ _ _ => List.cons_ne_nil _ _) (avoids_keyword _ absent)

/-- The words of a line tell its number before its end. -/
theorem number_eq_of_words {first second : Derivation.Line} {left right : List Keyword}
    (same : first.words ++ left = second.words ++ right) : first.number = second.number := by
  simp only [Derivation.Line.words, List.cons_append, List.append_assoc, List.cons.injEq,
    true_and] at same
  exact (Numeral.unique same (Derivation.avoids_cons (by decide) _)
    (Derivation.avoids_cons (by decide) _)).1

theorem recognized_finished {α : Type} (value : α) :
    Recognized Outlook.finished (fun _ => .finished) before (.ok value before) :=
  Reader.recognized_pure (fun _ => .finished) value ⟨[], rfl⟩

theorem moreLines_recognized {numbers : List Nat} {lines : List Line} (fuel : Nat)
    (labelled : lines.map (·.number) = numbers.map fun number : Nat => Json.int number)
    (enough : before.ahead.length ≤ fuel) :
    Recognized (linesOutlook (lines.map (·.number))) (fun _ => .finished) before
      (moreLines fuel lines before) := by
  induction fuel generalizing numbers lines before with
  | zero =>
    have nothing : before.ahead = [] := List.eq_nil_of_length_eq_zero (Nat.le_zero.mp enough)
    rw [linesOutlook_eq, lineOutlook_eq]
    refine (recognized_finished lines).left (excluded_keyword _ ?_)
    simp [Cursor.sees_eq_false_of_ahead nothing]
  | succ fuel ih =>
    rw [linesOutlook_eq]
    unfold moreLines
    rw [Reader.choose_run]
    split
    · next seen =>
      refine Recognized.right ?_ (Outlook.finished_excluded before)
      have ahead : ∀ number, (Outlook.provided (number ∉ lines.map (·.number))
          (linesOutlook (lines.map (·.number) ++ [number]))).Inhabited :=
        fun number => inhabited_linesOutlook (lines.map (·.number) ++ [number])
      have apart : ∀ number, (Outlook.provided (number ∉ lines.map (·.number))
          (linesOutlook (lines.map (·.number) ++ [number]))).Avoids
          [.zero, .one, .nand, .goto, .ifTheJumpRegisterIs] :=
        fun number => avoids_linesOutlook (lines.map (·.number) ++ [number]) (by decide)
      refine (line_recognized ahead apart seen).continue ?_
      intro next after words read leads
      have shorter := length_ahead_of_line read
      obtain ⟨derived, rfl, passed, -⟩ := line_sound read
      rw [show (derived.meaning before.skipBlanks.position).number = .int derived.number.value
        from rfl, any_same_meaning lines numbers derived.number.value labelled]
      split
      · next taken =>
        -- The line that repeats a number is complete, and so is the objection to it.
        rw [leads.passed.unique passed] at leads
        refine .flawed (.taken _) ⟨List.cons_ne_nil _ _, ⟨after, passed⟩, leads.opens, ?_⟩
        rintro tail ⟨line, -, left, ⟨fresh, -⟩, same⟩
        rw [← number_eq_of_words same, labelled] at fresh
        exact fresh (List.mem_map_of_mem (of_decide_eq_true taken))
      · have left : after.ahead.length ≤ fuel := by omega
        have further := ih (labelled_append derived before.skipBlanks.position labelled) left
        refine leads.then (further.agree (ahead _) ?_ ?_)
        · intro word _ tail
          rw [List.map_append]
          exact Iff.rfl
        · intro word _ tail inside
          rw [List.map_append]
          exact inside.2
    · next unseen =>
      rw [lineOutlook_eq]
      exact (recognized_finished lines).left (excluded_keyword _ unseen)

/-- A program may come. It is fine if it is lawful and not nested too deeply. -/
def programOutlook : Outlook :=
  .phrase Derivation.Program.words (fun program => program.Lawful ∧ program.Shallow nestingLimit)
    fun _ => .finished

theorem lawful_iff (first : Derivation.Line) (more : List Derivation.Line) :
    (Derivation.Program.mk first more).Lawful ∧
        (Derivation.Program.mk first more).Shallow nestingLimit ↔
      Sound first ∧ (∀ line ∈ more, Sound line) ∧
        (more.map fun line => Json.int line.number.value).Nodup ∧
        ∀ line ∈ more, Json.int line.number.value ∉ [Json.int first.number.value] := by
  have injective : Function.Injective fun number : Nat => Json.int number :=
    fun one other same => Int.ofNat.inj (Json.int.inj same)
  have numbers : (more.map fun line => Json.int line.number.value).Nodup ↔
      (more.map (·.number.value)).Nodup := by
    rw [← List.nodup_map_iff injective, List.map_map]
    rfl
  have apart : ∀ line : Derivation.Line,
      Json.int line.number.value ∉ [Json.int first.number.value] ↔
        line.number.value ≠ first.number.value := by
    intro line
    rw [List.mem_singleton, not_iff_not]
    exact injective.eq_iff
  simp only [numbers, apart]
  constructor
  · rintro ⟨⟨distinct, decided⟩, shallow⟩
    obtain ⟨fresh, distinct⟩ := List.nodup_cons.mp distinct
    have sound : ∀ line ∈ first :: more, Sound line :=
      fun line inside => ⟨shallow line inside, decided line inside⟩
    refine ⟨sound first List.mem_cons_self, fun line inside => sound line (.tail _ inside),
      distinct, fun line inside same => fresh (List.mem_map.mpr ⟨line, inside, same⟩)⟩
  · rintro ⟨sound, sounds, distinct, fresh⟩
    have all : ∀ line ∈ first :: more, Sound line := List.forall_mem_cons.mpr ⟨sound, sounds⟩
    refine ⟨⟨List.nodup_cons.mpr ⟨?_, distinct⟩, fun line inside => (all line inside).2⟩,
      fun line inside => (all line inside).1⟩
    intro taken
    obtain ⟨line, inside, same⟩ := List.mem_map.mp taken
    exact fresh line inside same

theorem programOutlook_eq : programOutlook = lineOutlook fun number => linesOutlook [number] :=
  phrase_append _ _ _ _ Derivation.Program.mk (fun program => ⟨program.first, program.more, rfl⟩)
    (fun _ _ => rfl) lawful_iff

theorem program_refused {rejection : Rejection} {stop : Cursor}
    (seen : before.sees Keyword.lineNumber.spelling = true)
    (refused : program before = .error rejection stop) :
    Recognized (α := Program) programOutlook (fun _ => .finished) before
      (.error rejection stop) := by
  have start : Recognized (lineOutlook fun number => linesOutlook [number])
      (fun line => linesOutlook [line.number]) before (line before) :=
    line_recognized (fun number => inhabited_linesOutlook [number])
      (fun number => avoids_linesOutlook [number] (by decide)) seen
  rw [programOutlook_eq]
  unfold program at refused
  cases first : line before with
  | error rejection stop =>
    rw [Reader.bind_of_error first] at refused
    rw [first] at start
    cases refused
    exact start.refused
  | ok content middle =>
    rw [Reader.bind_of_ok first, Reader.bind_of_ok (Reader.get_run middle)] at refused
    rw [first] at start
    obtain ⟨derived, rfl, -, -⟩ := line_sound first
    have labelled : [derived.meaning before.skipBlanks.position].map (·.number) =
        [derived.number.value].map fun number : Nat => Json.int number := rfl
    have further := moreLines_recognized middle.rest.length labelled
      (Text.length_letters_le middle.rest)
    cases start with
    | read leads =>
      refine leads.then ?_
      cases more : moreLines middle.rest.length [derived.meaning before.skipBlanks.position]
          middle with
      | error rejection stop =>
        rw [Reader.bind_of_error more] at refused
        rw [more] at further
        cases refused
        exact further.refused
      | ok lines last =>
        rw [Reader.bind_of_ok more, Reader.bind_of_ok (Reader.get_run last)] at refused
        rw [more] at further
        cases further with
        | read leads =>
          refine leads.then ?_
          split at refused
          · cases refused
            exact Reader.recognized_fail (α := Program) _ ⟨[], rfl⟩ (Outlook.finished_excluded last)
          · cases refused

/-- A text that does not start like a program. -/
theorem program_unstarted {stop : Cursor}
    (short : before.advance Keyword.lineNumber.letters = (false, stop)) :
    program before = .error ⟨.unexpected [Keyword.lineNumber.spelling], stop.position⟩ stop ∧
      Stuck programOutlook before stop.position [] before := by
  have failed : line before =
      .error ⟨.unexpected [Keyword.lineNumber.spelling], stop.position⟩ stop := by
    unfold line
    rw [Reader.bind_of_ok (Reader.skipBlanks_run before),
      Reader.bind_skipBlanks _ (Reader.keyword_skipBlanks _ before)]
    exact Reader.bind_of_error (Reader.keyword_of_short short)
  have first : ∀ start tail, start :: tail ∈ programOutlook.all → start = .lineNumber := by
    rintro start tail ⟨derived, _, -, equal⟩
    exact (List.cons.inj equal).1
  let smallest : Derivation.Program := ⟨⟨⟨false, []⟩, .read, none⟩, []⟩
  have inhabited : smallest.words ∈ programOutlook.all :=
    ⟨smallest, [], rfl, (List.append_nil _).symm⟩
  refine ⟨Reader.bind_of_error failed, rfl, ⟨_, inhabited⟩, ?_, ?_⟩
  · intro start seen tail inside
    have success := Cursor.fst_advance Keyword.lineNumber.letters before
    rw [short] at success
    rw [first start tail inside] at seen
    exact Bool.noConfusion (success.trans seen)
  · exact .within ⟨_, inhabited⟩ (fun start tail inside _ => first start tail inside) short

/-- A text that is no program: what was read can be completed, but not with what comes next, or
there is an objection to it. -/
theorem stuck_or_flawed {rejection : Rejection} {stop : Cursor}
    (refused : program before = .error rejection stop) :
    (∃ words reached, Stuck programOutlook before rejection.position words reached) ∨
      Objection rejection.cause ∧ ∃ words, Flawed programOutlook before words := by
  rcases moved : before.advance Keyword.lineNumber.letters with ⟨reached, stop⟩
  cases reached with
  | true =>
    cases program_refused (Cursor.sees_of_advance moved) refused with
    | stuck stuck _ => exact Or.inl ⟨_, _, stuck⟩
    | flawed objection flawed => exact Or.inr ⟨objection, _, flawed⟩
  | false =>
    obtain ⟨failed, stuck⟩ := program_unstarted moved
    rw [failed] at refused
    cases refused
    exact Or.inl ⟨_, _, stuck⟩

end Programs

end BitMachine.Descent
