import BitMachine.Proofs.Grammar.Derivation

/-! The grammar is unambiguous: the words of a program have one derivation. A phrase is told from
the others by its first keyword, and it ends where no keyword follows with which it could go on. -/

set_option autoImplicit false

namespace BitMachine.Derivation

/-- The keywords do not start with any of the given ones. -/
def Avoids (avoided words : List Keyword) : Prop :=
  ∀ word ∈ avoided, words.head? ≠ some word

theorem avoids_cons {avoided : List Keyword} {word : Keyword} (absent : word ∉ avoided)
    (words : List Keyword) : Avoids avoided (word :: words) := by
  intro other inside same
  rw [List.head?_cons, Option.some.injEq] at same
  exact absent (same ▸ inside)

theorem Avoids.not_cons {avoided words : List Keyword} {word : Keyword}
    (avoids : Avoids avoided (word :: words)) (inside : word ∈ avoided) : False :=
  avoids word inside rfl

theorem Avoids.mono {small large words : List Keyword} (avoids : Avoids large words)
    (inside : ∀ word ∈ small, word ∈ large) : Avoids small words :=
  fun word member => avoids word (inside word member)

/-- The text ends here, or another line starts. -/
def EndsLine (words : List Keyword) : Prop :=
  words = [] ∨ ∃ rest, words = .lineNumber :: rest

theorem EndsLine.avoids {words avoided : List Keyword} (ends : EndsLine words)
    (absent : .lineNumber ∉ avoided) : Avoids avoided words := by
  rcases ends with rfl | ⟨rest, rfl⟩
  · intro word _ impossible
    cases impossible
  · exact avoids_cons absent rest

section Bits

/-- The keywords of bits. -/
abbrev bitWords : List Keyword :=
  [.zero, .one]

theorem bitWord_mem (bit : Bool) : bitWord bit ∈ bitWords := by
  cases bit <;> decide

theorem bitWord_injective {a b : Bool} (same : bitWord a = bitWord b) : a = b := by
  revert same
  cases a <;> cases b <;> decide

theorem bits_unique {front back : List Bool} {left right : List Keyword}
    (same : front.map bitWord ++ left = back.map bitWord ++ right)
    (leftEnds : Avoids bitWords left) (rightEnds : Avoids bitWords right) :
    front = back ∧ left = right := by
  induction front generalizing back with
  | nil =>
    cases back with
    | nil => exact ⟨rfl, same⟩
    | cons bit back =>
      rw [List.map_nil, List.nil_append] at same
      subst same
      exact (leftEnds.not_cons (bitWord_mem bit)).elim
  | cons bit front ih =>
    cases back with
    | nil =>
      rw [List.map_nil, List.nil_append] at same
      subst same
      exact (rightEnds.not_cons (bitWord_mem bit)).elim
    | cons other back =>
      simp only [List.map_cons, List.cons_append, List.cons.injEq] at same
      obtain ⟨rfl, rfl⟩ := ih same.2
      exact ⟨by rw [bitWord_injective same.1], rfl⟩

theorem Numeral.unique {first second : Numeral} {left right : List Keyword}
    (same : first.words ++ left = second.words ++ right)
    (leftEnds : Avoids bitWords left) (rightEnds : Avoids bitWords right) :
    first = second ∧ left = right := by
  simp only [words, List.cons_append, List.cons.injEq] at same
  obtain ⟨more, rest⟩ := bits_unique same.2 leftEnds rightEnds
  refine ⟨?_, rest⟩
  cases first
  cases second
  simp only [Numeral.mk.injEq]
  exact ⟨bitWord_injective same.1, more⟩

theorem Place.unique {first second : Place} {left right : List Keyword}
    (same : first.words ++ left = second.words ++ right)
    (leftEnds : Avoids bitWords left) (rightEnds : Avoids bitWords right) :
    first = second ∧ left = right := by
  cases first with
  | cell address =>
    cases second with
    | cell other =>
      simp only [words, List.cons_append, List.cons.injEq, true_and] at same
      obtain ⟨rfl, rest⟩ := Numeral.unique same leftEnds rightEnds
      exact ⟨rfl, rest⟩
    | register => simp [words] at same
  | register =>
    cases second with
    | cell other => simp [words] at same
    | register => exact ⟨rfl, List.append_cancel_left same⟩

end Bits

section Expressions

/-- The keywords with which the phrases of a layer may start. -/
def Layer.first (layer : Layer) : List Keyword :=
  let primary : List Keyword := [.variable, .theJumpRegister, .zero, .one, .openParenthesis]
  match layer with
  | .primary => primary
  | .valueAt => .theValueAt :: primary
  | .valueBeyond => .theValueBeyond :: .theValueAt :: primary
  | .operand | .expression => .theAddressOf :: .theValueBeyond :: .theValueAt :: primary

/-- The keywords with which a phrase of a layer would go on. -/
def Layer.more : Layer → List Keyword
  | .expression => .nand :: bitWords
  | _ => bitWords

theorem Place.exists_first (spot : Place) :
    ∃ word ∈ Layer.first .primary, ∃ rest, spot.words = word :: rest := by
  cases spot with
  | cell address => exact ⟨.variable, by decide, address.words, rfl⟩
  | register => exact ⟨.theJumpRegister, by decide, [], rfl⟩

theorem Expression.exists_first {layer : Layer} (phrase : Expression layer) :
    ∃ word ∈ layer.first, ∃ rest, phrase.words = word :: rest := by
  induction phrase with
  | place spot => exact spot.exists_first
  | constant magnitude =>
    refine ⟨bitWord magnitude.first, ?_, magnitude.more.map bitWord, rfl⟩
    cases magnitude.first <;> decide
  | parenthesized inner _ =>
    exact ⟨.openParenthesis, by decide, inner.words ++ [.closeParenthesis], rfl⟩
  | valueAt inner _ => exact ⟨.theValueAt, by decide, inner.words, rfl⟩
  | valueBeyond inner _ => exact ⟨.theValueBeyond, by decide, inner.words, rfl⟩
  | addressOf inner _ => exact ⟨.theAddressOf, by decide, inner.words, rfl⟩
  | plainAt inner ih =>
    obtain ⟨word, inside, rest, equal⟩ := ih
    exact ⟨word, List.mem_cons_of_mem _ inside, rest, equal⟩
  | plainBeyond inner ih =>
    obtain ⟨word, inside, rest, equal⟩ := ih
    exact ⟨word, List.mem_cons_of_mem _ inside, rest, equal⟩
  | plainOperand inner ih =>
    obtain ⟨word, inside, rest, equal⟩ := ih
    exact ⟨word, List.mem_cons_of_mem _ inside, rest, equal⟩
  | single operand ih => exact ih
  | nand left right ihLeft _ =>
    obtain ⟨word, inside, rest, equal⟩ := ihLeft
    exact ⟨word, inside, rest ++ .nand :: right.words, by rw [words, equal, List.cons_append]⟩

/-- A phrase does not start with a keyword that its layer cannot start with. -/
theorem Expression.words_ne_cons {layer : Layer} (phrase : Expression layer) {word : Keyword}
    (absent : word ∉ layer.first) (left right : List Keyword) :
    phrase.words ++ left ≠ word :: right := by
  obtain ⟨first, inside, rest, equal⟩ := phrase.exists_first
  intro same
  rw [equal, List.cons_append, List.cons.injEq] at same
  exact absent (same.1 ▸ inside)

theorem Expression.unique {layer : Layer} {first second : Expression layer}
    {left right : List Keyword} (same : first.words ++ left = second.words ++ right)
    (leftEnds : Avoids layer.more left) (rightEnds : Avoids layer.more right) :
    first = second ∧ left = right := by
  induction first generalizing left right with
  | place spot =>
    cases second with
    | place other =>
      obtain ⟨rfl, rest⟩ := Place.unique same leftEnds rightEnds
      exact ⟨rfl, rest⟩
    | constant magnitude =>
      obtain ⟨bit, more⟩ := magnitude
      cases spot <;> cases bit <;> simp [words, Place.words, Numeral.words, bitWord] at same
    | parenthesized inner =>
      cases spot <;> simp [words, Place.words] at same
  | constant magnitude =>
    obtain ⟨bit, more⟩ := magnitude
    cases second with
    | place other =>
      cases other <;> cases bit <;> simp [words, Place.words, Numeral.words, bitWord] at same
    | constant other =>
      obtain ⟨rfl, rest⟩ := Numeral.unique same leftEnds rightEnds
      exact ⟨rfl, rest⟩
    | parenthesized inner =>
      cases bit <;> simp [words, Numeral.words, bitWord] at same
  | parenthesized inner ih =>
    cases second with
    | place other => cases other <;> simp [words, Place.words] at same
    | constant magnitude =>
      obtain ⟨bit, more⟩ := magnitude
      cases bit <;> simp [words, Numeral.words, bitWord] at same
    | parenthesized other =>
      simp only [words, List.cons_append, List.append_assoc, List.cons.injEq, true_and,
        List.nil_append] at same
      obtain ⟨rfl, rest⟩ := ih same (avoids_cons (by decide) _) (avoids_cons (by decide) _)
      exact ⟨rfl, (List.cons.inj rest).2⟩
  | plainAt inner ih =>
    cases second with
    | plainAt other =>
      obtain ⟨rfl, rest⟩ := ih same leftEnds rightEnds
      exact ⟨rfl, rest⟩
    | valueAt other => exact (inner.words_ne_cons (by decide) _ _ same).elim
  | valueAt inner ih =>
    cases second with
    | plainAt other => exact (other.words_ne_cons (by decide) _ _ same.symm).elim
    | valueAt other =>
      obtain ⟨rfl, rest⟩ := ih (List.cons.inj same).2 leftEnds rightEnds
      exact ⟨rfl, rest⟩
  | plainBeyond inner ih =>
    cases second with
    | plainBeyond other =>
      obtain ⟨rfl, rest⟩ := ih same leftEnds rightEnds
      exact ⟨rfl, rest⟩
    | valueBeyond other => exact (inner.words_ne_cons (by decide) _ _ same).elim
  | valueBeyond inner ih =>
    cases second with
    | plainBeyond other => exact (other.words_ne_cons (by decide) _ _ same.symm).elim
    | valueBeyond other =>
      obtain ⟨rfl, rest⟩ := ih (List.cons.inj same).2 leftEnds rightEnds
      exact ⟨rfl, rest⟩
  | plainOperand inner ih =>
    cases second with
    | plainOperand other =>
      obtain ⟨rfl, rest⟩ := ih same leftEnds rightEnds
      exact ⟨rfl, rest⟩
    | addressOf other => exact (inner.words_ne_cons (by decide) _ _ same).elim
  | addressOf inner ih =>
    cases second with
    | plainOperand other => exact (other.words_ne_cons (by decide) _ _ same.symm).elim
    | addressOf other =>
      obtain ⟨rfl, rest⟩ := ih (List.cons.inj same).2 leftEnds rightEnds
      exact ⟨rfl, rest⟩
  | single operand ih =>
    cases second with
    | single other =>
      obtain ⟨rfl, rest⟩ := ih same (leftEnds.mono (by decide)) (rightEnds.mono (by decide))
      exact ⟨rfl, rest⟩
    | nand front back =>
      simp only [words, List.append_assoc, List.cons_append] at same
      obtain ⟨-, rfl⟩ := ih same (leftEnds.mono (by decide)) (avoids_cons (by decide) _)
      exact (leftEnds.not_cons (by decide)).elim
  | nand front back ihFront ihBack =>
    cases second with
    | single other =>
      simp only [words, List.append_assoc, List.cons_append] at same
      obtain ⟨-, rfl⟩ := ihFront same (avoids_cons (by decide) _) (rightEnds.mono (by decide))
      exact (rightEnds.not_cons (by decide)).elim
    | nand otherFront otherBack =>
      simp only [words, List.append_assoc, List.cons_append] at same
      obtain ⟨rfl, tails⟩ := ihFront same (avoids_cons (by decide) _) (avoids_cons (by decide) _)
      obtain ⟨rfl, rest⟩ :=
        ihBack (List.cons.inj tails).2 (leftEnds.mono (by decide)) (rightEnds.mono (by decide))
      exact ⟨rfl, rest⟩

end Expressions

section Lines

theorem Place.startsWithPlace (spot : Place) (left : List Keyword) :
    StartsWithPlace (spot.words ++ left) := by
  cases spot with
  | cell address => exact Or.inl rfl
  | register => exact Or.inr rfl

theorem Expression.startsWithPlace_append {layer : Layer} (phrase : Expression layer)
    (left : List Keyword) :
    StartsWithPlace (phrase.words ++ left) ↔ StartsWithPlace phrase.words := by
  obtain ⟨word, -, rest, equal⟩ := phrase.exists_first
  rw [equal]
  exact Iff.rfl

theorem Destination.unique {first second : Destination} {left right : List Keyword}
    (same : first.words ++ .equals :: left = second.words ++ .equals :: right) :
    first = second ∧ left = right := by
  cases first with
  | place spot =>
    cases second with
    | place other =>
      obtain ⟨rfl, rest⟩ :=
        Place.unique same (avoids_cons (by decide) _) (avoids_cons (by decide) _)
      exact ⟨rfl, (List.cons.inj rest).2⟩
    | computed address computes =>
      have begins := spot.startsWithPlace (.equals :: left)
      rw [show spot.words ++ .equals :: left = address.words ++ .equals :: right from same,
        address.startsWithPlace_append] at begins
      exact (computes begins).elim
  | computed address computes =>
    cases second with
    | place other =>
      have begins := other.startsWithPlace (.equals :: right)
      rw [show other.words ++ .equals :: right = address.words ++ .equals :: left from same.symm,
        address.startsWithPlace_append] at begins
      exact (computes begins).elim
    | computed other _ =>
      obtain ⟨rfl, rest⟩ :=
        Expression.unique same (avoids_cons (by decide) _) (avoids_cons (by decide) _)
      exact ⟨rfl, (List.cons.inj rest).2⟩

/-- The keywords with which an instruction that is no command may start. -/
theorem Destination.exists_first (destination : Destination) :
    ∃ word ∈ Layer.first .expression, ∃ rest, destination.words = word :: rest := by
  cases destination with
  | place spot =>
    obtain ⟨word, inside, rest, equal⟩ := spot.exists_first
    refine ⟨word, ?_, rest, equal⟩
    simp only [Layer.first, List.mem_cons] at inside ⊢
    exact Or.inr (Or.inr (Or.inr inside))
  | computed address _ => exact address.exists_first

theorem Destination.words_ne_cons (destination : Destination) {word : Keyword}
    (absent : word ∉ Layer.first .expression) (left right : List Keyword) :
    destination.words ++ left ≠ word :: right := by
  obtain ⟨first, inside, rest, equal⟩ := destination.exists_first
  intro same
  rw [equal, List.cons_append, List.cons.injEq] at same
  exact absent (same.1 ▸ inside)

theorem Instruction.unique {first second : Instruction} {left right : List Keyword}
    (same : first.words ++ left = second.words ++ right)
    (leftEnds : Avoids (Layer.more .expression) left)
    (rightEnds : Avoids (Layer.more .expression) right) : first = second ∧ left = right := by
  cases first with
  | print bit =>
    cases second with
    | print other =>
      simp only [words, List.cons_append, List.nil_append, List.cons.injEq, true_and] at same
      exact ⟨by rw [bitWord_injective same.1], same.2⟩
    | read => simp [words] at same
    | assignment destination source =>
      simp only [words, List.append_assoc] at same
      exact (destination.words_ne_cons (by decide) _ _ same.symm).elim
  | read =>
    cases second with
    | print other => simp [words] at same
    | read => exact ⟨rfl, (List.cons.inj same).2⟩
    | assignment destination source =>
      simp only [words, List.append_assoc] at same
      exact (destination.words_ne_cons (by decide) _ _ same.symm).elim
  | assignment destination source =>
    simp only [words, List.append_assoc, List.cons_append] at same
    cases second with
    | print other => exact (destination.words_ne_cons (by decide) _ _ same).elim
    | read => exact (destination.words_ne_cons (by decide) _ _ same).elim
    | assignment other expression =>
      simp only [List.append_assoc, List.cons_append] at same
      obtain ⟨rfl, tails⟩ := Destination.unique same
      obtain ⟨rfl, rest⟩ := Expression.unique tails leftEnds rightEnds
      exact ⟨rfl, rest⟩

theorem Goal.unique {first second : Goal} {left right : List Keyword}
    (same : first.words ++ left = second.words ++ right)
    (leftEnds : Avoids bitWords left) (rightEnds : Avoids bitWords right) :
    first = second ∧ left = right := by
  obtain ⟨marked, bit, more⟩ := first
  obtain ⟨marked', bit', more'⟩ := second
  cases marked <;> cases marked' <;>
    simp only [words, Bool.false_eq_true, ↓reduceIte] at same
  · obtain ⟨equal, rest⟩ := Numeral.unique same leftEnds rightEnds
    exact ⟨by rw [equal], rest⟩
  · cases bit <;> simp [Numeral.words, bitWord] at same
  · cases bit' <;> simp [Numeral.words, bitWord] at same
  · obtain ⟨equal, rest⟩ := Numeral.unique (List.cons.inj same).2 leftEnds rightEnds
    exact ⟨by rw [equal], rest⟩

theorem Condition.unique {first second : Condition} {left right : List Keyword}
    (same : first.words ++ left = second.words ++ right) : first = second ∧ left = right := by
  obtain ⟨wordy, bit⟩ := first
  obtain ⟨wordy', bit'⟩ := second
  cases wordy <;> cases wordy' <;> cases bit <;> cases bit' <;>
    simp [words, bitWord] at same ⊢
  all_goals exact same

theorem Condition.words_eq_cons (condition : Condition) :
    ∃ rest, condition.words = .ifTheJumpRegisterIs :: rest := by
  cases wordy : condition.wordy with
  | false => exact ⟨[bitWord condition.bit], by simp [words, wordy]⟩
  | true => exact ⟨[.equalTo, bitWord condition.bit], by simp [words, wordy]⟩

theorem Condition.avoids (condition : Condition) (left : List Keyword) :
    Avoids bitWords (condition.words ++ left) := by
  obtain ⟨rest, equal⟩ := condition.words_eq_cons
  rw [equal]
  exact avoids_cons (by decide) _

/-- Nothing that a line may be followed by looks like a condition or another branch. -/
theorem EndsLine.ne_cons {words rest : List Keyword} {word : Keyword} (ends : EndsLine words)
    (other : word ≠ .lineNumber) : words ≠ word :: rest := by
  intro same
  rcases ends with rfl | ⟨more, rfl⟩
  · cases same
  · exact other (List.cons.inj same).1.symm

theorem EndsLine.ne_condition {words rest : List Keyword} (ends : EndsLine words)
    (condition : Condition) : words ≠ condition.words ++ rest := by
  obtain ⟨more, equal⟩ := condition.words_eq_cons
  rw [equal]
  exact ends.ne_cons (by decide)

theorem Branch.unique {first second : Branch} {left right : List Keyword}
    (same : first.words ++ left = second.words ++ right)
    (leftEnds : EndsLine left) (rightEnds : EndsLine right) : first = second ∧ left = right := by
  have leftBits : Avoids bitWords left := leftEnds.avoids (by decide)
  have rightBits : Avoids bitWords right := rightEnds.avoids (by decide)
  cases first with
  | jump goal =>
    simp only [words, List.cons_append] at same
    cases second with
    | jump other =>
      obtain ⟨rfl, rest⟩ := Goal.unique (List.cons.inj same).2 leftBits rightBits
      exact ⟨rfl, rest⟩
    | oneArm other asked =>
      simp only [List.cons_append, List.append_assoc] at same
      obtain ⟨-, rest⟩ := Goal.unique (List.cons.inj same).2 leftBits (asked.avoids _)
      exact (leftEnds.ne_condition asked rest).elim
    | twoArms other asked _ _ =>
      simp only [List.cons_append, List.append_assoc] at same
      obtain ⟨-, rest⟩ := Goal.unique (List.cons.inj same).2 leftBits (asked.avoids _)
      exact (leftEnds.ne_condition asked rest).elim
  | oneArm goal asked =>
    simp only [words, List.cons_append, List.append_assoc] at same
    cases second with
    | jump other =>
      obtain ⟨-, rest⟩ := Goal.unique (List.cons.inj same).2 (asked.avoids _) rightBits
      exact (rightEnds.ne_condition asked rest.symm).elim
    | oneArm other bit =>
      simp only [List.cons_append, List.append_assoc] at same
      obtain ⟨rfl, tails⟩ := Goal.unique (List.cons.inj same).2 (asked.avoids _) (bit.avoids _)
      obtain ⟨rfl, rest⟩ := Condition.unique tails
      exact ⟨rfl, rest⟩
    | twoArms other bit _ _ =>
      simp only [List.cons_append, List.append_assoc] at same
      obtain ⟨-, rest⟩ := Goal.unique (List.cons.inj same).2 (asked.avoids _) (bit.avoids _)
      obtain ⟨-, rest⟩ := Condition.unique rest
      exact (leftEnds.ne_cons (by decide) rest).elim
  | twoArms goal asked second other =>
    simp only [words, List.cons_append, List.append_assoc] at same
    rename_i secondBranch
    cases secondBranch with
    | jump goal' =>
      obtain ⟨-, rest⟩ := Goal.unique (List.cons.inj same).2 (asked.avoids _) rightBits
      exact (rightEnds.ne_condition asked rest.symm).elim
    | oneArm goal' bit =>
      simp only [List.cons_append, List.append_assoc] at same
      obtain ⟨-, rest⟩ := Goal.unique (List.cons.inj same).2 (asked.avoids _) (bit.avoids _)
      obtain ⟨-, rest⟩ := Condition.unique rest
      exact (rightEnds.ne_cons (by decide) rest.symm).elim
    | twoArms goal' bit second' bit' =>
      simp only [List.cons_append, List.append_assoc] at same
      obtain ⟨rfl, tails⟩ := Goal.unique (List.cons.inj same).2 (asked.avoids _) (bit.avoids _)
      obtain ⟨rfl, arms⟩ := Condition.unique tails
      obtain ⟨rfl, ends⟩ := Goal.unique (List.cons.inj arms).2 (other.avoids _) (bit'.avoids _)
      obtain ⟨rfl, rest⟩ := Condition.unique ends
      exact ⟨rfl, rest⟩

theorem Branch.words_eq_cons (branch : Branch) : ∃ rest, branch.words = .goto :: rest := by
  cases branch <;> exact ⟨_, rfl⟩

theorem Line.branchWords_unique {first second : Option Branch} {left right : List Keyword}
    (same : branchWords first ++ left = branchWords second ++ right)
    (leftEnds : EndsLine left) (rightEnds : EndsLine right) : first = second ∧ left = right := by
  cases first with
  | none =>
    cases second with
    | none => exact ⟨rfl, same⟩
    | some branch =>
      obtain ⟨rest, equal⟩ := branch.words_eq_cons
      simp only [branchWords, List.nil_append, equal, List.cons_append] at same
      exact (leftEnds.ne_cons (by decide) same).elim
  | some branch =>
    cases second with
    | none =>
      obtain ⟨rest, equal⟩ := branch.words_eq_cons
      simp only [branchWords, List.nil_append, equal, List.cons_append] at same
      exact (rightEnds.ne_cons (by decide) same.symm).elim
    | some other =>
      obtain ⟨rfl, rest⟩ := Branch.unique same leftEnds rightEnds
      exact ⟨rfl, rest⟩

/-- An instruction is followed by a branch or by the end of its line. -/
theorem Line.avoids_branchWords (branch : Option Branch) {left avoided : List Keyword}
    (ends : EndsLine left) (noLine : .lineNumber ∉ avoided) (noGoto : .goto ∉ avoided) :
    Avoids avoided (branchWords branch ++ left) := by
  cases branch with
  | none => exact ends.avoids noLine
  | some branch =>
    obtain ⟨rest, equal⟩ := branch.words_eq_cons
    rw [branchWords, equal]
    exact avoids_cons noGoto _

theorem Line.unique {first second : Line} {left right : List Keyword}
    (same : first.words ++ left = second.words ++ right)
    (leftEnds : EndsLine left) (rightEnds : EndsLine right) : first = second ∧ left = right := by
  obtain ⟨number, instruction, branch⟩ := first
  obtain ⟨number', instruction', branch'⟩ := second
  simp only [words, List.cons_append, List.append_assoc, List.cons.injEq, true_and] at same
  obtain ⟨rfl, contents⟩ :=
    Numeral.unique same (avoids_cons (by decide) _) (avoids_cons (by decide) _)
  obtain ⟨rfl, branches⟩ := Instruction.unique (List.cons.inj contents).2
    (avoids_branchWords branch leftEnds (by decide) (by decide))
    (avoids_branchWords branch' rightEnds (by decide) (by decide))
  obtain ⟨rfl, rest⟩ := branchWords_unique branches leftEnds rightEnds
  exact ⟨rfl, rest⟩

theorem endsLine_flatMap_words (lines : List Line) : EndsLine (lines.flatMap (·.words)) := by
  cases lines with
  | nil => exact Or.inl rfl
  | cons line rest => exact Or.inr ⟨_, rfl⟩

/-- There are at least as many keywords as lines. -/
theorem length_le_length_words (lines : List Line) :
    lines.length ≤ (lines.flatMap (·.words)).length := by
  induction lines with
  | nil => exact Nat.le_refl 0
  | cons line lines ih =>
    rw [List.flatMap_cons, List.length_append, List.length_cons, Line.words, List.length_cons]
    omega

theorem lines_unique {first second : List Line}
    (same : first.flatMap (·.words) = second.flatMap (·.words)) : first = second := by
  induction first generalizing second with
  | nil =>
    cases second with
    | nil => rfl
    | cons line rest => cases same
  | cons line rest ih =>
    cases second with
    | nil => cases same
    | cons other others =>
      rw [List.flatMap_cons, List.flatMap_cons] at same
      obtain ⟨rfl, tails⟩ :=
        Line.unique same (endsLine_flatMap_words rest) (endsLine_flatMap_words others)
      rw [ih tails]

/-- The words of a program have one derivation. -/
theorem Program.words_injective {first second : Program} (same : first.words = second.words) :
    first = second := by
  obtain ⟨line, more⟩ := first
  obtain ⟨line', more'⟩ := second
  have equal := lines_unique same
  simp only [lines, List.cons.injEq] at equal
  rw [equal.1, equal.2]

end Lines

end BitMachine.Derivation
