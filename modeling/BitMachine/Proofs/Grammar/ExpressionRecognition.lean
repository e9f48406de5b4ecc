import BitMachine.Proofs.Grammar.DescentCompleteness
import BitMachine.Proofs.Grammar.Recognition
import BitMachine.Proofs.Grammar.Spacing

/-! The readers for numbers, places and expressions recognize their phrases where nothing may come
behind them that would belong to them. -/

set_option autoImplicit false

namespace BitMachine.Descent

open BitMachine.Derivation (Numeral Place Layer Expression bitWord bitWords)
open Cursor (Passes)
open Reader (Recognized Closes Flawed)
open Outlook (either phrase_either phrase_append phrase_cons phrase_nil phrase_singleton
  inhabited_phrase inhabited_keyword avoids_keyword excluded_keyword)

section Bits

variable {before : Cursor}

/-- A bit may come. -/
def bitOutlook (rest : Nat → Outlook) : Outlook :=
  .phrase (fun bit : Bool => [bitWord bit]) (fun _ => True) fun bit => rest bit.toNat

/-- Further bits of a number may come. -/
def moreBitsOutlook (rest : Nat → Outlook) (value : Nat) : Outlook :=
  .phrase (fun more : List Bool => more.map bitWord) (fun _ => True)
    fun more => rest (more.foldl (fun value bit => 2 * value + bit.toNat) value)

/-- A number may come. -/
def numeralOutlook (rest : Nat → Outlook) : Outlook :=
  .phrase Numeral.words (fun _ => True) fun numeral => rest numeral.value

theorem bitOutlook_eq (rest : Nat → Outlook) :
    bitOutlook rest = either (.keyword .zero (rest 0)) (.keyword .one (rest 1)) := by
  refine (phrase_either (fun _ : Unit => false) (fun _ : Unit => true) ?_).trans ?_
  · intro bit
    cases bit <;> simp
  · exact congrArg₂ either (phrase_singleton .zero _) (phrase_singleton .one _)

theorem moreBitsOutlook_eq (rest : Nat → Outlook) (value : Nat) :
    moreBitsOutlook rest value =
      either (rest value) (bitOutlook fun bit => moreBitsOutlook rest (2 * value + bit)) := by
  refine (phrase_either (fun _ : Unit => []) (fun bits : Bool × List Bool => bits.1 :: bits.2)
    ?_).trans (congrArg₂ either (phrase_nil _) ?_)
  · intro more
    cases more <;> simp
  · exact phrase_append _ _ _ _ Prod.mk (fun bits => ⟨bits.1, bits.2, rfl⟩) (fun _ _ => rfl)
      (by simp)

theorem numeralOutlook_eq (rest : Nat → Outlook) :
    numeralOutlook rest = bitOutlook (moreBitsOutlook rest) :=
  phrase_append _ _ _ _ Numeral.mk (fun numeral => ⟨numeral.first, numeral.more, rfl⟩)
    (fun _ _ => rfl) (by simp)

theorem bit_recognized {rest : Nat → Outlook} (inhabited : ∀ value, (rest value).Inhabited) :
    Recognized (bitOutlook rest) rest before (bit before) := by
  rw [bitOutlook_eq]
  refine .choose (fun seen => ?_) (fun _ => ?_) (avoids_keyword _ (by decide))
  · exact .keyword seen fun after _ => Reader.recognized_pure rest 0 (inhabited 0)
  · refine .expect _ (inhabited 1) fun seen => ?_
    exact .keyword seen fun after _ => Reader.recognized_pure rest 1 (inhabited 1)

theorem inhabited_moreBits {rest : Nat → Outlook} (inhabited : ∀ value, (rest value).Inhabited)
    (value : Nat) : (moreBitsOutlook rest value).Inhabited :=
  inhabited_phrase [] (inhabited _)

theorem excluded_bitOutlook {rest : Nat → Outlook}
    (noZero : before.sees Keyword.zero.spelling ≠ true)
    (noOne : before.sees Keyword.one.spelling ≠ true) : (bitOutlook rest).Excluded before := by
  rw [bitOutlook_eq]
  exact (excluded_keyword _ noZero).either (excluded_keyword _ noOne)

theorem moreBits_recognized {rest : Nat → Outlook} (inhabited : ∀ value, (rest value).Inhabited)
    (avoids : ∀ value, (rest value).Avoids bitWords) (fuel value : Nat)
    (enough : before.ahead.length ≤ fuel) :
    Recognized (moreBitsOutlook rest value) rest before (moreBits fuel value before) := by
  induction fuel generalizing value before with
  | zero =>
    have nothing : before.ahead = [] := List.eq_nil_of_length_eq_zero (Nat.le_zero.mp enough)
    rw [moreBitsOutlook_eq]
    refine (Reader.recognized_pure rest value (inhabited value)).left (excluded_bitOutlook ?_ ?_) <;>
      simp [Cursor.sees_eq_false_of_ahead nothing]
  | succ fuel ih =>
    rw [moreBitsOutlook_eq]
    unfold moreBits
    rw [Reader.bind_of_ok (seesBit_run before)]
    split
    · next seen =>
      refine Recognized.right ?_ ?_
      · refine (bit_recognized fun _ => inhabited_moreBits inhabited _).bind ?_
        intro next middle read
        have shorter := length_ahead_of_bit read
        exact ih (2 * value + next) (by omega)
      · rcases Bool.or_eq_true_iff.mp seen with zero | one
        · exact (avoids value).excluded (by decide) zero
        · exact (avoids value).excluded (by decide) one
    · next unseen =>
      rw [Bool.or_eq_true, not_or] at unseen
      exact (Reader.recognized_pure rest value (inhabited value)).left
        (excluded_bitOutlook unseen.1 unseen.2)

theorem excluded_numeralOutlook {rest : Nat → Outlook}
    (noZero : before.sees Keyword.zero.spelling ≠ true)
    (noOne : before.sees Keyword.one.spelling ≠ true) : (numeralOutlook rest).Excluded before := by
  rw [numeralOutlook_eq]
  exact excluded_bitOutlook noZero noOne

theorem avoids_numeralOutlook {avoided : List Keyword} (rest : Nat → Outlook)
    (absent : ∀ word ∈ avoided, word ∉ bitWords) : (numeralOutlook rest).Avoids avoided := by
  rintro word inside tail ⟨numeral, left, -, equal⟩
  exact absent word inside ((List.cons.inj equal).1 ▸ Derivation.bitWord_mem numeral.first)

theorem bits_recognized {rest : Nat → Outlook} (inhabited : ∀ value, (rest value).Inhabited)
    (avoids : ∀ value, (rest value).Avoids bitWords) :
    Recognized (numeralOutlook rest) rest before (bits before) := by
  rw [numeralOutlook_eq]
  unfold bits
  refine (bit_recognized (inhabited_moreBits inhabited)).bind fun value middle _ => ?_
  rw [Reader.bind_of_ok (Reader.get_run middle)]
  exact moreBits_recognized inhabited avoids _ value (Text.length_letters_le middle.rest)

/-- A cell or the jump register may come. -/
def placeOutlook (rest : Outlook) : Outlook :=
  .phrase Place.words (fun _ => True) fun _ => rest

theorem placeOutlook_eq (rest : Outlook) :
    placeOutlook rest =
      either (.keyword .variable (numeralOutlook fun _ => rest))
        (.keyword .theJumpRegister rest) := by
  refine (phrase_either Place.cell (fun _ : Unit => Place.register) ?_).trans
    (congrArg₂ either (phrase_cons .variable) (phrase_singleton .theJumpRegister rest))
  intro spot
  cases spot <;> simp

theorem excluded_placeOutlook {rest : Outlook}
    (noCell : before.sees Keyword.variable.spelling ≠ true)
    (noRegister : before.sees Keyword.theJumpRegister.spelling ≠ true) :
    (placeOutlook rest).Excluded before := by
  rw [placeOutlook_eq]
  exact (excluded_keyword _ noCell).either (excluded_keyword _ noRegister)

theorem place_recognized {rest : Outlook} (inhabited : rest.Inhabited)
    (avoids : rest.Avoids bitWords) :
    Recognized (placeOutlook rest) (fun _ => rest) before (place before) := by
  rw [placeOutlook_eq]
  refine .choose (fun seen => ?_) (fun _ => ?_) (avoids_keyword _ (by decide))
  · exact .keyword seen fun after _ =>
      (bits_recognized (fun _ => inhabited) fun _ => avoids).map _
  · refine .expect _ inhabited fun seen => ?_
    exact .keyword seen fun after _ =>
      Reader.recognized_pure (fun _ => rest) registerAddress inhabited

end Bits

section Expressions

variable {before : Cursor} {rest : Outlook}

/-- A phrase of a layer may come. It is fine if its parentheses are not nested as deeply as the limit
says. -/
def layerOutlook (layer : Layer) (limit : Nat) (rest : Outlook) : Outlook :=
  .phrase (fun phrase : Expression layer => phrase.words) (fun phrase => phrase.depth < limit)
    fun _ => rest

/-- The jump register is a phrase of every layer. -/
theorem inhabited_layerOutlook (layer : Layer) (limit : Nat) (inhabited : rest.Inhabited) :
    (layerOutlook layer limit rest).Inhabited := by
  have primary : Expression .primary := .place .register
  cases layer with
  | primary => exact inhabited_phrase primary inhabited
  | valueAt => exact inhabited_phrase (.plainAt primary) inhabited
  | valueBeyond => exact inhabited_phrase (.plainBeyond (.plainAt primary)) inhabited
  | operand => exact inhabited_phrase (.plainOperand (.plainBeyond (.plainAt primary))) inhabited
  | expression =>
    exact inhabited_phrase (.single (.plainOperand (.plainBeyond (.plainAt primary)))) inhabited

theorem layerOutlook_avoids {layer : Layer} {avoided : List Keyword} (limit : Nat) (rest : Outlook)
    (absent : ∀ word ∈ avoided, word ∉ layer.first) :
    (layerOutlook layer limit rest).Avoids avoided := by
  rintro word inside tail ⟨phrase, left, -, equal⟩
  exact phrase.words_ne_cons (absent word inside) left tail equal.symm

theorem primary_outlook_eq (depth : Nat) (rest : Outlook) :
    layerOutlook .primary (depth + 1) rest =
      either (placeOutlook rest) (either (numeralOutlook fun _ => rest)
        (.keyword .openParenthesis
          (layerOutlook .expression depth (.keyword .closeParenthesis rest)))) := by
  refine (phrase_either Expression.place
    (Sum.elim Expression.constant Expression.parenthesized) ?_).trans (congrArg₂ either ?_ ?_)
  · intro phrase
    cases phrase with
    | place spot => exact Or.inl ⟨spot, rfl⟩
    | constant magnitude => exact Or.inr ⟨.inl magnitude, rfl⟩
    | parenthesized inner => exact Or.inr ⟨.inr inner, rfl⟩
  · exact Outlook.phrase_congr fun _ => by simp [Expression.depth]
  · refine (phrase_either Sum.inl Sum.inr ?_).trans (congrArg₂ either ?_ ?_)
    · intro phrase
      cases phrase <;> simp
    · exact Outlook.phrase_congr fun _ => by simp [Expression.depth]
    · refine (phrase_cons .openParenthesis).trans (congrArg _ ?_)
      refine (phrase_append Expression.words (fun _ : Unit => [.closeParenthesis])
        (fun inner => inner.depth < depth) (fun _ _ => True) (fun inner _ => inner)
        (fun inner => ⟨inner, (), rfl⟩) (fun _ _ => rfl) fun inner _ => ?_).trans ?_
      · simp [Expression.depth]
      · simp only [phrase_singleton]
        rfl

/-- Nothing in parentheses is fine where no further parentheses may be opened. -/
theorem parenthesized_flawed {position : Nat} {after stop : Cursor} (inhabited : rest.Inhabited)
    (moved : before.advance Keyword.openParenthesis.letters = (true, after)) :
    Recognized (α := Node) (.keyword .openParenthesis (layerOutlook .expression 0 rest))
      (fun _ => rest) before (.error ⟨.nestedTooDeeply, position⟩ stop) := by
  obtain ⟨tail, inside⟩ := inhabited_layerOutlook .expression 0 inhabited
  have flawed : Flawed (.keyword .openParenthesis (layerOutlook .expression 0 rest)) before
      [.openParenthesis] := by
    refine ⟨List.cons_ne_nil _ _, ⟨after, Cursor.passes_singleton.mpr moved⟩,
      ⟨tail, tail, inside, rfl⟩, ?_⟩
    rintro tail ⟨_, ⟨phrase, impossible, -⟩, -⟩
    exact Nat.not_lt_zero _ impossible
  exact .flawed .nested flawed

/-- Expressions are recognized inside of the given number of parentheses. -/
def RecognizesWithin (limit : Nat) : Prop :=
  ∀ (rest : Outlook) (before : Cursor), rest.Inhabited → rest.Avoids (Layer.more .expression) →
    Recognized (layerOutlook .expression limit rest) (fun _ => rest) before
      (expressionWithin limit before)

theorem expression_closes {word : Keyword} {after : Cursor} {node : Node} (limit : Nat)
    (inhabited : rest.Inhabited)
    (apart : ∀ start ∈ Layer.more .expression, start.letters.head? ≠ word.letters.head?)
    (read : expressionWithin limit before = .ok node after) :
    ∃ words, Passes words before after ∧
      Closes (layerOutlook .expression limit (.keyword word rest)) word words := by
  obtain ⟨phrase, -, passed⟩ := expressionWithin_sound limit read
  refine ⟨phrase.words, passed, Reader.closes_phrase (Layer.more .expression) phrase ?_ inhabited
    apart fun other left right same leftEnds rightEnds =>
      (Expression.unique same leftEnds rightEnds).2⟩
  obtain ⟨word, -, rest, equal⟩ := phrase.exists_first
  rw [equal]
  exact List.cons_ne_nil word rest

/-- An expression in parentheses is recognized, unless there are too many of them already. -/
theorem parenthesized_recognized {depth : Nat} (inner : depth ≠ 0 → RecognizesWithin depth)
    (inhabited : rest.Inhabited) (seen : before.sees Keyword.openParenthesis.spelling = true) :
    Recognized (.keyword .openParenthesis
        (layerOutlook .expression depth (.keyword .closeParenthesis rest))) (fun _ => rest) before
      ((Reader.keyword .openParenthesis >>= fun _ => expressionWithin depth >>= fun node =>
        Reader.keyword .closeParenthesis >>= fun _ => pure node) before) := by
  have closing : (Outlook.keyword .closeParenthesis rest).Inhabited :=
    inhabited_keyword.mpr inhabited
  cases depth with
  | zero =>
    obtain ⟨after, moved⟩ := Cursor.exists_advance_of_sees seen
    rw [Reader.bind_of_ok (Reader.keyword_eq_ok.mpr moved)]
    exact (parenthesized_flawed closing moved).refused
  | succ depth =>
    refine .keyword seen fun after _ => ?_
    refine (inner (Nat.succ_ne_zero depth) _ after closing
      (avoids_keyword rest (by decide))).await ?_ ?_
    · exact fun node middle => expression_closes (depth + 1) inhabited (by decide)
    · exact fun node middle after _ _ =>
        Reader.recognized_pure (fun _ => rest) node inhabited

theorem primary_recognized {depth : Nat} (inner : depth ≠ 0 → RecognizesWithin depth)
    (inhabited : rest.Inhabited) (avoids : rest.Avoids bitWords) :
    Recognized (layerOutlook .primary (depth + 1) rest) (fun _ => rest) before
      (primaryOver (expressionWithin depth) before) := by
  rw [primary_outlook_eq]
  unfold primaryOver
  rw [Reader.bind_of_ok (seesVariable_run before)]
  split
  · next seen =>
    have spot : Recognized (placeOutlook rest) (fun _ => rest) before (place before) :=
      place_recognized inhabited avoids
    refine (spot.map fun address : Int => Node.variable address).left ?_
    have away : (either (numeralOutlook fun _ => rest) (.keyword .openParenthesis
        (layerOutlook .expression depth (.keyword .closeParenthesis rest)))).Avoids
        [.variable, .theJumpRegister] :=
      (avoids_numeralOutlook _ (by decide)).either (avoids_keyword _ (by decide))
    exact away.excluded_either (by decide) (by decide) seen
  · next noPlace =>
    rw [Bool.or_eq_true, not_or] at noPlace
    refine Recognized.right ?_ (excluded_placeOutlook noPlace.1 noPlace.2)
    rw [Reader.bind_of_ok (seesBit_run before)]
    split
    · next seen =>
      have number :
          Recognized (numeralOutlook fun _ => rest) (fun _ => rest) before (bits before) :=
        bits_recognized (fun _ => inhabited) fun _ => avoids
      refine (number.map fun value : Nat => Node.constant value).left ?_
      have away : (Outlook.keyword .openParenthesis
          (layerOutlook .expression depth (.keyword .closeParenthesis rest))).Avoids bitWords :=
        avoids_keyword _ (by decide)
      exact away.excluded_either (by decide) (by decide) seen
    · next noBit =>
      rw [Bool.or_eq_true, not_or] at noBit
      refine Recognized.right ?_ (excluded_numeralOutlook noBit.1 noBit.2)
      refine .expect _ (inhabited_layerOutlook .expression depth (inhabited_keyword.mpr inhabited))
        fun seen => ?_
      exact parenthesized_recognized inner inhabited seen

/-- A layer with an operator: the operator and a phrase of the layer below, or that phrase alone. -/
theorem operator_recognized {word : Keyword} {layer below : Layer} {limit : Nat}
    {reader : Reader Node} {wrap : Node → Node} (apply plain : Expression below → Expression layer)
    (cover : ∀ phrase, (∃ inner, phrase = apply inner) ∨ ∃ inner, phrase = plain inner)
    (applied : ∀ phrase, (apply phrase).words = word :: phrase.words ∧
      (apply phrase).depth = phrase.depth)
    (kept : ∀ phrase, (plain phrase).words = phrase.words ∧ (plain phrase).depth = phrase.depth)
    (absent : word ∉ below.first)
    (recognized : ∀ before, Recognized (layerOutlook below limit rest) (fun _ => rest) before
      (reader before)) :
    Recognized (layerOutlook layer limit rest) (fun _ => rest) before
      ((Reader.seesKeyword word >>= fun seen =>
        if seen = true then
          Reader.keyword word >>= fun _ => reader >>= fun node => pure (wrap node)
        else reader) before) := by
  have split : layerOutlook layer limit rest =
      either (.keyword word (layerOutlook below limit rest)) (layerOutlook below limit rest) := by
    refine (phrase_either apply plain cover).trans ?_
    simp only [applied, kept]
    exact congrArg₂ either (phrase_cons word) rfl
  rw [split]
  refine .choose (fun seen => ?_) (fun _ => recognized before)
    (layerOutlook_avoids limit rest (by simpa using absent))
  exact .keyword seen fun after _ => (recognized after).map wrap

variable {depth : Nat}

theorem valueAt_recognized (inner : depth ≠ 0 → RecognizesWithin depth)
    (inhabited : rest.Inhabited) (avoids : rest.Avoids bitWords) (before : Cursor) :
    Recognized (layerOutlook .valueAt (depth + 1) rest) (fun _ => rest) before
      (valueAtOver (expressionWithin depth) before) := by
  refine operator_recognized .valueAt .plainAt ?_ (fun _ => ⟨rfl, rfl⟩) (fun _ => ⟨rfl, rfl⟩)
    (by decide) fun before => primary_recognized inner inhabited avoids
  intro phrase
  cases phrase <;> simp

theorem valueBeyond_recognized (inner : depth ≠ 0 → RecognizesWithin depth)
    (inhabited : rest.Inhabited) (avoids : rest.Avoids bitWords) (before : Cursor) :
    Recognized (layerOutlook .valueBeyond (depth + 1) rest) (fun _ => rest) before
      (valueBeyondOver (expressionWithin depth) before) := by
  refine operator_recognized .valueBeyond .plainBeyond ?_ (fun _ => ⟨rfl, rfl⟩)
    (fun _ => ⟨rfl, rfl⟩) (by decide) (valueAt_recognized inner inhabited avoids)
  intro phrase
  cases phrase <;> simp

theorem addressOf_recognized (inner : depth ≠ 0 → RecognizesWithin depth)
    (inhabited : rest.Inhabited) (avoids : rest.Avoids bitWords) (before : Cursor) :
    Recognized (layerOutlook .operand (depth + 1) rest) (fun _ => rest) before
      (addressOfOver (expressionWithin depth) before) := by
  refine operator_recognized .addressOf .plainOperand ?_ (fun _ => ⟨rfl, rfl⟩)
    (fun _ => ⟨rfl, rfl⟩) (by decide) (valueBeyond_recognized inner inhabited avoids)
  intro phrase
  cases phrase <;> simp

/-- An operand alone, or with another one behind it. -/
def joined (left : Expression .operand) : Option (Expression .operand) → Expression .expression
  | none => .single left
  | some right => .nand left right

theorem expression_outlook_eq (limit : Nat) (rest : Outlook) :
    layerOutlook .expression limit rest =
      layerOutlook .operand limit
        (either (.keyword .nand (layerOutlook .operand limit rest)) rest) := by
  refine (phrase_append Expression.words
    (fun right => right.elim [] fun right => .nand :: right.words) (fun left => left.depth < limit)
    (fun _ right => right.elim True fun right => right.depth < limit) joined
    ?_ ?_ ?_).trans (congrArg _ (funext fun _ => ?_))
  · intro phrase
    cases phrase with
    | single operand => exact ⟨operand, none, rfl⟩
    | nand left right => exact ⟨left, some right, rfl⟩
  · intro left right
    cases right with
    | none => exact (List.append_nil left.words).symm
    | some right => rfl
  · intro left right
    cases right with
    | none => exact (iff_of_eq (and_true _)).symm
    | some right => exact Nat.max_lt
  · refine (phrase_either some (fun _ : Unit => none) ?_).trans
      (congrArg₂ either (phrase_cons .nand) (phrase_nil rest))
    intro right
    cases right <;> simp

theorem expressionWithin_recognized (limit : Nat) (positive : limit ≠ 0) :
    RecognizesWithin limit := by
  induction limit with
  | zero => exact absurd rfl positive
  | succ depth ih =>
    intro rest before inhabited avoids
    rw [expression_outlook_eq]
    refine (addressOf_recognized ih (Outlook.Inhabited.right inhabited)
      ((avoids_keyword _ (by decide)).either (avoids.mono (by decide))) before).bind
      fun left middle _ => ?_
    refine .choose (fun seen => ?_) (fun _ => ?_) (avoids.mono (by decide))
    · refine .keyword seen fun after _ => ?_
      exact (addressOf_recognized ih inhabited (avoids.mono (by decide)) after).map _
    · exact Reader.recognized_pure (fun _ => rest) left inhabited

end Expressions

end BitMachine.Descent
