import BitMachine.Proofs.Grammar.DescentCompleteness

/-! Reading by descent accepts exactly the texts that have a lawful derivation, and gives the
program that the derivation means. -/

set_option autoImplicit false

namespace BitMachine

namespace Derivation.Program

/-- The letters of a text are those of the words of a derivation. -/
def Derives (derived : Program) (source : String) : Prop :=
  Text.letters source.toList = Keyword.spell derived.words

/-- What a derivation means in a text: each line starts where its first keyword does. -/
def reading (derived : Program) (source : String) : BitMachine.Program :=
  derived.meaning (Cursor.starts derived.words (.ofString source))

/-- Where the line behind some others starts in a text. -/
def startBehind (derived : Program) (source : String) (front : List Line) : Nat :=
  ((Cursor.starts derived.words (.ofString source)).drop (front.flatMap (·.words)).length).headD 0

/-- A text has one derivation. -/
theorem Derives.unique {first second : Program} {source : String} (one : first.Derives source)
    (other : second.Derives source) : first = second :=
  words_injective (Keyword.spell_injective (one.symm.trans other))

end Derivation.Program

namespace Descent

theorem parse_sound {source : String} {whole : Program} (read : parse source = .ok whole) :
    ∃ derived : Derivation.Program, derived.Derives source ∧ derived.Lawful ∧
      whole = derived.reading source := by
  unfold parse at read
  cases done : program (.ofString source) with
  | ok result after =>
    rw [done] at read
    cases read
    obtain ⟨derived, lawful, spelled, means⟩ := program_sound done
    exact ⟨derived, spelled, lawful, means⟩
  | error rejection stuck =>
    rw [done] at read
    cases read

theorem parse_complete {source : String} {derived : Derivation.Program}
    (spelled : derived.Derives source) (lawful : derived.Lawful) :
    parse source = .ok (derived.reading source) ∨
      ¬derived.Shallow nestingLimit ∧
        ∃ position, parse source = .error ⟨.nestedTooDeeply, position⟩ := by
  obtain ⟨after, done | ⟨deep, position, stuck, failed⟩⟩ :=
    program_complete (.ofString source) spelled lawful
  · exact Or.inl (by rw [parse, done]; rfl)
  · exact Or.inr ⟨deep, position, by rw [parse, failed]⟩

/-- A text that only repeats a line number is refused at the first line to do so. -/
theorem parse_repeats {source : String} {derived : Derivation.Program}
    {front back : List Derivation.Line} {line : Derivation.Line} (spelled : derived.Derives source)
    (decided : ∀ line ∈ derived.lines, line.clashes = false)
    (split : derived.lines = front ++ line :: back)
    (distinct : (front.map (·.number.value)).Nodup)
    (taken : line.number.value ∈ front.map (·.number.value)) :
    parse source =
        .error ⟨.duplicateLine line.number.value, derived.startBehind source front⟩ ∨
      ∃ position, parse source = .error ⟨.nestedTooDeeply, position⟩ := by
  obtain ⟨after, done | ⟨-, position, stuck, failed⟩⟩ :=
    program_repeats (.ofString source) spelled decided split distinct taken
  · exact Or.inl (by rw [parse, done]; rfl)
  · exact Or.inr ⟨position, by rw [parse, failed]⟩

/-- A text is accepted exactly if it has a lawful derivation. The derivation is the only one, and
what is read is what it means. Nothing else happens to such a text, unless one of its expressions
has more levels of parentheses than can be read. -/
theorem parse_accepts_exactly_derivable (source : String) :
    ((∀ position, parse source ≠ .error ⟨.nestedTooDeeply, position⟩) →
      ((∃ whole, parse source = .ok whole) ↔
        ∃ derived : Derivation.Program, derived.Derives source ∧ derived.Lawful)) ∧
    (∀ first second : Derivation.Program,
      first.Derives source → second.Derives source → first = second) ∧
    (∀ derived : Derivation.Program, derived.Derives source → derived.Lawful →
      parse source = .ok (derived.reading source) ∨
        ¬derived.Shallow nestingLimit ∧
          ∃ position, parse source = .error ⟨.nestedTooDeeply, position⟩) := by
  refine ⟨fun shallow => ⟨?_, ?_⟩, fun _ _ one other => one.unique other,
    fun derived spelled lawful => parse_complete spelled lawful⟩
  · rintro ⟨whole, read⟩
    obtain ⟨derived, spelled, lawful, -⟩ := parse_sound read
    exact ⟨derived, spelled, lawful⟩
  · rintro ⟨derived, spelled, lawful⟩
    rcases parse_complete spelled lawful with done | ⟨-, position, failed⟩
    · exact ⟨derived.reading source, done⟩
    · exact (shallow position failed).elim

end Descent

end BitMachine
