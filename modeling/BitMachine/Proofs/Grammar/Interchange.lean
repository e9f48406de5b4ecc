import BitMachine.Grammar.FrontEnd
import BitMachine.Proofs.Automaton.Acceptance
import BitMachine.Proofs.Grammar.Messages

/-! The two front ends are interchangeable, except that one of them only allows separators between
keywords where the other one allows any blanks. -/

set_option autoImplicit false

namespace BitMachine

namespace Derivation

/-- Among lines whose numbers are not distinct, there is a first one to repeat a number. -/
theorem exists_first_repeat (front back : List Line) (distinct : (front.map (·.number.value)).Nodup)
    (repeats : ¬((front ++ back).map (·.number.value)).Nodup) :
    ∃ before line after, front ++ back = before ++ line :: after ∧
      (before.map (·.number.value)).Nodup ∧
      line.number.value ∈ before.map (·.number.value) := by
  induction back generalizing front with
  | nil =>
    rw [List.append_nil] at repeats
    exact absurd distinct repeats
  | cons line back ih =>
    by_cases taken : line.number.value ∈ front.map (·.number.value)
    · exact ⟨front, line, back, rfl, distinct, taken⟩
    · have longer : ((front ++ [line]).map (·.number.value)).Nodup := by
        rw [List.map_append, List.nodup_append]
        refine ⟨distinct, by simp only [List.map_cons, List.map_nil, List.nodup_cons,
          List.not_mem_nil, not_false_eq_true, List.nodup_nil, and_self], ?_⟩
        intro number inside other last same
        cases List.mem_singleton.mp last
        subst same
        exact taken inside
      rw [List.append_cons] at repeats ⊢
      exact ih (front ++ [line]) longer repeats

end Derivation

namespace FrontEnd

theorem parse_eq_ok {frontEnd : FrontEnd} {source : String} {program : Program} :
    frontEnd.parse source = .ok program ↔ frontEnd.read source = .ok program := by
  unfold parse
  cases frontEnd.read source with
  | error rejection => exact ⟨nofun, nofun⟩
  | ok result =>
    show (Except.ok result : Except Diagnostic Program) = .ok program ↔ _
    rw [Except.ok.injEq, Except.ok.injEq]

theorem parse_of_error {frontEnd : FrontEnd} {source : String} {rejection : Rejection}
    (refused : frontEnd.read source = .error rejection) :
    frontEnd.parse source = .error (rejection.diagnostic source) := by
  rw [parse, refused]
  rfl

/-- The front end does not give up for the depth of an expression. -/
def Manages (frontEnd : FrontEnd) (source : String) : Prop :=
  ∀ diagnostic, frontEnd.parse source = .error diagnostic →
    diagnostic.message ≠ Cause.nestedTooDeeply.message?

theorem Manages.read_ne {frontEnd : FrontEnd} {source : String}
    (manages : frontEnd.Manages source) (position : Nat) :
    frontEnd.read source ≠ .error ⟨.nestedTooDeeply, position⟩ :=
  fun refused => manages _ (parse_of_error refused) rfl

theorem Manages.of_isOk {frontEnd : FrontEnd} {source : String}
    (accepts : (frontEnd.parse source).isOk = true) : frontEnd.Manages source := by
  intro diagnostic refused
  rw [refused] at accepts
  cases accepts

/-- What either front end accepts is the reading of a lawful derivation. -/
theorem read_sound {frontEnd : FrontEnd} {source : String} {program : Program}
    (read : frontEnd.read source = .ok program) :
    ∃ derived : Derivation.Program, derived.Derives source ∧ derived.Lawful ∧
      program = derived.reading source := by
  cases frontEnd with
  | descent => exact Descent.parse_sound read
  | automaton =>
    obtain ⟨derived, spelled, lawful, means, -⟩ := Automaton.parse_sound read
    exact ⟨derived, spelled, lawful, means⟩

theorem read_complete {frontEnd : FrontEnd} {source : String} {derived : Derivation.Program}
    (manages : frontEnd.Manages source) (spelled : derived.Derives source)
    (separated : Separated source) (lawful : derived.Lawful) :
    frontEnd.read source = .ok (derived.reading source) := by
  cases frontEnd with
  | descent =>
    rcases Descent.parse_complete spelled lawful with done | ⟨-, position, failed⟩
    · exact done
    · exact absurd failed (manages.read_ne position)
  | automaton =>
    exact (Automaton.parse_complete spelled separated lawful).resolve_right (manages.read_ne 0)

theorem read_repeats {frontEnd : FrontEnd} {source : String} {derived : Derivation.Program}
    {front back : List Derivation.Line} {line : Derivation.Line}
    (manages : frontEnd.Manages source) (spelled : derived.Derives source)
    (separated : Separated source) (decided : ∀ line ∈ derived.lines, line.clashes = false)
    (split : derived.lines = front ++ line :: back)
    (distinct : (front.map (·.number.value)).Nodup)
    (taken : line.number.value ∈ front.map (·.number.value)) :
    frontEnd.read source =
      .error ⟨.duplicateLine line.number.value, derived.startBehind source front⟩ := by
  cases frontEnd with
  | descent =>
    rcases Descent.parse_repeats spelled decided split distinct taken with done | ⟨position, failed⟩
    · exact done
    · exact absurd failed (manages.read_ne position)
  | automaton =>
    exact (Automaton.parse_repeats spelled separated decided split distinct taken).resolve_right
      (manages.read_ne 0)

/-- The front ends are interchangeable on every text that neither finds too deep. The one from the
bottom up accepts what the other one accepts and has only separators outside of its keywords; the
keyword segmentation that decides this is the only one. What both accept they read as the same
program. A text at which only a repeated line number is wrong, both refuse with the same diagnostic,
at the first line to repeat a number. What is repeated is told unless it is too long to be written. -/
theorem interchangeable (source : String)
    (manageable : ∀ frontEnd : FrontEnd, frontEnd.Manages source) :
    ((∃ program, FrontEnd.automaton.parse source = .ok program) ↔
      (∃ program, FrontEnd.descent.parse source = .ok program) ∧ Separated source) ∧
    (∀ tokens others outside outside', Segmentation 0 source.toList tokens outside →
      Segmentation 0 source.toList others outside' → tokens = others ∧ outside = outside') ∧
    (∀ one other, FrontEnd.automaton.parse source = .ok one →
      FrontEnd.descent.parse source = .ok other → one = other) ∧
    (∀ derived : Derivation.Program, derived.Derives source → Separated source →
      (∀ line ∈ derived.lines, line.clashes = false) → ¬derived.numbers.Nodup →
      ∃ front line back, derived.lines = front ++ line :: back ∧
        (front.map (·.number.value)).Nodup ∧ line.number.value ∈ front.map (·.number.value) ∧
        (∀ frontEnd : FrontEnd, frontEnd.parse source =
          .error ⟨(Cause.duplicateLine line.number.value).message?,
            derived.startBehind source front, some source⟩) ∧
        ((Cause.duplicateLine line.number.value).message? = none ↔
          10 ^ Text.numeralLimit ≤ line.number.value)) := by
  refine ⟨⟨?_, ?_⟩, fun _ _ _ _ one other => one.unique other, ?_, ?_⟩
  · rintro ⟨program, accepted⟩
    obtain ⟨derived, spelled, lawful, -, separated⟩ :=
      Automaton.parse_sound (parse_eq_ok.mp accepted)
    have read := read_complete (manageable .descent) spelled separated lawful
    exact ⟨⟨derived.reading source, parse_eq_ok.mpr read⟩, separated⟩
  · rintro ⟨⟨program, accepted⟩, separated⟩
    obtain ⟨derived, spelled, lawful, -⟩ := read_sound (parse_eq_ok.mp accepted)
    have read := read_complete (manageable .automaton) spelled separated lawful
    exact ⟨derived.reading source, parse_eq_ok.mpr read⟩
  · intro one other accepted again
    obtain ⟨derived, spelled, -, rfl⟩ := read_sound (parse_eq_ok.mp accepted)
    obtain ⟨second, spelled', -, rfl⟩ := read_sound (parse_eq_ok.mp again)
    rw [spelled.unique spelled']
  · intro derived spelled separated decided repeats
    obtain ⟨front, line, back, split, distinct, taken⟩ :=
      Derivation.exists_first_repeat [] derived.lines List.nodup_nil repeats
    refine ⟨front, line, back, split, distinct, taken, fun frontEnd => ?_,
      Cause.message?_duplicateLine⟩
    exact parse_of_error
      (read_repeats (manageable frontEnd) spelled separated decided split distinct taken)

theorem manages_read_line (frontEnd : FrontEnd) :
    frontEnd.Manages "LINE NUMBER ZERO CODE READ" :=
  .of_isOk (by cases frontEnd <;> decide +kernel)

/-- A text that the front end from the bottom up accepts, so the other one accepts it too. -/
theorem interchangeable_read_line :
    (∃ program, FrontEnd.descent.parse "LINE NUMBER ZERO CODE READ" = .ok program) ∧
      Separated "LINE NUMBER ZERO CODE READ" := by
  refine (interchangeable "LINE NUMBER ZERO CODE READ" manages_read_line).1.mp ?_
  have accepts : (FrontEnd.automaton.parse "LINE NUMBER ZERO CODE READ").isOk = true := by
    decide +kernel
  cases read : FrontEnd.automaton.parse "LINE NUMBER ZERO CODE READ" with
  | ok program => exact ⟨program, rfl⟩
  | error diagnostic =>
    rw [read] at accepts
    cases accepts

end FrontEnd

end BitMachine
