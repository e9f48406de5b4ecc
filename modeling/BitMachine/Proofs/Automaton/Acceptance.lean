import BitMachine.Proofs.Grammar.Acceptance
import BitMachine.Proofs.Automaton.Scanning

/-! Reading from the bottom up accepts exactly the texts that have a lawful derivation and only
separators outside of their keywords, and gives the program that the derivation means. -/

set_option autoImplicit false

namespace BitMachine

/-- In the keyword segmentation of a text, only separators stand outside of the keywords. -/
def Separated (source : String) : Prop :=
  ∃ tokens outside, Segmentation 0 source.toList tokens outside ∧
    ∀ c ∈ outside, Text.isSeparator c = true

namespace Automaton

section Duplicates

/-- No line is a duplicate if the numbers are distinct and none has been seen. -/
theorem duplicate?_eq_none_iff {lines : List Line} {numbers : List Nat} (seen : List Nat)
    (labelled : lines.map (·.number) = numbers.map fun n : Nat => Json.int n) :
    duplicate? (seen.map fun n : Nat => Json.int n) lines = none ↔
      numbers.Nodup ∧ ∀ number ∈ numbers, number ∉ seen := by
  induction lines generalizing numbers seen with
  | nil =>
    cases List.map_eq_nil_iff.mp labelled.symm
    exact ⟨fun _ => ⟨List.nodup_nil, nofun⟩, fun _ => rfl⟩
  | cons line lines ih =>
    cases numbers with
    | nil => cases labelled
    | cons number numbers =>
      simp only [List.map_cons, List.cons.injEq] at labelled
      rw [duplicate?, labelled.1, Derivation.any_same_int]
      by_cases taken : number ∈ seen
      · rw [if_pos (decide_eq_true taken)]
        refine ⟨nofun, fun fresh => ?_⟩
        exact absurd taken (fresh.2 number (List.mem_cons_self ..))
      · rw [if_neg (by rw [decide_eq_true_eq]; exact taken)]
        refine (ih (number :: seen) labelled.2).trans ?_
        rw [List.nodup_cons]
        constructor
        · rintro ⟨distinct, fresh⟩
          refine ⟨⟨fun inside => fresh number inside (List.mem_cons_self ..), distinct⟩, ?_⟩
          intro other inside
          rcases List.mem_cons.mp inside with rfl | inside
          · exact taken
          · exact fun before => fresh other inside (List.mem_cons_of_mem _ before)
        · rintro ⟨⟨once, distinct⟩, fresh⟩
          refine ⟨distinct, fun other inside before => ?_⟩
          rcases List.mem_cons.mp before with rfl | before
          · exact once inside
          · exact fresh other (List.mem_cons_of_mem _ inside) before

/-- The first line whose number stands among those before it is the duplicate. -/
theorem duplicate?_append {front back : List Line} {line : Line} {numbers : List Nat}
    {number : Nat} (seen : List Nat)
    (labelled : front.map (·.number) = numbers.map fun n : Nat => Json.int n)
    (named : line.number = .int number) (distinct : numbers.Nodup)
    (fresh : ∀ other ∈ numbers, other ∉ seen) (taken : number ∈ numbers ∨ number ∈ seen) :
    duplicate? (seen.map fun n : Nat => Json.int n) (front ++ line :: back) = some line := by
  induction front generalizing numbers seen with
  | nil =>
    cases List.map_eq_nil_iff.mp labelled.symm
    rw [List.nil_append, duplicate?, named, Derivation.any_same_int, if_pos]
    rw [decide_eq_true_eq]
    exact taken.resolve_left nofun
  | cons first front ih =>
    cases numbers with
    | nil => cases labelled
    | cons other numbers =>
      simp only [List.map_cons, List.cons.injEq] at labelled
      rw [List.nodup_cons] at distinct
      have unseen := fresh other (List.mem_cons_self ..)
      rw [List.cons_append, duplicate?, labelled.1, Derivation.any_same_int,
        if_neg (by rw [decide_eq_true_eq]; exact unseen)]
      refine ih (other :: seen) labelled.2 distinct.2 (fun later inside before => ?_) ?_
      · rcases List.mem_cons.mp before with rfl | before
        · exact distinct.1 inside
        · exact fresh later (List.mem_cons_of_mem _ inside) before
      · rcases taken with inside | before
        · rcases List.mem_cons.mp inside with rfl | inside
          · exact Or.inr (List.mem_cons_self ..)
          · exact Or.inl inside
        · exact Or.inr (List.mem_cons_of_mem _ before)

end Duplicates

section Assembly

variable {starts : List Nat} {derived : Derivation.Program} {drafts : List Draft}

/-- Where no branch asks for one bit twice, lines are only objected to for their height. -/
theorem findSome?_objection? (decided : ∀ draft ∈ drafts, draft.clash = none) :
    drafts.findSome? Draft.objection? = none ∨
      drafts.findSome? Draft.objection? = some ⟨.nestedTooDeeply, 0⟩ := by
  cases found : drafts.findSome? Draft.objection? with
  | none => exact Or.inl rfl
  | some rejection =>
    obtain ⟨draft, inside, objected⟩ := List.exists_of_findSome?_eq_some found
    rw [Draft.objection?, decided draft inside] at objected
    split at objected
    · exact Or.inr objected.symm
    · cases objected

theorem DraftsAt.decided (drawn : DraftsAt starts derived.lines drafts)
    (decided : ∀ line ∈ derived.lines, line.clashes = false) :
    ∀ draft ∈ drafts, draft.clash = none := by
  intro draft inside
  have listed : draft.clash.isSome ∈ derived.lines.map (·.clashes) := by
    rw [← drawn.clashes]
    exact List.mem_map.mpr ⟨draft, inside, rfl⟩
  obtain ⟨line, member, same⟩ := List.mem_map.mp listed
  rw [decided line member] at same
  exact Option.isNone_iff_eq_none.mp (Option.isSome_eq_false_iff.mp same.symm)

theorem DraftsAt.labelled (drawn : DraftsAt starts derived.lines drafts) :
    (drafts.map (·.line)).map (·.number) = derived.numbers.map fun n : Nat => Json.int n := by
  rw [drawn.mean]
  exact Derivation.map_number_linesAt starts derived.lines

theorem DraftsAt.program (drawn : DraftsAt starts derived.lines drafts) :
    ∃ first rest, drafts = first :: rest ∧
      (⟨first.line.number, drafts.map (·.line)⟩ : Program) = derived.meaning starts := by
  cases drafts with
  | nil => cases drawn.mean
  | cons first rest =>
    refine ⟨first, rest, rfl, ?_⟩
    have named : first.line.number = .int derived.first.number.value :=
      (List.cons.inj drawn.labelled).1
    rw [drawn.mean, named]
    rfl

theorem assemble_complete (drawn : DraftsAt starts derived.lines drafts)
    (lawful : derived.Lawful) :
    assemble drafts = .ok (derived.meaning starts) ∨
      assemble drafts = .error ⟨.nestedTooDeeply, 0⟩ := by
  have fresh := (duplicate?_eq_none_iff [] drawn.labelled).mpr ⟨lawful.distinct, fun _ _ => nofun⟩
  obtain ⟨first, rest, rfl, means⟩ := drawn.program
  unfold assemble
  rcases findSome?_objection? (drawn.decided lawful.decided) with calm | nested
  · rw [calm, show duplicate? [] _ = none from fresh]
    exact Or.inl (congrArg Except.ok means)
  · rw [nested]
    exact Or.inr rfl

theorem assemble_sound {program : Program} (drawn : DraftsAt starts derived.lines drafts)
    (assembled : assemble drafts = .ok program) :
    derived.Lawful ∧ program = derived.meaning starts := by
  obtain ⟨first, rest, rfl, means⟩ := drawn.program
  unfold assemble at assembled
  split at assembled
  · cases assembled
  · cases assembled
  · cases assembled
  · next calm fresh equal =>
    cases equal
    cases assembled
    refine ⟨⟨((duplicate?_eq_none_iff [] drawn.labelled).mp fresh).1, ?_⟩, means⟩
    intro line member
    have listed : line.clashes ∈ (first :: rest).map (·.clash.isSome) := by
      rw [drawn.clashes]
      exact List.mem_map.mpr ⟨line, member, rfl⟩
    obtain ⟨draft, inside, same⟩ := List.mem_map.mp listed
    have quiet := List.findSome?_eq_none_iff.mp calm draft inside
    unfold Draft.objection? at quiet
    split at quiet
    · cases quiet
    · rw [← same, Option.map_eq_none_iff.mp quiet]
      rfl

theorem assemble_repeats {front back : List Derivation.Line} {line : Derivation.Line}
    (drawn : DraftsAt starts derived.lines drafts)
    (decided : ∀ line ∈ derived.lines, line.clashes = false)
    (split : derived.lines = front ++ line :: back)
    (distinct : (front.map (·.number.value)).Nodup)
    (taken : line.number.value ∈ front.map (·.number.value)) :
    assemble drafts = .error ⟨.duplicateLine line.number.value,
        (starts.drop (front.flatMap (·.words)).length).headD 0⟩ ∨
      assemble drafts = .error ⟨.nestedTooDeeply, 0⟩ := by
  have found : duplicate? [] (drafts.map (·.line)) =
      some (line.meaning ((starts.drop (front.flatMap (·.words)).length).headD 0)) := by
    rw [drawn.mean, split, Derivation.linesAt_append]
    exact duplicate?_append [] (Derivation.map_number_linesAt starts front) rfl distinct
      (fun _ _ => nofun) (Or.inl taken)
  unfold assemble
  rcases findSome?_objection? (drawn.decided decided) with calm | nested
  · rw [calm, found]
    exact Or.inl rfl
  · rw [nested]
    exact Or.inr rfl

end Assembly

section Parse

/-- The drafts of a text are those of its derivation. -/
theorem readAll_derived {source : String} {derived : Derivation.Program}
    (spelled : derived.Derives source) (separated : Separated source) :
    ∃ drafts, DraftsAt (Cursor.starts derived.words (.ofString source)) derived.lines drafts ∧
      readAll (source.length + 1) [] 0 (.ofString source) = .ok drafts := by
  obtain ⟨tokens, outside, cut, gaps⟩ := separated
  have words : wordsOf tokens = derived.words :=
    Keyword.spell_injective (cut.letters.symm.trans spelled)
  obtain ⟨drafts, drawn, fed⟩ := feed_complete derived words
  refine ⟨drafts, ?_, readAll_complete _ 0 (Nat.lt_succ_self _) ⟨outside, cut, gaps⟩ fed⟩
  rw [← words]
  exact cut.starts ▸ drawn

theorem parse_sound {source : String} {program : Program} (read : parse source = .ok program) :
    ∃ derived : Derivation.Program, derived.Derives source ∧ derived.Lawful ∧
      program = derived.reading source ∧ Separated source := by
  unfold parse at read
  cases done : readAll (source.length + 1) [] 0 (.ofString source) with
  | error rejection =>
    rw [done] at read
    cases read
  | ok drafts =>
    rw [done] at read
    obtain ⟨tokens, ⟨outside, cut, gaps⟩, fed⟩ := readAll_sound done
    obtain ⟨derived, words⟩ := feed_sound .empty fed
    have spelled : derived.Derives source := by
      rw [Derivation.Program.Derives, words]
      exact cut.letters
    have separated : Separated source := ⟨tokens, outside, cut, gaps⟩
    obtain ⟨others, drawn, again⟩ := readAll_derived spelled separated
    rw [done] at again
    cases again
    obtain ⟨lawful, means⟩ := assemble_sound drawn read
    exact ⟨derived, spelled, lawful, means, separated⟩

theorem parse_complete {source : String} {derived : Derivation.Program}
    (spelled : derived.Derives source) (separated : Separated source) (lawful : derived.Lawful) :
    parse source = .ok (derived.reading source) ∨ parse source = .error ⟨.nestedTooDeeply, 0⟩ := by
  obtain ⟨drafts, drawn, read⟩ := readAll_derived spelled separated
  rw [parse, read]
  exact assemble_complete drawn lawful

theorem parse_repeats {source : String} {derived : Derivation.Program}
    {front back : List Derivation.Line} {line : Derivation.Line} (spelled : derived.Derives source)
    (separated : Separated source) (decided : ∀ line ∈ derived.lines, line.clashes = false)
    (split : derived.lines = front ++ line :: back)
    (distinct : (front.map (·.number.value)).Nodup)
    (taken : line.number.value ∈ front.map (·.number.value)) :
    parse source =
        .error ⟨.duplicateLine line.number.value, derived.startBehind source front⟩ ∨
      parse source = .error ⟨.nestedTooDeeply, 0⟩ := by
  obtain ⟨drafts, drawn, read⟩ := readAll_derived spelled separated
  rw [parse, read]
  exact assemble_repeats drawn decided split distinct taken

end Parse

end Automaton

end BitMachine
