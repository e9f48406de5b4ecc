import BitMachine.Proofs.Grammar.Viability

/-! A text that ends too early: it consists of whole keywords with which a program begins, but it is
no program. Reading by descent refuses it at its end. The automaton refuses it where its last keyword
starts. -/

set_option autoImplicit false

namespace BitMachine

namespace Automaton

/-- The automaton takes in all keywords of a text that could go on, and then misses the others. -/
theorem readAll_missing {stack : Stack} {cursor : Cursor} {tokens more : List Token}
    {drafts : List Draft} (fuel last : Nat) (enough : cursor.rest.length < fuel)
    (cut : Separates cursor.position cursor.rest tokens)
    (completed : feed stack (tokens ++ more) = some drafts) (unfinished : feed stack tokens = none) :
    ∃ rejection, readAll fuel stack last cursor = .error rejection ∧
      rejection.position = (startsOf tokens).getLastD last := by
  induction tokens generalizing fuel stack last cursor with
  | nil =>
    obtain ⟨fuel, rfl⟩ := Nat.exists_eq_succ_of_ne_zero (Nat.ne_zero_of_lt enough)
    rw [readAll_ended fuel last stack cut,
      show Stack.drafts? (Stack.settle stack none) = none from unfinished]
    exact ⟨_, rfl, rfl⟩
  | cons token tokens ih =>
    obtain ⟨word, position⟩ := token
    obtain ⟨fuel, rfl⟩ := Nat.exists_eq_succ_of_ne_zero (Nat.ne_zero_of_lt enough)
    obtain ⟨state, leads, next⟩ := exists_shift_of_feed completed
    obtain ⟨after, behind, shorter, step⟩ :=
      readAll_word fuel last cut (mem_keywords_of_feed completed) leads
    obtain ⟨rejection, refused, place⟩ := ih fuel position (by omega) behind
      ((next (tokens ++ more)).symm.trans completed) ((next tokens).symm.trans unfinished)
    exact ⟨rejection, step.trans refused, place.trans (List.getLastD_cons ..).symm⟩

theorem parse_missing {source : String} {tokens : List Token} {derived : Derivation.Program}
    (cut : Separates 0 source.toList tokens) (begins : wordsOf tokens <+: derived.words)
    (unfinished : ∀ other : Derivation.Program, ¬other.Derives source) :
    ∃ rejection, parse source = .error rejection ∧
      rejection.position = (startsOf tokens).getLastD 0 := by
  obtain ⟨left, split⟩ := begins
  let more : List Token := left.map fun word => (word, 0)
  have whole : wordsOf (tokens ++ more) = derived.words := by
    rw [wordsOf, List.map_append, List.map_map, ← split]
    exact congrArg (wordsOf tokens ++ ·) (List.map_id left)
  obtain ⟨drafts, -, completed⟩ := feed_complete derived whole
  have refused : feed [] tokens = none := by
    cases fed : feed [] tokens with
    | none => rfl
    | some drafts =>
      obtain ⟨other, words⟩ := feed_sound .empty fed
      obtain ⟨outside, segments, -⟩ := cut
      refine absurd ?_ (unfinished other)
      rw [Derivation.Program.Derives, words]
      exact segments.letters
  have enough : (Cursor.ofString source).rest.length < source.length + 1 := Nat.lt_succ_self _
  obtain ⟨rejection, failed, place⟩ :=
    readAll_missing (source.length + 1) 0 enough cut completed refused
  refine ⟨rejection, ?_, place⟩
  rw [parse, failed]
  rfl

end Automaton

/-- The last keyword of a text starts before its end. -/
theorem Segmentation.lastStart_lt {position : Nat} {text outside : List Char}
    {tokens : List (Keyword × Nat)} (cut : Segmentation position text tokens outside) (last : Nat)
    (room : last < position + text.length) :
    (tokens.map (·.2)).getLastD last < position + text.length := by
  induction cut generalizing last with
  | done => exact room
  | @word position gap stretch rest outside keyword tokens blank spelled more ih =>
    obtain ⟨c, others, rfl, -⟩ := spelled.exists_cons
    rw [List.map_cons, List.getLastD_cons]
    simp only [List.length_append, List.length_cons] at ih ⊢
    have further := ih (position + gap.length) (by omega)
    omega

namespace Descent

open Reader (Stuck Flawed)

variable {source : String} {words passed : List Keyword} {derived : Derivation.Program}
  {reached : Cursor}

/-- What was passed in a text of whole keywords are the first ones of these. -/
theorem begins_of_passed (spelled : Text.letters source.toList = Keyword.spell words)
    (went : Cursor.Passes passed (.ofString source) reached) : passed <+: words := by
  refine Keyword.prefix_of_spell ?_
  rw [← spelled]
  exact ⟨reached.ahead, went.ahead.symm⟩

/-- Reading gets stuck only at the end of a text that could go on. -/
theorem position_of_stuck {position : Nat}
    (spelled : Text.letters source.toList = Keyword.spell words) (begins : words <+: derived.words)
    (stuck : Stuck programOutlook (.ofString source) position passed reached)
    (within : position ≤ source.length) : position = source.length := by
  have ended : reached.ahead = [] := by
    obtain ⟨ahead, split⟩ := begins_of_passed spelled stuck.passed
    have total : Text.letters source.toList = Keyword.spell passed ++ reached.ahead :=
      stuck.passed.ahead
    rw [spelled, ← split, Keyword.spell_append] at total
    have same := List.append_cancel_left total
    cases ahead with
    | nil => exact same.symm
    | cons word ahead =>
      -- The keyword that comes next goes on as the program does, so reading would not be stuck.
      obtain ⟨left, whole⟩ := begins
      refine absurd ?_ (stuck.none word (Cursor.sees_iff.mpr ?_) (ahead ++ left))
      · refine ⟨derived, [], rfl, ?_⟩
        rw [List.append_nil, ← whole, ← split, List.append_assoc, List.cons_append]
      · rw [← same, Keyword.spell_cons]
        exact List.prefix_append _ _
  have start : (Cursor.ofString source).In source.toList := rfl
  obtain ⟨stop, matched, rfl, stops⟩ := stuck.halts.stops stuck.opens (start.passes stuck.passed)
  have ahead := stops.ahead
  rw [ended, eq_comm, List.append_eq_nil_iff] at ahead
  rcases solid_of_stops stops within with done | ⟨c, here, solid⟩
  · exact done
  · obtain ⟨inside, rfl⟩ := List.getElem?_eq_some_iff.mp here
    have rest : stop.rest = source.toList.drop stop.position := stops.inside
    rw [List.drop_eq_getElem_cons inside] at rest
    have letters := ahead.2
    rw [Cursor.ahead, rest, Text.letters_cons_solid solid] at letters
    cases letters

theorem parse_missing (spelled : Text.letters source.toList = Keyword.spell words)
    (begins : words <+: derived.words) (lawful : derived.Lawful)
    (shallow : derived.Shallow nestingLimit)
    (unfinished : ∀ other : Derivation.Program, ¬other.Derives source) :
    ∃ rejection, parse source = .error rejection ∧ rejection.position = source.length := by
  cases run : parse source with
  | ok whole =>
    obtain ⟨other, derives, -⟩ := parse_sound run
    exact absurd derives (unfinished other)
  | error rejection =>
    refine ⟨rejection, rfl, ?_⟩
    obtain ⟨stop, refused⟩ := exists_refusal run
    rcases stuck_or_flawed refused with ⟨passed, reached, stuck⟩ | ⟨-, passed, flawed⟩
    · exact position_of_stuck spelled begins stuck (position_le_of_parse run)
    · obtain ⟨reached, went⟩ := flawed.passed
      obtain ⟨left, whole⟩ := (begins_of_passed spelled went).trans begins
      refine absurd ?_ (flawed.none left)
      exact ⟨derived, ⟨lawful, shallow⟩, [], rfl, by rw [whole, List.append_nil]⟩

end Descent

namespace FrontEnd

open Automaton (Token Separates startsOf)

/-- A text of whole keywords, with only separators between them, with which a program begins, but
which is none. Reading by descent refuses it at its end. The automaton takes note of the last
keyword only, so it refuses it where that one starts: before its end, unless there is no text at
all. -/
theorem premature_end (source more : String) (tokens : List Token) (derived : Derivation.Program)
    (separated : Separates 0 source.toList tokens) (completed : derived.Derives (source ++ more))
    (lawful : derived.Lawful) (shallow : derived.Shallow Descent.nestingLimit)
    (unfinished : ∀ other : Derivation.Program, ¬other.Derives source) :
    (∃ diagnostic, descent.parse source = .error diagnostic ∧
      diagnostic.position = source.length) ∧
    ∃ diagnostic, automaton.parse source = .error diagnostic ∧
      diagnostic.position = (startsOf tokens).getLastD 0 ∧
      (source ≠ "" → diagnostic.position < source.length) := by
  obtain ⟨outside, cut, -⟩ := id separated
  have begins : tokens.map (·.1) <+: derived.words := by
    refine Keyword.prefix_of_spell ⟨Text.letters more.toList, ?_⟩
    rw [← cut.letters, ← Text.letters_append, ← String.toList_append]
    exact completed
  constructor
  · obtain ⟨rejection, refused, place⟩ :=
      Descent.parse_missing cut.letters begins lawful shallow unfinished
    exact ⟨rejection.diagnostic source, parse_of_error refused, by rw [← place]; rfl⟩
  · obtain ⟨rejection, refused, place⟩ := Automaton.parse_missing separated begins unfinished
    refine ⟨rejection.diagnostic source, parse_of_error refused, ?_, fun nonempty => ?_⟩
    · rw [← place]
      rfl
    · have positive : 0 < source.toList.length :=
        List.length_pos_iff.mpr fun empty => nonempty (String.toList_injective empty)
      have early := cut.lastStart_lt 0 (by omega)
      rw [← startsOf, ← place, Nat.zero_add, String.length_toList] at early
      exact Int.ofNat_lt.mpr early

/-- The first keyword of every program, and nothing else. -/
def onlyStart : String :=
  "LINE NUMBER"

theorem premature_end_onlyStart :
    (∃ diagnostic, descent.parse onlyStart = .error diagnostic ∧ diagnostic.position = 11) ∧
    ∃ diagnostic, automaton.parse onlyStart = .error diagnostic ∧ diagnostic.position = 0 := by
  have first : onlyStart.toList.head? = some 'L' := by decide +kernel
  have last : onlyStart.toList.getLast? = some 'R' := by decide +kernel
  have spelled : Keyword.lineNumber.SpelledBy onlyStart.toList := by
    refine ⟨by decide +kernel, ?_, ?_⟩
    · intro c inside
      cases first.symm.trans inside
      decide
    · intro c inside
      cases last.symm.trans inside
      decide
  have separated : Separates 0 onlyStart.toList [(.lineNumber, 0)] := by
    have ends : Separates (0 + 0 + onlyStart.toList.length) [] [] := .done (List.forall_mem_nil _)
    have cut : Separates 0 ([] ++ (onlyStart.toList ++ [])) [(.lineNumber, 0 + 0)] :=
      .word (List.forall_mem_nil _) spelled ends
    rwa [List.nil_append, List.append_nil] at cut
  let derived : Derivation.Program := ⟨⟨⟨false, []⟩, .read, none⟩, []⟩
  have completed : derived.Derives (onlyStart ++ " ZERO CODE READ") := by
    unfold Derivation.Program.Derives
    decide +kernel
  have lawful : derived.Lawful := ⟨by decide, by decide⟩
  have shallow : derived.Shallow Descent.nestingLimit := by
    unfold Derivation.Program.Shallow
    decide
  have unfinished : ∀ other : Derivation.Program, ¬other.Derives onlyStart := by
    intro other derives
    have words : other.words = [.lineNumber] :=
      Keyword.spell_injective (derives.symm.trans (spelled.letters.trans (List.append_nil _).symm))
    cases words
  obtain ⟨top, diagnostic, refused, place, -⟩ :=
    premature_end onlyStart " ZERO CODE READ" _ derived separated completed lawful shallow unfinished
  exact ⟨top, diagnostic, refused, place⟩

end FrontEnd

end BitMachine
