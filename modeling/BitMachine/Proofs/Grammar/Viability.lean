import Mathlib.Data.Nat.Find
import Mathlib.Order.Bounds.Basic
import BitMachine.Proofs.Grammar.Acceptance
import BitMachine.Proofs.Grammar.DescentRecognition
import BitMachine.Proofs.Grammar.Excerpts

/-! Where reading by descent is refused by the grammar, the text can still be completed up to that
position, and hardly any further: of the longest part of the text that can be completed, only the
beginning of one keyword is left out. -/

set_option autoImplicit false

namespace BitMachine

namespace Cursor

variable {text : List Char} {before after : Cursor}

theorem In.advance {cursor : Cursor} (inside : In text cursor) (symbol : List Char) :
    In text (cursor.advance symbol).2 := by
  induction symbol generalizing cursor with
  | nil => exact inside
  | cons letter symbol ih =>
    have skipped := inside.skipBlanks
    unfold Cursor.advance
    split
    · next position c rest stop =>
      rw [stop] at skipped
      split
      · exact ih skipped.next
      · exact skipped
    · next position stop =>
      rw [stop] at skipped
      exact skipped

theorem In.passes {words : List Keyword} (inside : In text before)
    (passed : Passes words before after) : In text after := by
  induction words generalizing before with
  | nil =>
    cases passed
    exact inside
  | cons word words ih =>
    obtain ⟨between, moved, rest⟩ := passed
    have next := inside.advance word.letters
    rw [moved] at next
    exact ih next rest

/-- What stands before a cursor has those letters of the text that are not ahead of it. -/
theorem In.letters_take {cursor : Cursor} {letters : List Char} (inside : In text cursor)
    (total : Text.letters text = letters ++ cursor.ahead) :
    Text.letters (text.take cursor.position) = letters := by
  have split := congrArg Text.letters (List.take_append_drop cursor.position text)
  rw [Text.letters_append, ← inside, total] at split
  exact List.append_cancel_right split

/-- Where a symbol does not stand, some of its letters may. They are followed by a letter that does
not belong to the symbol, or by nothing. -/
theorem of_short {symbol : List Char} {cursor stuck : Cursor}
    (short : cursor.advance symbol = (false, stuck)) :
    ∃ matched letter left, symbol = matched ++ letter :: left ∧
      cursor.ahead = matched ++ stuck.ahead ∧ stuck.ahead.head? ≠ some letter ∧
      stuck.skipBlanks = stuck := by
  induction symbol generalizing cursor with
  | nil => cases short
  | cons letter symbol ih =>
    have resting := cursor.skipBlanks_skipBlanks
    have kept := cursor.ahead_skipBlanks
    unfold advance at short
    rcases cursor.skipBlanks_cases with ⟨position, stop, none⟩ | ⟨position, c, rest, stop, some⟩
    · rw [stop] at short resting
      cases short
      exact ⟨[], letter, symbol, rfl, none, by simp [ahead], resting⟩
    · rw [stop] at short resting kept
      dsimp only at short
      split at short
      · next same =>
        obtain ⟨matched, next, left, rfl, begins, other, rested⟩ := ih short
        refine ⟨letter :: matched, next, left, rfl, ?_, other, rested⟩
        rw [some, same, List.cons_append]
        exact congrArg _ begins
      · next differs =>
        cases short
        refine ⟨[], letter, symbol, rfl, kept.symm, ?_, resting⟩
        rw [kept, some, List.head?_cons, Ne, Option.some.injEq]
        exact differs

end Cursor

namespace Derivation

/-- The text can be completed to one that has a derivation. -/
def Viable (text : List Char) : Prop :=
  ∃ (more : List Char) (derived : Program), derived.Derives (String.ofList (text ++ more))

theorem viable_iff (text : List Char) :
    Viable text ↔ ∃ derived : Program, Text.letters text <+: Keyword.spell derived.words := by
  unfold Viable Program.Derives
  simp only [String.toList_ofList, Text.letters_append]
  constructor
  · rintro ⟨more, derived, spelled⟩
    exact ⟨derived, Text.letters more, spelled⟩
  · rintro ⟨derived, left, spelled⟩
    -- The letters that are missing can be written without blanks.
    refine ⟨left, derived, ?_⟩
    have solid := congrArg Text.letters spelled
    rw [Text.letters_spell, ← spelled, Text.letters_append, Text.letters_letters] at solid
    rw [← spelled, List.append_cancel_left solid]

end Derivation

namespace Reader

variable {outlook : Outlook} {words : List Keyword} {text : List Char} {reached : Cursor}

/-- Reading stops at a cursor behind the keywords that were passed and some more letters. These begin
what may come, but together with the next letter they do not, unless they are none. -/
structure Stops (outlook : Outlook) (words : List Keyword) (text : List Char)
    (reached stop : Cursor) (matched : List Char) : Prop where
  inside : stop.In text
  resting : stop.skipBlanks = stop
  ahead : reached.ahead = matched ++ stop.ahead
  opens : ∃ tail, words ++ tail ∈ outlook.all ∧ matched <+: Keyword.spell tail
  blocked : matched ≠ [] → ∀ tail, words ++ tail ∈ outlook.all → ∀ c, stop.ahead.head? = some c →
    ¬matched ++ [c] <+: Keyword.spell tail

theorem Halts.stops {position : Nat} (halts : Halts outlook words reached position)
    (opens : ∃ tail, words ++ tail ∈ outlook.all) (inside : reached.In text) :
    ∃ stop matched, stop.position = position ∧ Stops outlook words text reached stop matched := by
  cases halts with
  | before =>
    obtain ⟨tail, found⟩ := opens
    exact ⟨reached.skipBlanks, [], rfl, inside.skipBlanks, reached.skipBlanks_skipBlanks,
      reached.ahead_skipBlanks.symm, ⟨tail, found, List.nil_prefix⟩,
      fun impossible => absurd rfl impossible⟩
  | @within word stuck awaited alone short =>
    have moved := inside.advance word.letters
    rw [short] at moved
    obtain ⟨matched, letter, left, spelled, ahead, other, resting⟩ := Cursor.of_short short
    obtain ⟨tail, found⟩ := awaited
    refine ⟨stuck, matched, rfl, moved, resting, ahead, ⟨word :: tail, found, ?_⟩, ?_⟩
    · rw [Keyword.spell_cons, spelled, List.append_assoc]
      exact List.prefix_append _ _
    · intro nonempty tail found c next begins
      cases tail with
      | nil =>
        rw [show Keyword.spell [] = [] from rfl, List.prefix_nil] at begins
        simp at begins
      | cons start tail =>
        -- The matched letters tell which keyword comes next, and the next letter is none of its.
        rw [Keyword.spell_cons] at begins
        have same : start = word := by
          refine alone start tail found ?_
          obtain ⟨first, matched, rfl⟩ := List.exists_cons_of_ne_nil nonempty
          obtain ⟨head, more, equal⟩ := List.exists_cons_of_ne_nil start.letters_ne_nil
          rw [equal, List.cons_append, List.cons_append] at begins
          rw [equal, spelled, (List.cons_prefix_cons.mp begins).1]
          rfl
        rw [same, spelled, List.append_assoc, List.prefix_append_right_inj, List.cons_append,
          List.cons_prefix_cons] at begins
        exact other (next.trans (congrArg some begins.1))

end Reader

namespace Derivation

/-- A position of a text that is no program: a letter stands there or the text ends, what stands
before it can be completed, and of the longest beginning of the text that can be completed only
the beginning of a keyword stands behind it. -/
structure Pinpoints (text : List Char) (position : Nat) : Prop where
  solid : position = text.length ∨ ∃ c, text[position]? = some c ∧ Text.isBlank c = false
  viable : Viable (text.take position)
  maximal : ∃ longest, IsGreatest {n | n ≤ text.length ∧ Viable (text.take n)} longest ∧
    position ≤ longest ∧ ∃ keyword : Keyword,
      Text.letters ((text.take longest).drop position) <+: keyword.letters ∧
      Text.letters ((text.take longest).drop position) ≠ keyword.letters

end Derivation

namespace Descent

open Reader (Stuck Flawed Stops Objection)
open BitMachine.Derivation (Viable Pinpoints)

variable {text : List Char} {words : List Keyword} {reached stop : Cursor} {matched : List Char}

theorem solid_of_stops (stops : Stops programOutlook words text reached stop matched)
    (within : stop.position ≤ text.length) :
    stop.position = text.length ∨ ∃ c, text[stop.position]? = some c ∧ Text.isBlank c = false := by
  have inside : stop.rest = text.drop stop.position := stops.inside
  have resting := congrArg Cursor.rest stops.resting
  rw [Cursor.skipBlanks, Cursor.skipWhile, Cursor.rest_skipFrom] at resting
  cases left : stop.rest with
  | nil =>
    rw [left] at inside
    exact Or.inl (Nat.le_antisymm within (List.drop_eq_nil_iff.mp inside.symm))
  | cons c rest =>
    refine Or.inr ⟨c, ?_, ?_⟩
    · rw [← List.head?_drop, ← inside, left]
      rfl
    · rw [left, List.dropWhile_cons] at resting
      cases blank : Text.isBlank c with
      | false => rfl
      | true =>
        rw [if_pos blank] at resting
        have shorter := (List.dropWhile_suffix (p := Text.isBlank) (l := rest)).length_le
        rw [resting, List.length_cons] at shorter
        omega

/-- The letters of a text before the place where reading stops. -/
theorem letters_of_stops (stops : Stops programOutlook words text reached stop matched)
    (total : Text.letters text = Keyword.spell words ++ reached.ahead) :
    Text.letters (text.take stop.position) = Keyword.spell words ++ matched := by
  refine stops.inside.letters_take ?_
  rw [total, stops.ahead, List.append_assoc]

theorem viable_of_stops (stops : Stops programOutlook words text reached stop matched)
    (total : Text.letters text = Keyword.spell words ++ reached.ahead) :
    Viable (text.take stop.position) := by
  obtain ⟨tail, ⟨derived, _, rfl, spelled⟩, begins⟩ := stops.opens
  rw [List.append_nil] at spelled
  rw [Derivation.viable_iff, letters_of_stops stops total]
  refine ⟨derived, ?_⟩
  rw [← spelled, Keyword.spell_append]
  exact (List.prefix_append_right_inj _).mpr begins

/-- Of what can be completed, only the beginning of a keyword stands behind the place where reading
stops. -/
theorem letters_behind_stop (stops : Stops programOutlook words text reached stop matched)
    (none : ∀ word : Keyword, reached.sees word.spelling = true → ∀ tail,
      words ++ word :: tail ∉ programOutlook.all)
    {further : List Char} (onward : further <+: stop.ahead) (derived : Derivation.Program)
    (begins : Keyword.spell words ++ matched ++ further <+: Keyword.spell derived.words) :
    ∃ keyword : Keyword, further <+: keyword.letters ∧ further ≠ keyword.letters := by
  have nothing : further = [] → ∃ keyword : Keyword, further <+: keyword.letters ∧
      further ≠ keyword.letters := by
    rintro rfl
    exact ⟨.zero, List.nil_prefix, (Keyword.letters_ne_nil .zero).symm⟩
  rw [List.append_assoc] at begins
  obtain ⟨tail, split⟩ := Keyword.prefix_of_spell ((List.prefix_append _ _).trans begins)
  have found : words ++ tail ∈ programOutlook.all :=
    ⟨derived, [], rfl, by rw [split, List.append_nil]⟩
  rw [← split, Keyword.spell_append, List.prefix_append_right_inj] at begins
  by_cases some : matched = []
  · -- Reading stopped between two keywords: what follows begins the next one of the completion.
    subst some
    rw [List.nil_append] at begins
    cases tail with
    | nil => exact nothing (List.prefix_nil.mp begins)
    | cons word tail =>
      have incomplete : ¬word.letters <+: further := by
        intro whole
        refine none word (Cursor.sees_iff.mpr ?_) tail found
        rw [stops.ahead, List.nil_append]
        exact whole.trans onward
      rw [Keyword.spell_cons] at begins
      rcases List.prefix_or_prefix_of_prefix begins (List.prefix_append _ _) with part | whole
      · exact ⟨word, part, fun same => incomplete (same ▸ List.prefix_rfl)⟩
      · exact absurd whole incomplete
  · -- Reading stopped inside of a keyword, where no completion goes on with the next letter.
    cases further with
    | nil => exact nothing rfl
    | cons c further =>
      obtain ⟨left, ahead⟩ := onward
      refine absurd ?_ (stops.blocked some tail found c (by rw [← ahead]; rfl))
      refine List.IsPrefix.trans ?_ begins
      rw [List.prefix_append_right_inj]
      exact List.cons_prefix_cons.mpr ⟨rfl, List.nil_prefix⟩

/-- Among the parts of a text that can be completed there is a longest one. -/
theorem exists_longest {position : Nat} (within : position ≤ text.length)
    (viable : Viable (text.take position)) :
    ∃ longest, IsGreatest {n | n ≤ text.length ∧ Viable (text.take n)} longest := by
  classical
  let longest := Nat.findGreatest (fun n => Viable (text.take n)) text.length
  have reached : Viable (text.take longest) :=
    Nat.findGreatest_spec (P := fun n => Viable (text.take n)) within viable
  exact ⟨longest, ⟨Nat.findGreatest_le _, reached⟩,
    fun n inside => Nat.le_findGreatest inside.1 inside.2⟩

/-- Where the grammar refuses a text, it is pinpointed why the text is no program. -/
theorem pinpoints_of_stuck {source : String} {position : Nat}
    (stuck : Stuck programOutlook (.ofString source) position words reached)
    (within : position ≤ source.length) : Pinpoints source.toList position := by
  have start : (Cursor.ofString source).In source.toList := rfl
  have total : Text.letters source.toList = Keyword.spell words ++ reached.ahead :=
    stuck.passed.ahead
  obtain ⟨stop, matched, rfl, stops⟩ := stuck.halts.stops stuck.opens (start.passes stuck.passed)
  have viable := viable_of_stops stops total
  obtain ⟨longest, greatest⟩ := exists_longest within viable
  have below : stop.position ≤ longest := greatest.2 ⟨within, viable⟩
  refine ⟨solid_of_stops stops within, viable, longest, greatest, below, ?_⟩
  obtain ⟨derived, begins⟩ := (Derivation.viable_iff _).mp greatest.1.2
  have split : source.toList.take longest = source.toList.take stop.position ++
      (source.toList.take longest).drop stop.position := by
    conv_lhs => rw [← List.take_append_drop stop.position (source.toList.take longest)]
    rw [List.take_take, Nat.min_eq_left below]
  refine letters_behind_stop stops stuck.none ?_ derived ?_
  · refine Text.prefix_letters ?_
    rw [stops.inside, List.drop_take]
    exact List.take_prefix _ _
  · rw [← letters_of_stops stops total, ← Text.letters_append, ← split]
    exact begins

theorem expectation_injective {one other : String}
    (same : Cause.expectation [one] = "Illegal symbol found. " ++ other ++ " was expected") :
    one = other := by
  unfold Cause.expectation at same
  rw [String.append_left_inj, String.append_right_inj] at same
  exact same

/-- Objections beyond the grammar are worded in ways of their own. -/
theorem message_of_objection {cause : Cause} {symbol : String} (objection : Objection cause)
    (other : symbol ≠ "Conditional goto with different bit constant") :
    cause.message? ≠ some ("Illegal symbol found. " ++ symbol ++ " was expected") := by
  intro same
  cases objection with
  | clash => exact other (expectation_injective (Option.some.inj same)).symm
  | taken number =>
    obtain ⟨shown, -, worded⟩ := Option.map_eq_some_iff.mp same
    have first := congrArg (fun text => text.toList.head?) worded
    simp [String.toList_append] at first
  | nested =>
    have first := congrArg (fun text => text.toList.head?) (Option.some.inj same)
    simp [String.toList_append] at first

theorem exists_refusal {source : String} {rejection : Rejection}
    (refused : parse source = .error rejection) :
    ∃ stop, program (.ofString source) = .error rejection stop := by
  unfold parse at refused
  cases run : program (.ofString source) with
  | ok whole after =>
    rw [run] at refused
    cases refused
  | error rejection stop =>
    rw [run] at refused
    cases refused
    exact ⟨stop, rfl⟩

/-- Whatever in a text the grammar does not allow, the position in the message pinpoints it. Other
objections have other messages. -/
theorem refusals_pinpoint (source : String) (diagnostic : Diagnostic) (symbol : String)
    (refused : FrontEnd.descent.parse source = .error diagnostic)
    (worded : diagnostic.message = some ("Illegal symbol found. " ++ symbol ++ " was expected"))
    (grammatical : symbol ≠ "Conditional goto with different bit constant") :
    ∃ position : Nat, diagnostic.position = position ∧ Pinpoints source.toList position := by
  obtain ⟨rejection, read, rfl⟩ := FrontEnd.exists_rejection refused
  obtain ⟨stop, run⟩ := exists_refusal read
  refine ⟨rejection.position, rfl, ?_⟩
  rcases stuck_or_flawed run with ⟨words, reached, stuck⟩ | ⟨objection, -⟩
  · exact pinpoints_of_stuck stuck (FrontEnd.position_le_of_read read)
  · exact absurd worded (message_of_objection objection grammatical)

/-- A text that goes wrong in the middle of a keyword. -/
def misspelled : String :=
  "LINE NUMBER ZERO CO ZE"

theorem refusals_pinpoint_misspelled :
    ∃ diagnostic : Diagnostic, FrontEnd.descent.parse misspelled = .error diagnostic ∧
      diagnostic.message = some ("Illegal symbol found. " ++ "CODE" ++ " was expected") ∧
      diagnostic.position = 20 ∧ Pinpoints misspelled.toList 20 := by
  have checked : (match FrontEnd.descent.parse misspelled with
      | .ok _ => false
      | .error diagnostic => decide (diagnostic.message =
          some ("Illegal symbol found. " ++ "CODE" ++ " was expected") ∧
          diagnostic.position = 20)) = true := by
    decide +kernel
  cases refused : FrontEnd.descent.parse misspelled with
  | ok program =>
    rw [refused] at checked
    cases checked
  | error diagnostic =>
    rw [refused] at checked
    obtain ⟨worded, found⟩ := of_decide_eq_true checked
    obtain ⟨position, same, pinpoints⟩ :=
      refusals_pinpoint misspelled diagnostic "CODE" refused worded (by decide)
    rw [found] at same
    cases Int.natCast_inj.mp same
    exact ⟨diagnostic, rfl, worded, found, pinpoints⟩

end Descent

end BitMachine
