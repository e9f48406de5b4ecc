import BitMachine.Proofs.Grammar.Positions
import BitMachine.Proofs.Grammar.Viability

/-! Looking ahead and reading agree. Both go over the text letter by letter, the one without moving;
whether a symbol stands there depends on the letters ahead, and reading it stops where these and the
symbol part. -/

set_option autoImplicit false

namespace BitMachine

/-- The longest text that two texts begin with. -/
structure Text.LongestShared (shared left right : List Char) : Prop where
  begins : shared <+: left
  begins' : shared <+: right
  longest : ∀ other, other <+: left → other <+: right → other <+: shared

/-- What two texts begin with is the longest such text if one of them ends there or goes on with a
letter that the other one does not go on with. -/
theorem Text.longestShared_of_parting {shared right : List Char} {letter : Char}
    (left : List Char) (parting : right.head? ≠ some letter) :
    LongestShared shared (shared ++ letter :: left) (shared ++ right) := by
  refine ⟨List.prefix_append _ _, List.prefix_append _ _, ?_⟩
  intro other first second
  -- Otherwise `other` goes on behind `shared`, in both texts with the same letter.
  rcases List.prefix_or_prefix_of_prefix first (List.prefix_append _ _) with shorter | longer
  · exact shorter
  · obtain ⟨more, rfl⟩ := longer
    rw [List.prefix_append_right_inj] at first second
    cases more with
    | nil => exact ⟨[], by rw [List.append_nil, List.append_nil]⟩
    | cons c more =>
      obtain ⟨rfl, -⟩ := List.cons_prefix_cons.mp first
      obtain ⟨rest, rfl⟩ := second
      exact absurd rfl parting

/-- A text that ends with a letter ends with its last letter. -/
theorem Text.getLast?_letters {text : List Char}
    (last : ∀ c ∈ text.getLast?, isBlank c = false) : (letters text).getLast? = text.getLast? := by
  rcases List.eq_nil_or_concat' text with rfl | ⟨front, c, rfl⟩
  · rfl
  · rw [List.getLast?_concat] at last
    have solid : isBlank c = false := last c rfl
    rw [letters_append, letters_cons_solid solid, letters_nil, List.getLast?_concat,
      List.getLast?_concat]

namespace Cursor

variable {text symbol : List Char} {cursor after : Cursor}

/-- What lies between two places in a text. -/
theorem Reaches.exists_between (reaches : cursor.Reaches after) (inside : In text cursor)
    (inside' : In text after) :
    ∃ passed, cursor.rest = passed ++ after.rest ∧
      after.position = cursor.position + passed.length := by
  have onward := reaches.onward
  have total := reaches.total
  have rest : after.rest = cursor.rest.drop (after.position - cursor.position) := by
    rw [inside, inside', List.drop_drop]
    congr 1
    omega
  refine ⟨cursor.rest.take (after.position - cursor.position), ?_, ?_⟩
  · rw [rest, List.take_append_drop]
  · rw [List.length_take]
    omega

theorem solid_of_skipBlanks (resting : cursor.skipBlanks = cursor) :
    ∀ c ∈ cursor.rest.head?, Text.isBlank c = false := by
  have skipped := rest_skipFrom Text.isBlank cursor.position cursor.rest
  change cursor.skipBlanks.rest = _ at skipped
  rw [resting] at skipped
  intro c front
  rcases Text.dropWhile_isBlank_cases cursor.rest with ⟨nothing, -⟩ | ⟨d, rest, found, solid, -⟩
  · rw [skipped, nothing] at front
    cases front
  · rw [skipped, found] at front
    cases front
    exact solid

/-- A symbol that does not stand there is followed as far as the letters ahead agree with it, and
over the blanks behind them. -/
theorem exists_passed_of_short {stuck : Cursor} (inside : In text cursor)
    (short : cursor.advance symbol = (false, stuck)) :
    ∃ passed, cursor.rest = passed ++ stuck.rest ∧
      stuck.position = cursor.position + passed.length ∧
      Text.LongestShared (Text.letters passed) symbol cursor.ahead ∧
      ∀ c ∈ stuck.rest.head?, Text.isBlank c = false := by
  obtain ⟨matched, letter, left, rfl, ahead, parting, resting⟩ := of_short short
  have reaches := reaches_advance (matched ++ letter :: left) cursor
  have inside' := inside.advance (matched ++ letter :: left)
  rw [short] at reaches inside'
  obtain ⟨passed, split, position⟩ := reaches.exists_between inside inside'
  have spelled : Text.letters passed = matched := by
    have letters := ahead
    rw [Cursor.ahead, split, Text.letters_append] at letters
    exact List.append_cancel_right letters
  refine ⟨passed, split, position, ?_, solid_of_skipBlanks resting⟩
  rw [spelled, ahead]
  exact Text.longestShared_of_parting left parting

end Cursor

namespace Reader

variable {word : String} {cursor after : Cursor}

theorem symbol_eq_ok :
    symbol word cursor = .ok () after ↔ cursor.advance word.toList = (true, after) := by
  unfold symbol
  rcases cursor.advance word.toList with ⟨_ | _, reached⟩
  · exact ⟨nofun, nofun⟩
  · constructor
    · rintro ⟨⟩
      rfl
    · rintro ⟨⟩
      rfl

theorem symbol_eq_error {rejection : Rejection} :
    symbol word cursor = .error rejection after ↔
      cursor.advance word.toList = (false, after) ∧
        rejection = ⟨.unexpected [word], after.position⟩ := by
  unfold symbol
  rcases cursor.advance word.toList with ⟨_ | _, reached⟩
  · constructor
    · rintro ⟨⟩
      exact ⟨rfl, rfl⟩
    · rintro ⟨⟨⟩, rfl⟩
      rfl
  · exact ⟨nofun, nofun⟩

/-- Reading a symbol succeeds exactly if looking ahead finds it. -/
theorem exists_symbol_eq_ok : (∃ after, symbol word cursor = .ok () after) ↔ cursor.sees word := by
  rw [Cursor.sees, ← Cursor.fst_advance]
  constructor
  · rintro ⟨after, read⟩
    rw [symbol_eq_ok.mp read]
  · intro found
    exact ⟨(cursor.advance word.toList).2, symbol_eq_ok.mpr (Prod.ext found rfl)⟩

/-- Looking ahead and reading agree, at every position of every text. Looking ahead for a symbol does
not move; it finds the symbol exactly if the letters ahead begin with it, and then and only then
reading it succeeds. Reading stops right behind the last letter of the symbol. If it fails, it stops
and reports where the text goes on behind the longest beginning of the symbol that the letters ahead
have, blanks skipped. At most one keyword is found. -/
theorem lookahead_and_reading_agree (source word : String) (position : Nat) :
    let cursor : Cursor := ⟨position, source.toList.drop position⟩
    (∃ found, sees word cursor = .ok found cursor ∧
      (found = true ↔ word.toList <+: Text.letters cursor.rest) ∧
      (found = true ↔ ∃ after, symbol word cursor = .ok () after)) ∧
    (∀ after, symbol word cursor = .ok () after →
      ∃ stretch, cursor.rest = stretch ++ after.rest ∧
        after.position = position + stretch.length ∧
        Text.letters stretch = word.toList ∧ stretch.getLast? = word.toList.getLast?) ∧
    (∀ rejection stuck, symbol word cursor = .error rejection stuck →
      rejection = ⟨.unexpected [word], stuck.position⟩ ∧
      ∃ passed, cursor.rest = passed ++ stuck.rest ∧
        stuck.position = position + passed.length ∧
        Text.LongestShared (Text.letters passed) word.toList (Text.letters cursor.rest) ∧
        ∀ c ∈ stuck.rest.head?, Text.isBlank c = false) ∧
    (∀ first second, seesKeyword first cursor = .ok true cursor →
      seesKeyword second cursor = .ok true cursor → first = second) := by
  intro cursor
  have inside : Cursor.In source.toList cursor := rfl
  refine ⟨⟨cursor.sees word, rfl, ?_, exists_symbol_eq_ok.symm⟩, ?_, ?_, ?_⟩
  · exact Cursor.spells_iff word.toList cursor.rest
  · intro after read
    obtain ⟨stretch, split, moved, letters, last⟩ :=
      Cursor.exists_stretch_of_advance (symbol_eq_ok.mp read)
    refine ⟨stretch, split, moved, letters, ?_⟩
    rw [← letters, Text.getLast?_letters last]
  · intro rejection stuck failed
    obtain ⟨short, reported⟩ := symbol_eq_error.mp failed
    exact ⟨reported, Cursor.exists_passed_of_short inside short⟩
  · intro first second seen seen'
    injection seen with seen
    injection seen' with seen'
    exact Cursor.eq_of_sees seen seen'

/-- A text that goes on like a keyword for three letters, the blanks between them aside. -/
theorem lookahead_and_reading_agree_misspelled :
    let cursor : Cursor := ⟨2, "X G OT\tX".toList.drop 2⟩
    sees "GOTO" cursor = .ok false cursor ∧ (∀ after, symbol "GOTO" cursor ≠ .ok () after) ∧
      ∃ rejection stuck, symbol "GOTO" cursor = .error rejection stuck ∧ stuck.position = 7 ∧
        rejection = ⟨.unexpected ["GOTO"], 7⟩ ∧
        Text.LongestShared "GOT".toList "GOTO".toList "GOTX".toList := by
  intro cursor
  obtain ⟨⟨found, looked, -, reads⟩, -, fails, -⟩ :=
    lookahead_and_reading_agree "X G OT\tX" "GOTO" 2
  have unseen : sees "GOTO" cursor = .ok false cursor := rfl
  have failed : symbol "GOTO" cursor = .error ⟨.unexpected ["GOTO"], 7⟩ ⟨7, ['X']⟩ := rfl
  cases looked.symm.trans unseen
  obtain ⟨-, passed, split, -, longest, -⟩ := fails _ _ failed
  refine ⟨unseen, ?_, _, _, failed, rfl, rfl, ?_⟩
  · intro after read
    exact Bool.false_ne_true (reads.mpr ⟨after, read⟩)
  · have same : passed = "G OT\t".toList := List.append_cancel_right split.symm
    rw [same] at longest
    exact longest

end Reader

end BitMachine
