import BitMachine.Grammar.Descent
import BitMachine.Proofs.Grammar.Letters

/-! How readers run: a reader made of others succeeds exactly if these succeed one after the other,
and a choice by lookahead depends on the letters ahead. -/

set_option autoImplicit false

namespace BitMachine

namespace Cursor

theorem skipFrom_of_solid {p : Char → Bool} {c : Char} (solid : p c = false) (position : Nat)
    (rest : List Char) : skipFrom p position (c :: rest) = ⟨position, c :: rest⟩ := by
  rw [skipFrom, if_neg (by simp only [solid, Bool.false_eq_true, not_false_eq_true])]

theorem skipBlanks_skipBlanks (cursor : Cursor) :
    cursor.skipBlanks.skipBlanks = cursor.skipBlanks := by
  have skipped := rest_skipFrom Text.isBlank cursor.position cursor.rest
  change (skipBlanks cursor).rest = _ at skipped
  rcases Text.dropWhile_isBlank_cases cursor.rest with ⟨nothing, -⟩ | ⟨c, rest, found, solid, -⟩
  · rw [nothing] at skipped
    cases reached : skipBlanks cursor with
    | mk position left =>
      rw [reached] at skipped
      subst skipped
      rfl
  · rw [found] at skipped
    cases reached : skipBlanks cursor with
    | mk position left =>
      rw [reached] at skipped
      subst skipped
      exact skipFrom_of_solid solid position rest

/-- A keyword may be read before or after the blanks in front of it. -/
theorem advance_skipBlanks (cursor : Cursor) (keyword : Keyword) :
    cursor.skipBlanks.advance keyword.letters = cursor.advance keyword.letters := by
  cases letters : keyword.letters with
  | nil => exact (keyword.letters_ne_nil letters).elim
  | cons letter letters => rw [advance, advance, skipBlanks_skipBlanks]

theorem Passes.of_skipBlanks {word : Keyword} {words : List Keyword} {before after : Cursor}
    (passed : Passes (word :: words) before.skipBlanks after) :
    Passes (word :: words) before after := by
  obtain ⟨between, moved, rest⟩ := passed
  exact ⟨between, advance_skipBlanks before word ▸ moved, rest⟩

theorem Passes.skipBlanks {word : Keyword} {words : List Keyword} {before after : Cursor}
    (passed : Passes (word :: words) before after) :
    Passes (word :: words) before.skipBlanks after := by
  obtain ⟨between, moved, rest⟩ := passed
  exact ⟨between, (advance_skipBlanks before word).trans moved, rest⟩

end Cursor

namespace Reader

variable {α β : Type}

theorem bind_eq_ok {first : Reader α} {next : α → Reader β} {before after : Cursor} {result : β} :
    (first >>= next) before = .ok result after ↔
      ∃ value between, first before = .ok value between ∧
        next value between = .ok result after := by
  change EStateM.bind first next before = .ok result after ↔ _
  unfold EStateM.bind
  cases done : first before with
  | ok value between =>
    constructor
    · intro rest
      exact ⟨value, between, rfl, rest⟩
    · rintro ⟨value', between', same, rest⟩
      cases same
      exact rest
  | error rejection stuck =>
    constructor
    · intro impossible
      cases impossible
    · rintro ⟨value', between', same, rest⟩
      cases same

theorem bind_of_ok {first : Reader α} {next : α → Reader β} {before between : Cursor} {value : α}
    (done : first before = .ok value between) : (first >>= next) before = next value between := by
  change EStateM.bind first next before = _
  simp only [EStateM.bind, done]

theorem bind_of_error {first : Reader α} {next : α → Reader β} {before stuck : Cursor}
    {rejection : Rejection} (failed : first before = .error rejection stuck) :
    (first >>= next) before = .error rejection stuck := by
  change EStateM.bind first next before = _
  simp only [EStateM.bind, failed]

theorem pure_eq_ok {value result : α} {before after : Cursor} :
    (pure value : Reader α) before = .ok result after ↔ value = result ∧ before = after := by
  constructor
  · intro same
    cases same
    exact ⟨rfl, rfl⟩
  · rintro ⟨rfl, rfl⟩
    rfl

theorem keyword_eq_ok {word : Keyword} {before after : Cursor} :
    keyword word before = .ok () after ↔ before.advance word.letters = (true, after) := by
  unfold keyword symbol
  rcases before.advance word.letters with ⟨reached, stop⟩
  cases reached with
  | true =>
    constructor
    · intro same
      cases same
      rfl
    · intro same
      cases same
      rfl
  | false =>
    constructor
    · intro same
      cases same
    · intro same
      cases same

theorem fail_ne_ok (expected : String) {before after : Cursor} {result : α} :
    (fail expected : Reader α) before ≠ .ok result after := by
  intro same
  cases same

theorem skipBlanks_run (before : Cursor) :
    skipBlanks before = .ok before.skipBlanks.position before.skipBlanks :=
  rfl

theorem get_run (before : Cursor) : (get : Reader Cursor) before = .ok before before :=
  rfl

/-- A choice by lookahead. -/
theorem choose_run (word : Keyword) (here there : Reader α) (before : Cursor) :
    (seesKeyword word >>= fun seen => if seen = true then here else there) before =
      if before.sees word.spelling = true then here before else there before := by
  change (if before.sees word.spelling = true then here else there) before = _
  split <;> rfl

theorem choose_of_sees {word : Keyword} {before : Cursor} (here there : Reader α)
    (seen : before.sees word.spelling = true) :
    (seesKeyword word >>= fun seen => if seen = true then here else there) before =
      here before := by
  rw [choose_run, if_pos seen]

theorem choose_of_not_sees {word : Keyword} {before : Cursor} (here there : Reader α)
    (unseen : before.sees word.spelling = false) :
    (seesKeyword word >>= fun seen => if seen = true then here else there) before =
      there before := by
  rw [choose_run, if_neg (by simp only [unseen, Bool.false_eq_true, not_false_eq_true])]

end Reader

namespace Descent

variable {α : Type}

theorem seesBit_run (before : Cursor) :
    seesBit before =
      .ok (before.sees Keyword.zero.spelling || before.sees Keyword.one.spelling) before := by
  unfold seesBit
  rw [Reader.choose_run]
  cases before.sees Keyword.zero.spelling <;> rfl

theorem seesVariable_run (before : Cursor) :
    seesVariable before =
      .ok (before.sees Keyword.variable.spelling || before.sees Keyword.theJumpRegister.spelling)
        before := by
  unfold seesVariable
  rw [Reader.choose_run]
  cases before.sees Keyword.variable.spelling <;> rfl

end Descent

end BitMachine
