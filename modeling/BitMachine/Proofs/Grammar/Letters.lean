import BitMachine.Grammar.Cursor

/-! Keywords in a text. Blanks aside, a text is a sequence of letters, and no keyword is the
beginning of another one, so the letters decide which keywords they spell. -/

set_option autoImplicit false

namespace BitMachine

namespace Text

/-- The characters of a text that are not blank. -/
def letters (text : List Char) : List Char :=
  text.filter fun c => !isBlank c

@[simp] theorem letters_nil : letters [] = [] := rfl

theorem letters_cons_blank {c : Char} (blank : isBlank c = true) (text : List Char) :
    letters (c :: text) = letters text := by
  simp only [letters, List.filter_cons, blank, Bool.not_true, Bool.false_eq_true, ↓reduceIte]

theorem letters_cons_solid {c : Char} (solid : isBlank c = false) (text : List Char) :
    letters (c :: text) = c :: letters text := by
  simp only [letters, List.filter_cons, solid, Bool.not_false, ↓reduceIte]

@[simp] theorem letters_append (front back : List Char) :
    letters (front ++ back) = letters front ++ letters back :=
  List.filter_append front back

theorem letters_eq_nil {text : List Char} (blank : ∀ c ∈ text, isBlank c = true) :
    letters text = [] := by
  simp only [letters, List.filter_eq_nil_iff]
  intro c inside
  simp only [blank c inside, Bool.not_true, Bool.false_eq_true, not_false_eq_true]

theorem length_letters_le (text : List Char) : (letters text).length ≤ text.length :=
  List.length_filter_le _ text

theorem letters_letters (text : List Char) : letters (letters text) = letters text :=
  List.filter_filter .. |>.trans (by simp [letters])

theorem prefix_letters {front text : List Char} (begins : front <+: text) :
    letters front <+: letters text :=
  begins.filter _

/-- Skipping blanks loses no letter, and what is left starts with the first letter. -/
theorem dropWhile_isBlank_cases (text : List Char) :
    (text.dropWhile isBlank = [] ∧ letters text = []) ∨
      ∃ c rest, text.dropWhile isBlank = c :: rest ∧ isBlank c = false ∧
        letters text = c :: letters rest := by
  induction text with
  | nil => exact Or.inl ⟨rfl, rfl⟩
  | cons c rest ih =>
    cases blank : isBlank c with
    | true =>
      rw [letters_cons_blank blank, List.dropWhile_cons, if_pos blank]
      exact ih
    | false =>
      refine Or.inr ⟨c, rest, ?_, blank, letters_cons_solid blank rest⟩
      rw [List.dropWhile_cons, if_neg (by simp only [blank, Bool.false_eq_true, not_false_eq_true])]

end Text

namespace Keyword

/-- The letters of a keyword as a text without blanks. -/
abbrev letters (keyword : Keyword) : List Char :=
  keyword.spelling.toList

/-- The letters of a sequence of keywords. -/
def spell (words : List Keyword) : List Char :=
  words.flatMap letters

@[simp] theorem spell_cons (word : Keyword) (words : List Keyword) :
    spell (word :: words) = word.letters ++ spell words := rfl

/-- No keyword is the beginning of another one. -/
theorem eq_of_begins {k l : Keyword} (begins : k.letters <+: l.letters) : k = l := by
  have checked : ∀ k ∈ all, ∀ l ∈ all, k.letters <+: l.letters → k = l := by decide +kernel
  exact checked k (mem_all k) l (mem_all l) begins

theorem letters_ne_nil (keyword : Keyword) : keyword.letters ≠ [] := by
  cases keyword <;> decide

/-- Two keywords that begin one text are the same. -/
theorem eq_of_both_begin {k l : Keyword} {text : List Char} (first : k.letters <+: text)
    (second : l.letters <+: text) : k = l := by
  rcases List.prefix_or_prefix_of_prefix first second with shorter | longer
  · exact eq_of_begins shorter
  · exact (eq_of_begins longer).symm

/-- A keyword takes at least one letter. -/
theorem length_le_length_spell (words : List Keyword) : words.length ≤ (spell words).length := by
  induction words with
  | nil => exact Nat.le_refl 0
  | cons word rest ih =>
    have positive := List.length_pos_iff.mpr word.letters_ne_nil
    simp only [spell_cons, List.length_cons, List.length_append]
    omega

theorem spell_append (front back : List Keyword) :
    spell (front ++ back) = spell front ++ spell back :=
  List.flatMap_append

/-- Keywords whose letters begin those of others begin the others. -/
theorem prefix_of_spell {front words : List Keyword} (begins : spell front <+: spell words) :
    front <+: words := by
  induction front generalizing words with
  | nil => exact List.nil_prefix
  | cons word front ih =>
    cases words with
    | nil =>
      rw [spell_cons] at begins
      exact absurd (List.append_eq_nil_iff.mp (List.prefix_nil.mp begins)).1 word.letters_ne_nil
    | cons other words =>
      simp only [spell_cons] at begins
      have same : word = other := eq_of_both_begin
        ((List.prefix_append _ _).trans begins) (List.prefix_append _ _)
      subst same
      exact List.cons_prefix_cons.mpr ⟨rfl, ih ((List.prefix_append_right_inj _).mp begins)⟩

/-- The letters decide the keywords. -/
theorem spell_injective {front back : List Keyword} (same : spell front = spell back) :
    front = back := by
  have begins : front <+: back := prefix_of_spell (same ▸ List.prefix_refl _)
  have contains : back <+: front := prefix_of_spell (same ▸ List.prefix_refl _)
  exact begins.eq_of_length (Nat.le_antisymm begins.length_le contains.length_le)

end Keyword

namespace Text

theorem letters_keyword (keyword : Keyword) : letters keyword.letters = keyword.letters := by
  cases keyword <;> decide

theorem letters_spell (words : List Keyword) :
    letters (Keyword.spell words) = Keyword.spell words := by
  induction words with
  | nil => rfl
  | cons word words ih => rw [Keyword.spell_cons, letters_append, ih, letters_keyword]

end Text

namespace Cursor

/-- The letters that are still ahead. -/
abbrev ahead (cursor : Cursor) : List Char :=
  Text.letters cursor.rest

/-- Looking for a symbol compares it with the letters ahead. -/
theorem spells_iff (symbol text : List Char) :
    spells symbol text = true ↔ symbol <+: Text.letters text := by
  induction symbol generalizing text with
  | nil => simp only [spells, List.nil_prefix]
  | cons letter symbol ih =>
    rcases Text.dropWhile_isBlank_cases text with ⟨nothing, none⟩ | ⟨c, rest, found, -, some⟩
    · simp only [spells, nothing, none, Bool.false_eq_true, List.prefix_nil, reduceCtorEq]
    · simp only [spells, found, some, Bool.and_eq_true, beq_iff_eq, List.cons_prefix_cons, ih]
      exact and_congr_left fun _ => eq_comm

theorem sees_iff {cursor : Cursor} {keyword : Keyword} :
    cursor.sees keyword.spelling = true ↔ keyword.letters <+: cursor.ahead :=
  spells_iff keyword.letters cursor.rest

/-- At most one keyword comes next. -/
theorem eq_of_sees {cursor : Cursor} {k l : Keyword} (first : cursor.sees k.spelling = true)
    (second : cursor.sees l.spelling = true) : k = l :=
  Keyword.eq_of_both_begin (sees_iff.mp first) (sees_iff.mp second)

theorem sees_eq_false_of_ne {cursor : Cursor} {k l : Keyword}
    (first : cursor.sees k.spelling = true) (other : l ≠ k) : cursor.sees l.spelling = false := by
  rw [Bool.eq_false_iff]
  exact fun second => other (eq_of_sees second first)

theorem sees_eq_false_of_ahead {cursor : Cursor} (ended : cursor.ahead = []) (keyword : Keyword) :
    cursor.sees keyword.spelling = false := by
  rw [Bool.eq_false_iff]
  intro seen
  have begins := sees_iff.mp seen
  rw [ended, List.prefix_nil] at begins
  exact keyword.letters_ne_nil begins

/-- Moving over a symbol takes exactly its letters. -/
theorem ahead_of_advance {symbol : List Char} {cursor after : Cursor}
    (moved : cursor.advance symbol = (true, after)) : cursor.ahead = symbol ++ after.ahead := by
  induction symbol generalizing cursor with
  | nil =>
    cases moved
    rfl
  | cons letter symbol ih =>
    have skipped := rest_skipFrom Text.isBlank cursor.position cursor.rest
    simp only [advance, skipBlanks, skipWhile] at moved
    rcases Text.dropWhile_isBlank_cases cursor.rest with ⟨nothing, -⟩ | ⟨c, rest, found, -, some⟩
    · rw [nothing] at skipped
      split at moved
      · next reached => simp only [reached, reduceCtorEq] at skipped
      · cases moved
    · rw [found] at skipped
      split at moved
      · next position d left reached =>
        simp only [reached, List.cons.injEq] at skipped
        obtain ⟨rfl, rfl⟩ := skipped
        split at moved
        · next same =>
          subst same
          exact some.trans (congrArg (d :: ·) (ih moved))
        · cases moved
      · cases moved

theorem exists_advance_of_sees {cursor : Cursor} {keyword : Keyword}
    (seen : cursor.sees keyword.spelling = true) :
    ∃ after, cursor.advance keyword.letters = (true, after) := by
  have success := fst_advance keyword.letters cursor
  rw [show spells keyword.letters cursor.rest = true from seen] at success
  exact ⟨(cursor.advance keyword.letters).2, Prod.ext success rfl⟩

theorem sees_of_advance {cursor after : Cursor} {keyword : Keyword}
    (moved : cursor.advance keyword.letters = (true, after)) :
    cursor.sees keyword.spelling = true := by
  rw [sees_iff, ahead_of_advance moved]
  exact List.prefix_append _ _

theorem atEnd_iff (cursor : Cursor) : cursor.atEnd = true ↔ cursor.ahead = [] := by
  have skipped := rest_skipFrom Text.isBlank cursor.position cursor.rest
  rw [atEnd, skipBlanks, skipWhile, skipped, List.isEmpty_iff]
  rcases Text.dropWhile_isBlank_cases cursor.rest with ⟨nothing, none⟩ | ⟨c, rest, found, -, some⟩
  · simp only [nothing, ahead, none]
  · simp only [found, ahead, some, reduceCtorEq]

/-- The keywords lead from one place in a text to another. -/
def Passes : List Keyword → Cursor → Cursor → Prop
  | [], before, after => before = after
  | word :: words, before, after =>
    ∃ between, before.advance word.letters = (true, between) ∧ Passes words between after

theorem passes_append {front back : List Keyword} {before after : Cursor} :
    Passes (front ++ back) before after ↔
      ∃ between, Passes front before between ∧ Passes back between after := by
  induction front generalizing before with
  | nil => simp only [List.nil_append, Passes, exists_eq_left']
  | cons word front ih =>
    simp only [List.cons_append, Passes, ih]
    constructor
    · rintro ⟨first, moved, second, passed, rest⟩
      exact ⟨second, ⟨first, moved, passed⟩, rest⟩
    · rintro ⟨second, ⟨first, moved, passed⟩, rest⟩
      exact ⟨first, moved, second, passed, rest⟩

theorem Passes.trans {front back : List Keyword} {before between after : Cursor}
    (first : Passes front before between) (second : Passes back between after) :
    Passes (front ++ back) before after :=
  passes_append.mpr ⟨between, first, second⟩

theorem passes_singleton {word : Keyword} {before after : Cursor} :
    Passes [word] before after ↔ before.advance word.letters = (true, after) := by
  constructor
  · rintro ⟨between, moved, rfl⟩
    exact moved
  · intro moved
    exact ⟨after, moved, rfl⟩

theorem Passes.ahead {words : List Keyword} {before after : Cursor}
    (passed : Passes words before after) : before.ahead = Keyword.spell words ++ after.ahead := by
  induction words generalizing before with
  | nil =>
    cases passed
    rfl
  | cons word words ih =>
    obtain ⟨between, moved, rest⟩ := passed
    rw [ahead_of_advance moved, ih rest, Keyword.spell_cons, List.append_assoc]

/-- Where the letters of keywords are ahead, the keywords can be passed. -/
theorem exists_passes {words : List Keyword} {before : Cursor} {left : List Char}
    (spelled : before.ahead = Keyword.spell words ++ left) :
    ∃ after, Passes words before after ∧ after.ahead = left := by
  induction words generalizing before with
  | nil => exact ⟨before, rfl, spelled⟩
  | cons word words ih =>
    rw [Keyword.spell_cons, List.append_assoc] at spelled
    have seen : before.sees word.spelling = true := by
      rw [sees_iff, spelled]
      exact List.prefix_append _ _
    obtain ⟨between, moved⟩ := exists_advance_of_sees seen
    rw [ahead_of_advance moved] at spelled
    obtain ⟨after, passed, rest⟩ := ih (List.append_cancel_left spelled)
    exact ⟨after, ⟨between, moved, passed⟩, rest⟩

/-- There are no more keywords than characters. -/
theorem Passes.length_le {words : List Keyword} {before after : Cursor}
    (passed : Passes words before after) : words.length ≤ before.rest.length := by
  have bound := Keyword.length_le_length_spell words
  have total := Text.length_letters_le before.rest
  rw [show Text.letters before.rest = Keyword.spell words ++ after.ahead from passed.ahead,
    List.length_append] at total
  omega

theorem Passes.sees {word : Keyword} {words : List Keyword} {before after : Cursor}
    (passed : Passes (word :: words) before after) : before.sees word.spelling = true :=
  sees_of_advance passed.choose_spec.1

/-- Where keywords start in a text. -/
def starts : List Keyword → Cursor → List Nat
  | [], _ => []
  | word :: words, cursor =>
    cursor.skipBlanks.position :: starts words (cursor.advance word.letters).2

/-- The keywords after some others start where they do behind these. -/
theorem Passes.drop_starts {front : List Keyword} {before after : Cursor}
    (passed : Passes front before after) (back : List Keyword) :
    (starts (front ++ back) before).drop front.length = starts back after := by
  induction front generalizing before with
  | nil =>
    cases passed
    rfl
  | cons word front ih =>
    obtain ⟨between, moved, rest⟩ := passed
    rw [List.cons_append, starts, List.length_cons, List.drop_succ_cons, moved]
    exact ih rest

end Cursor

end BitMachine
