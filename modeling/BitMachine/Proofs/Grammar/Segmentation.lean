import BitMachine.Proofs.Grammar.Reading

/-! The keyword segmentation of a text. A text that spells keywords is cut into the stretches that
spell one keyword each and the gaps around them. Since no keyword is the beginning of another one,
there is at most one way to do so. -/

set_option autoImplicit false

namespace BitMachine

/-- A stretch of text spells a keyword: it has the keyword's letters, and a letter at either end. -/
structure Keyword.SpelledBy (keyword : Keyword) (stretch : List Char) : Prop where
  letters : Text.letters stretch = keyword.letters
  first : ∀ c ∈ stretch.head?, Text.isBlank c = false
  last : ∀ c ∈ stretch.getLast?, Text.isBlank c = false

/-- A text from a position on consists of keywords, each with the position where it starts, and of
blanks around them; `outside` collects these blanks. -/
inductive Segmentation : Nat → List Char → List (Keyword × Nat) → List Char → Prop where
  | done {position : Nat} {gap : List Char} (blank : ∀ c ∈ gap, Text.isBlank c = true) :
      Segmentation position gap [] gap
  | word {position : Nat} {gap stretch rest outside : List Char} {keyword : Keyword}
      {tokens : List (Keyword × Nat)} (blank : ∀ c ∈ gap, Text.isBlank c = true)
      (spelled : keyword.SpelledBy stretch)
      (more : Segmentation (position + gap.length + stretch.length) rest tokens outside) :
      Segmentation position (gap ++ (stretch ++ rest)) ((keyword, position + gap.length) :: tokens)
        (gap ++ outside)

namespace Keyword.SpelledBy

theorem exists_cons {keyword : Keyword} {stretch : List Char}
    (spelled : keyword.SpelledBy stretch) :
    ∃ c rest, stretch = c :: rest ∧ Text.isBlank c = false := by
  cases stretch with
  | nil => exact absurd spelled.letters.symm keyword.letters_ne_nil
  | cons c rest => exact ⟨c, rest, rfl, spelled.first c rfl⟩

end Keyword.SpelledBy

namespace Cursor

/-- Characters that satisfy `p` are skipped up to the first one that does not. -/
theorem skipWhile_append {p : Char → Bool} {gap : List Char} (position : Nat) (rest : List Char)
    (gaps : ∀ c ∈ gap, p c = true) (stops : ∀ c ∈ rest.head?, p c = false) :
    Cursor.skipWhile p ⟨position, gap ++ rest⟩ = ⟨position + gap.length, rest⟩ := by
  unfold skipWhile
  induction gap generalizing position with
  | nil =>
    cases rest with
    | nil => rfl
    | cons c rest =>
      have stop := stops c rfl
      simp only [List.nil_append, skipFrom, stop, Bool.false_eq_true, ↓reduceIte, List.length_nil,
        Nat.add_zero]
  | cons c gap ih =>
    have skips := gaps c (List.mem_cons_self ..)
    have others := ih (position + 1) fun d inside => gaps d (List.mem_cons_of_mem c inside)
    simp only [List.cons_append, skipFrom, skips, ↓reduceIte, List.length_cons]
    simp only at others
    rw [others]
    congr 1
    omega

theorem advance_cons_blank {symbol : List Char} {c : Char} {rest : List Char} (position : Nat)
    (blank : Text.isBlank c = true) (some : symbol ≠ []) :
    advance symbol ⟨position, c :: rest⟩ = advance symbol ⟨position + 1, rest⟩ := by
  cases symbol with
  | nil => exact absurd rfl some
  | cons letter symbol =>
    simp only [advance, skipBlanks, skipWhile, skipFrom, blank, ↓reduceIte]

theorem advance_cons_solid {symbol : List Char} {c : Char} {rest : List Char} (position : Nat)
    (solid : Text.isBlank c = false) :
    advance (c :: symbol) ⟨position, c :: rest⟩ = advance symbol ⟨position + 1, rest⟩ := by
  simp only [advance, skipBlanks, skipWhile, skipFrom, solid, Bool.false_eq_true, ↓reduceIte]

/-- Moving over the letters of a stretch that ends with a letter leads right behind it. -/
theorem advance_stretch {stretch : List Char} (rest : List Char) (position : Nat)
    (last : ∀ c ∈ stretch.getLast?, Text.isBlank c = false) :
    advance (Text.letters stretch) ⟨position, stretch ++ rest⟩ =
      (true, ⟨position + stretch.length, rest⟩) := by
  induction stretch generalizing position with
  | nil => rfl
  | cons c stretch ih =>
    have further : ∀ d ∈ stretch.getLast?, Text.isBlank d = false := by
      intro d ends
      cases stretch with
      | nil => cases ends
      | cons e stretch => exact last d ends
    have moved := ih (position + 1) further
    cases blank : Text.isBlank c with
    | true =>
      have more : Text.letters stretch ≠ [] := by
        intro nothing
        cases reached : stretch.getLast? with
        | none =>
          cases List.getLast?_eq_none_iff.mp reached
          exact absurd (last c rfl) (by simp only [blank, Bool.true_eq_false, not_false_eq_true])
        | some d =>
          have solid := further d reached
          have inside : d ∈ Text.letters stretch :=
            List.mem_filter.mpr ⟨List.mem_of_getLast? reached, by simp only [solid, Bool.not_false]⟩
          rw [nothing] at inside
          cases inside
      rw [Text.letters_cons_blank blank, List.cons_append, advance_cons_blank position blank more,
        moved, List.length_cons, Nat.add_right_comm, Nat.add_assoc]
    | false =>
      rw [Text.letters_cons_solid blank, List.cons_append, advance_cons_solid position blank,
        moved, List.length_cons, Nat.add_right_comm, Nat.add_assoc]

end Cursor

/-- Letters that a text begins with are those of a stretch at its front. -/
theorem Text.exists_stretch {symbol more text : List Char}
    (spelled : Text.letters text = symbol ++ more) :
    ∃ stretch rest, text = stretch ++ rest ∧ Text.letters stretch = symbol ∧
      Text.letters rest = more ∧ ∀ c ∈ stretch.getLast?, Text.isBlank c = false := by
  induction text generalizing symbol with
  | nil =>
    obtain ⟨rfl, rfl⟩ := List.append_eq_nil_iff.mp spelled.symm
    exact ⟨[], [], rfl, rfl, rfl, nofun⟩
  | cons c text ih =>
    cases symbol with
    | nil => exact ⟨[], c :: text, rfl, rfl, spelled, nofun⟩
    | cons letter symbol =>
      cases blank : Text.isBlank c with
      | true =>
        rw [Text.letters_cons_blank blank] at spelled
        obtain ⟨stretch, rest, rfl, letters, left, last⟩ := ih spelled
        refine ⟨c :: stretch, rest, rfl, (Text.letters_cons_blank blank stretch).trans letters,
          left, ?_⟩
        cases stretch with
        | nil => cases letters
        | cons d stretch => exact last
      | false =>
        rw [Text.letters_cons_solid blank, List.cons_append, List.cons.injEq] at spelled
        obtain ⟨rfl, spelled⟩ := spelled
        obtain ⟨stretch, rest, rfl, rfl, left, last⟩ := ih spelled
        refine ⟨c :: stretch, rest, rfl, Text.letters_cons_solid blank stretch, left, ?_⟩
        cases stretch with
        | nil =>
          intro d same
          cases same
          exact blank
        | cons d stretch => exact last

/-- Moving over a symbol leads right behind the stretch of text that has its letters and ends with the
last of them. -/
theorem Cursor.exists_stretch_of_advance {symbol : List Char} {cursor after : Cursor}
    (moved : cursor.advance symbol = (true, after)) :
    ∃ stretch, cursor.rest = stretch ++ after.rest ∧
      after.position = cursor.position + stretch.length ∧ Text.letters stretch = symbol ∧
      ∀ c ∈ stretch.getLast?, Text.isBlank c = false := by
  obtain ⟨stretch, rest, split, rfl, -, last⟩ := Text.exists_stretch (ahead_of_advance moved)
  obtain ⟨position, text⟩ := cursor
  dsimp only at split
  subst split
  rw [advance_stretch rest position last] at moved
  cases moved
  exact ⟨stretch, rfl, rfl, rfl, last⟩

namespace Keyword.SpelledBy

theorem advance {keyword : Keyword} {stretch : List Char} (spelled : keyword.SpelledBy stretch)
    (rest : List Char) (position : Nat) :
    Cursor.advance keyword.letters ⟨position, stretch ++ rest⟩ =
      (true, ⟨position + stretch.length, rest⟩) := by
  rw [← spelled.letters]
  exact Cursor.advance_stretch rest position spelled.last

/-- A keyword that stands right at a cursor is spelled by the text that moving over it leaves
behind. -/
theorem of_advance {keyword : Keyword} {cursor after : Cursor}
    (solid : ∀ c ∈ cursor.rest.head?, Text.isBlank c = false)
    (moved : cursor.advance keyword.letters = (true, after)) :
    ∃ stretch, keyword.SpelledBy stretch ∧ cursor.rest = stretch ++ after.rest ∧
      after.position = cursor.position + stretch.length := by
  obtain ⟨stretch, split, position, letters, last⟩ := Cursor.exists_stretch_of_advance moved
  refine ⟨stretch, ⟨letters, ?_, last⟩, split, position⟩
  rw [split] at solid
  cases stretch with
  | nil => nofun
  | cons c stretch => exact solid

/-- The blanks in front of a keyword are skipped. -/
theorem skipWhile {p : Char → Bool} {keyword : Keyword} {gap stretch : List Char}
    (spelled : keyword.SpelledBy stretch) (position : Nat) (rest : List Char)
    (blank : ∀ c, p c = true → Text.isBlank c = true) (gaps : ∀ c ∈ gap, p c = true) :
    Cursor.skipWhile p ⟨position, gap ++ (stretch ++ rest)⟩ =
      ⟨position + gap.length, stretch ++ rest⟩ := by
  refine Cursor.skipWhile_append position (stretch ++ rest) gaps ?_
  obtain ⟨c, stretch, rfl, solid⟩ := spelled.exists_cons
  intro d same
  cases same
  rw [Bool.eq_false_iff]
  intro skips
  rw [blank c skips] at solid
  cases solid

end Keyword.SpelledBy

namespace Segmentation

theorem letters {position : Nat} {text outside : List Char} {tokens : List (Keyword × Nat)}
    (cut : Segmentation position text tokens outside) :
    Text.letters text = Keyword.spell (tokens.map (·.1)) := by
  induction cut with
  | done blank => exact Text.letters_eq_nil blank
  | word blank spelled more ih =>
    rw [Text.letters_append, Text.letters_append, Text.letters_eq_nil blank, spelled.letters, ih]
    rfl

theorem starts {position : Nat} {text outside : List Char} {tokens : List (Keyword × Nat)}
    (cut : Segmentation position text tokens outside) :
    tokens.map (·.2) = Cursor.starts (tokens.map (·.1)) ⟨position, text⟩ := by
  induction cut with
  | done => rfl
  | @word position gap stretch rest outside keyword tokens blank spelled more ih =>
    have skipped : Cursor.skipBlanks ⟨position, gap ++ (stretch ++ rest)⟩ =
        ⟨position + gap.length, stretch ++ rest⟩ :=
      spelled.skipWhile position rest (fun _ => id) blank
    rw [List.map_cons, List.map_cons, Cursor.starts, skipped, ← Cursor.advance_skipBlanks, skipped,
      spelled.advance, ih]

/-- What stands outside of the keywords are blanks of the text. -/
theorem blank_of_outside {position : Nat} {text outside : List Char}
    {tokens : List (Keyword × Nat)} (cut : Segmentation position text tokens outside) :
    ∀ c ∈ outside, c ∈ text ∧ Text.isBlank c = true := by
  induction cut with
  | done blank => exact fun c inside => ⟨inside, blank c inside⟩
  | word blank spelled more ih =>
    intro c inside
    rcases List.mem_append.mp inside with gap | later
    · exact ⟨List.mem_append_left _ gap, blank c gap⟩
    · obtain ⟨further, white⟩ := ih c later
      exact ⟨List.mem_append_right _ (List.mem_append_right _ further), white⟩

/-- A text that spells keywords has a segmentation into them. -/
theorem exists_of_letters {words : List Keyword} {text : List Char} (position : Nat)
    (spelled : Text.letters text = Keyword.spell words) :
    ∃ tokens outside, tokens.map (·.1) = words ∧ Segmentation position text tokens outside := by
  induction words generalizing position text with
  | nil =>
    refine ⟨[], text, rfl, .done fun c inside => ?_⟩
    cases blank : Text.isBlank c with
    | true => rfl
    | false =>
      have kept : c ∈ Text.letters text :=
        List.mem_filter.mpr ⟨inside, by simp only [blank, Bool.not_false]⟩
      rw [spelled] at kept
      cases kept
  | cons word words ih =>
    have whole : text.takeWhile Text.isBlank ++ text.dropWhile Text.isBlank = text :=
      List.takeWhile_append_dropWhile
    rcases Text.dropWhile_isBlank_cases text with ⟨-, nothing⟩ | ⟨c, middle, found, solid, some⟩
    · rw [nothing, Keyword.spell_cons, eq_comm, List.append_eq_nil_iff] at spelled
      exact absurd spelled.1 word.letters_ne_nil
    · rw [some, ← Text.letters_cons_solid solid, Keyword.spell_cons] at spelled
      obtain ⟨stretch, rest, split, letters, left, last⟩ := Text.exists_stretch spelled
      have stands : word.SpelledBy stretch := by
        refine ⟨letters, ?_, last⟩
        cases stretch with
        | nil => nofun
        | cons d stretch =>
          intro e same
          cases same
          cases split
          exact solid
      obtain ⟨tokens, outside, rfl, more⟩ :=
        ih (position + (text.takeWhile Text.isBlank).length + stretch.length) left
      have gaps : ∀ d ∈ text.takeWhile Text.isBlank, Text.isBlank d = true :=
        List.all_eq_true.mp List.all_takeWhile
      have cut := Segmentation.word gaps stands more
      rw [← split, ← found, whole] at cut
      exact ⟨_, _, rfl, cut⟩

/-- A text has at most one segmentation. -/
theorem unique {position : Nat} {text outside other : List Char}
    {tokens others : List (Keyword × Nat)} (cut : Segmentation position text tokens outside)
    (again : Segmentation position text others other) : tokens = others ∧ outside = other := by
  have same : tokens.map (·.1) = others.map (·.1) :=
    Keyword.spell_injective (cut.letters.symm.trans again.letters)
  generalize whole : text = copy at again
  induction cut generalizing others other copy with
  | done =>
    cases again with
    | done => exact ⟨rfl, whole⟩
    | word => cases same
  | @word position gap stretch rest outside keyword tokens blank spelled more ih =>
    cases again with
    | done => cases same
    | @word _ gap' stretch' rest' outside' keyword' tokens' blank' spelled' more' =>
      rw [List.map_cons, List.map_cons, List.cons.injEq] at same
      obtain ⟨rfl, same⟩ := same
      have here := spelled.skipWhile position rest (fun _ => id) blank
      rw [whole, spelled'.skipWhile position rest' (fun _ => id) blank', Cursor.mk.injEq] at here
      obtain ⟨length, behind⟩ := here
      have moved := spelled.advance rest 0
      rw [← behind, spelled'.advance rest' 0, Prod.mk.injEq, Cursor.mk.injEq] at moved
      obtain ⟨-, -, rfl⟩ := moved
      cases List.append_cancel_right behind
      cases List.append_cancel_right whole
      obtain ⟨rfl, rfl⟩ := ih same rest' rfl more'
      exact ⟨rfl, rfl⟩

end Segmentation

end BitMachine
