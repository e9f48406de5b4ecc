import Mathlib.Data.Set.Basic
import BitMachine.Proofs.Grammar.DescentSoundness

/-! What a reader that looks one keyword ahead makes of a text, told by the sequences of keywords
that may still come. Reading a phrase turns what may come before it into what may come behind it, as
far as the keyword that comes next can tell. Where reading fails, what was passed can be completed,
but not with the keyword that comes next; or nothing that starts with what was passed is free of
objections beyond the grammar. -/

set_option autoImplicit false

namespace BitMachine

open Cursor (Passes)

/-- Only one sequence of keywords leads from one place to another. -/
theorem Cursor.Passes.unique {words other : List Keyword} {before after : Cursor}
    (one : Passes words before after) (two : Passes other before after) : words = other :=
  Keyword.spell_injective (List.append_cancel_right (one.ahead.symm.trans two.ahead))

/-- The sequences of keywords that may still come, and those among them to which there is no
objection beyond the grammar. -/
@[ext]
structure Outlook where
  all : Set (List Keyword)
  fine : Set (List Keyword)
  fine_le : fine ⊆ all

namespace Outlook

/-- Something may come, though possibly nothing more. -/
def Inhabited (outlook : Outlook) : Prop :=
  ∃ words, words ∈ outlook.all

/-- Nothing more may come. -/
def finished : Outlook where
  all := {[]}
  fine := {[]}
  fine_le := subset_rfl

/-- A keyword may come, and behind it what is given. -/
def keyword (word : Keyword) (rest : Outlook) : Outlook where
  all := {text | ∃ tail ∈ rest.all, text = word :: tail}
  fine := {text | ∃ tail ∈ rest.fine, text = word :: tail}
  fine_le := by
    rintro _ ⟨tail, inside, rfl⟩
    exact ⟨tail, rest.fine_le inside, rfl⟩

/-- One or the other may come. -/
def either (one other : Outlook) : Outlook where
  all := one.all ∪ other.all
  fine := one.fine ∪ other.fine
  fine_le := Set.union_subset_union one.fine_le other.fine_le

/-- What may come meets an objection unless a condition holds. -/
def provided (condition : Prop) (rest : Outlook) : Outlook where
  all := rest.all
  fine := {text | condition ∧ text ∈ rest.fine}
  fine_le _ inside := rest.fine_le inside.2

/-- A phrase may come, and behind it what is given for it. -/
def phrase {φ : Type} (words : φ → List Keyword) (fine : φ → Prop) (rest : φ → Outlook) :
    Outlook where
  all := {text | ∃ phrase, ∃ tail ∈ (rest phrase).all, text = words phrase ++ tail}
  fine := {text | ∃ phrase, fine phrase ∧ ∃ tail ∈ (rest phrase).fine, text = words phrase ++ tail}
  fine_le := by
    rintro _ ⟨phrase, -, tail, inside, rfl⟩
    exact ⟨phrase, tail, (rest phrase).fine_le inside, rfl⟩

theorem inhabited_keyword {word : Keyword} {rest : Outlook} :
    (keyword word rest).Inhabited ↔ rest.Inhabited := by
  constructor
  · rintro ⟨_, tail, inside, -⟩
    exact ⟨tail, inside⟩
  · rintro ⟨tail, inside⟩
    exact ⟨word :: tail, tail, inside, rfl⟩

theorem Inhabited.left {one other : Outlook} (inhabited : one.Inhabited) :
    (either one other).Inhabited := by
  obtain ⟨words, inside⟩ := inhabited
  exact ⟨words, Or.inl inside⟩

theorem Inhabited.right {one other : Outlook} (inhabited : other.Inhabited) :
    (either one other).Inhabited := by
  obtain ⟨words, inside⟩ := inhabited
  exact ⟨words, Or.inr inside⟩

section Phrases

variable {φ α β : Type} {words : φ → List Keyword} {fine : φ → Prop} {rest : φ → Outlook}

theorem inhabited_phrase (member : φ) (inhabited : (rest member).Inhabited) :
    (phrase words fine rest).Inhabited := by
  obtain ⟨tail, inside⟩ := inhabited
  exact ⟨words member ++ tail, member, tail, inside, rfl⟩

/-- Phrases of two sorts. -/
theorem phrase_either (left : α → φ) (right : β → φ)
    (cover : ∀ member, (∃ a, member = left a) ∨ ∃ b, member = right b) :
    phrase words fine rest =
      either (phrase (fun a => words (left a)) (fun a => fine (left a)) fun a => rest (left a))
        (phrase (fun b => words (right b)) (fun b => fine (right b)) fun b => rest (right b)) := by
  ext text
  · constructor
    · rintro ⟨member, tail, inside, rfl⟩
      rcases cover member with ⟨a, rfl⟩ | ⟨b, rfl⟩
      · exact Or.inl ⟨a, tail, inside, rfl⟩
      · exact Or.inr ⟨b, tail, inside, rfl⟩
    · rintro (⟨a, tail, inside, rfl⟩ | ⟨b, tail, inside, rfl⟩)
      · exact ⟨left a, tail, inside, rfl⟩
      · exact ⟨right b, tail, inside, rfl⟩
  · constructor
    · rintro ⟨member, good, tail, inside, rfl⟩
      rcases cover member with ⟨a, rfl⟩ | ⟨b, rfl⟩
      · exact Or.inl ⟨a, good, tail, inside, rfl⟩
      · exact Or.inr ⟨b, good, tail, inside, rfl⟩
    · rintro (⟨a, good, tail, inside, rfl⟩ | ⟨b, good, tail, inside, rfl⟩)
      · exact ⟨left a, good, tail, inside, rfl⟩
      · exact ⟨right b, good, tail, inside, rfl⟩

/-- Phrases that consist of two parts. What is fine about the second one may depend on the first. -/
theorem phrase_append (front : α → List Keyword) (back : β → List Keyword) (good : α → Prop)
    (fits : α → β → Prop) (join : α → β → φ) (cover : ∀ member, ∃ a b, member = join a b)
    (spelled : ∀ a b, words (join a b) = front a ++ back b)
    (judged : ∀ a b, fine (join a b) ↔ good a ∧ fits a b) :
    phrase words fine rest =
      phrase front good fun a => phrase back (fits a) fun b => rest (join a b) := by
  ext text
  · constructor
    · rintro ⟨member, tail, inside, rfl⟩
      obtain ⟨a, b, rfl⟩ := cover member
      exact ⟨a, back b ++ tail, ⟨b, tail, inside, rfl⟩, by rw [spelled, List.append_assoc]⟩
    · rintro ⟨a, _, ⟨b, tail, inside, rfl⟩, rfl⟩
      exact ⟨join a b, tail, inside, by rw [spelled, List.append_assoc]⟩
  · constructor
    · rintro ⟨member, fair, tail, inside, rfl⟩
      obtain ⟨a, b, rfl⟩ := cover member
      obtain ⟨first, second⟩ := (judged a b).mp fair
      exact ⟨a, first, back b ++ tail, ⟨b, second, tail, inside, rfl⟩,
        by rw [spelled, List.append_assoc]⟩
    · rintro ⟨a, first, _, ⟨b, second, tail, inside, rfl⟩, rfl⟩
      exact ⟨join a b, (judged a b).mpr ⟨first, second⟩, tail, inside,
        by rw [spelled, List.append_assoc]⟩

/-- Phrases that start with a keyword. -/
theorem phrase_cons (word : Keyword) :
    phrase (fun member => word :: words member) fine rest =
      keyword word (phrase words fine rest) := by
  ext text
  · constructor
    · rintro ⟨member, tail, inside, rfl⟩
      exact ⟨words member ++ tail, ⟨member, tail, inside, rfl⟩, rfl⟩
    · rintro ⟨_, ⟨member, tail, inside, rfl⟩, rfl⟩
      exact ⟨member, tail, inside, rfl⟩
  · constructor
    · rintro ⟨member, good, tail, inside, rfl⟩
      exact ⟨words member ++ tail, ⟨member, good, tail, inside, rfl⟩, rfl⟩
    · rintro ⟨_, ⟨member, good, tail, inside, rfl⟩, rfl⟩
      exact ⟨member, good, tail, inside, rfl⟩

theorem phrase_keyword {word : Keyword} (back : φ → List Keyword)
    (spelled : ∀ member, words member = word :: back member) :
    phrase words fine rest = keyword word (phrase back fine rest) := by
  rw [show words = fun member => word :: back member from funext spelled, phrase_cons]

/-- An objection to a phrase may be made behind it. -/
theorem phrase_provided :
    phrase words fine rest =
      phrase words (fun _ => True) fun member => provided (fine member) (rest member) := by
  ext text
  · exact Iff.rfl
  · constructor
    · rintro ⟨member, good, tail, inside, rfl⟩
      exact ⟨member, trivial, tail, ⟨good, inside⟩, rfl⟩
    · rintro ⟨member, -, tail, ⟨good, inside⟩, rfl⟩
      exact ⟨member, good, tail, inside, rfl⟩

theorem phrase_and (condition : Prop) :
    phrase words (fun member => condition ∧ fine member) rest =
      provided condition (phrase words fine rest) := by
  ext text
  · exact Iff.rfl
  · constructor
    · rintro ⟨member, ⟨holds, good⟩, tail, inside, rfl⟩
      exact ⟨holds, member, good, tail, inside, rfl⟩
    · rintro ⟨holds, member, good, tail, inside, rfl⟩
      exact ⟨member, ⟨holds, good⟩, tail, inside, rfl⟩

theorem phrase_congr {good : φ → Prop} (judged : ∀ member, fine member ↔ good member) :
    phrase words fine rest = phrase words good rest := by
  rw [show fine = good from funext fun member => propext (judged member)]

/-- The phrase without keywords. -/
theorem phrase_nil (rest : Outlook) :
    phrase (fun _ : Unit => []) (fun _ => True) (fun _ => rest) = rest := by
  ext text <;> simp [phrase]

/-- The phrase of one keyword. -/
theorem phrase_singleton (word : Keyword) (rest : Outlook) :
    phrase (fun _ : Unit => [word]) (fun _ => True) (fun _ => rest) = keyword word rest :=
  (phrase_cons word).trans (congrArg (keyword word) (phrase_nil rest))

end Phrases

/-- What may come does not start with one of the given keywords. -/
def Avoids (outlook : Outlook) (avoided : List Keyword) : Prop :=
  ∀ word ∈ avoided, ∀ tail, word :: tail ∉ outlook.all

/-- What may come does not start with the keyword that comes next. -/
def Excluded (outlook : Outlook) (cursor : Cursor) : Prop :=
  ∀ word : Keyword, cursor.sees word.spelling = true → ∀ tail, word :: tail ∉ outlook.all

section Starts

variable {one other rest : Outlook} {small large avoided : List Keyword} {cursor : Cursor}
  {word : Keyword}

theorem Avoids.mono (avoids : rest.Avoids large) (inside : ∀ word ∈ small, word ∈ large) :
    rest.Avoids small :=
  fun word member => avoids word (inside word member)

theorem avoids_keyword (rest : Outlook) (absent : word ∉ avoided) :
    (keyword word rest).Avoids avoided := by
  rintro start member tail ⟨words, -, same⟩
  exact absent ((List.cons.inj same).1 ▸ member)

theorem Avoids.either (left : one.Avoids avoided) (right : other.Avoids avoided) :
    (either one other).Avoids avoided := by
  rintro word member tail (inside | inside)
  · exact left word member tail inside
  · exact right word member tail inside

theorem Avoids.excluded (avoids : rest.Avoids avoided) (member : word ∈ avoided)
    (seen : cursor.sees word.spelling = true) : rest.Excluded cursor := by
  intro start first
  rw [Cursor.eq_of_sees first seen]
  exact avoids word member

theorem Avoids.excluded_either {first second : Keyword} (avoids : rest.Avoids avoided)
    (one : first ∈ avoided) (two : second ∈ avoided)
    (seen : (cursor.sees first.spelling || cursor.sees second.spelling) = true) :
    rest.Excluded cursor := by
  rcases Bool.or_eq_true_iff.mp seen with here | there
  · exact avoids.excluded one here
  · exact avoids.excluded two there

theorem excluded_keyword (rest : Outlook) (unseen : cursor.sees word.spelling ≠ true) :
    (keyword word rest).Excluded cursor := by
  rintro start seen tail ⟨words, -, same⟩
  exact unseen ((List.cons.inj same).1 ▸ seen)

theorem finished_excluded (cursor : Cursor) : finished.Excluded cursor :=
  fun _ _ _ => List.cons_ne_nil _ _

theorem Excluded.either (left : one.Excluded cursor) (right : other.Excluded cursor) :
    (either one other).Excluded cursor := by
  rintro word seen tail (inside | inside)
  · exact left word seen tail inside
  · exact right word seen tail inside

end Starts

end Outlook

namespace Reader

variable {α β : Type}

/-- An objection to a text that the grammar does not make. -/
inductive Objection : Cause → Prop where
  | clash : Objection (.unexpected ["Conditional goto with different bit constant"])
  | taken (number : Json) : Objection (.duplicateLine number)
  | nested : Objection .nestedTooDeeply

/-- The keywords were passed, and what could come next is what may now come, as far as the keyword
that does come next can tell. -/
structure Leads (outlook rest : Outlook) (before after : Cursor) (words : List Keyword) : Prop where
  passed : Passes words before after
  opens : ∃ tail, words ++ tail ∈ outlook.all
  onward : rest.Inhabited
  same : ∀ word : Keyword, after.sees word.spelling = true → ∀ tail,
    words ++ word :: tail ∈ outlook.all ↔ word :: tail ∈ rest.all
  fine : ∀ word : Keyword, after.sees word.spelling = true → ∀ tail,
    words ++ word :: tail ∈ outlook.fine → word :: tail ∈ rest.fine

/-- Where reading stops behind some keywords: in front of the next letter, or inside of a keyword
that was awaited. In the second case no other keyword that may come has the same first letter. -/
inductive Halts (outlook : Outlook) (words : List Keyword) (reached : Cursor) : Nat → Prop where
  | before : Halts outlook words reached reached.skipBlanks.position
  | within {word : Keyword} {stuck : Cursor} (awaited : ∃ tail, words ++ word :: tail ∈ outlook.all)
      (alone : ∀ (start : Keyword) (tail : List Keyword), words ++ start :: tail ∈ outlook.all →
        start.letters.head? = word.letters.head? → start = word)
      (short : reached.advance word.letters = (false, stuck)) :
      Halts outlook words reached stuck.position

/-- The keywords were passed and can be completed, but not with the keyword that comes next. -/
structure Stuck (outlook : Outlook) (before : Cursor) (position : Nat) (words : List Keyword)
    (reached : Cursor) : Prop where
  passed : Passes words before reached
  opens : ∃ tail, words ++ tail ∈ outlook.all
  none : ∀ word : Keyword, reached.sees word.spelling = true → ∀ tail,
    words ++ word :: tail ∉ outlook.all
  halts : Halts outlook words reached position

/-- There is an objection to everything that starts with the keywords that were passed. -/
structure Flawed (outlook : Outlook) (before : Cursor) (words : List Keyword) : Prop where
  some : words ≠ []
  passed : ∃ reached, Passes words before reached
  opens : ∃ tail, words ++ tail ∈ outlook.all
  none : ∀ tail, words ++ tail ∉ outlook.fine

/-- How reading may end where the outlook is given. Behind what was read the outlook is the other
one. -/
inductive Recognized (outlook : Outlook) (rest : α → Outlook) (before : Cursor) :
    EStateM.Result Rejection Cursor α → Prop where
  | read {value : α} {after : Cursor} {words : List Keyword}
      (leads : Leads outlook (rest value) before after words) :
      Recognized outlook rest before (.ok value after)
  | stuck {rejection : Rejection} {stop reached : Cursor} {words : List Keyword}
      (stuck : Stuck outlook before rejection.position words reached)
      (started : words = [] → rejection.position = reached.skipBlanks.position) :
      Recognized outlook rest before (.error rejection stop)
  | flawed {rejection : Rejection} {stop : Cursor} {words : List Keyword}
      (objection : Objection rejection.cause) (flawed : Flawed outlook before words) :
      Recognized outlook rest before (.error rejection stop)

/-- A keyword may be read before or after the blanks in front of it. -/
theorem keyword_skipBlanks (word : Keyword) (cursor : Cursor) :
    keyword word cursor.skipBlanks = keyword word cursor := by
  unfold keyword symbol
  rw [Cursor.advance_skipBlanks]

theorem bind_skipBlanks {first : Reader α} (next : α → Reader β) {cursor : Cursor}
    (same : first cursor.skipBlanks = first cursor) :
    (first >>= next) cursor.skipBlanks = (first >>= next) cursor := by
  change EStateM.bind _ _ _ = EStateM.bind _ _ _
  unfold EStateM.bind
  rw [same]

section Rules

variable {outlook other one between : Outlook} {before middle after : Cursor}
  {front words : List Keyword}

theorem Recognized.inhabited {rest : α → Outlook} {outcome : EStateM.Result Rejection Cursor α}
    (recognized : Recognized outlook rest before outcome) : outlook.Inhabited := by
  cases recognized with
  | read leads => exact ⟨_, leads.opens.choose_spec⟩
  | stuck stuck _ => exact ⟨_, stuck.opens.choose_spec⟩
  | flawed _ flawed => exact ⟨_, flawed.opens.choose_spec⟩

/-- The first of some keywords that were passed, or that come next behind them, was seen. -/
theorem sees_front {word : Keyword} (passed : Passes words before after)
    (seen : after.sees word.spelling = true) (tail : List Keyword) :
    ∃ head more, words ++ word :: tail = head :: more ∧ before.sees head.spelling = true := by
  cases words with
  | nil =>
    cases passed
    exact ⟨word, tail, rfl, seen⟩
  | cons head words => exact ⟨head, words ++ word :: tail, rfl, passed.sees⟩

/-- What can be completed behind some keywords can be completed together with them. -/
theorem Leads.complete (leads : Leads outlook between before middle front)
    (passed : Passes words middle after) (opens : ∃ tail, words ++ tail ∈ between.all) :
    ∃ tail, front ++ words ++ tail ∈ outlook.all := by
  cases words with
  | nil => simpa using leads.opens
  | cons head words =>
    obtain ⟨tail, inside⟩ := opens
    refine ⟨tail, ?_⟩
    rw [List.append_assoc]
    exact (leads.same head passed.sees _).mpr inside

/-- Where two readers run one after the other, what the second one finds is found from the start.
The keyword that decides is the first one that the second reader passes, or the one that comes
next. -/
theorem Leads.then {rest : α → Outlook} {outcome : EStateM.Result Rejection Cursor α}
    (leads : Leads outlook between before middle front)
    (recognized : Recognized between rest middle outcome) :
    Recognized outlook rest before outcome := by
  have decide : ∀ {words : List Keyword} {reached : Cursor} {word : Keyword},
      Passes words middle reached → reached.sees word.spelling = true → ∀ tail,
      front ++ words ++ word :: tail ∈ outlook.all ↔ words ++ word :: tail ∈ between.all := by
    intro words reached word passed seen tail
    obtain ⟨head, more, equal, first⟩ := sees_front passed seen tail
    rw [List.append_assoc, equal]
    exact leads.same head first more
  cases recognized with
  | read next =>
    refine .read ⟨leads.passed.trans next.passed, leads.complete next.passed next.opens,
      next.onward, ?_, ?_⟩
    · intro word seen tail
      exact (decide next.passed seen tail).trans (next.same word seen tail)
    · intro word seen tail inside
      obtain ⟨head, more, equal, first⟩ := sees_front next.passed seen tail
      rw [List.append_assoc, equal] at inside
      exact next.fine word seen tail (equal ▸ leads.fine head first more inside)
  | @stuck rejection stop reached words stuck started =>
    refine .stuck ⟨leads.passed.trans stuck.passed, leads.complete stuck.passed stuck.opens, ?_, ?_⟩
      fun nothing => started (List.append_eq_nil_iff.mp nothing).2
    · intro word seen tail inside
      exact stuck.none word seen tail ((decide stuck.passed seen tail).mp inside)
    · obtain ⟨cause, position⟩ := rejection
      obtain ⟨passed, -, -, halts⟩ := stuck
      cases words with
      | nil =>
        -- The second reader passed nothing, so there is no keyword to carry an awaited one over.
        rw [started rfl]
        exact .before
      | cons head words =>
        cases halts with
        | before => exact .before
        | within awaited alone short =>
          obtain ⟨tail, inside⟩ := awaited
          refine .within ⟨tail, ?_⟩ (fun other tail inside => alone other tail ?_) short
          · rw [List.append_assoc]
            exact (leads.same head passed.sees _).mpr inside
          · rw [List.append_assoc] at inside
            exact (leads.same head passed.sees _).mp inside
  | @flawed rejection stop words objection flawed =>
    obtain ⟨some, ⟨reached, passed⟩, opens, none⟩ := flawed
    cases words with
    | nil => exact absurd rfl some
    | cons head words =>
      refine .flawed objection ⟨by simp, ⟨reached, leads.passed.trans passed⟩,
        leads.complete passed opens, ?_⟩
      intro tail inside
      rw [List.append_assoc] at inside
      exact none tail (leads.fine head passed.sees _ inside)

/-- A refusal does not depend on what may come behind what was to be read. -/
theorem Recognized.refused {rest : α → Outlook} {last : β → Outlook} {rejection : Rejection}
    {stop : Cursor} (recognized : Recognized outlook rest before (.error rejection stop)) :
    Recognized outlook last before (.error rejection stop) := by
  cases recognized with
  | stuck stuck started => exact .stuck stuck started
  | flawed objection flawed => exact .flawed objection flawed

/-- What follows a successful start is judged together with it. -/
theorem Recognized.continue {first : Reader α} {next : α → Reader β} {rest : α → Outlook}
    {last : β → Outlook} (recognized : Recognized outlook rest before (first before))
    (continues : ∀ value middle words, first before = .ok value middle →
      Leads outlook (rest value) before middle words →
      Recognized outlook last before (next value middle)) :
    Recognized outlook last before ((first >>= next) before) := by
  cases done : first before with
  | ok value middle =>
    rw [done] at recognized
    rw [bind_of_ok done]
    cases recognized with
    | read leads => exact continues value middle _ done leads
  | error rejection stop =>
    rw [done] at recognized
    rw [bind_of_error done]
    exact recognized.refused

theorem Recognized.bind {first : Reader α} {next : α → Reader β} {rest : α → Outlook}
    {last : β → Outlook} (recognized : Recognized outlook rest before (first before))
    (continues : ∀ value middle, first before = .ok value middle →
      Recognized (rest value) last middle (next value middle)) :
    Recognized outlook last before ((first >>= next) before) :=
  recognized.continue fun value middle _ done leads => leads.then (continues value middle done)

/-- Another outlook that cannot be told from the given one by the keyword that comes next. -/
theorem Recognized.agree {rest : α → Outlook} {outcome : EStateM.Result Rejection Cursor α}
    (recognized : Recognized other rest before outcome) (inhabited : outlook.Inhabited)
    (same : ∀ word : Keyword, before.sees word.spelling = true → ∀ tail,
      word :: tail ∈ outlook.all ↔ word :: tail ∈ other.all)
    (fine : ∀ word : Keyword, before.sees word.spelling = true → ∀ tail,
      word :: tail ∈ outlook.fine → word :: tail ∈ other.fine) :
    Recognized outlook rest before outcome := by
  have leads : Leads outlook other before before [] :=
    ⟨rfl, inhabited, recognized.inhabited, same, fine⟩
  exact leads.then recognized

theorem Recognized.left {rest : α → Outlook} {outcome : EStateM.Result Rejection Cursor α}
    (recognized : Recognized one rest before outcome) (excluded : other.Excluded before) :
    Recognized (.either one other) rest before outcome := by
  refine recognized.agree recognized.inhabited.left ?_ ?_
  · intro word seen tail
    exact ⟨fun found => found.resolve_right (excluded word seen tail), Or.inl⟩
  · intro word seen tail found
    exact found.resolve_right fun inside => excluded word seen tail (other.fine_le inside)

theorem Recognized.right {rest : α → Outlook} {outcome : EStateM.Result Rejection Cursor α}
    (recognized : Recognized other rest before outcome) (excluded : one.Excluded before) :
    Recognized (.either one other) rest before outcome := by
  refine recognized.agree recognized.inhabited.right ?_ ?_
  · intro word seen tail
    exact ⟨fun found => found.resolve_left (excluded word seen tail), Or.inr⟩
  · intro word seen tail found
    exact found.resolve_left fun inside => excluded word seen tail (one.fine_le inside)

theorem recognized_pure (rest : α → Outlook) (value : α) (inhabited : (rest value).Inhabited) :
    Recognized (rest value) rest before (.ok value before) := by
  have stays : Leads (rest value) (rest value) before before [] :=
    ⟨rfl, inhabited, inhabited, fun _ _ _ => Iff.rfl, fun _ _ _ inside => inside⟩
  exact .read stays

/-- The result does not matter. -/
theorem Recognized.map {first : Reader α} (wrap : α → β) {rest : Outlook}
    (recognized : Recognized outlook (fun _ => rest) before (first before)) :
    Recognized outlook (fun _ => rest) before ((first >>= fun value => pure (wrap value)) before) :=
  recognized.continue fun _ _ _ _ leads => .read leads

/-- A keyword that comes next, and what follows it. -/
theorem Recognized.keyword {word : Keyword} {next : Reader α} {rest : α → Outlook}
    (seen : before.sees word.spelling = true)
    (continues : ∀ after, before.advance word.letters = (true, after) →
      Recognized between rest after (next after)) :
    Recognized (.keyword word between) rest before
      ((Reader.keyword word >>= fun _ => next) before) := by
  obtain ⟨after, moved⟩ := Cursor.exists_advance_of_sees seen
  rw [bind_of_ok (keyword_eq_ok.mpr moved)]
  have recognized := continues after moved
  obtain ⟨tail, inside⟩ := recognized.inhabited
  have leads : Leads (.keyword word between) between before after [word] := by
    refine ⟨Cursor.passes_singleton.mpr moved, ⟨tail, tail, inside, rfl⟩, recognized.inhabited,
      ?_, ?_⟩
    · intro start _ tail
      simp [Outlook.keyword]
    · intro start _ tail
      simp [Outlook.keyword]
  exact leads.then recognized

/-- A choice by lookahead between phrases that start with the keyword and others that do not. -/
theorem Recognized.choose {word : Keyword} {here there : Reader α} {rest : α → Outlook}
    (found : before.sees word.spelling = true →
      Recognized (.keyword word one) rest before (here before))
    (missed : before.sees word.spelling ≠ true → Recognized other rest before (there before))
    (avoids : other.Avoids [word]) :
    Recognized (.either (.keyword word one) other) rest before
      ((seesKeyword word >>= fun seen => if seen = true then here else there) before) := by
  rw [choose_run]
  split
  · next seen => exact (found seen).left (avoids.excluded (List.mem_singleton.mpr rfl) seen)
  · next unseen => exact (missed unseen).right (Outlook.excluded_keyword one unseen)

/-- None of the keywords that may come comes next. -/
theorem recognized_fail {rest : α → Outlook} (expected : String) (inhabited : outlook.Inhabited)
    (excluded : outlook.Excluded before) :
    Recognized outlook rest before ((Reader.fail expected : Reader α) before) := by
  have stuck : Stuck outlook before before.skipBlanks.position [] before :=
    ⟨rfl, inhabited, excluded, .before⟩
  exact .stuck stuck fun _ => rfl

/-- The last alternative of a choice. -/
theorem Recognized.expect {word : Keyword} {here : Reader α} {rest : α → Outlook}
    (expected : String) (inhabited : one.Inhabited)
    (found : before.sees word.spelling = true →
      Recognized (.keyword word one) rest before (here before)) :
    Recognized (.keyword word one) rest before
      ((seesKeyword word >>= fun seen => if seen = true then here else fail expected) before) := by
  rw [choose_run]
  split
  · next seen => exact found seen
  · next unseen =>
    exact recognized_fail expected (Outlook.inhabited_keyword.mpr inhabited)
      (Outlook.excluded_keyword one unseen)

/-- Nothing but the keyword is awaited behind the given ones, as far as first letters can tell. -/
structure Closes (outlook : Outlook) (word : Keyword) (words : List Keyword) : Prop where
  some : words ≠ []
  awaited : ∃ tail, words ++ word :: tail ∈ outlook.all
  alone : ∀ (start : Keyword) (tail : List Keyword), words ++ start :: tail ∈ outlook.all →
    start.letters.head? = word.letters.head? → start = word

theorem keyword_of_short {word : Keyword} {stuck : Cursor}
    (short : before.advance word.letters = (false, stuck)) :
    Reader.keyword word before = .error ⟨.unexpected [word.spelling], stuck.position⟩ stuck := by
  unfold Reader.keyword symbol
  rw [short]

/-- A keyword that is awaited behind something else and does not come. -/
theorem Leads.missing {rest : α → Outlook} {word : Keyword} {awaited : Outlook} {stuck : Cursor}
    (leads : Leads outlook (.keyword word awaited) before middle words)
    (closes : Closes outlook word words) (short : middle.advance word.letters = (false, stuck)) :
    Recognized outlook rest before
      (.error ⟨.unexpected [word.spelling], stuck.position⟩ stuck) := by
  refine .stuck ⟨leads.passed, leads.opens, ?_, .within closes.awaited closes.alone short⟩
    fun nothing => absurd nothing closes.some
  intro start seen tail inside
  obtain ⟨left, -, equal⟩ := (leads.same start seen tail).mp inside
  have success := Cursor.fst_advance word.letters middle
  rw [short] at success
  rw [(List.cons.inj equal).1] at seen
  exact Bool.noConfusion (success.trans seen)

/-- A phrase that could only go on with keywords that start with other letters. -/
theorem closes_phrase {φ : Type} {words : φ → List Keyword} {fine : φ → Prop} {word : Keyword}
    {rest : φ → Outlook} (more : List Keyword) (member : φ) (some : words member ≠ [])
    (inhabited : (rest member).Inhabited)
    (apart : ∀ start ∈ more, start.letters.head? ≠ word.letters.head?)
    (unique : ∀ (other : φ) (left right : List Keyword),
      words member ++ left = words other ++ right →
      Derivation.Avoids more left → Derivation.Avoids more right → left = right) :
    Closes (.phrase words fine fun phrase => .keyword word (rest phrase)) word (words member) := by
  refine ⟨some, ?_, ?_⟩
  · obtain ⟨tail, inside⟩ := inhabited
    exact ⟨tail, member, word :: tail, ⟨tail, inside, rfl⟩, rfl⟩
  · rintro start tail ⟨phrase, _, ⟨left, -, rfl⟩, equal⟩ letter
    have leaves : start ∉ more := fun inside => apart start inside letter
    have closes : word ∉ more := fun inside => apart word inside rfl
    have tails := unique phrase (start :: tail) (word :: left) equal
      (Derivation.avoids_cons leaves tail) (Derivation.avoids_cons closes left)
    exact (List.cons.inj tails).1

/-- A keyword that is awaited behind something else, and what follows it. -/
theorem Recognized.await {first : Reader α} {next : α → Reader β} {rest : α → Outlook}
    {last : β → Outlook} {word : Keyword}
    (recognized :
      Recognized outlook (fun value => .keyword word (rest value)) before (first before))
    (closed : ∀ value middle, first before = .ok value middle →
      ∃ words, Passes words before middle ∧ Closes outlook word words)
    (continues : ∀ value middle after, first before = .ok value middle →
      middle.advance word.letters = (true, after) →
      Recognized (rest value) last after (next value after)) :
    Recognized outlook last before
      ((first >>= fun value => Reader.keyword word >>= fun _ => next value) before) := by
  refine recognized.continue fun value middle words done leads => ?_
  obtain ⟨_, passed, closes⟩ := closed value middle done
  rw [passed.unique leads.passed] at closes
  rcases moved : middle.advance word.letters with ⟨reached, after⟩
  cases reached with
  | true =>
    exact leads.then (.keyword (Cursor.sees_of_advance moved) fun after moved =>
      continues value middle after done moved)
  | false =>
    rw [bind_of_error (keyword_of_short moved)]
    exact leads.missing closes moved

end Rules

end Reader

end BitMachine
