import BitMachine.Proofs.Grammar.Segmentation
import BitMachine.Proofs.Automaton.Soundness

/-! The automaton on a text. It finds the keywords of the text's segmentation one after the other,
if only separators stand outside of them, and takes them in. -/

set_option autoImplicit false

namespace BitMachine.Automaton

/-- A segmentation in which only separators stand outside of the keywords. -/
def Separates (position : Nat) (text : List Char) (tokens : List Token) : Prop :=
  ∃ outside, Segmentation position text tokens outside ∧
    ∀ c ∈ outside, Text.isSeparator c = true

theorem Separates.done {position : Nat} {gap : List Char}
    (gaps : ∀ c ∈ gap, Text.isSeparator c = true) : Separates position gap [] :=
  ⟨gap, .done fun c inside => Text.isBlank_of_isSeparator (gaps c inside), gaps⟩

theorem Separates.word {position : Nat} {gap stretch rest : List Char} {keyword : Keyword}
    {tokens : List Token} (gaps : ∀ c ∈ gap, Text.isSeparator c = true)
    (spelled : keyword.SpelledBy stretch)
    (more : Separates (position + gap.length + stretch.length) rest tokens) :
    Separates position (gap ++ (stretch ++ rest)) ((keyword, position + gap.length) :: tokens) := by
  obtain ⟨outside, cut, others⟩ := more
  refine ⟨gap ++ outside,
    .word (fun c inside => Text.isBlank_of_isSeparator (gaps c inside)) spelled cut, ?_⟩
  intro c inside
  rcases List.mem_append.mp inside with front | back
  · exact gaps c front
  · exact others c back

theorem nextKeyword?_sound {keywords : List Keyword} {cursor after : Cursor} {keyword : Keyword}
    (found : nextKeyword? keywords cursor = some (keyword, after)) :
    (∀ c ∈ cursor.rest.head?, Text.isBlank c = false) ∧
      cursor.advance keyword.letters = (true, after) := by
  obtain ⟨candidate, -, matched⟩ := List.exists_of_findSome?_eq_some found
  split at matched
  · next c rest here =>
    split at matched
    · cases matched
    · next solid =>
      split at matched
      · next between moved =>
        cases matched
        refine ⟨?_, moved⟩
        intro d same
        rw [here] at same
        cases same
        exact Bool.eq_false_iff.mpr solid
      · cases matched
  · cases matched

/-- Of the keywords of a list, at most one stands at the cursor, so it is found. -/
theorem nextKeyword?_complete {keywords : List Keyword} {cursor after : Cursor} {keyword : Keyword}
    {c : Char} {rest : List Char} (listed : keyword ∈ keywords) (here : cursor.rest = c :: rest)
    (solid : Text.isBlank c = false) (moved : cursor.advance keyword.letters = (true, after)) :
    nextKeyword? keywords cursor = some (keyword, after) := by
  cases found : nextKeyword? keywords cursor with
  | none =>
    have none := List.findSome?_eq_none_iff.mp found keyword listed
    simp only [here, solid, Bool.false_eq_true, ↓reduceIte, moved, reduceCtorEq] at none
  | some entry =>
    obtain ⟨other, between⟩ := entry
    have passed := (nextKeyword?_sound found).2
    cases Cursor.eq_of_sees (Cursor.sees_of_advance passed) (Cursor.sees_of_advance moved)
    rw [moved] at passed
    cases passed
    rfl

/-- The automaton only takes in keywords that it looks for. -/
theorem mem_keywords_of_feed {stack : Stack} {word : Keyword} {position : Nat}
    {tokens : List Token} {drafts : List Draft}
    (fed : feed stack ((word, position) :: tokens) = some drafts) :
    word ∈ (Stack.state stack).keywords := by
  refine List.mem_filterMap.mpr ⟨some word, ?_, rfl⟩
  cases waits : (Stack.state stack).waits (some word) with
  | true =>
    rw [feed, Stack.settle_of_waits waits] at fed
    split at fed
    · next state leads =>
      have listed := State.mem_of_lookup leads
      exact List.mem_append_left _ (List.mem_map.mpr ⟨(word, state), listed, rfl⟩)
    · cases fed
  | false =>
    refine List.mem_append_right _ ?_
    unfold State.waits at waits
    cases complete : (Stack.state stack).reduction? with
    | none =>
      rw [complete] at waits
      cases waits
    | some entry =>
      rw [complete] at waits
      show some word ∈ entry.2
      simpa only [Bool.not_eq_eq_eq_not, Bool.not_false, List.contains_iff_mem] using waits

theorem readAll_sound {fuel : Nat} {stack : Stack} {last : Nat} {cursor : Cursor}
    {drafts : List Draft} (read : readAll fuel stack last cursor = .ok drafts) :
    ∃ tokens, Separates cursor.position cursor.rest tokens ∧ feed stack tokens = some drafts := by
  induction fuel generalizing stack last cursor with
  | zero => cases read
  | succ fuel ih =>
    obtain ⟨position, text⟩ := cursor
    have gaps : ∀ c ∈ text.takeWhile Text.isSeparator, Text.isSeparator c = true :=
      List.all_eq_true.mp List.all_takeWhile
    have whole : text.takeWhile Text.isSeparator ++ text.dropWhile Text.isSeparator = text :=
      List.takeWhile_append_dropWhile
    have skipped : Cursor.skipWhile Text.isSeparator ⟨position, text⟩ =
        ⟨position + (text.takeWhile Text.isSeparator).length, text.dropWhile Text.isSeparator⟩ := by
      rw [← Cursor.rest_skipFrom Text.isSeparator position, ← Cursor.position_skipFrom]
      rfl
    rw [readAll, skipped] at read
    dsimp only at read ⊢
    split at read
    · next ended =>
      split at read
      · next found accepted =>
        cases read
        rw [List.isEmpty_iff.mp ended, List.append_nil] at whole
        rw [whole] at gaps
        exact ⟨[], .done gaps, accepted⟩
      · cases read
    · split at read
      · cases read
      · next keyword after found =>
        obtain ⟨solid, moved⟩ := nextKeyword?_sound found
        obtain ⟨stretch, spelled, split, behind⟩ := Keyword.SpelledBy.of_advance solid moved
        split at read
        · next state leads =>
          obtain ⟨tokens, more, fed⟩ := ih read
          rw [behind] at more
          have cut := more.word gaps spelled
          dsimp only at split
          rw [← split, whole] at cut
          refine ⟨_, cut, ?_⟩
          rw [feed, leads]
          exact fed
        · cases read

/-- At the end of a text it is decided whether what was taken in is a program. -/
theorem readAll_ended {cursor : Cursor} (fuel last : Nat) (stack : Stack)
    (cut : Separates cursor.position cursor.rest []) :
    readAll (fuel + 1) stack last cursor =
      match Stack.drafts? (Stack.settle stack none) with
      | some drafts => .ok drafts
      | none => .error (refuse (Stack.state (Stack.settle stack none)).lookaheads last) := by
  obtain ⟨position, text⟩ := cursor
  obtain ⟨outside, cut, gaps⟩ := cut
  dsimp only at cut ⊢
  cases cut with
  | done blank =>
    have skipped := Cursor.skipWhile_append position [] gaps nofun
    rw [List.append_nil] at skipped
    rw [readAll, skipped]
    rfl

/-- The automaton finds the next keyword of a text and takes it in, if it looks for it. -/
theorem readAll_word {stack : Stack} {cursor : Cursor} {word : Keyword} {start : Nat}
    {tokens : List Token} {state : State} (fuel last : Nat)
    (cut : Separates cursor.position cursor.rest ((word, start) :: tokens))
    (wanted : word ∈ (Stack.state stack).keywords)
    (leads : (Stack.state (Stack.settle stack (some word))).shifts.lookup word = some state) :
    ∃ after : Cursor, Separates after.position after.rest tokens ∧
      after.rest.length < cursor.rest.length ∧
      readAll (fuel + 1) stack last cursor =
        readAll fuel (⟨state, .word start⟩ :: Stack.settle stack (some word)) start after := by
  obtain ⟨position, text⟩ := cursor
  obtain ⟨outside, cut, gaps⟩ := cut
  dsimp only at cut ⊢
  cases cut with
  | @word _ gap stretch rest outside keyword tokens blank spelled more =>
    have skipped := spelled.skipWhile position rest (fun _ => Text.isBlank_of_isSeparator)
      fun c inside => gaps c (List.mem_append_left _ inside)
    obtain ⟨c, others, first, solid⟩ := spelled.exists_cons
    have found := nextKeyword?_complete wanted
      (show (Cursor.mk (position + gap.length) (stretch ++ rest)).rest = c :: (others ++ rest) by
        rw [first]; rfl) solid (spelled.advance rest (position + gap.length))
    have nonempty : (stretch ++ rest).isEmpty = false := by
      rw [first]
      rfl
    refine ⟨⟨position + gap.length + stretch.length, rest⟩,
      ⟨outside, more, fun c inside => gaps c (List.mem_append_right _ inside)⟩, ?_, ?_⟩
    · simp only [List.length_append, first, List.length_cons]
      omega
    · rw [readAll, skipped]
      simp only [nonempty, Bool.false_eq_true, ↓reduceIte, found, leads]

/-- A keyword that is taken in leads to another state. -/
theorem exists_shift_of_feed {stack : Stack} {word : Keyword} {position : Nat}
    {tokens : List Token} {drafts : List Draft}
    (fed : feed stack ((word, position) :: tokens) = some drafts) :
    ∃ state, (Stack.state (Stack.settle stack (some word))).shifts.lookup word = some state ∧
      ∀ others : List Token, feed stack ((word, position) :: others) =
        feed (⟨state, .word position⟩ :: Stack.settle stack (some word)) others := by
  cases leads : (Stack.state (Stack.settle stack (some word))).shifts.lookup word with
  | none =>
    rw [feed, leads] at fed
    cases fed
  | some state =>
    refine ⟨state, rfl, fun others => ?_⟩
    rw [feed, leads]

theorem readAll_complete {stack : Stack} {cursor : Cursor} {tokens : List Token}
    {drafts : List Draft} (fuel last : Nat) (enough : cursor.rest.length < fuel)
    (cut : Separates cursor.position cursor.rest tokens) (fed : feed stack tokens = some drafts) :
    readAll fuel stack last cursor = .ok drafts := by
  induction tokens generalizing fuel stack last cursor with
  | nil =>
    obtain ⟨fuel, rfl⟩ := Nat.exists_eq_succ_of_ne_zero (Nat.ne_zero_of_lt enough)
    rw [readAll_ended fuel last stack cut,
      show Stack.drafts? (Stack.settle stack none) = some drafts from fed]
  | cons token tokens ih =>
    obtain ⟨word, position⟩ := token
    obtain ⟨fuel, rfl⟩ := Nat.exists_eq_succ_of_ne_zero (Nat.ne_zero_of_lt enough)
    obtain ⟨state, leads, next⟩ := exists_shift_of_feed fed
    obtain ⟨after, more, shorter, step⟩ :=
      readAll_word fuel last cut (mem_keywords_of_feed fed) leads
    rw [step]
    exact ih fuel position (by omega) more ((next tokens).symm.trans fed)

end BitMachine.Automaton
