import BitMachine.Json.Parser
import BitMachine.Proofs.Json.FullText

/-! Numbers and texts in JSON: what is written of them is read as far as it goes, and gives them
back. -/

set_option autoImplicit false

namespace BitMachine.Json

/-- What may stand behind a value: nothing, a comma, or a new line. -/
def Ended (rest : List Char) : Prop :=
  ∀ c tail, rest = c :: tail → c = ',' ∨ c = '\n'

section Numbers

theorem toDigits_eq_cons {n : Nat} (positive : 0 < n) :
    ∃ c rest, Nat.toDigits 10 n = c :: rest ∧ c ≠ '0' := by
  induction n using Nat.strongRecOn with
  | ind n ih =>
    rw [Nat.toDigits_eq_if (by decide)]
    split
    · next small =>
      have solid : ∀ digit : Nat, digit < 10 → 0 < digit → digit.digitChar ≠ '0' := by decide
      exact ⟨n.digitChar, [], rfl, solid n small positive⟩
    · next large =>
      obtain ⟨c, rest, digits, solid⟩ := ih (n / 10) (by omega) (by omega)
      exact ⟨c, rest ++ [(n % 10).digitChar], by rw [digits, List.cons_append], solid⟩

theorem isDigit_of_mem {n : Nat} {c : Char} (inside : c ∈ Nat.toDigits 10 n) : c.isDigit = true :=
  Nat.isDigit_of_mem_toDigits (by decide) (by decide) inside

theorem Ended.not_isDigit {rest : List Char} (ended : Ended rest) :
    rest.takeWhile Char.isDigit = [] ∧ rest.dropWhile Char.isDigit = rest := by
  cases rest with
  | nil => exact ⟨rfl, rfl⟩
  | cons c tail =>
    rcases ended c tail rfl with rfl | rfl
    · exact ⟨rfl, rfl⟩
    · exact ⟨rfl, rfl⟩

/-- The digits of a number are read as far as they go. -/
theorem readWhole_toDigits (n : Nat) {rest : List Char} (ended : Ended rest) :
    readWhole (Nat.toDigits 10 n ++ rest) = some (Nat.toDigits 10 n, rest) := by
  rcases Nat.eq_zero_or_pos n with rfl | positive
  · rfl
  · obtain ⟨c, digits, spelled, solid⟩ := toDigits_eq_cons positive
    have all : ∀ d ∈ c :: digits, d.isDigit = true := by
      rw [← spelled]
      exact fun d inside => isDigit_of_mem inside
    rw [List.forall_mem_cons] at all
    obtain ⟨stops, left⟩ := ended.not_isDigit
    rw [spelled, List.cons_append, readWhole.eq_def]
    split
    · next same => exact absurd (List.cons.inj same).1 solid
    · next same =>
      cases same
      rw [if_pos all.1, List.takeWhile_append_of_pos all.2, List.dropWhile_append_of_pos all.2,
        stops, left, List.append_nil]
    · next same => cases same

theorem Ended.readFraction {rest : List Char} (ended : Ended rest) :
    readFraction rest = (none, rest) := by
  cases rest with
  | nil => rfl
  | cons c tail => rcases ended c tail rfl with rfl | rfl <;> rfl

theorem Ended.readExponent {rest : List Char} (ended : Ended rest) :
    readExponent rest = (none, rest) := by
  cases rest with
  | nil => rfl
  | cons c tail => rcases ended c tail rfl with rfl | rfl <;> rfl

theorem digitsValue_toDigits (n : Nat) : digitsValue (Nat.toDigits 10 n) = n :=
  Nat.ofDigitChars_ten_toDigits

theorem readMagnitude_toDigits {limits : Limits} (negative : Bool) {n : Nat} {rest : List Char}
    (short : (Nat.toDigits 10 n).length ≤ limits.digits) (ended : Ended rest) :
    readMagnitude limits negative (Nat.toDigits 10 n ++ rest) =
      .ok (.int (if negative then -(n : Int) else n), rest) := by
  unfold readMagnitude
  rw [readWhole_toDigits n ended]
  dsimp only
  rw [ended.readFraction]
  dsimp only
  rw [ended.readExponent]
  dsimp only
  rw [if_neg (Nat.not_lt.mpr short), digitsValue_toDigits]

/-- A number that starts with a digit is read without a sign. -/
theorem readScalar_of_isDigit {limits : Limits} {c : Char} (digit : c.isDigit = true)
    (text : List Char) :
    readScalar limits (c :: text) = readMagnitude limits false (c :: text) := by
  unfold readScalar
  split
  all_goals first
    | rfl
    | next same =>
      cases (List.cons.inj same).1
      cases digit

theorem toDigits_eq_cons_digit (n : Nat) :
    ∃ c digits, Nat.toDigits 10 n = c :: digits ∧ c.isDigit = true := by
  obtain ⟨c, digits, spelled⟩ := List.exists_cons_of_ne_nil (Nat.toDigits_ne_nil (n := n) (b := 10))
  have inside : c ∈ Nat.toDigits 10 n := by
    rw [spelled]
    exact List.mem_cons_self
  exact ⟨c, digits, spelled, isDigit_of_mem inside⟩

theorem readScalar_of_minus {limits : Limits} {c : Char} (digit : c.isDigit = true)
    (text : List Char) :
    readScalar limits ('-' :: c :: text) = readMagnitude limits true (c :: text) := by
  unfold readScalar
  split
  case h_7 same =>
    cases (List.cons.inj (List.cons.inj same).2).1
    cases digit
  case h_8 same =>
    cases same
    rfl
  case h_9 other => exact absurd rfl (other _)
  all_goals next same => exact absurd (List.cons.inj same).1 (by decide)

theorem fullScalar_int (n : Int) :
    (fullScalar (.int n)).toList =
      (if n < 0 then ['-'] else []) ++ Nat.toDigits 10 n.natAbs := by
  cases n with
  | ofNat n => exact String.toList_ofList
  | negSucc n =>
    show ("-" ++ String.ofList (Nat.toDigits 10 (n + 1))).toList = _
    rw [String.toList_append, String.toList_ofList, String.toList_ofList,
      if_pos (Int.negSucc_lt_zero n)]
    rfl

theorem readScalar_int {limits : Limits} {n : Int} {rest : List Char}
    (short : (Nat.toDigits 10 n.natAbs).length ≤ limits.digits) (ended : Ended rest) :
    readScalar limits ((fullScalar (.int n)).toList ++ rest) = .ok (.int n, rest) := by
  obtain ⟨c, digits, spelled, digit⟩ := toDigits_eq_cons_digit n.natAbs
  have magnitude := fun negative => readMagnitude_toDigits negative short ended
  rw [spelled, List.cons_append] at magnitude
  rw [fullScalar_int, spelled]
  split
  · next negative =>
    have value : -(n.natAbs : Int) = n := by omega
    have read := (readScalar_of_minus digit (digits ++ rest)).trans (magnitude true)
    rw [if_pos rfl, value] at read
    exact read
  · next whole =>
    have value : (n.natAbs : Int) = n := by omega
    have read := (readScalar_of_isDigit digit (digits ++ rest)).trans (magnitude false)
    rw [if_neg (by decide), value] at read
    exact read

end Numbers

section Texts

/-- A character that stands for itself between quotes. -/
def isBare (c : Char) : Bool :=
  0x20 ≤ c.toNat && c != '"' && c != '\\'

theorem escapeCharacter_of_isBare {c : Char} (bare : isBare c = true) : escapeCharacter c = [c] := by
  simp only [isBare, Bool.and_eq_true, decide_eq_true_eq, bne_iff_ne] at bare
  obtain ⟨⟨visible, unquoted⟩, plain⟩ := bare
  have controls : ∀ control : Char, control.toNat < 0x20 → ¬(c == control) = true := by
    intro control low same
    rw [beq_iff_eq] at same
    rw [same] at visible
    omega
  unfold escapeCharacter
  rw [if_neg (by rwa [beq_iff_eq]), if_neg (by rwa [beq_iff_eq]), if_neg (controls _ (by decide)),
    if_neg (controls _ (by decide)), if_neg (controls _ (by decide)),
    if_neg (controls _ (by decide)), if_neg (controls _ (by decide)), if_neg (by omega)]

theorem writeText_of_isBare {text : String} (bare : ∀ c ∈ text.toList, isBare c = true) :
    (writeText text).toList = '"' :: (text.toList ++ ['"']) := by
  have escaped : text.toList.flatMap escapeCharacter = text.toList := by
    generalize text.toList = letters at bare
    induction letters with
    | nil => rfl
    | cons c letters ih =>
      rw [List.forall_mem_cons] at bare
      rw [List.flatMap_cons, escapeCharacter_of_isBare bare.1, ih bare.2]
      rfl
  unfold writeText
  rw [escaped, String.toList_ofList]
  rfl

theorem readUnits_of_isBare {letters : List Char} (bare : ∀ c ∈ letters, isBare c = true)
    (done : List Nat) (rest : List Char) :
    readUnits done (letters ++ '"' :: rest) =
      some (done.reverse ++ letters.map Char.toNat, rest) := by
  induction letters generalizing done with
  | nil =>
    rw [List.map_nil, List.append_nil]
    rfl
  | cons c letters ih =>
    rw [List.forall_mem_cons] at bare
    obtain ⟨first, others⟩ := bare
    have step : readUnits done (c :: (letters ++ '"' :: rest)) =
        readUnits (c.toNat :: done) (letters ++ '"' :: rest) := by
      simp only [isBare, Bool.and_eq_true, decide_eq_true_eq, bne_iff_ne] at first
      obtain ⟨⟨visible, unquoted⟩, plain⟩ := first
      rw [readUnits.eq_def]
      split
      case h_1 same => cases same
      case h_2 same => exact absurd (List.cons.inj same).1 unquoted
      case h_3 same => exact absurd (List.cons.inj same).1 plain
      case h_4 same => exact absurd (List.cons.inj same).1 plain
      case h_5 same =>
        cases same
        rw [if_neg]
        simp only [Bool.or_eq_true, decide_eq_true_eq, beq_iff_eq, not_or]
        exact ⟨by omega, plain⟩
    rw [List.cons_append, step, ih others, List.reverse_cons, List.append_assoc]
    rfl

theorem joinUnits_toNat (letters : List Char) : joinUnits (letters.map Char.toNat) = letters := by
  have apart : ∀ c : Char, ¬(0xD800 ≤ c.toNat ∧ c.toNat ≤ 0xDFFF) := by
    intro c ⟨low, high⟩
    rcases c.valid with small | ⟨large, -⟩
    · have : c.toNat < 0xD800 := small
      omega
    · have : 0xDFFF < c.toNat := large
      omega
  have alone : ∀ c : Char, joinUnits.single c.toNat = c := by
    intro c
    unfold joinUnits.single
    rw [if_neg, Char.ofNat_toNat]
    simp only [Bool.and_eq_true, decide_eq_true_eq]
    exact apart c
  induction letters with
  | nil => rfl
  | cons c letters ih =>
    cases letters with
    | nil => exact congrArg (· :: []) (alone c)
    | cons d letters =>
      rw [List.map_cons, List.map_cons, joinUnits, if_neg, alone, ← List.map_cons, ih]
      simp only [Bool.and_eq_true, decide_eq_true_eq]
      rintro ⟨⟨⟨low, high⟩, -⟩, -⟩
      exact apart c ⟨low, by omega⟩

theorem readText_of_isBare {text : String} (bare : ∀ c ∈ text.toList, isBare c = true)
    (rest : List Char) : readText (text.toList ++ '"' :: rest) = some (text, rest) := by
  unfold readText
  rw [readUnits_of_isBare bare, List.reverse_nil, List.nil_append, Option.map_some]
  dsimp only
  rw [joinUnits_toNat, String.ofList_toList]

end Texts

end BitMachine.Json
