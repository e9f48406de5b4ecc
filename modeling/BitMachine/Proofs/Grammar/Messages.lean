import Mathlib.Algebra.Group.Nat.Defs
import BitMachine.Grammar.Diagnostic

/-! Which messages about texts can be written: all but those about a number that has too many digits. -/

set_option autoImplicit false

namespace BitMachine

/-- The numbers that cannot be written are those from a power of ten on. -/
theorem Text.writeInteger?_eq_none {n : Int} :
    writeInteger? n = none ↔ 10 ^ numeralLimit ≤ n.natAbs := by
  have fits := Nat.length_toDigits_le_iff (b := 10) (n := n.natAbs) (k := numeralLimit)
    (by decide) (by decide)
  unfold writeInteger?
  split
  · next long => exact iff_of_true rfl (Nat.not_lt.mp fun small => by omega)
  · next short =>
    refine iff_of_false (Option.some_ne_none _) ?_
    exact Nat.not_le.mpr (fits.mp (Nat.not_lt.mp short))

namespace Cause

/-- A repeated line number is told unless it is too long to be written. -/
theorem message?_duplicateLine {n : Nat} :
    (duplicateLine n).message? = none ↔ 10 ^ Text.numeralLimit ≤ n := by
  rw [message?, Option.map_eq_none_iff, Json.display?_int, Text.writeInteger?_eq_none,
    Int.natAbs_natCast]

/-- What a text can be refused for. -/
inductive OfText : Cause → Prop
  | unexpected (expected : List String) : OfText (.unexpected expected)
  | duplicateLine (number : Nat) : OfText (.duplicateLine number)
  | nestedTooDeeply : OfText .nestedTooDeeply

/-- Only what a repeated line number does to a message depends on how long the number is. -/
theorem OfText.message?_eq_none {cause : Cause} (ofText : cause.OfText) :
    cause.message? = none ↔
      ∃ number : Nat, cause = .duplicateLine number ∧ 10 ^ Text.numeralLimit ≤ number := by
  cases ofText with
  | unexpected expected =>
    refine iff_of_false (Option.some_ne_none _) ?_
    rintro ⟨number, same, -⟩
    cases same
  | nestedTooDeeply =>
    refine iff_of_false (Option.some_ne_none _) ?_
    rintro ⟨number, same, -⟩
    cases same
  | duplicateLine number =>
    rw [message?_duplicateLine]
    constructor
    · intro long
      exact ⟨number, rfl, long⟩
    · rintro ⟨other, same, long⟩
      cases same
      exact long

end Cause

end BitMachine
