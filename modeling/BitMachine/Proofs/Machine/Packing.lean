import Mathlib.Algebra.Group.Nat.Defs
import BitMachine.Machine.Output
import BitMachine.Proofs.Machine.Invariant

/-! Output in characters never fails on bits: eight of them are a code below 256, and each of these
codes is a character. -/

set_option autoImplicit false

namespace BitMachine

namespace Integer

/-- On natural numbers the two's complement operation is the plain one. -/
theorem or_natCast (m n : Nat) : or (m : Int) (n : Int) = ((m ||| n : Nat) : Int) :=
  rfl

theorem appendBit_natCast (value bit : Nat) :
    appendBit (value : Int) (bit : Int) = ((2 * value ||| bit : Nat) : Int) :=
  or_natCast (2 * value) bit

end Integer

namespace Output

/-- The bits of a character that is not complete. -/
structure Packs (output : Output) : Prop where
  few : output.pending.length < groupSize
  bits : ∀ bit ∈ output.pending, bit.Bit

theorem foldl_appendBit {group : List Int} (bits : ∀ n ∈ group, n = 0 ∨ n = 1) (value width : Nat)
    (small : value < 2 ^ width) :
    ∃ code : Nat, group.foldl Integer.appendBit (value : Int) = code ∧
      code < 2 ^ (width + group.length) := by
  induction group generalizing value width with
  | nil => exact ⟨value, rfl, small⟩
  | cons bit group ih =>
    have double : 2 * value < 2 ^ (width + 1) := by
      rw [Nat.pow_succ]
      omega
    have one : 1 < 2 ^ (width + 1) := Nat.one_lt_two_pow (Nat.succ_ne_zero width)
    have natural : ∃ b : Nat, bit = b ∧ b < 2 ^ (width + 1) := by
      rcases bits bit (List.mem_cons_self ..) with rfl | rfl
      · exact ⟨0, rfl, by omega⟩
      · exact ⟨1, rfl, one⟩
    obtain ⟨b, rfl, bound⟩ := natural
    have longer : (2 * value ||| b) < 2 ^ (width + 1) := Nat.or_lt_two_pow double bound
    have others : ∀ n ∈ group, n = 0 ∨ n = 1 :=
      fun n inside => bits n (List.mem_cons_of_mem _ inside)
    obtain ⟨code, folded, limit⟩ := ih others (2 * value ||| b) (width + 1) longer
    refine ⟨code, ?_, ?_⟩
    · rw [List.foldl_cons, Integer.appendBit_natCast, folded]
    · rw [List.length_cons]
      rwa [Nat.add_assoc, Nat.add_comm 1] at limit

theorem exists_ints {group : List Json} (bits : ∀ bit ∈ group, bit.Bit) :
    ∃ ints : List Int, group = ints.map Json.int ∧ ∀ n ∈ ints, n = 0 ∨ n = 1 := by
  induction group with
  | nil => exact ⟨[], rfl, nofun⟩
  | cons bit group ih =>
    obtain ⟨ints, rfl, small⟩ := ih fun other inside => bits other (List.mem_cons_of_mem _ inside)
    rcases bits bit (List.mem_cons_self ..) with rfl | rfl
    · exact ⟨0 :: ints, rfl, List.forall_mem_cons.mpr ⟨Or.inl rfl, small⟩⟩
    · exact ⟨1 :: ints, rfl, List.forall_mem_cons.mpr ⟨Or.inr rfl, small⟩⟩

theorem mapM_whole? (ints : List Int) : (ints.map Json.int).mapM Json.whole? = some ints := by
  induction ints with
  | nil => rfl
  | cons n ints ih =>
    rw [List.map_cons, List.mapM_cons, ih]
    rfl

/-- Every code of eight bits is that of a character. -/
theorem exists_character {group : List Int} (eight : group.length = groupSize)
    (bits : ∀ n ∈ group, n = 0 ∨ n = 1) : ∃ c, character? (codeOf group) = some c := by
  obtain ⟨code, folded, limit⟩ := foldl_appendBit bits 0 0 (by omega)
  have small : code < 256 := by
    rw [eight] at limit
    exact limit
  have valid : code.isValidChar := Or.inl (by omega)
  unfold character? codeOf
  rw [show List.foldl Integer.appendBit 0 group = (code : Int) from folded]
  rw [if_neg (by omega), dif_pos (by rw [Int.toNat_natCast]; exact valid)]
  exact ⟨_, rfl⟩

/-- A bit has a digit. -/
theorem spell_bit (output : Output) {bit : Json} (legal : bit.Bit) :
    ∃ digit, output.spell bit = (none, output.say digit) := by
  rcases legal with rfl | rfl
  · exact ⟨"0", rfl⟩
  · exact ⟨"1", rfl⟩

/-- A bit is put out without fault. -/
theorem Packs.write {output : Output} (packs : output.Packs) {bit : Json} (legal : bit.Bit) :
    ∃ written, output.write bit = (none, written) ∧ written.Packs := by
  have bits : ∀ other ∈ output.pending ++ [bit], other.Bit := by
    intro other inside
    rcases List.mem_append.mp inside with old | new
    · exact packs.bits other old
    · cases List.mem_singleton.mp new
      exact legal
  have few := packs.few
  cases style : output.style with
  | collected =>
    refine ⟨{ output with bits := output.bits.push bit }, ?_, packs.few, packs.bits⟩
    unfold Output.write
    rw [style]
  | digits =>
    obtain ⟨digit, spelled⟩ := output.spell_bit legal
    refine ⟨output.say digit, ?_, packs.few, packs.bits⟩
    unfold Output.write
    rw [style]
    exact spelled
  | characters =>
    unfold Output.write
    rw [style]
    show ∃ written, output.pack bit = (none, written) ∧ written.Packs
    unfold pack
    by_cases partly : (output.pending ++ [bit]).length ≠ groupSize
    · refine ⟨{ output with pending := output.pending ++ [bit] }, if_pos partly, ?_, bits⟩
      rw [List.length_append, List.length_singleton] at partly ⊢
      omega
    · obtain ⟨ints, whole, small⟩ := exists_ints bits
      have eight : ints.length = groupSize := by
        rw [← List.length_map Json.int, ← whole]
        exact Decidable.not_not.mp partly
      obtain ⟨c, found⟩ := exists_character eight small
      refine ⟨{ output with pending := [], text := output.text.push c }, ?_,
        show 0 < groupSize by decide, nofun⟩
      simp only [if_neg partly]
      rw [whole, mapM_whole?]
      dsimp only
      rw [found]

end Output

end BitMachine
