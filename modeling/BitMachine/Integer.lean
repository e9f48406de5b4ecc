/-! Bitwise operations on whole numbers, read as two's complement without end. -/

set_option autoImplicit false

namespace BitMachine.Integer

/-- The complement of the bits that two numbers share. A negative number is the complement of a
natural one, so the four cases are plain operations on natural numbers. -/
def nand : Int → Int → Int
  | .ofNat m, .ofNat n => .negSucc (m &&& n)
  | .ofNat m, .negSucc n => .negSucc (m ^^^ (m &&& n))
  | .negSucc m, .ofNat n => .negSucc (n ^^^ (n &&& m))
  | .negSucc m, .negSucc n => .ofNat (m ||| n)

def or (m n : Int) : Int :=
  nand (~~~m) (~~~n)

def appendBit (value bit : Int) : Int :=
  or (2 * value) bit

/-- NANDs of bits come to one of four numbers, and NANDs of these do too. -/
theorem nand_narrow {m n : Int} (first : -2 ≤ m ∧ m ≤ 1) (second : -2 ≤ n ∧ n ≤ 1) :
    -2 ≤ nand m n ∧ nand m n ≤ 1 := by
  have left : m = -2 ∨ m = -1 ∨ m = 0 ∨ m = 1 := by omega
  have right : n = -2 ∨ n = -1 ∨ n = 0 ∨ n = 1 := by omega
  rcases left with rfl | rfl | rfl | rfl <;> rcases right with rfl | rfl | rfl | rfl <;> decide

end BitMachine.Integer
