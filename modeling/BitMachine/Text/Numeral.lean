import BitMachine.Text.Blank

/-! Decimal numerals of whole numbers, in the digits of any script. -/

set_option autoImplicit false

namespace BitMachine.Text

/-- The code points of the zeros of Unicode 14; each script's ten digits follow its zero in order. -/
def scriptZeros : List Nat :=
  [
    0x30, 0x660, 0x6F0, 0x7C0, 0x966, 0x9E6, 0xA66, 0xAE6, 0xB66, 0xBE6, 0xC66, 0xCE6, 0xD66,
    0xDE6, 0xE50, 0xED0, 0xF20, 0x1040, 0x1090, 0x17E0, 0x1810, 0x1946, 0x19D0, 0x1A80, 0x1A90,
    0x1B50, 0x1BB0, 0x1C40, 0x1C50, 0xA620, 0xA8D0, 0xA900, 0xA9D0, 0xA9F0, 0xAA50, 0xABF0,
    0xFF10, 0x104A0, 0x10D30, 0x11066, 0x110F0, 0x11136, 0x111D0, 0x112F0, 0x11450, 0x114D0,
    0x11650, 0x116C0, 0x11730, 0x118E0, 0x11950, 0x11C50, 0x11D50, 0x11DA0, 0x16A60, 0x16AC0,
    0x16B50, 0x1D7CE, 0x1D7D8, 0x1D7E2, 0x1D7EC, 0x1D7F6, 0x1E140, 0x1E2F0, 0x1E950, 0x1FBF0]

/-- The worth of a decimal digit of any script. -/
def digitValue? (c : Char) : Option Nat :=
  (scriptZeros.find? fun base => base ≤ c.toNat && c.toNat < base + 10).map (c.toNat - ·)

/-- A run of digits, most significant first, that may hold single underscores between two digits. -/
def readDigits (value : Nat) : List Char → Option Nat
  | [] => some value
  | '_' :: c :: rest => (digitValue? c).bind fun d => readDigits (10 * value + d) rest
  | c :: rest => (digitValue? c).bind fun d => readDigits (10 * value + d) rest

/-- A digit followed by any more of them. -/
def readNatural : List Char → Option Nat
  | [] => none
  | c :: rest => (digitValue? c).bind fun d => readDigits d rest

/-- The blanks that may surround a numeral: all but the information separators. -/
def isNumeralMargin (c : Char) : Bool :=
  isBlank c && !(0x1C ≤ c.toNat && c.toNat ≤ 0x1F)

/-- How many digits a numeral may have that is read or written, leading zeros counted. -/
def numeralLimit : Nat := 4300

/-- A whole number with an optional sign, blanks around it ignored. -/
def readInteger (text : String) : Option Int :=
  if numeralLimit < text.toList.countP fun c => (digitValue? c).isSome then none
  else match trimBoth isNumeralMargin text.toList with
  | '-' :: rest => (readNatural rest).map fun n => -(n : Int)
  | '+' :: rest => (readNatural rest).map Int.ofNat
  | rest => (readNatural rest).map Int.ofNat

/-- A whole number in decimal digits, if these are not too many. -/
def writeInteger? (n : Int) : Option String :=
  if numeralLimit < (Nat.toDigits 10 n.natAbs).length then none else some (toString n)

theorem writeInteger?_eq_some {n : Int} {text : String} (written : writeInteger? n = some text) :
    text = toString n := by
  unfold writeInteger? at written
  split at written
  · cases written
  · cases written
    rfl

end BitMachine.Text
