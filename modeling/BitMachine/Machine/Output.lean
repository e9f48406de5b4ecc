import BitMachine.Fault
import BitMachine.Integer
import BitMachine.Json.Number

/-! Where the bits go that a program prints. -/

set_option autoImplicit false

namespace BitMachine

inductive OutputStyle where
  /-- Bits are kept as they are. -/
  | collected
  /-- Each bit is a digit of the text. -/
  | digits
  /-- Eight bits, the most significant first, are a character of the text. -/
  | characters
deriving DecidableEq, Repr

/-- What has been put out. In the last style `pending` holds the bits of a character that is not
complete. -/
structure Output where
  style : OutputStyle := .collected
  bits : Array Json := #[]
  pending : List Json := []
  text : String := ""
deriving Repr

namespace Output

/-- The code of a group of bits, the most significant first. -/
def codeOf (group : List Int) : Int :=
  group.foldl Integer.appendBit 0

def groupSize : Nat := 8

/-- The character of a code, if it is one. The codes of surrogates are none, since a text that is
written in UTF-8 cannot hold them. -/
def character? (code : Int) : Option Char :=
  if code < 0 then none
  else if valid : code.toNat.isValidChar then some (Char.ofNatAux code.toNat valid)
  else none

def say (output : Output) (text : String) : Output :=
  { output with text := output.text ++ text }

/-- Writes a bit as part of a character. A group whose code is no character is dropped, and one with
something else than bits stays for good. -/
def pack (output : Output) (bit : Json) : Option Fault × Output :=
  let group := output.pending ++ [bit]
  if group.length ≠ groupSize then (none, { output with pending := group })
  else match group.mapM Json.whole? with
    | none => (some .unsuitable, { output with pending := group })
    | some bits =>
      match character? (codeOf bits) with
      | some c => (none, { output with pending := [], text := output.text.push c })
      | none => (some (.noCharacter (codeOf bits)), { output with pending := [] })

def spell (output : Output) (bit : Json) : Option Fault × Output :=
  match bit.display? with
  | some digits => (none, output.say digits)
  | none => (some .unwritable, output)

def write (output : Output) (bit : Json) : Option Fault × Output :=
  match output.style with
  | .collected => (none, { output with bits := output.bits.push bit })
  | .digits => output.spell bit
  | .characters => output.pack bit

/-- Writes bits in order, the first of them with number `index`. Also gives the numbers of those
that failed. -/
def writeAll (index : Nat) : List Json → Output → List (Nat × Fault) × Output
  | [], output => ([], output)
  | bit :: bits, output =>
    let (fault?, written) := output.write bit
    let (faults, last) := writeAll (index + 1) bits written
    ((fault?.map (index, ·)).toList ++ faults, last)

/-- Forgets what has been put out, up to an incomplete character. -/
def drain (output : Output) : Output :=
  { output with bits := #[], text := "" }

end Output

end BitMachine
