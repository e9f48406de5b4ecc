import BitMachine.Text.Blank
import BitMachine.Text.LineBreak
import BitMachine.Fault

/-! Where the bits come from that a program reads. -/

set_option autoImplicit false

namespace BitMachine

/-- Bits prepared beforehand, or lines of a console that shows a prompt before each. -/
inductive Input where
  | prepared (bits : List Json)
  | console (prompt : String) (lines : List String)
deriving Repr

namespace Input

def bitOf? : List Char → Option Int
  | ['0'] => some 0
  | ['1'] => some 1
  | _ => none

/-- The bits that a text of zeros, ones and blanks spells. -/
def bitsOfString : List Char → Except Fault (List Json)
  | [] => .ok []
  | c :: rest =>
    if Text.isBlank c then bitsOfString rest
    else match bitOf? [c] with
      | some bit => (bitsOfString rest).map (Json.int bit :: ·)
      | none => .error (.invalidInputBit c)

def ofString (text : String) : Except Fault Input :=
  (bitsOfString text.toList).map .prepared

def ofConsole (text : String) (prompt : String := "") : Input :=
  .console prompt (Text.lines text)

def prompt : Input → String
  | .prepared _ => ""
  | .console shown _ => shown

/-- The next bit, and the input that is left. Prepared bits are passed on as they are; a console's
line must be a bit with blanks around it. -/
def next : Input → Except Fault Json × Input
  | .prepared [] => (.error .noMoreInput, .prepared [])
  | .prepared (bit :: bits) => (.ok bit, .prepared bits)
  | .console shown [] => (.error .noMoreInput, .console shown [])
  | .console shown (line :: lines) =>
    match bitOf? (Text.trimBoth Text.isBlank line.toList) with
    | some bit => (.ok (.int bit), .console shown lines)
    | none => (.error .invalidInput, .console shown lines)

/-- The results of asking for a number of bits. -/
def draw : Nat → Input → List (Except Fault Json)
  | 0, _ => []
  | count + 1, input =>
    let (result, rest) := input.next
    result :: draw count rest

end Input

end BitMachine
