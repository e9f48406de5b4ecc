import BitMachine.Json.Basic

/-! Writing JSON text with one item or field a line. A text is written piece by piece, and is broken
off at a number that is too long to be written. -/

set_option autoImplicit false

namespace BitMachine

/-- A text as far as it could be written, and whether that is all of it. -/
structure Draft where
  text : String := ""
  complete : Bool := true
deriving DecidableEq, Repr

namespace Draft

/-- A piece that is written as a whole or not at all. -/
def ofPiece : Option String → Draft
  | some piece => { text := piece }
  | none => { complete := false }

/-- Nothing is written after a text that was broken off. -/
def append (first next : Draft) : Draft :=
  if first.complete then { next with text := first.text ++ next.text } else first

instance : Append Draft := ⟨append⟩

/-- A text that is written first. -/
def after (text : String) (draft : Draft) : Draft :=
  { draft with text := text ++ draft.text }

def join : List Draft → Draft
  | [] => {}
  | part :: rest => part ++ join rest

end Draft

namespace Json

/-- A character inside a JSON text: quotes, backslashes and controls are escaped. -/
def escapeCharacter (c : Char) : List Char :=
  if c == '"' then ['\\', '"']
  else if c == '\\' then ['\\', '\\']
  else if c == '\n' then ['\\', 'n']
  else if c == '\r' then ['\\', 'r']
  else if c == '\t' then ['\\', 't']
  else if c == '\x0c' then ['\\', 'f']
  else if c == '\x08' then ['\\', 'b']
  else if c.toNat < 0x20 then '\\' :: 'u' :: Text.hexDigits 4 c.toNat
  else [c]

def writeText (text : String) : String :=
  String.ofList ('"' :: text.toList.flatMap escapeCharacter ++ ['"'])

/-- A floating-point number. Those that are not finite have names. -/
def writeReal : Binary64 → String
  | .nan => "NaN"
  | .infinite negative => if negative then "-Infinity" else "Infinity"
  | x => x.render

def writeScalar? : Json → Option String
  | .null => some "null"
  | .bool true => some "true"
  | .bool false => some "false"
  | .int n => Text.writeInteger? n
  | .real x => some (writeReal x)
  | .str text => some (writeText text)
  | .arr _ => some "[]"
  | .obj _ => some "\x7b\x7d"

/-- A new line indented by two blanks a level. -/
def lineStart (level : Nat) : String :=
  "\n" ++ "".pushn ' ' (2 * level)

/-- A container's parts, each on a line of its own, one level deeper than its brackets. -/
def layOut (level : Nat) (opening closing : String) : List Draft → Draft
  | [] => { text := opening ++ closing }
  | part :: parts =>
    part.after (opening ++ lineStart (level + 1)) ++
      Draft.join (parts.map (Draft.after ("," ++ lineStart (level + 1)))) ++
      { text := lineStart level ++ closing }

mutual

/-- The value with one item or field a line. -/
def pretty (level : Nat) : Json → Draft
  | .arr items => layOut level "[" "]" (prettyItems (level + 1) items)
  | .obj fields => layOut level "\x7b" "\x7d" (prettyFields (level + 1) fields)
  | value => .ofPiece (writeScalar? value)

def prettyItems (level : Nat) : List Json → List Draft
  | [] => []
  | item :: rest => pretty level item :: prettyItems level rest

def prettyFields (level : Nat) : List (String × Json) → List Draft
  | [] => []
  | (key, value) :: rest =>
    (pretty level value).after (writeText key ++ ": ") :: prettyFields level rest

end

end Json

end BitMachine
