/-! Line breaks: a line feed, a carriage return, or a carriage return followed by a line feed. -/

set_option autoImplicit false

namespace BitMachine.Text

/-- The text with every line break written as one line feed. -/
def unifyBreaks : List Char → List Char
  | [] => []
  | '\r' :: '\n' :: rest => '\n' :: unifyBreaks rest
  | '\r' :: rest => '\n' :: unifyBreaks rest
  | c :: rest => c :: unifyBreaks rest

/-- The lines of a text whose breaks are line feeds; a last line counts only if it is not empty. -/
def splitLines : List Char → List (List Char)
  | [] => []
  | '\n' :: rest => [] :: splitLines rest
  | c :: rest =>
    match splitLines rest with
    | [] => [[c]]
    | line :: lines => (c :: line) :: lines

/-- The lines of a text, ended by any line break. -/
def lines (text : String) : List String :=
  (splitLines (unifyBreaks text.toList)).map String.ofList

end BitMachine.Text
