/-! The keywords, which are all the words of the language. -/

set_option autoImplicit false

namespace BitMachine

inductive Keyword where
  | lineNumber
  | code
  | goto
  | ifTheJumpRegisterIs
  | equalTo
  | print
  | read
  | equals
  | variable
  | theJumpRegister
  | nand
  | theAddressOf
  | theValueBeyond
  | theValueAt
  | openParenthesis
  | closeParenthesis
  | zero
  | one
deriving DecidableEq, Repr, Inhabited

namespace Keyword

def all : List Keyword :=
  [.lineNumber, .code, .goto, .ifTheJumpRegisterIs, .equalTo, .print, .read, .equals, .variable,
    .theJumpRegister, .nand, .theAddressOf, .theValueBeyond, .theValueAt, .openParenthesis,
    .closeParenthesis, .zero, .one]

/-- The letters of a keyword. Blanks between them do not count. -/
def spelling : Keyword → String
  | .lineNumber => "LINENUMBER"
  | .code => "CODE"
  | .goto => "GOTO"
  | .ifTheJumpRegisterIs => "IFTHEJUMPREGISTERIS"
  | .equalTo => "EQUALTO"
  | .print => "PRINT"
  | .read => "READ"
  | .equals => "EQUALS"
  | .variable => "VARIABLE"
  | .theJumpRegister => "THEJUMPREGISTER"
  | .nand => "NAND"
  | .theAddressOf => "THEADDRESSOF"
  | .theValueBeyond => "THEVALUEBEYOND"
  | .theValueAt => "THEVALUEAT"
  | .openParenthesis => "OPENPARENTHESIS"
  | .closeParenthesis => "CLOSEPARENTHESIS"
  | .zero => "ZERO"
  | .one => "ONE"

def terminalName : Keyword → String
  | .lineNumber => "_LINE_NUMBER"
  | .code => "_CODE"
  | .goto => "_GOTO"
  | .ifTheJumpRegisterIs => "_IF_THE_JUMP_REGISTER_IS"
  | .equalTo => "_EQUAL_TO"
  | .print => "_PRINT"
  | .read => "_READ"
  | .equals => "_EQUALS"
  | .variable => "_VARIABLE"
  | .theJumpRegister => "_THE_JUMP_REGISTER"
  | .nand => "_NAND"
  | .theAddressOf => "_THE_ADDRESS_OF"
  | .theValueBeyond => "_THE_VALUE_BEYOND"
  | .theValueAt => "_THE_VALUE_AT"
  | .openParenthesis => "_OPEN_PARENTHESIS"
  | .closeParenthesis => "_CLOSE_PARENTHESIS"
  | .zero => "_ZERO"
  | .one => "_ONE"

def ofTerminalName? (name : String) : Option Keyword :=
  all.find? (·.terminalName == name)

/-- The rule that defines a terminal: the letters of its symbol with any blanks between them. -/
def terminalRule (name symbol : String) : String :=
  name ++ ": /" ++ "\\s*".intercalate (symbol.toList.map String.singleton) ++ "/"

theorem mem_all (keyword : Keyword) : keyword ∈ all := by
  cases keyword <;> decide

end Keyword

end BitMachine
