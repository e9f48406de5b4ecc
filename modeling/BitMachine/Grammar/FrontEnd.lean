import BitMachine.Grammar.Descent
import BitMachine.Grammar.Automaton.Parser

/-! The two ways of reading a program. -/

set_option autoImplicit false

namespace BitMachine

inductive FrontEnd where
  /-- From the top down. -/
  | descent
  /-- From the bottom up. -/
  | automaton
deriving DecidableEq, Repr

namespace FrontEnd

/-- The program that a text spells, or where it stops being one. -/
def read : FrontEnd → String → Except Rejection Program
  | .descent => Descent.parse
  | .automaton => Automaton.parse

/-- The program that a text spells, or what is wrong with the text. -/
def parse (frontEnd : FrontEnd) (source : String) : Except Diagnostic Program :=
  (frontEnd.read source).mapError (·.diagnostic source)

end FrontEnd

end BitMachine
