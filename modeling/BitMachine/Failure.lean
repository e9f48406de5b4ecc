import BitMachine.Fault
import BitMachine.Graph.Json
import BitMachine.Grammar.FrontEnd

/-! Failures: everything that can be wrong between a text and the end of its run. -/

set_option autoImplicit false

namespace BitMachine

namespace GraphError

/-- What a user is told about a graph that cannot be loaded, and the position it is about. Only the
rules on line numbers are worded for users. -/
def complaint? : GraphError → Option (String × Json)
  | .duplicateLine number position => (Cause.duplicateLine number).message?.map (·, position)
  | .missingEntry number => (Cause.missingEntry number).message?.map (·, .int 0)
  | _ => none

/-- The wording of an unknown name. -/
def message? : GraphError → Option String
  | .unknownSpecial name => name.display?.map ("Unsupported special type: " ++ ·)
  | .unknownKind name => name.display?.map ("Unsupported node type in JSON: " ++ ·)
  | _ => none

end GraphError

inductive Failure where
  /-- A text breaks the rules of the language. -/
  | rejected (frontEnd : FrontEnd) (diagnostic : Diagnostic)
  /-- A JSON value is no graph. -/
  | malformed (error : GraphError)
  /-- A run stopped without halting. -/
  | faulted (fault : Fault)
deriving DecidableEq, Repr

namespace Node

def load (value : Json) : Except Failure Node :=
  (ofJson value).mapError .malformed

end Node

end BitMachine
