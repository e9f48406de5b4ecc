import BitMachine.Json.Basic
import BitMachine.Text.Blank
import BitMachine.Grammar.Keyword

/-! Diagnostics: what is wrong with a program, and where. -/

set_option autoImplicit false

namespace BitMachine

/-- Why a text is no program, or a graph no loadable one. -/
inductive Cause where
  /-- None of the expected symbols stands here. -/
  | unexpected (expected : List String)
  | duplicateLine (number : Json)
  | missingEntry (number : Json)
  | nestedTooDeeply
deriving DecidableEq, Repr

namespace Cause

/-- The message for a set of expected symbols. -/
def expectation : List String → String
  | [] => "Illegal symbol found"
  | [symbol] => "Illegal symbol found. " ++ symbol ++ " was expected"
  | symbols => "Illegal symbol found. One of " ++ ", ".intercalate symbols ++ " was expected"

/-- The message of a cause, unless it is about a number that is too long to be written. -/
def message? : Cause → Option String
  | .unexpected expected => some (expectation expected)
  | .duplicateLine number => number.display?.map ("Line number " ++ · ++ " is already defined")
  | .missingEntry number => number.display?.map ("No line exists with number " ++ ·)
  | .nestedTooDeeply => some "Expression nested too deeply"

/-- The symbols of terminal names in alphabetical order; a name that is no keyword's stands for
itself. -/
def symbolsOf (names : List String) : List String :=
  (names.map fun name => ((Keyword.ofTerminalName? name).map Keyword.spelling).getD name).mergeSort
    fun a b => decide (a ≤ b)

end Cause

/-- A place where a text stops being a program. -/
structure Rejection where
  cause : Cause
  position : Nat
deriving DecidableEq, Repr

/-- A message about a position, with the text it is about if there is one. Where the message cannot be
written there is nothing to tell but that something is wrong. -/
structure Diagnostic where
  message : Option String
  position : Int := 0
  source : Option String := none
deriving DecidableEq, Repr

namespace Rejection

def diagnostic (source : String) (rejection : Rejection) : Diagnostic :=
  ⟨rejection.cause.message?, rejection.position, some source⟩

end Rejection

namespace Diagnostic

/-- How many characters an excerpt shows on either side of the position. -/
def reach : Int := 30

/-- The characters from `start` up to `stop`, where a negative `stop` counts from the end. -/
def window (text : List Char) (start : Nat) (stop : Int) : List Char :=
  let bound : Nat := if stop < 0 then (stop + text.length).toNat else stop.toNat
  (text.take bound).drop start

/-- The surroundings of the position on one line and a caret below the position. -/
def excerpt (diagnostic : Diagnostic) : String :=
  match diagnostic.source with
  | none => ""
  | some source =>
    let text := source.toList
    let start := (diagnostic.position - reach).toNat
    let stop := min (diagnostic.position + reach) text.length
    let shown := (window text start stop).map fun c => if Text.isBlank c then ' ' else c
    let margin := (diagnostic.position - start).toNat
    "  " ++ String.ofList shown ++ "\n  " ++ "".pushn ' ' margin ++ "^"

def locate? (message : String) (position : Json) : Option String :=
  position.display?.map (message ++ ". Position " ++ ·)

def summary? (diagnostic : Diagnostic) : Option String :=
  diagnostic.message.bind (locate? · diagnostic.position)

end Diagnostic

end BitMachine
