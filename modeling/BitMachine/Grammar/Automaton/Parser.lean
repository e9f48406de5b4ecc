import BitMachine.Grammar.Automaton.State
import BitMachine.Grammar.Automaton.Payload
import BitMachine.Grammar.Cursor

/-! Reading programs from the bottom up. Between keywords only separators may stand; inside a
keyword any blanks may. -/

set_option autoImplicit false

namespace BitMachine

namespace Node

/-- How many operators stand inside one another. -/
def height : Node → Nat
  | .valueAt child => child.height + 1
  | .valueBeyond child => child.height + 1
  | .addressOf child => child.height + 1
  | .nand left right => max left.height right.height + 1
  | .assignment _ place source => max place.height source.height + 1
  | _ => 0

end Node

namespace Automaton

def heightLimit : Nat := 480

/-- A symbol that has been read, and the state that it led to. -/
structure Frame where
  state : State
  payload : Payload

/-- The symbols read so far, the latest first. -/
abbrev Stack := List Frame

namespace Stack

def state : Stack → State
  | [] => .start
  | frame :: _ => frame.state

/-- Replaces the parts of a production by the phrase they make. -/
def reduce? (stack : Stack) (production : Production) : Option Stack :=
  let count := production.rhs.length
  let below := stack.drop count
  match production.build ((stack.take count).reverse.map (·.payload)),
    (Stack.state below).gotos.lookup production.lhs with
  | some payload, some next => some (⟨next, payload⟩ :: below)
  | _, _ => none

/-- Applies the productions that are complete under a lookahead, at most `fuel` of them. -/
def settleWithin : Nat → Stack → Lookahead → Stack
  | 0, stack, _ => stack
  | fuel + 1, stack, lookahead =>
    match (Stack.state stack).reduction? with
    | none => stack
    | some (production, followers) =>
      if followers.contains lookahead then
        match Stack.reduce? stack production with
        | some reduced => settleWithin fuel reduced lookahead
        | none => stack
      else stack

/-- Applies all productions that are complete under a lookahead. A phrase is at most ten others'
only part, so the bound is never reached. -/
def settle (stack : Stack) (lookahead : Lookahead) : Stack :=
  settleWithin (16 * (stack.length + 1)) stack lookahead

def drafts? : Stack → Option (List Draft)
  | [⟨.accepted, .lines drafts⟩] => some drafts.reverse
  | _ => none

end Stack

def Lookahead.name : Lookahead → String
  | none => "$END"
  | some keyword => keyword.spelling

def refuse (expected : List Lookahead) (position : Nat) : Rejection :=
  ⟨.unexpected ((expected.map Lookahead.name).mergeSort fun a b => decide (a ≤ b)), position⟩

/-- The one of some keywords that starts right at the cursor, and the cursor behind it. -/
def nextKeyword? (keywords : List Keyword) (cursor : Cursor) : Option (Keyword × Cursor) :=
  keywords.findSome? fun keyword =>
    match cursor.rest with
    | c :: _ =>
      if Text.isBlank c then none
      else match cursor.advance keyword.spelling.toList with
        | (true, after) => some (keyword, after)
        | (false, _) => none
    | [] => none

/-- Reads keywords up to the end of the text, at most `fuel` of them; `last` is where the latest one
started. -/
def readAll : Nat → Stack → Nat → Cursor → Except Rejection (List Draft)
  | 0, _, last, _ => .error (refuse [] last)
  | fuel + 1, stack, last, before =>
    let cursor := before.skipWhile Text.isSeparator
    if cursor.rest.isEmpty then
      let settled := Stack.settle stack none
      match Stack.drafts? settled with
      | some drafts => .ok drafts
      | none => .error (refuse (Stack.state settled).lookaheads last)
    else
      match nextKeyword? (Stack.state stack).keywords cursor with
      | none =>
        .error (refuse ((Stack.state stack).keywords.map some) cursor.position)
      | some (keyword, after) =>
        let settled := Stack.settle stack (some keyword)
        match (Stack.state settled).shifts.lookup keyword with
        | some next => readAll fuel (⟨next, .word cursor.position⟩ :: settled) cursor.position after
        | none => .error (refuse (Stack.state settled).lookaheads cursor.position)

def Draft.objection? (draft : Draft) : Option Rejection :=
  if heightLimit < draft.line.instruction.height then some ⟨.nestedTooDeeply, 0⟩
  else draft.clash.map fun position =>
    ⟨.unexpected ["Conditional goto with different bit constant"], position⟩

/-- The first line whose number an earlier line has. -/
def duplicate? (seen : List Json) : List Line → Option Line
  | [] => none
  | line :: rest =>
    if seen.any (·.same line.number) then some line else duplicate? (line.number :: seen) rest

/-- The program of the lines read. Objections to single lines come before repeated numbers. -/
def assemble (drafts : List Draft) : Except Rejection Program :=
  match drafts.findSome? Draft.objection?, duplicate? [] (drafts.map (·.line)), drafts with
  | some rejection, _, _ => .error rejection
  | none, some line, _ => .error ⟨.duplicateLine line.number, line.start⟩
  | none, none, [] => .error (refuse [] 0)
  | none, none, first :: _ => .ok ⟨first.line.number, drafts.map (·.line)⟩

def parse (source : String) : Except Rejection Program :=
  (readAll (source.length + 1) [] 0 (.ofString source)).bind assemble

end Automaton

end BitMachine
