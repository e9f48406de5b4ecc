import BitMachine.Json.Number

/-! Program graphs: expressions, instructions, branches, lines and programs.

A graph is open: any slot may hold any node, or none, and where a number belongs any JSON value may
stand. What a slot should hold is not the graph's concern but that of whoever runs it. -/

set_option autoImplicit false

namespace BitMachine

/-- A numbered line over a type of nodes: one instruction and what comes after it. The position is
where the line starts in its source. -/
structure LineOf (α : Type) where
  number : Json
  instruction : α
  branch : α
  position : Json := .int 0
deriving Repr

/-- A node of a program graph. -/
inductive Node where
  /-- An empty slot. -/
  | absent
  | constant (magnitude : Json)
  /-- A cell, or the jump register under its address. -/
  | variable (address : Json)
  | valueAt (child : Node)
  | valueBeyond (child : Node)
  | addressOf (child : Node)
  | nand (left right : Node)
  | print (bit : Json)
  | read
  /-- The place is computed, or written down as an address. -/
  | assignment (address : Json) (place : Node) (source : Node)
  | target (lineNumber : Json) (indirect : Json)
  | unconditional (target : Node)
  | conditional (ifZero ifOne : Node)
  | line (content : LineOf Node)
  | program (first : Json) (lines : List (LineOf Node))
deriving Repr, Inhabited

abbrev Line := LineOf Node

/-- Where a line starts in its source, as far as that is known. -/
def LineOf.start {α : Type} (line : LineOf α) : Nat :=
  match line.position with
  | .int position => position.toNat
  | _ => 0

/-- A program: its lines in source order and the number of the one where it starts. -/
structure Program where
  first : Json
  lines : List Line
deriving Repr

namespace Program

def toNode (program : Program) : Node :=
  .program program.first program.lines

def line? (program : Program) (number : Json) : Option Line :=
  program.lines.find? (·.number.same number)

def entry? (program : Program) : Option Line :=
  program.line? program.first

def lineNumbers (program : Program) : List Json :=
  program.lines.map (·.number)

end Program

namespace Node

def kindName : Node → String
  | .absent => "NoneType"
  | .constant _ => "Constant"
  | .variable _ => "Variable"
  | .valueAt _ => "ValueAt"
  | .valueBeyond _ => "ValueBeyond"
  | .addressOf _ => "AddressOf"
  | .nand _ _ => "Nand"
  | .print _ => "PrintCommand"
  | .read => "ReadCommand"
  | .assignment _ _ _ => "Assignment"
  | .target _ _ => "Target"
  | .unconditional _ => "UnconditionalBranch"
  | .conditional _ _ => "ConditionalBranch"
  | .line _ => "Line"
  | .program _ _ => "Program"

def isAbsent : Node → Bool
  | .absent => true
  | _ => false

def isRead : Node → Bool
  | .read => true
  | _ => false

/-- A branch that is taken if the jump register holds `bit`. -/
def oneArm (bit : Nat) (goal : Node) : Node :=
  if bit = 0 then .conditional goal .absent else .conditional .absent goal

/-- A branch that leads to `goal` if the jump register holds `bit`, and else to `other`. -/
def twoArms (bit : Nat) (goal other : Node) : Node :=
  if bit = 0 then .conditional goal other else .conditional other goal

def toProgram? : Node → Option Program
  | .program first lines => some ⟨first, lines⟩
  | _ => none

mutual

/-- Equality of graphs, source positions aside. -/
def agrees : Node → Node → Bool
  | .absent, .absent => true
  | .constant m, .constant n => m.same n
  | .variable a, .variable b => a.same b
  | .valueAt m, .valueAt n => agrees m n
  | .valueBeyond m, .valueBeyond n => agrees m n
  | .addressOf m, .addressOf n => agrees m n
  | .nand l r, .nand l' r' => agrees l l' && agrees r r'
  | .print b, .print c => b.same c
  | .read, .read => true
  | .assignment a p s, .assignment a' p' s' => a.same a' && agrees p p' && agrees s s'
  | .target n i, .target n' i' => n.same n' && i.same i'
  | .unconditional t, .unconditional t' => agrees t t'
  | .conditional z o, .conditional z' o' => agrees z z' && agrees o o'
  | .line l, .line l' => agreesLine l l'
  | .program f ls, .program f' ls' => f.same f' && agreesLines ls ls'
  | _, _ => false

def agreesLine : LineOf Node → LineOf Node → Bool
  | ⟨n, i, b, _⟩, ⟨n', i', b', _⟩ => n.same n' && agrees i i' && agrees b b'

def agreesLines : List (LineOf Node) → List (LineOf Node) → Bool
  | [], [] => true
  | l :: ls, l' :: ls' => agreesLine l l' && agreesLines ls ls'
  | _, _ => false

end

end Node

end BitMachine
