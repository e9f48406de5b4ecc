import BitMachine.Grammar.Keyword
import BitMachine.Graph.Basic
import BitMachine.Memory

/-! Derivations: the ways in which keywords form a program. Each phrase of the grammar is a type
and each of its alternatives a constructor. A derivation has words, which it derives, and a
meaning, which is the part of a program graph that it stands for. -/

set_option autoImplicit false

namespace BitMachine.Derivation

/-- The keyword of a bit. -/
def bitWord : Bool → Keyword
  | false => .zero
  | true => .one

/-- One or more bits, the most significant first. -/
structure Numeral where
  first : Bool
  more : List Bool
deriving DecidableEq, Repr

namespace Numeral

def words (numeral : Numeral) : List Keyword :=
  bitWord numeral.first :: numeral.more.map bitWord

def value (numeral : Numeral) : Nat :=
  numeral.more.foldl (fun value bit => 2 * value + bit.toNat) numeral.first.toNat

end Numeral

/-- A cell or the jump register. -/
inductive Place where
  | cell (address : Numeral)
  | register
deriving DecidableEq, Repr

namespace Place

def words : Place → List Keyword
  | .cell address => .variable :: address.words
  | .register => [.theJumpRegister]

def address : Place → Int
  | .cell address => address.value
  | .register => registerAddress

end Place

/-- The layers of an expression, the tightest first. -/
inductive Layer where
  | primary
  | valueAt
  | valueBeyond
  | operand
  | expression
deriving DecidableEq, Repr

/-- The phrases of a layer. -/
inductive Expression : Layer → Type where
  | place (spot : Place) : Expression .primary
  | constant (magnitude : Numeral) : Expression .primary
  | parenthesized (inner : Expression .expression) : Expression .primary
  | plainAt (inner : Expression .primary) : Expression .valueAt
  | valueAt (inner : Expression .primary) : Expression .valueAt
  | plainBeyond (inner : Expression .valueAt) : Expression .valueBeyond
  | valueBeyond (inner : Expression .valueAt) : Expression .valueBeyond
  | plainOperand (inner : Expression .valueBeyond) : Expression .operand
  | addressOf (inner : Expression .valueBeyond) : Expression .operand
  | single (operand : Expression .operand) : Expression .expression
  | nand (left right : Expression .operand) : Expression .expression
deriving DecidableEq, Repr

namespace Expression

def words : {layer : Layer} → Expression layer → List Keyword
  | _, .place spot => spot.words
  | _, .constant magnitude => magnitude.words
  | _, .parenthesized inner => .openParenthesis :: (inner.words ++ [.closeParenthesis])
  | _, .plainAt inner => inner.words
  | _, .valueAt inner => .theValueAt :: inner.words
  | _, .plainBeyond inner => inner.words
  | _, .valueBeyond inner => .theValueBeyond :: inner.words
  | _, .plainOperand inner => inner.words
  | _, .addressOf inner => .theAddressOf :: inner.words
  | _, .single operand => operand.words
  | _, .nand left right => left.words ++ .nand :: right.words

/-- The node of an expression. Parentheses leave no trace. -/
def node : {layer : Layer} → Expression layer → Node
  | _, .place spot => .variable spot.address
  | _, .constant magnitude => .constant magnitude.value
  | _, .parenthesized inner => inner.node
  | _, .plainAt inner => inner.node
  | _, .valueAt inner => .valueAt inner.node
  | _, .plainBeyond inner => inner.node
  | _, .valueBeyond inner => .valueBeyond inner.node
  | _, .plainOperand inner => inner.node
  | _, .addressOf inner => .addressOf inner.node
  | _, .single operand => operand.node
  | _, .nand left right => .nand left.node right.node

/-- How many parentheses stand inside one another. -/
def depth : {layer : Layer} → Expression layer → Nat
  | _, .place _ => 0
  | _, .constant _ => 0
  | _, .parenthesized inner => inner.depth + 1
  | _, .plainAt inner => inner.depth
  | _, .valueAt inner => inner.depth
  | _, .plainBeyond inner => inner.depth
  | _, .valueBeyond inner => inner.depth
  | _, .plainOperand inner => inner.depth
  | _, .addressOf inner => inner.depth
  | _, .single operand => operand.depth
  | _, .nand left right => max left.depth right.depth

end Expression

/-- Whether the first keyword is that of a cell or of the jump register. -/
def StartsWithPlace (words : List Keyword) : Prop :=
  words.head? = some .variable ∨ words.head? = some .theJumpRegister

instance (words : List Keyword) : Decidable (StartsWithPlace words) :=
  inferInstanceAs (Decidable (_ ∨ _))

/-- What an assignment changes. A computed place does not start like a place that is written
down. -/
inductive Destination where
  | place (spot : Place)
  | computed (address : Expression .expression) (computes : ¬StartsWithPlace address.words)

namespace Destination

def words : Destination → List Keyword
  | .place spot => spot.words
  | .computed address _ => address.words

def depth : Destination → Nat
  | .place _ => 0
  | .computed address _ => address.depth

end Destination

inductive Instruction where
  | print (bit : Bool)
  | read
  | assignment (destination : Destination) (source : Expression .expression)

namespace Instruction

def words : Instruction → List Keyword
  | .print bit => [.print, bitWord bit]
  | .read => [.read]
  | .assignment destination source => destination.words ++ .equals :: source.words

def node : Instruction → Node
  | .print bit => .print bit.toNat
  | .read => .read
  | .assignment (.place spot) source => .assignment spot.address .absent source.node
  | .assignment (.computed address _) source => .assignment .null address.node source.node

def depth : Instruction → Nat
  | .print _ => 0
  | .read => 0
  | .assignment destination source => max destination.depth source.depth

end Instruction

/-- Where a branch leads, possibly by way of a cell. -/
structure Goal where
  marked : Bool
  number : Numeral
deriving DecidableEq, Repr

namespace Goal

def words (goal : Goal) : List Keyword :=
  if goal.marked then .variable :: goal.number.words else goal.number.words

def node (goal : Goal) : Node :=
  .target goal.number.value (.bool goal.marked)

end Goal

/-- The bit that a branch asks for, with or without `EQUAL TO`. -/
structure Condition where
  wordy : Bool
  bit : Bool
deriving DecidableEq, Repr

namespace Condition

def words (condition : Condition) : List Keyword :=
  if condition.wordy then [.ifTheJumpRegisterIs, .equalTo, bitWord condition.bit]
  else [.ifTheJumpRegisterIs, bitWord condition.bit]

end Condition

inductive Branch where
  | jump (goal : Goal)
  | oneArm (goal : Goal) (asked : Condition)
  | twoArms (first : Goal) (asked : Condition) (second : Goal) (other : Condition)
deriving DecidableEq, Repr

namespace Branch

def words : Branch → List Keyword
  | .jump goal => .goto :: goal.words
  | .oneArm goal asked => .goto :: (goal.words ++ asked.words)
  | .twoArms first asked second other =>
    .goto :: (first.words ++ (asked.words ++ .goto :: (second.words ++ other.words)))

def node : Branch → Node
  | .jump goal => .unconditional goal.node
  | .oneArm goal asked => .oneArm asked.bit.toNat goal.node
  | .twoArms first asked second _ => .twoArms asked.bit.toNat first.node second.node

/-- Whether both arms ask for the same bit. -/
def clashes : Branch → Bool
  | .twoArms _ asked _ other => asked.bit == other.bit
  | _ => false

end Branch

structure Line where
  number : Numeral
  instruction : Instruction
  branch : Option Branch

namespace Line

def branchWords : Option Branch → List Keyword
  | none => []
  | some branch => branch.words

def words (line : Line) : List Keyword :=
  .lineNumber :: (line.number.words ++ .code :: (line.instruction.words ++ branchWords line.branch))

def branchNode : Option Branch → Node
  | none => .absent
  | some branch => branch.node

/-- The line of a program graph, given where it starts. -/
def meaning (line : Line) (position : Nat) : BitMachine.Line :=
  ⟨line.number.value, line.instruction.node, branchNode line.branch, position⟩

def clashes (line : Line) : Bool :=
  line.branch.any (·.clashes)

end Line

/-- The lines of a program graph, given where their keywords start. -/
def linesAt : List Nat → List Line → List BitMachine.Line
  | _, [] => []
  | starts, line :: rest =>
    line.meaning (starts.headD 0) :: linesAt (starts.drop line.words.length) rest

structure Program where
  first : Line
  more : List Line

namespace Program

def lines (program : Program) : List Line :=
  program.first :: program.more

def words (program : Program) : List Keyword :=
  program.lines.flatMap (·.words)

/-- The program graph, given where the keywords start. -/
def meaning (program : Program) (starts : List Nat) : BitMachine.Program :=
  ⟨program.first.number.value, linesAt starts program.lines⟩

def numbers (program : Program) : List Nat :=
  program.lines.map (·.number.value)

/-- The rules that the grammar does not express: no two lines have one number, and no branch asks
for one bit twice. -/
structure Lawful (program : Program) : Prop where
  distinct : program.numbers.Nodup
  decided : ∀ line ∈ program.lines, line.clashes = false

/-- In no expression as many parentheses stand inside one another as the limit says. -/
def Shallow (program : Program) (limit : Nat) : Prop :=
  ∀ line ∈ program.lines, line.instruction.depth < limit

end Program

/-- The numbers of lines in a program graph are compared as numbers. -/
theorem any_same_int (numbers : List Nat) (number : Nat) :
    (numbers.map fun n : Nat => Json.int n).any (·.same (.int number)) =
      decide (number ∈ numbers) := by
  induction numbers with
  | nil => rfl
  | cons first numbers ih =>
    rw [List.map_cons, List.any_cons, Json.same_int, ih, Bool.eq_iff_iff]
    simp only [Bool.or_eq_true, decide_eq_true_eq, Int.natCast_inj, List.mem_cons]
    exact or_congr_left eq_comm

theorem map_number_linesAt (starts : List Nat) (lines : List Line) :
    (linesAt starts lines).map (·.number) =
      (lines.map (·.number.value)).map fun n : Nat => Json.int n := by
  induction lines generalizing starts with
  | nil => rfl
  | cons line lines ih =>
    rw [linesAt, List.map_cons, ih]
    rfl

theorem linesAt_append (starts : List Nat) (front back : List Line) :
    linesAt starts (front ++ back) =
      linesAt starts front ++ linesAt (starts.drop (front.flatMap (·.words)).length) back := by
  induction front generalizing starts with
  | nil => rfl
  | cons line front ih =>
    rw [List.cons_append, linesAt, linesAt, ih, List.flatMap_cons, List.length_append,
      ← List.drop_drop]
    rfl

end BitMachine.Derivation
