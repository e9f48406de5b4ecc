import Mathlib.Data.List.Nodup
import Mathlib.Data.Nat.Bits
import BitMachine.Proofs.Grammar.Interchange
import BitMachine.Proofs.Machine.Graphs

/-! Writing programs down. Every well-formed program graph can be written as a text, in many ways,
and from each of them it is read back. What is read from any text is well-formed. -/

set_option autoImplicit false

namespace BitMachine

section Graphs

namespace Node

/-- An expression with all its operands, over numbers and over cells and the jump register. -/
def Expressible : Node → Prop
  | .constant magnitude => ∃ n : Nat, magnitude = .int n
  | .variable address => ∃ n : Int, address = .int n ∧ -1 ≤ n
  | .valueAt child => child.Expressible
  | .valueBeyond child => child.Expressible
  | .addressOf child => child.Expressible
  | .nand left right => left.Expressible ∧ right.Expressible
  | _ => False

/-- An instruction that prints a bit, reads one, or assigns an expression to either an address or a
computed place. -/
def Instructive : Node → Prop
  | .print bit => bit = .int 0 ∨ bit = .int 1
  | .read => True
  | .assignment address place source => source.Expressible ∧
    ((∃ n : Int, address = .int n ∧ -1 ≤ n) ∧ place = .absent ∨
      address = .null ∧ place.Expressible)
  | _ => False

/-- A line to go to, or a cell that holds its number. -/
def Targeted : Node → Prop
  | .target number indirect =>
    (∃ n : Nat, number = .int n) ∧ ∃ marked : Bool, indirect = .bool marked
  | _ => False

/-- No branch, a jump, or a choice with at least one arm. -/
def Leading : Node → Prop
  | .absent => True
  | .unconditional goal => goal.Targeted
  | .conditional ifZero ifOne =>
    (ifZero = .absent ∨ ifZero.Targeted) ∧ (ifOne = .absent ∨ ifOne.Targeted) ∧
      ¬(ifZero = .absent ∧ ifOne = .absent)
  | _ => False

end Node

/-- A line whose parts are well-formed. -/
structure LineOf.WellFormed (line : Line) : Prop where
  number : ∃ n : Nat, line.number = .int n
  instruction : line.instruction.Instructive
  branch : line.branch.Leading

/-- A program of well-formed lines with distinct numbers, which starts with the first of them. -/
structure Program.WellFormed (program : Program) : Prop where
  lines : ∀ line ∈ program.lines, LineOf.WellFormed line
  distinct : program.lineNumbers.Nodup
  entry : ∃ line rest, program.lines = line :: rest ∧ program.first = line.number

/-- A line without its position. -/
def LineOf.unplaced (line : Line) : Line :=
  { line with position := .int 0 }

/-- A program without the positions of its lines. -/
def Program.unplaced (program : Program) : Program :=
  { program with lines := program.lines.map (·.unplaced) }

end Graphs

namespace Writing

open BitMachine.Derivation (bitWord)

/-- A number is written as bits, the most significant first, with any zeros in front. -/
def OfNumber (number : Nat) (words : List Keyword) : Prop :=
  words ≠ [] ∧ ∃ zeros, words = List.replicate zeros .zero ++ number.bits.reverse.map bitWord

/-- Words in parentheses. -/
def grouped (words : List Keyword) : List Keyword :=
  .openParenthesis :: (words ++ [.closeParenthesis])

inductive OfPlace : Int → List Keyword → Prop where
  | cell {address : Nat} {words : List Keyword} (number : OfNumber address words) :
      OfPlace address (.variable :: words)
  | register : OfPlace (-1) [.theJumpRegister]

inductive OfExpression : Node → List Keyword → Prop where
  | constant {magnitude : Nat} {words : List Keyword} (number : OfNumber magnitude words) :
      OfExpression (.constant magnitude) words
  | place {address : Int} {words : List Keyword} (located : OfPlace address words) :
      OfExpression (.variable address) words
  | valueAt {child : Node} {words : List Keyword} (operand : OfExpression child words) :
      OfExpression (.valueAt child) (.theValueAt :: grouped words)
  | valueBeyond {child : Node} {words : List Keyword} (operand : OfExpression child words) :
      OfExpression (.valueBeyond child) (.theValueBeyond :: grouped words)
  | addressOf {child : Node} {words : List Keyword} (operand : OfExpression child words) :
      OfExpression (.addressOf child) (.theAddressOf :: grouped words)
  | nand {left right : Node} {front back : List Keyword} (first : OfExpression left front)
      (second : OfExpression right back) :
      OfExpression (.nand left right) (grouped front ++ .nand :: grouped back)

inductive OfInstruction : Node → List Keyword → Prop where
  | print (bit : Bool) : OfInstruction (.print bit.toNat) [.print, bitWord bit]
  | read : OfInstruction .read [.read]
  | direct {address : Int} {source : Node} {front back : List Keyword}
      (place : OfPlace address front) (value : OfExpression source back) :
      OfInstruction (.assignment address .absent source) (front ++ .equals :: back)
  | computed {place source : Node} {front back : List Keyword} (address : OfExpression place front)
      (value : OfExpression source back) :
      OfInstruction (.assignment .null place source) (grouped front ++ .equals :: back)

inductive OfTarget : Node → List Keyword → Prop where
  | line {number : Nat} {words : List Keyword} (written : OfNumber number words) :
      OfTarget (.target number (.bool false)) words
  | cell {number : Nat} {words : List Keyword} (written : OfNumber number words) :
      OfTarget (.target number (.bool true)) (.variable :: words)

/-- A target and the bit for which it is gone to. -/
def arm (words : List Keyword) (bit : Bool) : List Keyword :=
  .goto :: (words ++ [.ifTheJumpRegisterIs, bitWord bit])

inductive OfBranch : Node → List Keyword → Prop where
  | none : OfBranch .absent []
  | jump {goal : Node} {words : List Keyword} (target : OfTarget goal words) :
      OfBranch (.unconditional goal) (.goto :: words)
  | ifZero {goal : Node} {words : List Keyword} (target : OfTarget goal words) :
      OfBranch (.conditional goal .absent) (arm words false)
  | ifOne {goal : Node} {words : List Keyword} (target : OfTarget goal words) :
      OfBranch (.conditional .absent goal) (arm words true)
  | zeroFirst {goal other : Node} {front back : List Keyword} (zero : OfTarget goal front)
      (one : OfTarget other back) :
      OfBranch (.conditional goal other) (arm front false ++ arm back true)
  | oneFirst {goal other : Node} {front back : List Keyword} (zero : OfTarget goal front)
      (one : OfTarget other back) :
      OfBranch (.conditional goal other) (arm back true ++ arm front false)

inductive OfLine : Line → List Keyword → Prop where
  | line {number : Nat} {instruction branch : Node} {position : Json}
      {label code turn : List Keyword} (written : OfNumber number label)
      (command : OfInstruction instruction code) (leads : OfBranch branch turn) :
      OfLine ⟨number, instruction, branch, position⟩
        (.lineNumber :: (label ++ .code :: (code ++ turn)))

inductive OfLines : List Line → List Keyword → Prop where
  | nil : OfLines [] []
  | cons {line : Line} {rest : List Line} {front back : List Keyword} (first : OfLine line front)
      (more : OfLines rest back) : OfLines (line :: rest) (front ++ back)

/-- The words are one of the ways to write a program down. -/
def OfProgram (program : Program) (words : List Keyword) : Prop :=
  OfLines program.lines words

/-- The text consists of the keywords, with separators anywhere between and inside of them. -/
structure Spells (source : String) (words : List Keyword) : Prop where
  letters : Text.letters source.toList = Keyword.spell words
  gaps : ∀ c ∈ source.toList, Text.isBlank c = true → Text.isSeparator c = true

/-! What is written down has a derivation. -/

section Derivations

open BitMachine.Derivation

theorem value_zeros (zeros : Nat) (bits : List Bool) :
    (List.replicate zeros false ++ bits).foldl (fun value bit => 2 * value + bit.toNat) 0 =
      bits.foldl (fun value bit => 2 * value + bit.toNat) 0 := by
  induction zeros with
  | zero => rfl
  | succ zeros ih => exact ih

theorem value_bits (number : Nat) :
    number.bits.reverse.foldl (fun value bit => 2 * value + bit.toNat) 0 = number := by
  rw [List.foldl_reverse]
  induction number using Nat.binaryRec' with
  | zero => rfl
  | bit bit number leading ih =>
    rw [Nat.bits_append_bit number bit leading, List.foldr_cons, ih, Nat.bit_val]

theorem OfNumber.exists_numeral {number : Nat} {words : List Keyword}
    (written : OfNumber number words) :
    ∃ numeral : Numeral, numeral.words = words ∧ numeral.value = number := by
  obtain ⟨some, zeros, rfl⟩ := written
  have together : List.replicate zeros Keyword.zero ++ number.bits.reverse.map bitWord =
      (List.replicate zeros false ++ number.bits.reverse).map bitWord := by
    rw [List.map_append, List.map_replicate]
    rfl
  have value := (value_zeros zeros number.bits.reverse).trans (value_bits number)
  rw [together] at some ⊢
  cases bits : List.replicate zeros false ++ number.bits.reverse with
  | nil =>
    rw [bits] at some
    exact absurd rfl some
  | cons first more =>
    rw [bits, List.foldl_cons, Nat.mul_zero, Nat.zero_add] at value
    exact ⟨⟨first, more⟩, rfl, value⟩

theorem OfPlace.exists_place {address : Int} {words : List Keyword}
    (written : OfPlace address words) :
    ∃ spot : Place, spot.words = words ∧ spot.address = address := by
  cases written with
  | cell number =>
    obtain ⟨numeral, rfl, rfl⟩ := number.exists_numeral
    exact ⟨.cell numeral, rfl, rfl⟩
  | register => exact ⟨.register, rfl, rfl⟩

/-- An expression in parentheses, which may be an operand of any operator. -/
def parenthesized (inner : Expression .expression) : Expression .operand :=
  .plainOperand (.plainBeyond (.plainAt (.parenthesized inner)))

theorem OfExpression.exists_expression {node : Node} {words : List Keyword}
    (written : OfExpression node words) :
    ∃ phrase : Expression .expression, phrase.words = words ∧ phrase.node = node := by
  induction written with
  | constant number =>
    obtain ⟨numeral, rfl, rfl⟩ := number.exists_numeral
    exact ⟨.single (.plainOperand (.plainBeyond (.plainAt (.constant numeral)))), rfl, rfl⟩
  | place located =>
    obtain ⟨spot, rfl, rfl⟩ := located.exists_place
    exact ⟨.single (.plainOperand (.plainBeyond (.plainAt (.place spot)))), rfl, rfl⟩
  | valueAt _ ih =>
    obtain ⟨inner, rfl, rfl⟩ := ih
    exact ⟨.single (.plainOperand (.plainBeyond (.valueAt (.parenthesized inner)))), rfl, rfl⟩
  | valueBeyond _ ih =>
    obtain ⟨inner, rfl, rfl⟩ := ih
    exact ⟨.single (.plainOperand (.valueBeyond (.plainAt (.parenthesized inner)))), rfl, rfl⟩
  | addressOf _ ih =>
    obtain ⟨inner, rfl, rfl⟩ := ih
    exact ⟨.single (.addressOf (.plainBeyond (.plainAt (.parenthesized inner)))), rfl, rfl⟩
  | nand _ _ leftIh rightIh =>
    obtain ⟨left, rfl, rfl⟩ := leftIh
    obtain ⟨right, rfl, rfl⟩ := rightIh
    exact ⟨.nand (parenthesized left) (parenthesized right), rfl, rfl⟩

theorem OfInstruction.exists_instruction {node : Node} {words : List Keyword}
    (written : OfInstruction node words) :
    ∃ instruction : Instruction, instruction.words = words ∧ instruction.node = node := by
  cases written with
  | print bit => exact ⟨.print bit, rfl, rfl⟩
  | read => exact ⟨.read, rfl, rfl⟩
  | direct place value =>
    obtain ⟨spot, rfl, rfl⟩ := place.exists_place
    obtain ⟨source, rfl, rfl⟩ := value.exists_expression
    exact ⟨.assignment (.place spot) source, rfl, rfl⟩
  | computed address value =>
    obtain ⟨place, rfl, rfl⟩ := address.exists_expression
    obtain ⟨source, rfl, rfl⟩ := value.exists_expression
    -- The parentheses keep a computed place from starting like one that is written down.
    have computes : ¬StartsWithPlace (Expression.single (parenthesized place)).words := by
      rintro (starts | starts) <;> cases starts
    exact ⟨.assignment (.computed _ computes) source, rfl, rfl⟩

theorem OfTarget.exists_goal {node : Node} {words : List Keyword} (written : OfTarget node words) :
    ∃ goal : Goal, goal.words = words ∧ goal.node = node := by
  cases written with
  | line number =>
    obtain ⟨numeral, rfl, rfl⟩ := number.exists_numeral
    exact ⟨⟨false, numeral⟩, rfl, rfl⟩
  | cell number =>
    obtain ⟨numeral, rfl, rfl⟩ := number.exists_numeral
    exact ⟨⟨true, numeral⟩, rfl, rfl⟩

theorem words_twoArms (first second : Goal) (bit other : Bool) :
    (Branch.twoArms first ⟨false, bit⟩ second ⟨false, other⟩).words =
      arm first.words bit ++ arm second.words other := by
  simp only [Branch.words, Condition.words, arm, Bool.false_eq_true, ↓reduceIte,
    List.cons_append, List.append_assoc, List.nil_append]

theorem OfBranch.exists_branch {node : Node} {words : List Keyword}
    (written : OfBranch node words) :
    ∃ branch : Option Branch, Line.branchWords branch = words ∧ Line.branchNode branch = node ∧
      branch.any (·.clashes) = false := by
  cases written with
  | none => exact ⟨.none, rfl, rfl, rfl⟩
  | jump target =>
    obtain ⟨goal, rfl, rfl⟩ := target.exists_goal
    exact ⟨some (.jump goal), rfl, rfl, rfl⟩
  | ifZero target =>
    obtain ⟨goal, rfl, rfl⟩ := target.exists_goal
    exact ⟨some (.oneArm goal ⟨false, false⟩), rfl, rfl, rfl⟩
  | ifOne target =>
    obtain ⟨goal, rfl, rfl⟩ := target.exists_goal
    exact ⟨some (.oneArm goal ⟨false, true⟩), rfl, rfl, rfl⟩
  | zeroFirst zero one =>
    obtain ⟨goal, rfl, rfl⟩ := zero.exists_goal
    obtain ⟨other, rfl, rfl⟩ := one.exists_goal
    exact ⟨some (.twoArms goal ⟨false, false⟩ other ⟨false, true⟩), words_twoArms .., rfl, rfl⟩
  | oneFirst zero one =>
    obtain ⟨goal, rfl, rfl⟩ := zero.exists_goal
    obtain ⟨other, rfl, rfl⟩ := one.exists_goal
    exact ⟨some (.twoArms other ⟨false, true⟩ goal ⟨false, false⟩), words_twoArms .., rfl, rfl⟩

theorem OfLine.exists_line {line : BitMachine.Line} {words : List Keyword}
    (written : OfLine line words) :
    ∃ derived : Derivation.Line, derived.words = words ∧ derived.clashes = false ∧
      ∀ position, (derived.meaning position).unplaced = line.unplaced := by
  cases written with
  | line number command leads =>
    obtain ⟨numeral, rfl, rfl⟩ := number.exists_numeral
    obtain ⟨instruction, rfl, rfl⟩ := command.exists_instruction
    obtain ⟨branch, rfl, rfl, decided⟩ := leads.exists_branch
    exact ⟨⟨numeral, instruction, branch⟩, rfl, decided, fun _ => rfl⟩

theorem OfLines.exists_lines {lines : List BitMachine.Line} {words : List Keyword}
    (written : OfLines lines words) :
    ∃ derived : List Derivation.Line, derived.flatMap (·.words) = words ∧
      (∀ line ∈ derived, line.clashes = false) ∧
      ∀ starts, (linesAt starts derived).map (·.unplaced) = lines.map (·.unplaced) := by
  induction written with
  | nil => exact ⟨[], rfl, List.forall_mem_nil _, fun _ => rfl⟩
  | cons first more ih =>
    obtain ⟨line, rfl, decided, means⟩ := first.exists_line
    obtain ⟨rest, rfl, others, meaning⟩ := ih
    refine ⟨line :: rest, rfl, List.forall_mem_cons.mpr ⟨decided, others⟩, fun starts => ?_⟩
    rw [linesAt, List.map_cons, List.map_cons, means, meaning]

end Derivations

/-! Every well-formed graph can be written down. -/

section Existence

theorem exists_ofNumber (number : Nat) : ∃ words, OfNumber number words :=
  ⟨.zero :: number.bits.reverse.map bitWord, List.cons_ne_nil _ _, 1, rfl⟩

theorem exists_ofPlace {address : Int} (legal : -1 ≤ address) : ∃ words, OfPlace address words := by
  by_cases register : address = -1
  · subst register
    exact ⟨_, .register⟩
  · obtain ⟨cell, rfl⟩ := Int.eq_ofNat_of_zero_le (by omega : 0 ≤ address)
    obtain ⟨words, number⟩ := exists_ofNumber cell
    exact ⟨_, .cell number⟩

theorem exists_ofExpression {node : Node} (expressible : node.Expressible) :
    ∃ words, OfExpression node words := by
  fun_induction Node.Expressible node with
  | case1 magnitude =>
    obtain ⟨n, rfl⟩ := expressible
    obtain ⟨words, number⟩ := exists_ofNumber n
    exact ⟨_, .constant number⟩
  | case2 address =>
    obtain ⟨n, rfl, legal⟩ := expressible
    obtain ⟨words, located⟩ := exists_ofPlace legal
    exact ⟨_, .place located⟩
  | case3 child ih =>
    obtain ⟨words, operand⟩ := ih expressible
    exact ⟨_, .valueAt operand⟩
  | case4 child ih =>
    obtain ⟨words, operand⟩ := ih expressible
    exact ⟨_, .valueBeyond operand⟩
  | case5 child ih =>
    obtain ⟨words, operand⟩ := ih expressible
    exact ⟨_, .addressOf operand⟩
  | case6 left right leftIh rightIh =>
    obtain ⟨front, first⟩ := leftIh expressible.1
    obtain ⟨back, second⟩ := rightIh expressible.2
    exact ⟨_, .nand first second⟩
  | case7 => exact expressible.elim

theorem exists_ofInstruction {node : Node} (instructive : node.Instructive) :
    ∃ words, OfInstruction node words := by
  revert instructive
  fun_cases Node.Instructive node with
  | case1 bit =>
    rintro (rfl | rfl)
    · exact ⟨_, .print false⟩
    · exact ⟨_, .print true⟩
  | case2 => exact fun _ => ⟨_, .read⟩
  | case3 address place source =>
    rintro ⟨evaluates, ⟨⟨n, rfl, legal⟩, rfl⟩ | ⟨rfl, computes⟩⟩
    · obtain ⟨front, spot⟩ := exists_ofPlace legal
      obtain ⟨back, value⟩ := exists_ofExpression evaluates
      exact ⟨_, .direct spot value⟩
    · obtain ⟨front, address⟩ := exists_ofExpression computes
      obtain ⟨back, value⟩ := exists_ofExpression evaluates
      exact ⟨_, .computed address value⟩
  | case4 => exact False.elim

theorem exists_ofTarget {node : Node} (targeted : node.Targeted) :
    ∃ words, OfTarget node words := by
  revert targeted
  fun_cases Node.Targeted node with
  | case1 number indirect =>
    rintro ⟨⟨n, rfl⟩, marked, rfl⟩
    obtain ⟨words, written⟩ := exists_ofNumber n
    cases marked with
    | false => exact ⟨_, .line written⟩
    | true => exact ⟨_, .cell written⟩
  | case2 => exact False.elim

theorem exists_ofBranch {node : Node} (leading : node.Leading) : ∃ words, OfBranch node words := by
  revert leading
  fun_cases Node.Leading node with
  | case1 => exact fun _ => ⟨_, .none⟩
  | case2 goal =>
    intro targeted
    obtain ⟨words, target⟩ := exists_ofTarget targeted
    exact ⟨_, .jump target⟩
  | case3 ifZero ifOne =>
    rintro ⟨rfl | zero, rfl | one, some⟩
    · exact absurd ⟨rfl, rfl⟩ some
    · obtain ⟨words, target⟩ := exists_ofTarget one
      exact ⟨_, .ifOne target⟩
    · obtain ⟨words, target⟩ := exists_ofTarget zero
      exact ⟨_, .ifZero target⟩
    · obtain ⟨front, goal⟩ := exists_ofTarget zero
      obtain ⟨back, other⟩ := exists_ofTarget one
      exact ⟨_, .zeroFirst goal other⟩
  | case4 => exact False.elim

theorem exists_ofLine {line : Line} (wellFormed : LineOf.WellFormed line) :
    ∃ words, OfLine line words := by
  obtain ⟨number, instruction, branch, position⟩ := line
  obtain ⟨⟨n, numbered⟩, instructive, leading⟩ := wellFormed
  cases numbered
  obtain ⟨label, written⟩ := exists_ofNumber n
  obtain ⟨code, command⟩ := exists_ofInstruction instructive
  obtain ⟨turn, leads⟩ := exists_ofBranch leading
  exact ⟨_, .line written command leads⟩

theorem exists_ofLines {lines : List Line}
    (wellFormed : ∀ line ∈ lines, LineOf.WellFormed line) : ∃ words, OfLines lines words := by
  induction lines with
  | nil => exact ⟨_, .nil⟩
  | cons line lines ih =>
    obtain ⟨here, others⟩ := List.forall_mem_cons.mp wellFormed
    obtain ⟨front, first⟩ := exists_ofLine here
    obtain ⟨back, more⟩ := ih others
    exact ⟨_, .cons first more⟩

/-- Keywords can be written without any separators. -/
theorem spells_tight (words : List Keyword) : Spells (.ofList (Keyword.spell words)) words := by
  refine ⟨by rw [String.toList_ofList, Text.letters_spell], ?_⟩
  intro c inside blank
  rw [String.toList_ofList, ← Text.letters_spell] at inside
  have solid := (List.mem_filter.mp inside).2
  rw [blank] at solid
  cases solid

end Existence

/-! What is written down is read back. -/

section Reading

theorem Spells.separated {source : String} {words : List Keyword} (spelled : Spells source words) :
    Separated source := by
  obtain ⟨tokens, outside, -, cut⟩ := Segmentation.exists_of_letters 0 spelled.letters
  refine ⟨tokens, outside, cut, fun c inside => ?_⟩
  obtain ⟨within, blank⟩ := cut.blank_of_outside c inside
  exact spelled.gaps c within blank

theorem map_number_unplaced (lines : List Line) :
    (lines.map (·.unplaced)).map (·.number) = lines.map (·.number) :=
  List.map_map ..

/-- The derivation of a program that is written down. -/
theorem OfProgram.exists_program {program : Program} {words : List Keyword}
    (wellFormed : program.WellFormed) (written : OfProgram program words) :
    ∃ derived : Derivation.Program, derived.words = words ∧ derived.Lawful ∧
      ∀ starts, (derived.meaning starts).unplaced = program.unplaced := by
  obtain ⟨derived, rfl, decided, means⟩ := written.exists_lines
  -- Positions aside, the lines are those of the graph, and so are their numbers.
  have numbers : (derived.map (·.number.value)).map (fun n : Nat => Json.int n) =
      program.lineNumbers := by
    rw [← Derivation.map_number_linesAt [], ← map_number_unplaced, means, map_number_unplaced]
    rfl
  have distinct : (derived.map (·.number.value)).Nodup := by
    have apart := wellFormed.distinct
    rw [← numbers] at apart
    exact List.Nodup.of_map _ apart
  obtain ⟨line, rest, lines, entry⟩ := wellFormed.entry
  cases derived with
  | nil =>
    rw [Program.lineNumbers, lines] at numbers
    cases numbers
  | cons first more =>
    refine ⟨⟨first, more⟩, rfl, ⟨distinct, decided⟩, fun starts => ?_⟩
    rw [Program.lineNumbers, lines] at numbers
    have opening : Json.int first.number.value = program.first :=
      (List.cons.inj numbers).1.trans entry.symm
    rw [Program.unplaced, Program.unplaced, ← means starts, ← opening]
    rfl

end Reading

end Writing

/-! What is read is well-formed. -/

namespace Derivation

theorem Expression.expressible {layer : Layer} (phrase : Expression layer) :
    phrase.node.Expressible := by
  induction phrase with
  | place spot => exact ⟨spot.address, rfl, spot.address_ge⟩
  | constant magnitude => exact ⟨magnitude.value, rfl⟩
  | parenthesized inner ih => exact ih
  | plainAt inner ih => exact ih
  | valueAt inner ih => exact ih
  | plainBeyond inner ih => exact ih
  | valueBeyond inner ih => exact ih
  | plainOperand inner ih => exact ih
  | addressOf inner ih => exact ih
  | single operand ih => exact ih
  | nand left right leftIh rightIh => exact ⟨leftIh, rightIh⟩

theorem Instruction.instructive (instruction : Instruction) : instruction.node.Instructive := by
  match instruction with
  | .print false => exact Or.inl rfl
  | .print true => exact Or.inr rfl
  | .read => exact trivial
  | .assignment (.place spot) source =>
    exact ⟨source.expressible, Or.inl ⟨⟨spot.address, rfl, spot.address_ge⟩, rfl⟩⟩
  | .assignment (.computed address _) source =>
    exact ⟨source.expressible, Or.inr ⟨rfl, address.expressible⟩⟩

theorem Goal.targeted (goal : Goal) : goal.node.Targeted :=
  ⟨⟨goal.number.value, rfl⟩, goal.marked, rfl⟩

theorem Branch.leading (branch : Branch) : branch.node.Leading := by
  cases branch with
  | jump goal => exact goal.targeted
  | oneArm goal asked =>
    show (Node.oneArm asked.bit.toNat goal.node).Leading
    cases asked.bit with
    | false => exact ⟨Or.inr goal.targeted, Or.inl rfl, nofun⟩
    | true => exact ⟨Or.inl rfl, Or.inr goal.targeted, nofun⟩
  | twoArms first asked second other =>
    show (Node.twoArms asked.bit.toNat first.node second.node).Leading
    cases asked.bit with
    | false => exact ⟨Or.inr first.targeted, Or.inr second.targeted, nofun⟩
    | true => exact ⟨Or.inr second.targeted, Or.inr first.targeted, nofun⟩

theorem Line.wellFormed (line : Line) (position : Nat) :
    LineOf.WellFormed (line.meaning position) := by
  refine ⟨⟨line.number.value, rfl⟩, line.instruction.instructive, ?_⟩
  show (branchNode line.branch).Leading
  cases line.branch with
  | none => exact trivial
  | some branch => exact branch.leading

theorem Program.wellFormed {derived : Program} (lawful : derived.Lawful) (starts : List Nat) :
    (derived.meaning starts).WellFormed := by
  refine ⟨?_, ?_, ⟨_, _, rfl, rfl⟩⟩
  · intro line inside
    obtain ⟨single, position, rfl⟩ := mem_linesAt inside
    exact single.wellFormed position
  · show ((linesAt starts derived.lines).map (·.number)).Nodup
    rw [map_number_linesAt]
    exact List.Nodup.map (fun _ _ same => Int.ofNat.inj (Json.int.inj same)) lawful.distinct

end Derivation

namespace FrontEnd

/-- Every well-formed graph can be written down, and however this is done, both front ends read the
graph back, positions aside, unless they find the text too deep. Nothing else is ever read. -/
theorem graphs_written_and_read (program : Program) :
    (program.WellFormed →
      (∃ words source, Writing.OfProgram program words ∧ Writing.Spells source words) ∧
      ∀ words source, Writing.OfProgram program words → Writing.Spells source words →
        ∀ frontEnd : FrontEnd, frontEnd.Manages source →
          ∃ read, frontEnd.parse source = .ok read ∧ read.unplaced = program.unplaced) ∧
    ∀ (frontEnd : FrontEnd) (source : String),
      frontEnd.parse source = .ok program → program.WellFormed := by
  refine ⟨fun wellFormed => ⟨?_, ?_⟩, ?_⟩
  · obtain ⟨words, written⟩ := Writing.exists_ofLines wellFormed.lines
    exact ⟨words, _, written, Writing.spells_tight words⟩
  · intro words source written spelled frontEnd manages
    obtain ⟨derived, rfl, lawful, means⟩ := written.exists_program wellFormed
    have read := read_complete manages spelled.letters spelled.separated lawful
    exact ⟨_, parse_eq_ok.mpr read, means _⟩
  · intro frontEnd source read
    obtain ⟨derived, -, lawful, rfl⟩ := read_sound (parse_eq_ok.mp read)
    exact Derivation.Program.wellFormed lawful _

/-- A line that stores into the cell whose address the jump register holds. -/
def indirectStore : Program :=
  ⟨.int 0, [⟨.int 0, .assignment .null (.variable (.int (-1))) (.constant (.int 2)), .absent,
    .int 7⟩]⟩

/-- The line above, with zeros in front of its numbers and gaps inside of keywords. -/
def indirectStoreText : String :=
  "LINE NUMBER ZERO ZERO CODE\nOPENPARENTHESIS THE JUMP\tREGISTER CLOSEPARENTHESIS EQUALS ONE ZERO"

theorem indirectStore_wellFormed : indirectStore.WellFormed := by
  refine ⟨?_, List.nodup_singleton _, ⟨_, _, rfl, rfl⟩⟩
  intro line inside
  cases List.mem_singleton.mp inside
  exact ⟨⟨0, rfl⟩, ⟨⟨2, rfl⟩, Or.inr ⟨rfl, -1, rfl, by decide⟩⟩, trivial⟩

theorem indirectStore_written :
    ∃ words, Writing.OfProgram indirectStore words ∧ Writing.Spells indirectStoreText words := by
  have zero : Writing.OfNumber 0 [.zero, .zero] := ⟨by decide, 2, by decide⟩
  have two : Writing.OfNumber 2 [.one, .zero] := ⟨by decide, 0, by decide⟩
  have stores := Writing.OfInstruction.computed (.place .register) (.constant two)
  refine ⟨_, .cons (.line zero stores .none) .nil, by decide +kernel, ?_⟩
  have gaps : (indirectStoreText.toList.filter Text.isBlank).all Text.isSeparator = true := by
    decide +kernel
  intro c inside blank
  exact List.all_eq_true.mp gaps c (List.mem_filter.mpr ⟨inside, blank⟩)

theorem indirectStore_manages (frontEnd : FrontEnd) : frontEnd.Manages indirectStoreText :=
  .of_isOk (by cases frontEnd <;> decide +kernel)

/-- Both front ends read the line back. -/
theorem graphs_written_and_read_indirectStore :
    ∀ frontEnd : FrontEnd, ∃ read, frontEnd.parse indirectStoreText = .ok read ∧
      read.unplaced = indirectStore.unplaced ∧ read.WellFormed := by
  intro frontEnd
  obtain ⟨words, written, spelled⟩ := indirectStore_written
  obtain ⟨read, accepted, same⟩ :=
    ((graphs_written_and_read indirectStore).1 indirectStore_wellFormed).2 words
      indirectStoreText written spelled frontEnd (indirectStore_manages frontEnd)
  exact ⟨read, accepted, same, (graphs_written_and_read read).2 frontEnd _ accepted⟩

end FrontEnd

end BitMachine
