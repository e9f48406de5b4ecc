import BitMachine.Json.Basic

/-! JSON values in the place of numbers. Truth values count as 0 and 1, and a floating-point number
that is whole counts as that whole number; any other value cannot be calculated or ordered. -/

set_option autoImplicit false

namespace BitMachine.Json

/-- A value in its plainest form: numbers that are equal have the same one. -/
def plain : Json → Json
  | .bool true => .int 1
  | .bool false => .int 0
  | .real x =>
    match x.whole? with
    | some n => .int n
    | none => .real x
  | value => value

/-- Equality of values, numbers compared by what they are worth. -/
def same (a b : Json) : Bool :=
  a.plain == b.plain

/-- Whether a value is a whole number. -/
def is (value : Json) (n : Int) : Bool :=
  value.plain == .int n

def below? (value : Json) (bound : Int) : Option Bool :=
  match value.plain with
  | .int n => some (decide (n < bound))
  | .real x => some (x.isBelow bound)
  | _ => none

def atLeast? (value : Json) (bound : Int) : Option Bool :=
  match value.plain with
  | .int n => some (decide (bound ≤ n))
  | .real x => some (x.isAtLeast bound)
  | _ => none

def plus? (value : Json) (n : Int) : Option Json :=
  match value with
  | .bool b => some (.int (b.toInt + n))
  | .int m => some (.int (m + n))
  | .real x => some (.real (x.add n))
  | _ => none

/-- The whole number of a value that has binary digits. -/
def whole? : Json → Option Int
  | .bool b => some b.toInt
  | .int n => some n
  | _ => none

/-- Whether a value counts as true: nothing, zero and what is empty do not. -/
def truth : Json → Bool
  | .null => false
  | .str text => text != ""
  | .arr items => !items.isEmpty
  | .obj fields => !fields.isEmpty
  | value => !value.is 0

/-- Whether a value can be looked up by: lists and objects cannot. -/
def isKey : Json → Bool
  | .arr _ | .obj _ => false
  | _ => true

def fraction? (value : Json) : Option (Int × Nat) :=
  match value.plain with
  | .int n => some (n, 1)
  | .real x => x.fraction?
  | _ => none

/-- Whether a number may stand before another in ascending order. -/
def inOrder (a b : Json) : Bool :=
  match a.fraction?, b.fraction? with
  | some (m, d), some (n, e) => decide (m * e ≤ n * d)
  | none, some _ => false
  | _, none => true

@[simp] theorem plain_int (n : Int) : plain (.int n) = .int n :=
  rfl

@[simp] theorem same_self (value : Json) : same value value = true := by
  simp [same]

theorem same_iff {a b : Json} : same a b = true ↔ a.plain = b.plain := by
  simp [same]

@[simp] theorem same_int (m n : Int) : same (.int m) (.int n) = decide (m = n) := by
  simp [same, BEq.beq]

@[simp] theorem is_int (m n : Int) : is (.int m) n = decide (m = n) := by
  simp [is, BEq.beq]

@[simp] theorem below?_int (n bound : Int) : below? (.int n) bound = some (decide (n < bound)) :=
  rfl

@[simp] theorem atLeast?_int (n bound : Int) :
    atLeast? (.int n) bound = some (decide (bound ≤ n)) :=
  rfl

@[simp] theorem plus?_int (m n : Int) : plus? (.int m) n = some (.int (m + n)) :=
  rfl

@[simp] theorem whole?_int (n : Int) : whole? (.int n) = some n :=
  rfl

end BitMachine.Json
