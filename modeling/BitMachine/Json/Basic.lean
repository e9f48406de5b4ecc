import BitMachine.Binary64.Decimal
import BitMachine.Text.Numeral
import BitMachine.Text.Quoted

/-! JSON values: whole numbers of any size, and floating-point numbers. -/

set_option autoImplicit false

namespace BitMachine

/-- A JSON value. Objects keep the order of their fields; a number that is not written as a whole
number is a floating-point number. -/
inductive Json where
  | null
  | bool (value : Bool)
  | int (value : Int)
  | real (value : Binary64)
  | str (text : String)
  | arr (items : List Json)
  | obj (fields : List (String × Json))
deriving Repr, Inhabited

instance : Coe Int Json := ⟨.int⟩

instance : Coe Nat Json := ⟨fun n => .int n⟩

namespace Json

section Equality

mutual

def beq : Json → Json → Bool
  | .null, .null => true
  | .bool a, .bool b => a == b
  | .int m, .int n => m == n
  | .real x, .real y => x == y
  | .str s, .str t => s == t
  | .arr items, .arr others => beqItems items others
  | .obj fields, .obj others => beqFields fields others
  | _, _ => false

def beqItems : List Json → List Json → Bool
  | [], [] => true
  | item :: rest, other :: others => beq item other && beqItems rest others
  | _, _ => false

def beqFields : List (String × Json) → List (String × Json) → Bool
  | [], [] => true
  | (key, value) :: rest, (name, other) :: others =>
    key == name && beq value other && beqFields rest others
  | _, _ => false

end

mutual

theorem eq_of_beq : (a b : Json) → beq a b = true → a = b
  | a, b, same => by
    cases a <;> cases b <;> simp only [beq, beq_iff_eq, Bool.false_eq_true] at same
    case null.null => rfl
    case arr.arr => rw [eq_of_beqItems _ _ same]
    case obj.obj => rw [eq_of_beqFields _ _ same]
    all_goals rw [same]

theorem eq_of_beqItems : (items others : List Json) → beqItems items others = true → items = others
  | [], [], _ => rfl
  | item :: rest, other :: others, same => by
    simp only [beqItems, Bool.and_eq_true] at same
    rw [eq_of_beq item other same.1, eq_of_beqItems rest others same.2]
  | [], _ :: _, same => by simp [beqItems] at same
  | _ :: _, [], same => by simp [beqItems] at same

theorem eq_of_beqFields : (fields others : List (String × Json)) →
    beqFields fields others = true → fields = others
  | [], [], _ => rfl
  | (key, value) :: rest, (name, other) :: others, same => by
    simp only [beqFields, Bool.and_eq_true, beq_iff_eq] at same
    rw [same.1.1, eq_of_beq value other same.1.2, eq_of_beqFields rest others same.2]
  | [], _ :: _, same => by simp [beqFields] at same
  | _ :: _, [], same => by simp [beqFields] at same

end

mutual

theorem beq_refl : (a : Json) → beq a a = true
  | .null => rfl
  | .bool _ | .int _ | .real _ | .str _ => by simp [beq]
  | .arr items => by rw [beq, beqItems_refl items]
  | .obj fields => by rw [beq, beqFields_refl fields]

theorem beqItems_refl : (items : List Json) → beqItems items items = true
  | [] => rfl
  | item :: rest => by simp [beqItems, beq_refl item, beqItems_refl rest]

theorem beqFields_refl : (fields : List (String × Json)) → beqFields fields fields = true
  | [] => rfl
  | (_, value) :: rest => by simp [beqFields, beq_refl value, beqFields_refl rest]

end

instance : DecidableEq Json := fun a b =>
  if same : beq a b = true then isTrue (eq_of_beq a b same)
  else isFalse fun equal => same (equal ▸ beq_refl a)

end Equality

def field? (key : String) (fields : List (String × Json)) : Option Json :=
  fields.lookup key

/-- Sets a field: a repeated key keeps its first place and takes its last value. -/
def setField (key : String) (value : Json) : List (String × Json) → List (String × Json)
  | [] => [(key, value)]
  | (name, old) :: rest =>
    if name == key then (key, value) :: rest else (name, old) :: setField key value rest

mutual

/-- A value inside a message: texts in quotes, lists in brackets, objects in braces. A value that
holds a number which is too long to be written cannot stand in a message. -/
def inspect? : Json → Option String
  | .null => some "None"
  | .bool true => some "True"
  | .bool false => some "False"
  | .int n => Text.writeInteger? n
  | .real x => some x.render
  | .str text => some (Text.quoted text)
  | .arr items => (inspectItems? items).map fun parts => "[" ++ ", ".intercalate parts ++ "]"
  | .obj fields =>
    (inspectFields? fields).map fun parts => "\x7b" ++ ", ".intercalate parts ++ "\x7d"

def inspectItems? : List Json → Option (List String)
  | [] => some []
  | item :: rest => do return (← inspect? item) :: (← inspectItems? rest)

def inspectFields? : List (String × Json) → Option (List String)
  | [] => some []
  | (key, value) :: rest => do
    return (Text.quoted key ++ ": " ++ (← inspect? value)) :: (← inspectFields? rest)

end

/-- A value as the subject of a message: a text stands bare. -/
def display? : Json → Option String
  | .str text => some text
  | value => value.inspect?

@[simp] theorem display?_int (n : Int) : (Json.int n).display? = Text.writeInteger? n :=
  rfl

/-- Reading a field leads to a smaller value. -/
theorem sizeOf_lt_of_field? {key : String} {fields : List (String × Json)} {value : Json}
    (found : field? key fields = some value) : sizeOf value < sizeOf fields := by
  induction fields with
  | nil => simp [field?] at found
  | cons entry rest ih =>
    obtain ⟨name, first⟩ := entry
    simp only [field?, List.lookup_cons] at found ih
    simp only [List.cons.sizeOf_spec, Prod.mk.sizeOf_spec]
    split at found
    · cases found
      omega
    · have := ih found
      omega

end Json

end BitMachine
