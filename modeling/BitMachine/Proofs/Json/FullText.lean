import BitMachine.Json.Printer

/-! The text of a JSON value when nothing in it is too long to be written. Then that is what is written,
and it is complete; and a number that is too long is all that keeps a text from being complete. -/

set_option autoImplicit false

namespace BitMachine

namespace Draft

variable {first next : Draft}

theorem complete_append : (first ++ next).complete = (first.complete && next.complete) := by
  show (Draft.append first next).complete = _
  unfold append
  cases whole : first.complete with
  | true => rfl
  | false => exact whole

theorem append_text (first next : String) :
    ({ text := first } : Draft) ++ ({ text := next } : Draft) = { text := first ++ next } :=
  rfl

theorem complete_join (parts : List Draft) : (join parts).complete = parts.all Draft.complete := by
  induction parts with
  | nil => rfl
  | cons part parts ih => rw [join, complete_append, ih, List.all_cons]

theorem join_text (texts : List String) :
    join (texts.map fun text => { text }) = { text := String.join texts } := by
  induction texts with
  | nil => rfl
  | cons text texts ih => rw [List.map_cons, join, ih, append_text, String.join_cons]

end Draft

namespace Json

mutual

/-- No number in a value is too long to be written. -/
def Writable : Json → Bool
  | .int n => (Text.writeInteger? n).isSome
  | .arr items => WritableItems items
  | .obj fields => WritableFields fields
  | _ => true

def WritableItems : List Json → Bool
  | [] => true
  | item :: rest => Writable item && WritableItems rest

def WritableFields : List (String × Json) → Bool
  | [] => true
  | (_, value) :: rest => Writable value && WritableFields rest

end

def fullScalar : Json → String
  | .null => "null"
  | .bool true => "true"
  | .bool false => "false"
  | .int n => toString n
  | .real x => writeReal x
  | .str text => writeText text
  | .arr _ => "[]"
  | .obj _ => "\x7b\x7d"

def fullLayOut (level : Nat) (opening closing : String) : List String → String
  | [] => opening ++ closing
  | parts =>
    opening ++ ",".intercalate (parts.map (lineStart (level + 1) ++ ·)) ++ lineStart level ++ closing

mutual

/-- The text of a value, its numbers written out however long they are. -/
def fullText (level : Nat) : Json → String
  | .arr items => fullLayOut level "[" "]" (fullItems (level + 1) items)
  | .obj fields => fullLayOut level "\x7b" "\x7d" (fullFields (level + 1) fields)
  | value => fullScalar value

def fullItems (level : Nat) : List Json → List String
  | [] => []
  | item :: rest => fullText level item :: fullItems level rest

def fullFields (level : Nat) : List (String × Json) → List String
  | [] => []
  | (key, value) :: rest =>
    (writeText key ++ ": " ++ fullText level value) :: fullFields level rest

end

theorem complete_layOut (level : Nat) (opening closing : String) (parts : List Draft) :
    (layOut level opening closing parts).complete = parts.all Draft.complete := by
  cases parts with
  | nil => rfl
  | cons part parts =>
    rw [layOut, Draft.complete_append, Draft.complete_append, Draft.complete_join, List.all_map,
      Bool.and_true]
    rfl

theorem layOut_text (level : Nat) (opening closing : String) (texts : List String) :
    layOut level opening closing (texts.map fun text => { text }) =
      { text := fullLayOut level opening closing texts } := by
  cases texts with
  | nil => rfl
  | cons first texts =>
    have joined : ",".intercalate ((first :: texts).map (lineStart (level + 1) ++ ·)) =
        lineStart (level + 1) ++ first ++
          String.join (texts.map fun text => "," ++ lineStart (level + 1) ++ text) := by
      induction texts generalizing first with
      | nil => simp [String.join]
      | cons second texts ih =>
        have rest := ih second
        rw [List.map_cons] at rest
        rw [List.map_cons, List.map_cons, String.intercalate_cons_cons, rest, List.map_cons,
          String.join_cons]
        simp only [String.append_assoc]
    have further : (texts.map fun text => ({ text } : Draft)).map
        (Draft.after ("," ++ lineStart (level + 1))) =
        (texts.map fun text => "," ++ lineStart (level + 1) ++ text).map fun text => { text } := by
      rw [List.map_map, List.map_map]
      rfl
    rw [List.map_cons, layOut, further, Draft.join_text, Draft.after, Draft.append_text,
      Draft.append_text, fullLayOut, joined]
    · simp only [String.append_assoc]
    · nofun

mutual

theorem complete_pretty (level : Nat) :
    ∀ value : Json, (pretty level value).complete = value.Writable
  | .arr items => by
    rw [pretty, complete_layOut, complete_prettyItems, Writable]
  | .obj fields => by
    rw [pretty, complete_layOut, complete_prettyFields, Writable]
  | .int n => by
    rw [pretty, Writable, writeScalar?]
    · cases Text.writeInteger? n <;> rfl
    · nofun
    · nofun
  | .null | .bool true | .bool false | .real _ | .str _ => rfl

theorem complete_prettyItems (level : Nat) :
    ∀ items : List Json, (prettyItems level items).all Draft.complete = WritableItems items
  | [] => rfl
  | item :: rest => by
    rw [prettyItems, List.all_cons, complete_pretty level item, complete_prettyItems level rest,
      WritableItems]

theorem complete_prettyFields (level : Nat) : ∀ fields : List (String × Json),
    (prettyFields level fields).all Draft.complete = WritableFields fields
  | [] => rfl
  | (key, value) :: rest => by
    rw [prettyFields, List.all_cons, Draft.after, complete_pretty level value,
      complete_prettyFields level rest, WritableFields]

end

theorem writeScalar?_int {n : Int} (short : (Text.writeInteger? n).isSome = true) :
    writeScalar? (.int n) = some (fullScalar (.int n)) := by
  rw [writeScalar?, fullScalar]
  unfold Text.writeInteger? at short ⊢
  split
  · next long =>
    rw [if_pos long] at short
    cases short
  · rfl

mutual

/-- What is written of a value whose numbers can be written is its text. -/
theorem pretty_of_writable (level : Nat) : ∀ value : Json, value.Writable = true →
    pretty level value = { text := fullText level value }
  | .arr items, writable => by
    rw [pretty, prettyItems_of_writable (level + 1) items writable, layOut_text, fullText]
  | .obj fields, writable => by
    rw [pretty, prettyFields_of_writable (level + 1) fields writable, layOut_text, fullText]
  | .int n, writable => by
    rw [pretty, writeScalar?_int writable]
    · rfl
    · nofun
    · nofun
  | .null, _ | .bool true, _ | .bool false, _ | .real _, _ | .str _, _ => rfl

theorem prettyItems_of_writable (level : Nat) : ∀ items : List Json, WritableItems items = true →
    prettyItems level items = (fullItems level items).map fun text => { text }
  | [], _ => rfl
  | item :: rest, writable => by
    rw [WritableItems, Bool.and_eq_true] at writable
    rw [prettyItems, pretty_of_writable level item writable.1,
      prettyItems_of_writable level rest writable.2, fullItems, List.map_cons]

theorem prettyFields_of_writable (level : Nat) : ∀ fields : List (String × Json),
    WritableFields fields = true →
      prettyFields level fields = (fullFields level fields).map fun text => { text }
  | [], _ => rfl
  | (key, value) :: rest, writable => by
    rw [WritableFields, Bool.and_eq_true] at writable
    rw [prettyFields, pretty_of_writable level value writable.1,
      prettyFields_of_writable level rest writable.2, fullFields, List.map_cons, Draft.after]

end

end Json

end BitMachine
