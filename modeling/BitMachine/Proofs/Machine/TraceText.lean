import BitMachine.Machine.Trace
import BitMachine.Proofs.Json.Scalars
import BitMachine.Proofs.Machine.Invariant

/-! The text of a trace can be read back. Whole numbers of any size are shown so that no two of them
look alike, and so are the events that tell what a line did. -/

set_option autoImplicit false

namespace BitMachine

namespace Text

/-- The number that decimal digits spell. -/
def natural? (digits : List Char) : Option Nat :=
  if digits ≠ [] ∧ digits.all Char.isDigit = true then some (Json.digitsValue digits) else none

/-- The whole number that decimal digits spell, with a minus sign before them if it is negative. -/
def wholeNumber? : List Char → Option Int
  | '-' :: digits => (natural? digits).map fun n : Nat => -(n : Int)
  | digits => (natural? digits).map fun n : Nat => (n : Int)

theorem natural?_toDigits (n : Nat) : natural? (Nat.toDigits 10 n) = some n := by
  have all : (Nat.toDigits 10 n).all Char.isDigit = true :=
    List.all_eq_true.mpr fun _ inside => Json.isDigit_of_mem inside
  rw [natural?, if_pos ⟨Nat.toDigits_ne_nil, all⟩, Json.digitsValue_toDigits]

theorem toList_toString (n : Int) :
    (toString n).toList = (if n < 0 then ['-'] else []) ++ Nat.toDigits 10 n.natAbs :=
  Json.fullScalar_int n

/-- What is written of a number is its decimal digits, all of them. -/
theorem eq_of_map_display? {n : Int} {f : String → String} {shown : String}
    (rendered : (Json.int n).display?.map f = some shown) : shown = f (toString n) := by
  rw [Json.display?_int] at rendered
  obtain ⟨digits, written, rfl⟩ := Option.map_eq_some_iff.mp rendered
  rw [writeInteger?_eq_some written]

theorem wholeNumber?_of_isDigit {c : Char} (digit : c.isDigit = true) (digits : List Char) :
    wholeNumber? (c :: digits) = (natural? (c :: digits)).map fun n : Nat => (n : Int) := by
  unfold wholeNumber?
  split
  · next same =>
    cases same
    cases digit
  · rfl

/-- The digits of a whole number give it back. -/
theorem wholeNumber?_toString (n : Int) : wholeNumber? (toString n).toList = some n := by
  rw [toList_toString]
  split
  · next negative =>
    rw [List.singleton_append, wholeNumber?, natural?_toDigits, Option.map_some, Option.some_inj]
    omega
  · next natural =>
    obtain ⟨c, digits, spelled, digit⟩ := Json.toDigits_eq_cons_digit n.natAbs
    rw [List.nil_append, spelled, wholeNumber?_of_isDigit digit, ← spelled, natural?_toDigits,
      Option.map_some, Option.some_inj]
    omega

/-- A whole number is written with a minus sign and digits only. -/
theorem of_mem_toString {n : Int} {c : Char} (inside : c ∈ (toString n).toList) :
    c = '-' ∨ c.isDigit = true := by
  rw [toList_toString] at inside
  rcases List.mem_append.mp inside with sign | digit
  · split at sign
    · exact Or.inl (List.mem_singleton.mp sign)
    · cases sign
  · exact Or.inr (Json.isDigit_of_mem digit)

end Text

namespace Value

/-- The value that a text in a trace shows. -/
def ofLetters? : List Char → Option Value
  | '&' :: number => (Text.wholeNumber? number).map fun n => .address (.int n)
  | '?' :: number => (Text.wholeNumber? number).map fun n => .undefined (.int n)
  | number => (Text.wholeNumber? number).map fun n => .bit (.int n)

theorem ofLetters?_toString (n : Int) :
    ofLetters? (toString n).toList = some (.bit (.int n)) := by
  unfold ofLetters?
  split
  · next number shown =>
    have marked : '&' ∈ (toString n).toList := shown ▸ List.mem_cons_self
    rcases Text.of_mem_toString marked with same | digit
    · cases same
    · cases digit
  · next number shown =>
    have marked : '?' ∈ (toString n).toList := shown ▸ List.mem_cons_self
    rcases Text.of_mem_toString marked with same | digit
    · cases same
    · cases digit
  · rw [Text.wholeNumber?_toString]
    rfl

/-- What is shown of a value gives it back: its kind is seen from the mark. -/
theorem ofLetters?_of_render? {value : Value} (whole : value.magnitude.Whole) {shown : String}
    (rendered : value.render? = some shown) : ofLetters? shown.toList = some value := by
  obtain ⟨magnitude, kind⟩ := value
  obtain ⟨n, rfl⟩ := whole
  cases kind with
  | bit =>
    have digits : (Json.int n).display?.map id = some shown := by
      rw [Option.map_id]
      exact rendered
    rw [Text.eq_of_map_display? digits]
    exact ofLetters?_toString n
  | address =>
    have marked : ("&" ++ toString n).toList = '&' :: (toString n).toList := String.toList_append
    rw [Text.eq_of_map_display? rendered, marked, ofLetters?, Text.wholeNumber?_toString]
    rfl
  | undefined =>
    have marked : ("?" ++ toString n).toList = '?' :: (toString n).toList := String.toList_append
    rw [Text.eq_of_map_display? rendered, marked, ofLetters?, Text.wholeNumber?_toString]
    rfl

end Value

namespace Event

/-- Whether an event tells what is done to the machine: that a line is counted, or that a bit is
printed, read or a value written. -/
def tells : Event → Bool
  | .line _ | .print _ | .read _ | .write _ _ => true
  | _ => false

/-- Whole numbers stand in an event, if it tells something. -/
def Whole : Event → Prop
  | .line number => number.Whole
  | .print bit => bit.Whole
  | .read bit => bit.Whole
  | .write address value => address.Whole ∧ value.magnitude.Whole
  | _ => True

/-- The write that a text shows: the address up to a blank, an arrow and the value. -/
def writeOfLetters? (text : List Char) : Option Event :=
  match text.dropWhile (· != ' ') with
  | ' ' :: '<' :: '-' :: ' ' :: shown =>
    (Text.wholeNumber? (text.takeWhile (· != ' '))).bind fun address =>
      (Value.ofLetters? shown).map fun value => .write (.int address) value
  | _ => none

def ofLetters? : List Char → Option Event
  | 'l' :: 'i' :: 'n' :: 'e' :: ' ' :: number =>
    (Text.wholeNumber? number).map fun n => .line (.int n)
  | 'p' :: 'r' :: 'i' :: 'n' :: 't' :: ' ' :: number =>
    (Text.wholeNumber? number).map fun n => .print (.int n)
  | 'r' :: 'e' :: 'a' :: 'd' :: ' ' :: number =>
    (Text.wholeNumber? number).map fun n => .read (.int n)
  | 'w' :: 'r' :: 'i' :: 't' :: 'e' :: ' ' :: shown => writeOfLetters? shown
  | _ => none

/-- The event that a line of a trace tells of. Lines that tell of something else than what is done
to the machine are passed over. -/
def decode? (line : String) : Option Event :=
  ofLetters? line.toList

theorem writeOfLetters?_of_render? (address : Int) {value : Value}
    (whole : value.magnitude.Whole) {shown : String} (rendered : value.render? = some shown) :
    writeOfLetters? ((toString address).toList ++ ' ' :: '<' :: '-' :: ' ' :: shown.toList) =
      some (.write (.int address) value) := by
  have solid : ∀ c ∈ (toString address).toList, (c != ' ') = true := by
    intro c inside
    rw [bne_iff_ne]
    rintro rfl
    rcases Text.of_mem_toString inside with same | digit
    · cases same
    · cases digit
  unfold writeOfLetters?
  rw [List.dropWhile_append_of_pos solid, List.takeWhile_append_of_pos solid,
    List.dropWhile_cons_of_neg (by decide), List.takeWhile_cons_of_neg (by decide),
    List.append_nil, Text.wholeNumber?_toString]
  show (Value.ofLetters? shown.toList).map (Event.write (.int address)) = _
  rw [Value.ofLetters?_of_render? whole rendered]
  rfl

theorem decode?_write {address : Int} {value : Value} (whole : value.magnitude.Whole)
    {text : String} (rendered : (Event.write (.int address) value).render? = some text) :
    decode? text = some (.write (.int address) value) := by
  obtain ⟨digits, first, rest⟩ := Option.bind_eq_some_iff.mp rendered
  obtain ⟨shown, second, last⟩ := Option.bind_eq_some_iff.mp rest
  cases last
  cases Text.writeInteger?_eq_some first
  have spelled : ("write " ++ toString address ++ " <- " ++ shown).toList =
      'w' :: 'r' :: 'i' :: 't' :: 'e' :: ' ' :: ((toString address).toList ++
        ' ' :: '<' :: '-' :: ' ' :: shown.toList) := by
    rw [String.toList_append, String.toList_append, String.toList_append, List.append_assoc,
      List.append_assoc]
    rfl
  rw [decode?, spelled, ofLetters?, writeOfLetters?_of_render? address whole second]

/-- What an event tells is read back from its line, whatever the size of its numbers. -/
theorem decode?_of_render? {event : Event} (whole : event.Whole) {text : String}
    (rendered : event.render? = some text) :
    decode? text = if event.tells then some event else none := by
  cases event with
  | line number =>
    obtain ⟨n, rfl⟩ := whole
    have spelled : ("line " ++ toString n).toList =
        'l' :: 'i' :: 'n' :: 'e' :: ' ' :: (toString n).toList := String.toList_append
    rw [Text.eq_of_map_display? rendered, decode?, spelled, ofLetters?, Text.wholeNumber?_toString]
    rfl
  | print bit =>
    obtain ⟨n, rfl⟩ := whole
    have spelled : ("print " ++ toString n).toList =
        'p' :: 'r' :: 'i' :: 'n' :: 't' :: ' ' :: (toString n).toList := String.toList_append
    rw [Text.eq_of_map_display? rendered, decode?, spelled, ofLetters?, Text.wholeNumber?_toString]
    rfl
  | read bit =>
    obtain ⟨n, rfl⟩ := whole
    have spelled : ("read " ++ toString n).toList =
        'r' :: 'e' :: 'a' :: 'd' :: ' ' :: (toString n).toList := String.toList_append
    rw [Text.eq_of_map_display? rendered, decode?, spelled, ofLetters?, Text.wholeNumber?_toString]
    rfl
  | write address value =>
    obtain ⟨⟨n, rfl⟩, whole⟩ := whole
    exact decode?_write whole rendered
  | goto number =>
    obtain ⟨digits, -, rfl⟩ := Option.map_eq_some_iff.mp rendered
    have spelled : ("goto " ++ digits).toList =
        'g' :: 'o' :: 't' :: 'o' :: ' ' :: digits.toList := String.toList_append
    rw [decode?, spelled]
    rfl
  | halt number =>
    obtain ⟨digits, -, rfl⟩ := Option.map_eq_some_iff.mp rendered
    have spelled : ("halt after line " ++ digits).toList =
        'h' :: "alt after line ".toList ++ digits.toList := String.toList_append
    rw [decode?, spelled]
    rfl
  | evaluate node value =>
    obtain ⟨shown, -, rfl⟩ := Option.map_eq_some_iff.mp rendered
    have spelled : ("eval " ++ node ++ " -> " ++ shown).toList =
        'e' :: "val ".toList ++ (node ++ " -> " ++ shown).toList := by
      rw [String.append_assoc, String.append_assoc, String.toList_append, ← String.append_assoc]
      rfl
    rw [decode?, spelled]
    rfl

/-- From the lines of a trace exactly those events are read back that tell what is done. -/
theorem filterMap_decode?_of_render? {events : List Event} {lines : List String}
    (rendered : events.map render? = lines.map some)
    (whole : ∀ event ∈ events.filter tells, event.Whole) :
    lines.filterMap decode? = events.filter tells := by
  induction events generalizing lines with
  | nil =>
    cases List.map_eq_nil_iff.mp rendered.symm
    rfl
  | cons event events ih =>
    obtain ⟨text, others, rfl, first, rest⟩ := List.map_eq_cons_iff.mp rendered.symm
    rw [List.filterMap_cons]
    cases telling : event.tells with
    | true =>
      rw [List.filter_cons_of_pos telling, List.forall_mem_cons] at whole
      rw [List.filter_cons_of_pos telling, decode?_of_render? whole.1 first.symm, telling,
        ih rest.symm whole.2]
      rfl
    | false =>
      have silent : ¬event.tells = true := Bool.eq_false_iff.mp telling
      have vacuous : event.Whole := by
        cases event with
        | goto | halt | evaluate => trivial
        | _ => cases telling
      rw [List.filter_cons_of_neg silent] at whole
      rw [List.filter_cons_of_neg silent, decode?_of_render? vacuous first.symm, telling,
        ih rest.symm whole]
      rfl

theorem map_render?_of_isSome {events : List Event}
    (legible : ∀ event ∈ events, event.render?.isSome = true) :
    events.map render? = (events.filterMap render?).map some := by
  induction events with
  | nil => rfl
  | cons event events ih =>
    rw [List.forall_mem_cons] at legible
    obtain ⟨text, rendered⟩ := Option.isSome_iff_exists.mp legible.1
    rw [List.map_cons, List.filterMap_cons, rendered, ih legible.2, List.map_cons]

theorem renderAll_append (events more : List Event) :
    renderAll (events ++ more) = renderAll events ++ renderAll more := by
  unfold renderAll
  rw [List.filterMap_append, List.map_append, String.join_append]

end Event

namespace Trace

variable {trace : Trace} {events more : List Event}

/-- Records events in order. -/
def addAll (trace : Trace) (events : List Event) : Trace :=
  events.foldl add trace

theorem addAll_append : trace.addAll (events ++ more) = (trace.addAll events).addAll more :=
  List.foldl_append

/-- While the file is open, all events go there. -/
theorem addAll_of_open (opened : trace.isOpen = true) (events : List Event) :
    trace.addAll events = { trace with filed := trace.filed ++ events.toArray } := by
  induction events generalizing trace with
  | nil => rw [Array.append_empty]; rfl
  | cons event events ih =>
    have first : trace.add event = { trace with filed := trace.filed.push event } := if_pos opened
    show (trace.add event).addAll events = _
    rw [ih (by rw [first]; exact opened), first]
    simp

theorem text?_addAll (opened : trace.isOpen = true) (events : List Event) :
    (trace.addAll events).text? = trace.text?.map (· ++ Event.renderAll events) := by
  rw [addAll_of_open opened, text?, text?, Option.map_map, Array.toList_append,
    Event.renderAll_append]
  simp only [Function.comp_def, String.append_assoc]

end Trace

end BitMachine
