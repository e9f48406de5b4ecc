import Mathlib.Data.List.Forall2
import BitMachine.Proofs.Grammar.Letters
import BitMachine.Proofs.Machine.Rendering

/-! A console stands in for bits that were prepared beforehand. Inputs that give the same answers
cannot be told apart by a run, and a console whose lines hold one bit each gives the answers of those
bits. -/

set_option autoImplicit false

namespace BitMachine

namespace Text

/-- Blanks that do not end a line. -/
def isPadding (c : Char) : Bool :=
  isBlank c && c != '\n' && c != '\r'

/-- What ends a line. -/
def lineBreaks : List (List Char) :=
  [['\n'], ['\r', '\n'], ['\r']]

section Lines

variable {line rest : List Char}

theorem unifyBreaks_append (free : '\r' ∉ line) (rest : List Char) :
    unifyBreaks (line ++ rest) = line ++ unifyBreaks rest := by
  induction line with
  | nil => rfl
  | cons c line ih =>
    have other : c ≠ '\r' := fun same => free (same ▸ List.mem_cons_self)
    have fewer : '\r' ∉ line := fun inside => free (List.mem_cons_of_mem c inside)
    rw [List.cons_append, unifyBreaks, ih fewer, List.cons_append]
    · rintro _ rfl
      exact absurd rfl other
    · exact other

/-- A break is unified unless what follows would be taken for a part of it. -/
theorem unifyBreaks_lineBreak {ending : List Char} (ends : ending ∈ lineBreaks)
    (apart : rest.head? ≠ some '\n') : unifyBreaks (ending ++ rest) = '\n' :: unifyBreaks rest := by
  simp only [lineBreaks, List.mem_cons, List.not_mem_nil, or_false] at ends
  rcases ends with rfl | rfl | rfl
  · rfl
  · rfl
  · cases rest with
    | nil => rfl
    | cons c rest =>
      have other : c ≠ '\n' := fun same => apart (congrArg some same)
      rw [List.singleton_append, unifyBreaks]
      rintro _ same
      exact other (List.cons.inj same).1

theorem splitLines_append (free : '\n' ∉ line) (rest : List Char) :
    splitLines (line ++ '\n' :: rest) = line :: splitLines rest := by
  induction line with
  | nil => rfl
  | cons c line ih =>
    have other : c ≠ '\n' := fun same => free (same ▸ List.mem_cons_self)
    have fewer : '\n' ∉ line := fun inside => free (List.mem_cons_of_mem c inside)
    rw [List.cons_append, splitLines, ih fewer]
    exact other

theorem splitLines_last (free : '\n' ∉ line) (some : line ≠ []) : splitLines line = [line] := by
  induction line with
  | nil => exact absurd rfl some
  | cons c line ih =>
    have other : c ≠ '\n' := fun same => free (same ▸ List.mem_cons_self)
    have fewer : '\n' ∉ line := fun inside => free (List.mem_cons_of_mem c inside)
    rw [splitLines]
    · cases line with
      | nil => rfl
      | cons d line => rw [ih fewer (List.cons_ne_nil d line)]
    · exact other

/-- Blanks around a character are trimmed away, the character is not. -/
theorem trimBoth_around {p : Char → Bool} {before after : List Char} {c : Char}
    (front : ∀ d ∈ before, p d = true) (kept : p c = false) (back : ∀ d ∈ after, p d = true) :
    trimBoth p (before ++ c :: after) = [c] := by
  have turned : ∀ d ∈ after.reverse, p d = true :=
    fun d inside => back d (List.mem_reverse.mp inside)
  unfold trimBoth
  rw [List.dropWhile_append_of_pos front, List.dropWhile_cons_of_neg (by rw [kept]; exact nofun),
    List.reverse_cons, List.dropWhile_append_of_pos turned,
    List.dropWhile_cons_of_neg (by rw [kept]; exact nofun), List.reverse_singleton]

end Lines

end Text

namespace Input

/-- The character that a bit is written with. -/
def digit (bit : Bool) : Char :=
  if bit then '1' else '0'

/-- A line that holds a bit, with blanks around it. -/
inductive Holds (bit : Bool) : List Char → Prop
  | padded (before after : List Char) (front : ∀ c ∈ before, Text.isPadding c = true)
      (back : ∀ c ∈ after, Text.isPadding c = true) : Holds bit (before ++ digit bit :: after)

/-- A text whose lines hold the bits, one each. Every line ends with a break, but the last one need
not. -/
inductive Offers : List Bool → List Char → Prop
  | none : Offers [] []
  | last {bit : Bool} {line : List Char} (holds : Holds bit line) : Offers [bit] line
  | line {bit : Bool} {bits : List Bool} {line ending rest : List Char} (holds : Holds bit line)
      (ends : ending ∈ Text.lineBreaks) (others : Offers bits rest) :
      Offers (bit :: bits) (line ++ ending ++ rest)

/-- A character that has no place in a text of bits. -/
def Refuses (c : Char) : Prop :=
  Text.isBlank c = false ∧ c ≠ '0' ∧ c ≠ '1'

instance : DecidablePred Refuses :=
  fun c => inferInstanceAs (Decidable (Text.isBlank c = false ∧ c ≠ '0' ∧ c ≠ '1'))

section Digits

theorem isBlank_digit (bit : Bool) : Text.isBlank (digit bit) = false := by
  cases bit <;> decide

theorem bitOf?_digit (bit : Bool) : bitOf? [digit bit] = some bit.toInt := by
  cases bit <;> rfl

theorem bitOf?_cases (c : Char) :
    (∃ bit, c = digit bit) ∨ c ≠ '0' ∧ c ≠ '1' ∧ bitOf? [c] = none := by
  by_cases zero : c = '0'
  · exact Or.inl ⟨false, zero⟩
  · by_cases one : c = '1'
    · exact Or.inl ⟨true, one⟩
    · refine Or.inr ⟨zero, one, ?_⟩
      unfold bitOf?
      split
      · next same => exact absurd (List.cons.inj same).1 zero
      · next same => exact absurd (List.cons.inj same).1 one
      · rfl

end Digits

section Lines

variable {bit : Bool} {bits : List Bool} {line text : List Char}

/-- Every character of a line that holds a bit is the digit or one that pads it. -/
theorem Holds.cases_of_mem (holds : Holds bit line) {c : Char} (inside : c ∈ line) :
    c = digit bit ∨ Text.isPadding c = true := by
  obtain ⟨before, after, front, back⟩ := holds
  rcases List.mem_append.mp inside with early | late
  · exact Or.inr (front c early)
  · rcases List.mem_cons.mp late with same | late
    · exact Or.inl same
    · exact Or.inr (back c late)

/-- No break stands in a line that holds a bit. -/
theorem Holds.unbroken (holds : Holds bit line) : '\n' ∉ line ∧ '\r' ∉ line := by
  constructor <;> intro inside
  all_goals
    rcases holds.cases_of_mem inside with same | padding
    · cases bit <;> cases same
    · cases padding

theorem Holds.ne_nil (holds : Holds bit line) : line ≠ [] := by
  obtain ⟨before, after, -, -⟩ := holds
  exact List.append_ne_nil_of_right_ne_nil _ (List.cons_ne_nil _ _)

theorem isBlank_of_isPadding {c : Char} (padding : Text.isPadding c = true) :
    Text.isBlank c = true := by
  simp only [Text.isPadding, Bool.and_eq_true] at padding
  exact padding.1.1

/-- The bit of a line is found when the blanks around it are trimmed away. -/
theorem Holds.bitOf? (holds : Holds bit line) :
    bitOf? (Text.trimBoth Text.isBlank line) = some bit.toInt := by
  obtain ⟨before, after, front, back⟩ := holds
  rw [Text.trimBoth_around (fun c inside => isBlank_of_isPadding (front c inside))
    (isBlank_digit bit) (fun c inside => isBlank_of_isPadding (back c inside))]
  exact bitOf?_digit bit

/-- A line that holds a bit is not taken for the rest of a break. -/
theorem Offers.head?_ne (offers : Offers bits text) : text.head? ≠ some '\n' := by
  have inside : ∀ {bit : Bool} {line : List Char} (rest : List Char), Holds bit line →
      (line ++ rest).head? ≠ some '\n' := by
    intro bit line rest holds first
    obtain ⟨c, line', rfl⟩ := List.exists_cons_of_ne_nil holds.ne_nil
    cases first
    exact holds.unbroken.1 List.mem_cons_self
  cases offers with
  | none => exact nofun
  | last holds =>
    rw [← List.append_nil text]
    exact inside [] holds
  | line holds ends others =>
    rw [List.append_assoc]
    exact inside _ holds

/-- The lines of an offer are those that hold its bits. -/
theorem Offers.splitLines (offers : Offers bits text) :
    List.Forall₂ Holds bits (Text.splitLines (Text.unifyBreaks text)) := by
  induction offers with
  | none => exact .nil
  | @last bit line holds =>
    have unified := Text.unifyBreaks_append holds.unbroken.2 []
    rw [List.append_nil, Text.unifyBreaks, List.append_nil] at unified
    rw [unified, Text.splitLines_last holds.unbroken.1 holds.ne_nil]
    exact .cons holds .nil
  | line holds ends others ih =>
    rw [List.append_assoc, Text.unifyBreaks_append holds.unbroken.2,
      Text.unifyBreaks_lineBreak ends others.head?_ne,
      Text.splitLines_append holds.unbroken.1]
    exact .cons holds ih

end Lines

section Preparation

theorem bitsOfString_of_letters {text : List Char} {bits : List Bool}
    (spells : Text.letters text = bits.map digit) :
    bitsOfString text = .ok (bits.map Json.ofBit) := by
  induction text generalizing bits with
  | nil =>
    cases bits with
    | nil => rfl
    | cons bit bits => cases spells
  | cons c text ih =>
    rw [bitsOfString]
    cases blank : Text.isBlank c with
    | true =>
      rw [Text.letters_cons_blank blank] at spells
      rw [if_pos rfl, ih spells]
    | false =>
      rw [Text.letters_cons_solid blank] at spells
      cases bits with
      | nil => cases spells
      | cons bit bits =>
        obtain ⟨rfl, others⟩ := List.cons.inj spells
        rw [if_neg nofun, bitOf?_digit, ih others]
        rfl

/-- What is read of a text that holds nothing but bits and blanks stands before what is read of the
rest. -/
theorem bitsOfString_append {front : List Char} (accepted : ∀ c ∈ front, ¬Refuses c)
    (back : List Char) :
    ∃ bits, bitsOfString (front ++ back) = (bitsOfString back).map (bits ++ ·) := by
  induction front with
  | nil =>
    rw [List.nil_append]
    exact ⟨[], by cases bitsOfString back <;> rfl⟩
  | cons c front ih =>
    rw [List.forall_mem_cons] at accepted
    obtain ⟨bits, others⟩ := ih accepted.2
    rw [List.cons_append, bitsOfString, others]
    cases blank : Text.isBlank c with
    | true => exact ⟨bits, if_pos rfl⟩
    | false =>
      rw [if_neg nofun]
      rcases bitOf?_cases c with ⟨bit, rfl⟩ | ⟨zero, one, -⟩
      · rw [bitOf?_digit]
        exact ⟨.ofBit bit :: bits, by cases bitsOfString back <;> rfl⟩
      · exact absurd ⟨blank, zero, one⟩ accepted.1

theorem bitsOfString_of_refuses {c : Char} (refused : Refuses c) (back : List Char) :
    bitsOfString (c :: back) = .error (.invalidInputBit c) := by
  obtain ⟨solid, zero, one⟩ := refused
  rcases bitOf?_cases c with ⟨bit, rfl⟩ | ⟨-, -, unread⟩
  · cases bit
    · exact absurd rfl zero
    · exact absurd rfl one
  · rw [bitsOfString, solid, if_neg nofun, unread]

/-- A text of bits is refused at the first character that has no place in it. -/
theorem ofString_of_refuses {text : String} {front back : List Char} {c : Char}
    (split : text.toList = front ++ c :: back) (accepted : ∀ d ∈ front, ¬Refuses d)
    (refused : Refuses c) : ofString text = .error (.invalidInputBit c) := by
  obtain ⟨bits, read⟩ := bitsOfString_append accepted (c :: back)
  rw [ofString, split, read, bitsOfString_of_refuses refused]
  rfl

theorem ofString_fails_iff (text : String) :
    (∃ fault, ofString text = .error fault) ↔ ∃ c ∈ text.toList, Refuses c := by
  constructor
  · rintro ⟨fault, failed⟩
    by_contra absent
    have accepted : ∀ c ∈ text.toList, ¬Refuses c :=
      fun c inside refused => absent ⟨c, inside, refused⟩
    obtain ⟨bits, read⟩ := bitsOfString_append accepted []
    rw [List.append_nil] at read
    rw [ofString, read] at failed
    cases failed
  · rintro ⟨c, inside, refused⟩
    have some : (text.toList.find? (decide <| Refuses ·)).isSome :=
      List.find?_isSome.mpr ⟨c, inside, decide_eq_true refused⟩
    obtain ⟨first, found⟩ := Option.isSome_iff_exists.mp some
    obtain ⟨refused, front, back, split, accepted⟩ := List.find?_eq_some_iff_append.mp found
    refine ⟨_, ofString_of_refuses split ?_ (of_decide_eq_true refused)⟩
    intro d early
    have accepted := accepted d early
    rw [Bool.not_eq_true'] at accepted
    exact of_decide_eq_false accepted

end Preparation

/-- Two inputs cannot be told apart by asking them for bits. -/
structure Indistinct (alike : Input → Input → Prop) : Prop where
  prompt : ∀ {left right : Input}, alike left right → left.prompt = right.prompt
  answer : ∀ {left right : Input}, alike left right → left.next.1 = right.next.1
  rest : ∀ {left right : Input}, alike left right → alike left.next.2 right.next.2

/-- Prepared bits, and a silent console whose lines hold the same bits. -/
inductive Replaces : Input → Input → Prop
  | console {bits : List Bool} {lines : List String}
      (hold : List.Forall₂ (fun bit line => Holds bit line.toList) bits lines) :
      Replaces (.prepared (bits.map Json.ofBit)) (.console "" lines)

theorem indistinct_replaces : Indistinct Replaces := by
  refine ⟨?_, ?_, ?_⟩
  · rintro _ _ ⟨-⟩
    rfl
  · rintro _ _ ⟨hold⟩
    cases hold with
    | nil => rfl
    | cons first others =>
      rw [next, first.bitOf?]
      rfl
  · rintro _ _ ⟨hold⟩
    cases hold with
    | nil => exact .console .nil
    | cons first others =>
      rw [next, first.bitOf?]
      exact .console others

theorem Offers.replaces {bits : List Bool} {offered : String}
    (offers : Offers bits offered.toList) :
    Replaces (.prepared (bits.map Json.ofBit)) (.ofConsole offered) := by
  refine .console ?_
  rw [Text.lines, List.forall₂_map_right_iff]
  refine offers.splitLines.imp ?_
  intro bit line holds
  rwa [String.toList_ofList]

end Input

/-- Two machines that differ in their inputs at most, and in these only so far. -/
structure Machine.SameButInput (inputs : Input → Input → Prop) (left right : Machine) : Prop where
  context : left.context = right.context
  output : left.output = right.output
  trace : left.trace = right.trace
  input : inputs left.input right.input

namespace Action

section Primitives

variable {inputs : Input → Input → Prop}

theorem load_sameButInput (address : Json) :
    Matches (Machine.SameButInput inputs) Value (load address) (load address) := by
  intro left right related
  unfold load
  rw [related.context]
  cases right.context.memory.read address with
  | ok entry => exact ⟨rfl, rfl, related.output, related.trace, related.input⟩
  | error fault => exact ⟨rfl, related⟩

theorem write_sameButInput (address : Json) (value : Value) :
    Matches (Machine.SameButInput inputs) Unit (write address value) (write address value) := by
  intro left right related
  unfold write
  rw [related.context]
  cases right.context.memory.write address value with
  | ok memory => exact ⟨rfl, rfl, related.output, related.trace, related.input⟩
  | error fault => exact ⟨rfl, related⟩

theorem emit_sameButInput (bit : Json) :
    Matches (Machine.SameButInput inputs) Unit (emit bit) (emit bit) := by
  intro left right related
  unfold emit
  rw [related.output]
  rcases right.output.write bit with ⟨_ | fault, output⟩
  · exact ⟨rfl, related.context, rfl, related.trace, related.input⟩
  · exact ⟨rfl, related.context, rfl, related.trace, related.input⟩

/-- Only here a machine looks at its input, and what it sees is the same. -/
theorem request_sameButInput (indistinct : Input.Indistinct inputs) :
    Matches (Machine.SameButInput inputs) Json request request := by
  intro left right related
  have answers := indistinct.answer related.input
  have rests := indistinct.rest related.input
  unfold request
  rw [indistinct.prompt related.input, related.output]
  rcases drawn : left.input.next with ⟨result, input⟩
  rcases drawn' : right.input.next with ⟨result', input'⟩
  rw [drawn, drawn'] at answers rests
  dsimp only at answers
  subst answers
  cases result with
  | ok bit => exact ⟨rfl, related.context, rfl, related.trace, rests⟩
  | error fault => exact ⟨rfl, related.context, rfl, related.trace, rests⟩

theorem count_sameButInput : Matches (Machine.SameButInput inputs) Nat count count := by
  intro left right related
  have context : (counted left).context = (counted right).context := by
    unfold counted
    rw [related.context]
  exact ⟨congrArg Context.steps context, context, related.output, related.trace, related.input⟩

/-- Every execution comes out alike on machines whose inputs cannot be told apart. -/
theorem sameButInput_congruence (indistinct : Input.Indistinct inputs) (options : Options) :
    RunCongruence (Matches (Machine.SameButInput inputs)) options options where
  guards := rfl
  frames := rfl
  jumps := rfl
  limits := rfl
  returns := matches_pure
  fails fault _ := matches_throw fault
  exceeds limit := matches_throw (.stepLimit limit)
  continues := Matches.bind
  locates same := same.located fun related => by rw [related.context]
  traces same := by
    apply same.traced rfl
    · intro left right related
      exact ⟨related.context, related.output, congrArg Trace.start related.trace, related.input⟩
    · intro left right related
      exact ⟨related.context, related.output, congrArg Trace.close related.trace, related.input⟩
  records event := by
    intro left right related
    unfold record
    rw [related.trace]
    split
    · split
      · exact ⟨rfl, related.context, related.output, rfl, related.input⟩
      · exact ⟨rfl, related⟩
    · exact ⟨rfl, related⟩
  loads := load_sameButInput
  writes := write_sameButInput
  registers := fun _ _ related => ⟨by rw [related.context], related⟩
  emits := emit_sameButInput
  requests := request_sameButInput indistinct
  counts := count_sameButInput
  notes number := fun _ _ related =>
    ⟨rfl, by rw [related.context], related.output, related.trace, related.input⟩

end Primitives

end Action

namespace Input

/-- The two readers are interchangeable. Bits are prepared from every text that spells them, blanks
aside, and every run on the prepared bits ends like the run on a silent console that offers the bits
line by line: with the same result or the same fault, and with machines that differ in nothing but
what is left of the input, however many lines are executed and also if the program asks for more bits
than there are. Preparing bits from a text fails if and only if some character of it is neither blank
nor a digit of a bit, and the fault names the first one. -/
theorem readers_are_interchangeable :
    (∀ (bits : List Bool) (text offered : String), Text.letters text.toList = bits.map digit →
      Offers bits offered.toList →
      ofString text = .ok (.prepared (bits.map .ofBit)) ∧
      ∀ (options : Options) (program : Program) (start : Machine),
        let prepared := { start with input := .prepared (bits.map .ofBit) }
        let console := { start with input := .ofConsole offered }
        (∀ fuel, Action.Agree (Machine.SameButInput Replaces)
          (Action.runFor options fuel program prepared)
          (Action.runFor options fuel program console)) ∧
        Action.Agree (Machine.SameButInput Replaces) (Action.run options program prepared)
          (Action.run options program console)) ∧
    (∀ text : String, (∃ fault, ofString text = .error fault) ↔ ∃ c ∈ text.toList, Refuses c) ∧
    (∀ (text : String) (front back : List Char) (c : Char), text.toList = front ++ c :: back →
      (∀ d ∈ front, ¬Refuses d) → Refuses c →
      ∃ fault, ofString text = .error fault ∧
        fault.message? =
          some ("Invalid input bit " ++ Text.quoted (String.singleton c) ++ ".")) := by
  refine ⟨?_, ofString_fails_iff, ?_⟩
  · intro bits text offered spells offers
    refine ⟨?_, ?_⟩
    · rw [ofString, bitsOfString_of_letters spells]
      rfl
    · intro options program start prepared console
      have alike : Machine.SameButInput Replaces prepared console :=
        ⟨rfl, rfl, rfl, offers.replaces⟩
      have same := Action.sameButInput_congruence indistinct_replaces options
      exact ⟨fun fuel => same.runFor_related program fuel _ _ alike,
        same.run_related rfl program _ _ alike⟩
  · intro text front back c split accepted refused
    exact ⟨_, ofString_of_refuses split accepted refused, rfl⟩

/-- A program that reads bits for ever. -/
def readForever : Program where
  first := .int 0
  lines := [⟨.int 0, .read, .unconditional (.target (.int 0) (.bool false)), .int 0⟩]

/-- Two bits, with a vertical tab behind the first one, are read from a console like from a text, and
a third one is missing in the same way. -/
theorem readers_are_interchangeable_readForever :
    ∃ after after',
      Action.runFor {} 3 readForever { input := .prepared [.int 1, .int 0] } =
        .error .noMoreInput after ∧
      Action.runFor {} 3 readForever { input := .ofConsole "1\x0b\r\n 0" } =
        .error .noMoreInput after' ∧
      Machine.SameButInput Replaces after after' ∧ after.context.steps = 3 := by
  have offered : "1\x0b\r\n 0".toList = ['1', '\x0b', '\r', '\n', ' ', '0'] := by decide
  have offers : Offers [true, false] ['1', '\x0b', '\r', '\n', ' ', '0'] :=
    .line (.padded [] ['\x0b'] nofun (List.forall_mem_singleton.mpr rfl))
      (show ['\r', '\n'] ∈ Text.lineBreaks by decide)
      (.last (.padded [' '] [] (List.forall_mem_singleton.mpr rfl) nofun))
  have same := readers_are_interchangeable.1 [true, false] "10" "1\x0b\r\n 0" (by decide)
    (offered ▸ offers)
  obtain ⟨alike, -⟩ := same.2 {} readForever { input := .prepared [] }
  have fails : ∃ after, Action.runFor {} 3 readForever { input := .prepared [.int 1, .int 0] } =
      .error .noMoreInput after ∧ after.context.steps = 3 := ⟨_, rfl, rfl⟩
  obtain ⟨after, failed, steps⟩ := fails
  -- Only the run on the prepared bits is evaluated.
  generalize ({ input := .ofConsole "1\x0b\r\n 0" } : Machine) = console at alike ⊢
  rcases (alike 3).cases with ⟨_, _, _, ran, -⟩ | ⟨_, _, after', stuck, stuck', kept⟩
  · cases failed.symm.trans ran
  · cases failed.symm.trans stuck
    exact ⟨after, after', failed, stuck', kept, steps⟩

end Input

end BitMachine
