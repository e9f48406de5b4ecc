import BitMachine.Proofs.Json.Scalars
import BitMachine.Text.LineBreak

/-! Reading JSON undoes writing it, for values of which nothing goes beyond the limits of the
reader. -/

set_option autoImplicit false

namespace BitMachine.Json

section Gaps

/-- A text that does not start with a blank. -/
def Solid (text : List Char) : Prop :=
  ∃ c rest, text = c :: rest ∧ isGap c = false

theorem Solid.append {text : List Char} (solid : Solid text) (rest : List Char) :
    Solid (text ++ rest) := by
  obtain ⟨c, tail, rfl, visible⟩ := solid
  exact ⟨c, tail ++ rest, rfl, visible⟩

theorem skipGap_append {gap text : List Char} (blank : ∀ c ∈ gap, isGap c = true)
    (solid : Solid text) : skipGap (gap ++ text) = text := by
  obtain ⟨c, rest, rfl, visible⟩ := solid
  unfold skipGap
  rw [List.dropWhile_append_of_pos blank, List.dropWhile_cons_of_neg (by rw [visible]; decide)]

theorem skipGap_solid {text : List Char} (solid : Solid text) : skipGap text = text :=
  skipGap_append (List.forall_mem_nil _) solid

theorem toList_pushn (text : String) (c : Char) (count : Nat) :
    (text.pushn c count).toList = text.toList ++ List.replicate count c := by
  induction count with
  | zero => exact (List.append_nil _).symm
  | succ count ih =>
    show ((text.pushn c count).push c).toList = _
    rw [String.toList_push, ih, List.append_assoc, List.replicate_succ']

theorem toList_lineStart (level : Nat) :
    (lineStart level).toList = '\n' :: List.replicate (2 * level) ' ' := by
  unfold lineStart
  rw [String.toList_append, toList_pushn]
  rfl

theorem isGap_of_mem_lineStart {level : Nat} {c : Char} (inside : c ∈ (lineStart level).toList) :
    isGap c = true := by
  rw [toList_lineStart] at inside
  rcases List.mem_cons.mp inside with rfl | blank
  · rfl
  · rw [List.eq_of_mem_replicate blank]
    rfl

/-- The parts of a container behind the first, each on a line of its own. -/
def furtherParts (level : Nat) (parts : List String) : List Char :=
  parts.flatMap fun part => ',' :: ((lineStart (level + 1)).toList ++ part.toList)

theorem toList_fullLayOut_nil (level : Nat) (opening closing : String) :
    (fullLayOut level opening closing []).toList = opening.toList ++ closing.toList :=
  String.toList_append

theorem toList_fullLayOut (level : Nat) (opening closing first : String) (parts : List String) :
    (fullLayOut level opening closing (first :: parts)).toList =
      opening.toList ++ ((lineStart (level + 1)).toList ++ (first.toList ++
        (furtherParts level parts ++ ((lineStart level).toList ++ closing.toList)))) := by
  have joined : (",".intercalate ((first :: parts).map (lineStart (level + 1) ++ ·))).toList =
      (lineStart (level + 1)).toList ++ (first.toList ++ furtherParts level parts) := by
    induction parts generalizing first with
    | nil =>
      rw [List.map_singleton, String.intercalate_singleton, String.toList_append]
      unfold furtherParts
      rw [List.flatMap_nil, List.append_nil]
    | cons second parts ih =>
      have rest := ih second
      rw [List.map_cons] at rest
      rw [List.map_cons, List.map_cons, String.intercalate_cons_cons, String.toList_append, rest]
      unfold furtherParts
      rw [List.flatMap_cons]
      simp only [String.toList_append, List.append_assoc, List.cons_append]
      rfl
  unfold fullLayOut
  simp only [String.toList_append, joined, List.append_assoc]

end Gaps

section Values

mutual

/-- A value that can be read back with `depth` levels of containers left: it holds no floating-point
numbers, no characters that must be escaped and no key twice, and no number has too many digits. -/
def Readable (limits : Limits) (depth : Nat) : Json → Prop
  | .null | .bool _ => True
  | .int n => (Nat.toDigits 10 n.natAbs).length ≤ limits.digits
  | .real _ => False
  | .str text => ∀ c ∈ text.toList, isBare c = true
  | .arr items => 0 < depth ∧ ReadableItems limits (depth - 1) items
  | .obj fields => 0 < depth ∧ (fields.map (·.1)).Nodup ∧ ReadableFields limits (depth - 1) fields

def ReadableItems (limits : Limits) (depth : Nat) : List Json → Prop
  | [] => True
  | item :: rest => Readable limits depth item ∧ ReadableItems limits depth rest

def ReadableFields (limits : Limits) (depth : Nat) : List (String × Json) → Prop
  | [] => True
  | (key, value) :: rest =>
    (∀ c ∈ key.toList, isBare c = true) ∧ Readable limits depth value ∧
      ReadableFields limits depth rest

end

mutual

def decideReadable (limits : Limits) (depth : Nat) :
    (value : Json) → Decidable (Readable limits depth value)
  | .null | .bool _ => .isTrue trivial
  | .int n => inferInstanceAs (Decidable ((Nat.toDigits 10 n.natAbs).length ≤ limits.digits))
  | .real _ => .isFalse id
  | .str text => decidable_of_iff (text.toList.all isBare = true) List.all_eq_true
  | .arr items =>
    have := decideReadableItems limits (depth - 1) items
    inferInstanceAs (Decidable (0 < depth ∧ ReadableItems limits (depth - 1) items))
  | .obj fields =>
    have := decideReadableFields limits (depth - 1) fields
    inferInstanceAs (Decidable
      (0 < depth ∧ (fields.map (·.1)).Nodup ∧ ReadableFields limits (depth - 1) fields))

def decideReadableItems (limits : Limits) (depth : Nat) :
    (items : List Json) → Decidable (ReadableItems limits depth items)
  | [] => .isTrue trivial
  | item :: rest =>
    have := decideReadable limits depth item
    have := decideReadableItems limits depth rest
    inferInstanceAs (Decidable (Readable limits depth item ∧ ReadableItems limits depth rest))

def decideReadableFields (limits : Limits) (depth : Nat) :
    (fields : List (String × Json)) → Decidable (ReadableFields limits depth fields)
  | [] => .isTrue trivial
  | (key, value) :: rest =>
    have : Decidable (∀ c ∈ key.toList, isBare c = true) :=
      decidable_of_iff (key.toList.all isBare = true) List.all_eq_true
    have := decideReadable limits depth value
    have := decideReadableFields limits depth rest
    inferInstanceAs (Decidable ((∀ c ∈ key.toList, isBare c = true) ∧
      Readable limits depth value ∧ ReadableFields limits depth rest))

end

instance (limits : Limits) (depth : Nat) (value : Json) :
    Decidable (Readable limits depth value) :=
  decideReadable limits depth value

mutual

/-- A number that can be read back can be written. -/
theorem Readable.writable {limits : Limits} (within : limits.digits ≤ Text.numeralLimit) :
    ∀ {depth : Nat} (value : Json), Readable limits depth value → value.Writable = true
  | _, .int n, short => by
    have fits : ¬Text.numeralLimit < (Nat.toDigits 10 n.natAbs).length :=
      Nat.not_lt.mpr (Nat.le_trans short within)
    rw [Writable, Text.writeInteger?, if_neg fits]
    rfl
  | _, .arr items, readable => ReadableItems.writable within items readable.2
  | _, .obj fields, readable => ReadableFields.writable within fields readable.2.2
  | _, .null, _ | _, .bool _, _ | _, .real _, _ | _, .str _, _ => rfl

theorem ReadableItems.writable {limits : Limits} (within : limits.digits ≤ Text.numeralLimit) :
    ∀ {depth : Nat} (items : List Json), ReadableItems limits depth items →
      WritableItems items = true
  | _, [], _ => rfl
  | _, item :: rest, readable => by
    rw [WritableItems, Readable.writable within item readable.1,
      ReadableItems.writable within rest readable.2]
    rfl

theorem ReadableFields.writable {limits : Limits} (within : limits.digits ≤ Text.numeralLimit) :
    ∀ {depth : Nat} (fields : List (String × Json)), ReadableFields limits depth fields →
      WritableFields fields = true
  | _, [], _ => rfl
  | _, (key, value) :: rest, readable => by
    rw [WritableFields, Readable.writable within value readable.2.1,
      ReadableFields.writable within rest readable.2.2]
    rfl

end

/-- Whether a character may start a value that is not a container. -/
def startsScalar (c : Char) : Bool :=
  c.isDigit || ['-', '"', 'n', 't', 'f'].contains c

/-- Whether a character may start a value. -/
def startsValue (c : Char) : Bool :=
  startsScalar c || c == '[' || c == '\x7b'

theorem not_isGap_of_startsValue {c : Char} (starts : startsValue c = true) : isGap c = false := by
  rw [Bool.eq_false_iff]
  intro gap
  simp only [isGap, Bool.or_eq_true, beq_iff_eq] at gap
  rcases gap with ((rfl | rfl) | rfl) | rfl <;> cases starts

theorem fullScalar_eq_cons {limits : Limits} {depth : Nat} {value : Json}
    (readable : Readable limits depth value) (list : ∀ items, value ≠ .arr items)
    (object : ∀ fields, value ≠ .obj fields) :
    ∃ c rest, (fullScalar value).toList = c :: rest ∧ startsScalar c = true := by
  cases value with
  | null => exact ⟨'n', _, rfl, rfl⟩
  | bool value =>
    cases value with
    | false => exact ⟨'f', _, rfl, rfl⟩
    | true => exact ⟨'t', _, rfl, rfl⟩
  | int n =>
    obtain ⟨c, digits, spelled, digit⟩ := toDigits_eq_cons_digit n.natAbs
    have starts : startsScalar c = true := by
      unfold startsScalar
      rw [digit, Bool.true_or]
    rw [fullScalar_int, spelled]
    split
    · exact ⟨'-', _, rfl, rfl⟩
    · exact ⟨c, _, rfl, starts⟩
  | real x => exact readable.elim
  | str text =>
    have bare : ∀ c ∈ text.toList, isBare c = true := readable
    rw [fullScalar, writeText_of_isBare bare]
    exact ⟨'"', _, rfl, rfl⟩
  | arr items => exact absurd rfl (list items)
  | obj fields => exact absurd rfl (object fields)

theorem fullLayOut_eq_cons (level : Nat) (opening : Char) (closing : String) (parts : List String) :
    ∃ rest, (fullLayOut level (String.singleton opening) closing parts).toList = opening :: rest := by
  cases parts with
  | nil =>
    rw [toList_fullLayOut_nil, String.toList_singleton]
    exact ⟨_, rfl⟩
  | cons first parts =>
    rw [toList_fullLayOut, String.toList_singleton]
    exact ⟨_, rfl⟩

/-- What is written of a value starts like a value. -/
theorem fullText_eq_cons {limits : Limits} {depth : Nat} (level : Nat) {value : Json}
    (readable : Readable limits depth value) :
    ∃ c rest, (fullText level value).toList = c :: rest ∧ startsValue c = true := by
  have scalar : ∀ c, startsScalar c = true → startsValue c = true := by
    intro c starts
    unfold startsValue
    rw [starts, Bool.true_or, Bool.true_or]
  cases value with
  | arr items =>
    obtain ⟨rest, spelled⟩ := fullLayOut_eq_cons level '[' "]" (fullItems (level + 1) items)
    exact ⟨'[', rest, spelled, rfl⟩
  | obj fields =>
    obtain ⟨rest, spelled⟩ := fullLayOut_eq_cons level '\x7b' "\x7d" (fullFields (level + 1) fields)
    exact ⟨'\x7b', rest, spelled, rfl⟩
  | _ =>
    obtain ⟨c, rest, spelled, starts⟩ := fullScalar_eq_cons readable
      (by intro items same; cases same) (by intro fields same; cases same)
    exact ⟨c, rest, spelled, scalar c starts⟩

theorem fullText_solid {limits : Limits} {depth : Nat} (level : Nat) {value : Json}
    (readable : Readable limits depth value) (rest : List Char) :
    Solid ((fullText level value).toList ++ rest) := by
  obtain ⟨c, tail, spelled, starts⟩ := fullText_eq_cons level readable
  rw [spelled]
  exact ⟨c, tail ++ rest, rfl, not_isGap_of_startsValue starts⟩

theorem readValue_scalar {limits : Limits} {fuel depth : Nat} {c : Char} {text : List Char}
    (list : c ≠ '[') (object : c ≠ '\x7b') :
    readValue limits (fuel + 1) depth (c :: text) = readScalar limits (c :: text) := by
  rw [readValue.eq_def]
  dsimp only
  split
  all_goals first
    | rfl
    | next same => exact absurd (List.cons.inj same).1 list
    | next same => exact absurd (List.cons.inj same).1 object

theorem readScalar_str {limits : Limits} {text : String}
    (bare : ∀ c ∈ text.toList, isBare c = true) (rest : List Char) :
    readScalar limits ((writeText text).toList ++ rest) = .ok (.str text, rest) := by
  rw [writeText_of_isBare bare, List.cons_append, List.append_assoc]
  rw [readScalar, List.singleton_append, readText_of_isBare bare]

/-- A value that is not a container is read back. -/
theorem readScalar_fullScalar {limits : Limits} {depth : Nat} {value : Json} {rest : List Char}
    (readable : Readable limits depth value) (ended : Ended rest)
    (list : ∀ items, value ≠ .arr items) (object : ∀ fields, value ≠ .obj fields) :
    readScalar limits ((fullScalar value).toList ++ rest) = .ok (value, rest) := by
  cases value with
  | null => rfl
  | bool value => cases value <;> rfl
  | int n => exact readScalar_int readable ended
  | real x => exact readable.elim
  | str text => exact readScalar_str readable rest
  | arr items => exact absurd rfl (list items)
  | obj fields => exact absurd rfl (object fields)

theorem setField_of_not_mem {key : String} {value : Json} {fields : List (String × Json)}
    (fresh : key ∉ fields.map (·.1)) : setField key value fields = fields ++ [(key, value)] := by
  induction fields with
  | nil => rfl
  | cons field fields ih =>
    obtain ⟨name, old⟩ := field
    rw [List.map_cons, List.mem_cons, not_or] at fresh
    have other : ¬(name == key) = true := by
      rw [beq_iff_eq]
      exact fun same => fresh.1 same.symm
    rw [setField, if_neg other, ih fresh.2, List.cons_append]

end Values

section Containers

/-- The parts of a container from one of them on, and what follows the container. -/
def partsText (level : Nat) (closing : Char) (first : String) (parts : List String)
    (rest : List Char) : List Char :=
  first.toList ++ (furtherParts level parts ++ ((lineStart level).toList ++ closing :: rest))

theorem fullLayOut_append (level : Nat) (opening closing : Char) (first : String) (parts : List String)
    (rest : List Char) :
    (fullLayOut level (String.singleton opening) (String.singleton closing) (first :: parts)).toList ++
        rest =
      opening :: ((lineStart (level + 1)).toList ++ partsText level closing first parts rest) := by
  unfold partsText
  rw [toList_fullLayOut, String.toList_singleton, String.toList_singleton]
  simp only [List.append_assoc, List.cons_append, List.nil_append]

/-- What stands behind a part ends it. -/
theorem ended_furtherParts (level : Nat) (parts : List String) (rest : List Char) :
    Ended (furtherParts level parts ++ ((lineStart level).toList ++ rest)) := by
  cases parts with
  | nil =>
    rw [toList_lineStart]
    rintro c tail ⟨⟩
    exact Or.inr rfl
  | cons part parts =>
    rintro c tail ⟨⟩
    exact Or.inl rfl

theorem skipGap_last (level : Nat) {closing : Char} (visible : isGap closing = false)
    (rest : List Char) :
    skipGap (furtherParts level [] ++ ((lineStart level).toList ++ closing :: rest)) =
      closing :: rest :=
  skipGap_append (fun _ => isGap_of_mem_lineStart) ⟨closing, rest, rfl, visible⟩

theorem furtherParts_cons (level : Nat) (closing : Char) (second : String) (parts : List String)
    (rest : List Char) :
    furtherParts level (second :: parts) ++ ((lineStart level).toList ++ closing :: rest) =
      ',' :: ((lineStart (level + 1)).toList ++ partsText level closing second parts rest) := by
  unfold furtherParts partsText
  rw [List.flatMap_cons, List.cons_append, List.cons_append, List.append_assoc, List.append_assoc]
  rfl

theorem skipGap_comma (text : List Char) : skipGap (',' :: text) = ',' :: text :=
  skipGap_solid ⟨',', text, rfl, rfl⟩

theorem skipGap_parts {level : Nat} {closing : Char} {first : String} {parts : List String}
    {rest : List Char} (solid : Solid first.toList) :
    skipGap ((lineStart (level + 1)).toList ++ partsText level closing first parts rest) =
      partsText level closing first parts rest :=
  skipGap_append (fun _ => isGap_of_mem_lineStart) (solid.append _)

/-- With this much fuel, what is written is read back: values, the items of lists, and the fields of
objects. -/
structure ReadsBack (limits : Limits) (fuel : Nat) : Prop where
  value : ∀ {value : Json} {depth level : Nat} {rest : List Char}, Readable limits depth value →
    Ended rest → ((fullText level value).toList ++ rest).length ≤ fuel →
    readValue limits fuel depth ((fullText level value).toList ++ rest) = .ok (value, rest)
  items : ∀ {item : Json} {items : List Json} {depth level : Nat} {rest : List Char},
    ReadableItems limits depth (item :: items) →
    (partsText level ']' (fullText (level + 1) item) (fullItems (level + 1) items) rest).length <
      fuel →
    readItems limits fuel depth
        (partsText level ']' (fullText (level + 1) item) (fullItems (level + 1) items) rest) =
      .ok (item :: items, rest)
  fields : ∀ {key : String} {value : Json} {fields done : List (String × Json)} {depth level : Nat}
    {rest : List Char}, ReadableFields limits depth ((key, value) :: fields) →
    ((done ++ (key, value) :: fields).map (·.1)).Nodup →
    (partsText level '\x7d' (writeText key ++ ": " ++ fullText (level + 1) value)
      (fullFields (level + 1) fields) rest).length < fuel →
    readFields limits fuel depth done
        (partsText level '\x7d' (writeText key ++ ": " ++ fullText (level + 1) value)
          (fullFields (level + 1) fields) rest) =
      .ok (done ++ (key, value) :: fields, rest)

variable {limits : Limits} {fuel depth : Nat} {text after more rest : List Char}

theorem readItems_last {item : Json} (read : readValue limits fuel depth text = .ok (item, after))
    (closes : skipGap after = ']' :: rest) :
    readItems limits (fuel + 1) depth text = .ok ([item], rest) := by
  rw [readItems, read]
  dsimp only [bind, Except.bind]
  rw [closes]
  rfl

theorem readItems_further {item : Json} {items : List Json}
    (read : readValue limits fuel depth text = .ok (item, after))
    (goes : skipGap after = ',' :: more)
    (others : readItems limits fuel depth (skipGap more) = .ok (items, rest)) :
    readItems limits (fuel + 1) depth text = .ok (item :: items, rest) := by
  rw [readItems, read]
  dsimp only [bind, Except.bind]
  rw [goes]
  show (readItems limits fuel depth (skipGap more) >>= _) = _
  rw [others]
  rfl

theorem skipGap_blank (solid : Solid text) : skipGap (' ' :: text) = text := by
  have blank : ∀ c ∈ [' '], isGap c = true := by
    rintro c inside
    rw [List.mem_singleton.mp inside]
    rfl
  exact skipGap_append blank solid

/-- A key, and what is done behind it. -/
theorem readFields_key {key : String} {done : List (String × Json)}
    (bare : ∀ c ∈ key.toList, isBare c = true) (solid : Solid text) :
    readFields limits (fuel + 1) depth done ('"' :: (key.toList ++ '"' :: ':' :: ' ' :: text)) =
      readValue limits fuel depth text >>= fun (value, after) =>
        match skipGap after with
        | '\x7d' :: last => return (setField key value done, last)
        | ',' :: more => readFields limits fuel depth (setField key value done) (skipGap more)
        | _ => throw .malformed := by
  rw [readFields, readText_of_isBare bare]
  show (readValue limits fuel depth (skipGap (' ' :: text)) >>= _) = _
  exact congrArg (readValue limits fuel depth · >>= _) (skipGap_blank solid)

theorem readFields_last {key : String} {value : Json} {done : List (String × Json)}
    (bare : ∀ c ∈ key.toList, isBare c = true) (solid : Solid text)
    (read : readValue limits fuel depth text = .ok (value, after))
    (closes : skipGap after = '\x7d' :: rest) :
    readFields limits (fuel + 1) depth done ('"' :: (key.toList ++ '"' :: ':' :: ' ' :: text)) =
      .ok (setField key value done, rest) := by
  rw [readFields_key bare solid, read]
  dsimp only [bind, Except.bind]
  rw [closes]
  rfl

theorem readFields_further {key : String} {value : Json} {done : List (String × Json)}
    (bare : ∀ c ∈ key.toList, isBare c = true) (solid : Solid text)
    (read : readValue limits fuel depth text = .ok (value, after))
    (goes : skipGap after = ',' :: more) :
    readFields limits (fuel + 1) depth done ('"' :: (key.toList ++ '"' :: ':' :: ' ' :: text)) =
      readFields limits fuel depth (setField key value done) (skipGap more) := by
  rw [readFields_key bare solid, read]
  dsimp only [bind, Except.bind]
  rw [goes]
  rfl

/-- A field as a part of an object. -/
theorem partsText_field {key : String} (bare : ∀ c ∈ key.toList, isBare c = true) (level : Nat)
    (value : Json) (parts : List String) (rest : List Char) :
    partsText level '\x7d' (writeText key ++ ": " ++ fullText (level + 1) value) parts rest =
      '"' :: (key.toList ++ '"' :: ':' :: ' ' ::
        partsText level '\x7d' (fullText (level + 1) value) parts rest) := by
  unfold partsText
  rw [String.toList_append, String.toList_append, writeText_of_isBare bare]
  simp only [List.append_assoc, List.cons_append]
  rfl

theorem ReadsBack.nextItems (before : ReadsBack limits fuel) {item : Json} {items : List Json}
    {level : Nat} (readable : ReadableItems limits depth (item :: items))
    (enough : (partsText level ']' (fullText (level + 1) item) (fullItems (level + 1) items)
      rest).length < fuel + 1) :
    readItems limits (fuel + 1) depth
        (partsText level ']' (fullText (level + 1) item) (fullItems (level + 1) items) rest) =
      .ok (item :: items, rest) := by
  obtain ⟨first, others⟩ := readable
  have read : readValue limits fuel depth
      (partsText level ']' (fullText (level + 1) item) (fullItems (level + 1) items) rest) = _ :=
    before.value first (ended_furtherParts level _ _) (Nat.le_of_lt_succ enough)
  cases items with
  | nil => exact readItems_last read (skipGap_last level rfl rest)
  | cons second items =>
    have solid := fullText_solid (level + 1) others.1 []
    rw [List.append_nil] at solid
    rw [fullItems, furtherParts_cons] at read
    rw [partsText, fullItems, furtherParts_cons] at enough
    simp only [List.length_append, List.length_cons] at enough
    apply readItems_further read (skipGap_comma _)
    rw [skipGap_parts solid]
    exact before.items others (by omega)

theorem ReadsBack.nextFields (before : ReadsBack limits fuel) {key : String} {value : Json}
    {fields done : List (String × Json)} {level : Nat}
    (readable : ReadableFields limits depth ((key, value) :: fields))
    (distinct : ((done ++ (key, value) :: fields).map (·.1)).Nodup)
    (enough : (partsText level '\x7d' (writeText key ++ ": " ++ fullText (level + 1) value)
      (fullFields (level + 1) fields) rest).length < fuel + 1) :
    readFields limits (fuel + 1) depth done
        (partsText level '\x7d' (writeText key ++ ": " ++ fullText (level + 1) value)
          (fullFields (level + 1) fields) rest) =
      .ok (done ++ (key, value) :: fields, rest) := by
  obtain ⟨bare, first, others⟩ := readable
  have fresh : setField key value done = done ++ [(key, value)] := by
    apply setField_of_not_mem
    rw [List.map_append, List.map_cons] at distinct
    intro inside
    exact (List.nodup_append.mp distinct).2.2 key inside key List.mem_cons_self rfl
  rw [partsText_field bare] at enough ⊢
  simp only [List.length_append, List.length_cons] at enough
  have solid : Solid (partsText level '\x7d' (fullText (level + 1) value)
      (fullFields (level + 1) fields) rest) := fullText_solid (level + 1) first _
  have short : (partsText level '\x7d' (fullText (level + 1) value)
      (fullFields (level + 1) fields) rest).length ≤ fuel := by omega
  have read : readValue limits fuel depth (partsText level '\x7d' (fullText (level + 1) value)
      (fullFields (level + 1) fields) rest) = _ :=
    before.value first (ended_furtherParts level _ _) short
  cases fields with
  | nil =>
    rw [readFields_last bare solid read (skipGap_last level rfl rest), fresh]
  | cons second fields =>
    obtain ⟨name, other⟩ := second
    rw [fullFields] at solid
    rw [fullFields, furtherParts_cons] at read
    rw [fullFields, partsText, furtherParts_cons] at short
    simp only [List.length_append, List.length_cons] at short
    have quoted : Solid (writeText name ++ ": " ++ fullText (level + 1) other).toList := by
      rw [String.toList_append, String.toList_append, writeText_of_isBare others.1]
      exact ⟨'"', _, rfl, rfl⟩
    have apart : ((done ++ [(key, value)] ++ (name, other) :: fields).map (·.1)).Nodup := by
      rwa [List.append_assoc]
    rw [fullFields, readFields_further bare solid read (skipGap_comma _), skipGap_parts quoted,
      fresh, before.fields others apart (by omega), List.append_assoc]
    rfl

theorem readValue_list {c : Char} (spelled : skipGap text = c :: more) (inside : c ≠ ']') :
    readValue limits (fuel + 1) (depth + 1) ('[' :: text) =
      (readItems limits fuel depth (c :: more)).map fun (items, after) => (.arr items, after) := by
  rw [readValue, spelled]
  split
  · next same => exact absurd (List.cons.inj same).1 inside
  · rfl

theorem readValue_object {c : Char} (spelled : skipGap text = c :: more) (inside : c ≠ '\x7d') :
    readValue limits (fuel + 1) (depth + 1) ('\x7b' :: text) =
      (readFields limits fuel depth [] (c :: more)).map fun (fields, after) =>
        (.obj fields, after) := by
  rw [readValue, spelled]
  split
  · next same => exact absurd (List.cons.inj same).1 inside
  · rfl

theorem lineStart_length (level : Nat) : 0 < (lineStart level).toList.length := by
  rw [toList_lineStart]
  exact Nat.succ_pos _

theorem ReadsBack.nextList (before : ReadsBack limits fuel) {items : List Json} {level : Nat}
    (readable : Readable limits depth (.arr items))
    (enough : ((fullText level (.arr items)).toList ++ rest).length ≤ fuel + 1) :
    readValue limits (fuel + 1) depth ((fullText level (.arr items)).toList ++ rest) =
      .ok (.arr items, rest) := by
  obtain ⟨room, parts⟩ := readable
  obtain ⟨depth, rfl⟩ := Nat.exists_eq_succ_of_ne_zero (Nat.ne_of_gt room)
  cases items with
  | nil =>
    show readValue limits (fuel + 1) (depth + 1) ((fullLayOut level "[" "]" []).toList ++ rest) = _
    rw [toList_fullLayOut_nil]
    rfl
  | cons item items =>
    have text : (fullText level (.arr (item :: items))).toList ++ rest =
        '[' :: ((lineStart (level + 1)).toList ++
          partsText level ']' (fullText (level + 1) item) (fullItems (level + 1) items) rest) :=
      fullLayOut_append level '[' ']' _ _ _
    have blank := lineStart_length (level + 1)
    rw [text, List.length_cons, List.length_append] at enough
    obtain ⟨c, tail, spelled, starts⟩ := fullText_eq_cons (level + 1) parts.1
    have solid : Solid (fullText (level + 1) item).toList :=
      ⟨c, tail, spelled, not_isGap_of_startsValue starts⟩
    have inside : c ≠ ']' := by
      rintro rfl
      cases starts
    have first : skipGap ((lineStart (level + 1)).toList ++
        partsText level ']' (fullText (level + 1) item) (fullItems (level + 1) items) rest) =
        c :: (tail ++ (furtherParts level (fullItems (level + 1) items) ++
          ((lineStart level).toList ++ ']' :: rest))) := by
      rw [skipGap_parts solid, partsText, spelled, List.cons_append]
    have read : readItems limits fuel depth
        (partsText level ']' (fullText (level + 1) item) (fullItems (level + 1) items) rest) = _ :=
      before.items parts (by omega)
    rw [partsText, spelled, List.cons_append] at read
    rw [text, readValue_list first inside, read]
    rfl

theorem ReadsBack.nextObject (before : ReadsBack limits fuel) {fields : List (String × Json)}
    {level : Nat} (readable : Readable limits depth (.obj fields))
    (enough : ((fullText level (.obj fields)).toList ++ rest).length ≤ fuel + 1) :
    readValue limits (fuel + 1) depth ((fullText level (.obj fields)).toList ++ rest) =
      .ok (.obj fields, rest) := by
  obtain ⟨room, distinct, parts⟩ := readable
  obtain ⟨depth, rfl⟩ := Nat.exists_eq_succ_of_ne_zero (Nat.ne_of_gt room)
  cases fields with
  | nil =>
    show readValue limits (fuel + 1) (depth + 1)
      ((fullLayOut level "\x7b" "\x7d" []).toList ++ rest) = _
    rw [toList_fullLayOut_nil]
    rfl
  | cons field fields =>
    obtain ⟨key, value⟩ := field
    have text : (fullText level (.obj ((key, value) :: fields))).toList ++ rest =
        '\x7b' :: ((lineStart (level + 1)).toList ++
          partsText level '\x7d' (writeText key ++ ": " ++ fullText (level + 1) value)
            (fullFields (level + 1) fields) rest) :=
      fullLayOut_append level '\x7b' '\x7d' _ _ _
    have blank := lineStart_length (level + 1)
    rw [text, List.length_cons, List.length_append] at enough
    have quoted := partsText_field parts.1 level value (fullFields (level + 1) fields) rest
    have first : skipGap ((lineStart (level + 1)).toList ++
        partsText level '\x7d' (writeText key ++ ": " ++ fullText (level + 1) value)
          (fullFields (level + 1) fields) rest) = _ :=
      (skipGap_append (fun _ => isGap_of_mem_lineStart) ⟨'"', _, quoted, rfl⟩).trans quoted
    have whole : ((([] : List (String × Json)) ++ (key, value) :: fields).map (·.1)).Nodup :=
      distinct
    have read : readFields limits fuel depth [] (partsText level '\x7d'
        (writeText key ++ ": " ++ fullText (level + 1) value) (fullFields (level + 1) fields) rest) =
        _ :=
      before.fields parts whole (by omega)
    rw [quoted] at read
    rw [text, readValue_object first (by decide), read]
    rfl

theorem nextScalar {value : Json} (readable : Readable limits depth value) (ended : Ended rest)
    (list : ∀ items, value ≠ .arr items) (object : ∀ fields, value ≠ .obj fields) :
    readValue limits (fuel + 1) depth ((fullScalar value).toList ++ rest) = .ok (value, rest) := by
  obtain ⟨c, tail, spelled, starts⟩ := fullScalar_eq_cons readable list object
  have read := readScalar_fullScalar readable ended list object
  rw [spelled, List.cons_append] at read ⊢
  rw [readValue_scalar _ _, read]
  · rintro rfl
    cases starts
  · rintro rfl
    cases starts

theorem ReadsBack.nextValue (before : ReadsBack limits fuel) {value : Json} {level : Nat}
    (readable : Readable limits depth value) (ended : Ended rest)
    (enough : ((fullText level value).toList ++ rest).length ≤ fuel + 1) :
    readValue limits (fuel + 1) depth ((fullText level value).toList ++ rest) = .ok (value, rest) := by
  cases value with
  | arr items => exact before.nextList readable enough
  | obj fields => exact before.nextObject readable enough
  | _ =>
    exact nextScalar readable ended (by intro items same; cases same)
      (by intro fields same; cases same)

/-- Every part is read with one step of fuel, and it is at least a character long. -/
theorem readsBack (limits : Limits) (fuel : Nat) : ReadsBack limits fuel := by
  induction fuel with
  | zero =>
    refine ⟨?_, nofun, nofun⟩
    intro value depth level rest readable ended enough
    obtain ⟨c, tail, spelled, -⟩ := fullText_eq_cons level readable
    rw [spelled] at enough
    cases enough
  | succ fuel before => exact ⟨before.nextValue, before.nextItems, before.nextFields⟩

end Containers

section Breaks

/-- A text without carriage returns keeps its line breaks. -/
theorem unifyBreaks_of_not_mem {text : List Char} (free : '\r' ∉ text) :
    Text.unifyBreaks text = text := by
  induction text with
  | nil => rfl
  | cons c text ih =>
    rw [List.mem_cons, not_or] at free
    rw [Text.unifyBreaks.eq_def]
    split
    · next same => cases same
    · next same => exact absurd (List.cons.inj same).1.symm free.1
    · next same => exact absurd (List.cons.inj same).1.symm free.1
    · next same =>
      cases same
      rw [ih free.2]

theorem return_not_mem_of_isBare {letters : List Char} (bare : ∀ c ∈ letters, isBare c = true) :
    '\r' ∉ letters := fun inside => absurd (bare _ inside) (by decide)

theorem return_not_mem_writeText {text : String} (bare : ∀ c ∈ text.toList, isBare c = true) :
    '\r' ∉ (writeText text).toList := by
  rw [writeText_of_isBare bare]
  simp only [List.mem_cons, List.mem_append, List.not_mem_nil, or_false, not_or]
  exact ⟨by decide, return_not_mem_of_isBare bare, by decide⟩

theorem return_not_mem_lineStart (level : Nat) : '\r' ∉ (lineStart level).toList := by
  rw [toList_lineStart]
  simp only [List.mem_cons, List.mem_replicate, not_or, not_and]
  exact ⟨by decide, fun _ => by decide⟩

theorem return_not_mem_fullLayOut (level : Nat) {opening closing : String} {parts : List String}
    (opens : '\r' ∉ opening.toList) (closes : '\r' ∉ closing.toList)
    (free : ∀ part ∈ parts, '\r' ∉ part.toList) :
    '\r' ∉ (fullLayOut level opening closing parts).toList := by
  cases parts with
  | nil =>
    rw [toList_fullLayOut_nil, List.mem_append, not_or]
    exact ⟨opens, closes⟩
  | cons first parts =>
    rw [List.forall_mem_cons] at free
    have further : '\r' ∉ furtherParts level parts := by
      unfold furtherParts
      intro inside
      obtain ⟨part, member, inside⟩ := List.mem_flatMap.mp inside
      simp only [List.mem_cons, List.mem_append] at inside
      rcases inside with comma | start | inside
      · cases comma
      · exact return_not_mem_lineStart _ start
      · exact free.2 part member inside
    rw [toList_fullLayOut]
    simp only [List.mem_append, not_or]
    exact ⟨opens, return_not_mem_lineStart _, free.1, further, return_not_mem_lineStart _, closes⟩

theorem return_not_mem_fullScalar {limits : Limits} {depth : Nat} {value : Json}
    (readable : Readable limits depth value) : '\r' ∉ (fullScalar value).toList := by
  cases value with
  | int n =>
    rw [fullScalar_int]
    have digits : '\r' ∉ Nat.toDigits 10 n.natAbs := fun inside =>
      absurd (isDigit_of_mem inside) (by decide)
    split
    · exact List.not_mem_cons_of_ne_of_not_mem (by decide) digits
    · exact digits
  | bool value => cases value <;> decide
  | real x => exact readable.elim
  | str text => exact return_not_mem_writeText readable
  | null => decide
  | arr items => exact (by decide : '\r' ∉ "[]".toList)
  | obj fields => exact (by decide : '\r' ∉ "\x7b\x7d".toList)

mutual

/-- Nothing that is written of a value is a carriage return. -/
theorem return_not_mem_fullText {limits : Limits} {depth : Nat} (level : Nat) :
    ∀ value : Json, Readable limits depth value → '\r' ∉ (fullText level value).toList
  | .arr items, readable =>
    return_not_mem_fullLayOut level (by decide) (by decide)
      (return_not_mem_fullItems (level + 1) items readable.2)
  | .obj fields, readable =>
    return_not_mem_fullLayOut level (by decide) (by decide)
      (return_not_mem_fullFields (level + 1) fields readable.2.2)
  | .null, readable | .bool _, readable | .int _, readable | .real _, readable
  | .str _, readable => return_not_mem_fullScalar readable

theorem return_not_mem_fullItems {limits : Limits} {depth : Nat} (level : Nat) :
    ∀ items : List Json, ReadableItems limits depth items →
      ∀ part ∈ fullItems level items, '\r' ∉ part.toList
  | [], _ => List.forall_mem_nil _
  | item :: items, readable => List.forall_mem_cons.mpr
      ⟨return_not_mem_fullText level item readable.1,
        return_not_mem_fullItems level items readable.2⟩

theorem return_not_mem_fullFields {limits : Limits} {depth : Nat} (level : Nat) :
    ∀ fields : List (String × Json), ReadableFields limits depth fields →
      ∀ part ∈ fullFields level fields, '\r' ∉ part.toList
  | [], _ => List.forall_mem_nil _
  | (key, value) :: fields, readable => by
    obtain ⟨bare, first, others⟩ := readable
    refine List.forall_mem_cons.mpr ⟨?_, return_not_mem_fullFields level fields others⟩
    rw [String.toList_append, String.toList_append, List.mem_append, List.mem_append, not_or, not_or]
    exact ⟨⟨return_not_mem_writeText bare, by decide⟩, return_not_mem_fullText level value first⟩

end

end Breaks

/-- Reading the text of a value gives it back. -/
theorem parse_fullText {limits : Limits} {value : Json}
    (readable : Readable limits limits.depth value) :
    parse limits (value.fullText 0) = .ok value := by
  have solid := fullText_solid 0 readable []
  have ended : Ended [] := nofun
  have read := (readsBack limits (2 * (value.fullText 0).toList.length + 2)).value
    readable ended (show ((fullText 0 value).toList ++ []).length ≤ _ by
      rw [List.append_nil]
      omega)
  rw [List.append_nil] at solid read
  unfold parse
  dsimp only
  rw [skipGap_solid solid, read]
  rfl

end BitMachine.Json
