import BitMachine.Grammar.Diagnostic

/-! A cursor in a text: how far reading has come and what is left. Blanks are skipped before every
letter of a symbol, and never required between two symbols. -/

set_option autoImplicit false

namespace BitMachine

structure Cursor where
  position : Nat := 0
  rest : List Char
deriving DecidableEq, Repr

namespace Cursor

def ofString (text : String) : Cursor :=
  { rest := text.toList }

/-- Moves over the characters at the front that satisfy `p`. -/
def skipFrom (p : Char → Bool) (position : Nat) : List Char → Cursor
  | [] => ⟨position, []⟩
  | c :: rest => if p c then skipFrom p (position + 1) rest else ⟨position, c :: rest⟩

/-- Moves to the first character that does not satisfy `p`. -/
def skipWhile (p : Char → Bool) (cursor : Cursor) : Cursor :=
  skipFrom p cursor.position cursor.rest

def skipBlanks (cursor : Cursor) : Cursor :=
  cursor.skipWhile Text.isBlank

/-- Whether nothing but blanks is left. -/
def atEnd (cursor : Cursor) : Bool :=
  cursor.skipBlanks.rest.isEmpty

/-- Moves over the letters of a symbol as far as they stand there, and says whether all did. -/
def advance : List Char → Cursor → Bool × Cursor
  | [], cursor => (true, cursor)
  | letter :: letters, cursor =>
    match cursor.skipBlanks with
    | ⟨position, c :: rest⟩ =>
      if c = letter then advance letters ⟨position + 1, rest⟩ else (false, ⟨position, c :: rest⟩)
    | ⟨position, []⟩ => (false, ⟨position, []⟩)

/-- Whether a text begins with the letters of a symbol, blanks aside. -/
def spells : List Char → List Char → Bool
  | [], _ => true
  | letter :: letters, text =>
    match text.dropWhile Text.isBlank with
    | c :: rest => c == letter && spells letters rest
    | [] => false

def sees (cursor : Cursor) (symbol : String) : Bool :=
  spells symbol.toList cursor.rest

theorem rest_skipFrom (p : Char → Bool) (position : Nat) (text : List Char) :
    (skipFrom p position text).rest = text.dropWhile p := by
  induction text generalizing position with
  | nil => rfl
  | cons c rest ih =>
    simp only [skipFrom, List.dropWhile_cons]
    split
    · exact ih (position + 1)
    · rfl

theorem position_skipFrom (p : Char → Bool) (position : Nat) (text : List Char) :
    (skipFrom p position text).position = position + (text.takeWhile p).length := by
  induction text generalizing position with
  | nil => rfl
  | cons c rest ih =>
    simp only [skipFrom, List.takeWhile_cons]
    split
    · rw [ih (position + 1), List.length_cons]
      omega
    · rfl

/-- Moving over a symbol succeeds exactly if looking ahead finds it. -/
theorem fst_advance (letters : List Char) (cursor : Cursor) :
    (cursor.advance letters).1 = spells letters cursor.rest := by
  induction letters generalizing cursor with
  | nil => rfl
  | cons letter letters ih =>
    have skipped := rest_skipFrom Text.isBlank cursor.position cursor.rest
    simp only [advance, spells, skipBlanks, skipWhile]
    rw [← skipped]
    cases reached : skipFrom Text.isBlank cursor.position cursor.rest with
    | mk position left =>
      cases left with
      | nil => rfl
      | cons c after =>
        by_cases same : c = letter
        · simp [same, ih]
        · simp [same]

end Cursor

/-- A reader of phrases. A failure leaves the cursor where reading stopped. -/
abbrev Reader := EStateM Rejection Cursor

namespace Reader

def sees (symbol : String) : Reader Bool :=
  return (← get).sees symbol

def seesKeyword (keyword : Keyword) : Reader Bool :=
  sees keyword.spelling

/-- Moves over the blanks and gives the position behind them. -/
def skipBlanks : Reader Nat := do
  modify Cursor.skipBlanks
  return (← get).position

/-- Fails at the next character that is not blank. -/
def fail {α : Type} (expected : String) : Reader α := do
  throw ⟨.unexpected [expected], ← skipBlanks⟩

/-- Reads a symbol, or fails at the first character that does not belong to it. -/
def symbol (text : String) : Reader Unit := fun cursor =>
  match cursor.advance text.toList with
  | (true, after) => .ok () after
  | (false, stuck) => .error ⟨.unexpected [text], stuck.position⟩ stuck

def keyword (keyword : Keyword) : Reader Unit :=
  symbol keyword.spelling

end Reader

end BitMachine
