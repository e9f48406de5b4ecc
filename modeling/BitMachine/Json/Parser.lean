import BitMachine.Json.Basic

/-! Reading JSON text. Anything but exactly one value between blanks is refused, and so is a text
that goes beyond the limits of its reader. A text is read from left to right, and the first defect is
the one reported. -/

set_option autoImplicit false

namespace BitMachine.Json

/-- How much a reader takes. -/
structure Limits where
  /-- How many lists and objects may stand inside one another. -/
  depth : Nat
  /-- How many digits a whole number may have. -/
  digits : Nat
deriving DecidableEq, Repr

inductive Defect where
  | malformed
  | tooDeep
  | tooManyDigits
deriving DecidableEq, Repr

/-- The blanks of JSON. -/
def isGap (c : Char) : Bool :=
  c == ' ' || c == '\t' || c == '\n' || c == '\r'

def skipGap (text : List Char) : List Char :=
  text.dropWhile isGap

def hexValue? (c : Char) : Option Nat :=
  if '0' ≤ c && c ≤ '9' then some (c.toNat - 48)
  else if 'a' ≤ c && c ≤ 'f' then some (c.toNat - 87)
  else if 'A' ≤ c && c ≤ 'F' then some (c.toNat - 55)
  else none

/-- Four hexadecimal digits. -/
def unit? (a b c d : Char) : Option Nat := do
  let high := (← hexValue? a) * 16 + (← hexValue? b)
  let low := (← hexValue? c) * 16 + (← hexValue? d)
  return high * 256 + low

/-- The character that a backslash and a letter stand for. -/
def escaped? : Char → Option Char
  | '"' => some '"'
  | '\\' => some '\\'
  | '/' => some '/'
  | 'b' => some '\x08'
  | 'f' => some '\x0c'
  | 'n' => some '\n'
  | 'r' => some '\r'
  | 't' => some '\t'
  | _ => none

/-- The code units of a text up to its closing quote, after those already `done`. Control characters
must be escaped. -/
def readUnits (done : List Nat) : List Char → Option (List Nat × List Char)
  | [] => none
  | '"' :: rest => some (done.reverse, rest)
  | '\\' :: 'u' :: a :: b :: c :: d :: rest =>
    (unit? a b c d).bind fun unit => readUnits (unit :: done) rest
  | '\\' :: letter :: rest =>
    (escaped? letter).bind fun c => readUnits (c.toNat :: done) rest
  | c :: rest =>
    if c.toNat < 0x20 || c == '\\' then none else readUnits (c.toNat :: done) rest

/-- The characters of a sequence of code units: a surrogate pair is one character, and half a pair
that stands alone is the replacement character. -/
def joinUnits : List Nat → List Char
  | [] => []
  | high :: low :: rest =>
    if 0xD800 ≤ high && high ≤ 0xDBFF && 0xDC00 ≤ low && low ≤ 0xDFFF then
      Char.ofNat (0x10000 + (high - 0xD800) * 0x400 + (low - 0xDC00)) :: joinUnits rest
    else
      single high :: joinUnits (low :: rest)
  | [unit] => [single unit]
where
  single (unit : Nat) : Char :=
    if 0xD800 ≤ unit && unit ≤ 0xDFFF then '\ufffd' else Char.ofNat unit

def readText (text : List Char) : Option (String × List Char) :=
  (readUnits [] text).map fun (units, rest) => (String.ofList (joinUnits units), rest)

def digitsValue (digits : List Char) : Nat :=
  digits.foldl (fun value c => 10 * value + (c.toNat - 48)) 0

/-- A whole part: a single zero, or digits that do not start with one. -/
def readWhole : List Char → Option (List Char × List Char)
  | '0' :: rest => some (['0'], rest)
  | c :: rest =>
    if c.isDigit then some (c :: rest.takeWhile Char.isDigit, rest.dropWhile Char.isDigit) else none
  | [] => none

def readFraction : List Char → Option (List Char) × List Char
  | '.' :: rest =>
    match rest.takeWhile Char.isDigit with
    | [] => (none, '.' :: rest)
    | digits => (some digits, rest.dropWhile Char.isDigit)
  | rest => (none, rest)

def readPower : List Char → Option (Int × List Char)
  | '+' :: rest => readPowerDigits rest
  | '-' :: rest => (readPowerDigits rest).map fun (power, after) => (-power, after)
  | rest => readPowerDigits rest
where
  readPowerDigits (text : List Char) : Option (Int × List Char) :=
    match text.takeWhile Char.isDigit with
    | [] => none
    | digits => some (digitsValue digits, text.dropWhile Char.isDigit)

def readExponent : List Char → Option Int × List Char
  | c :: rest =>
    if c == 'e' || c == 'E' then
      match readPower rest with
      | some (power, after) => (some power, after)
      | none => (none, c :: rest)
    else (none, c :: rest)
  | [] => (none, [])

/-- A number without its sign: a whole number if neither a fraction nor an exponent follows. -/
def readMagnitude (limits : Limits) (negative : Bool) (text : List Char) :
    Except Defect (Json × List Char) :=
  match readWhole text with
  | none => .error .malformed
  | some (whole, afterWhole) =>
    let (fraction?, afterFraction) := readFraction afterWhole
    let (exponent?, rest) := readExponent afterFraction
    match fraction?, exponent? with
    | none, none =>
      if limits.digits < whole.length then .error .tooManyDigits
      else
        let value : Int := digitsValue whole
        .ok (.int (if negative then -value else value), rest)
    | _, _ =>
      let fraction := fraction?.getD []
      let power := exponent?.getD 0 - fraction.length
      .ok (.real (.ofDecimal negative (digitsValue (whole ++ fraction)) power), rest)

/-- The rest after a fixed word. -/
def readWord (word : String) (meaning : Json) (text : List Char) :
    Except Defect (Json × List Char) :=
  if word.toList.isPrefixOf text then .ok (meaning, text.drop word.length) else .error .malformed

def readScalar (limits : Limits) (text : List Char) : Except Defect (Json × List Char) :=
  match text with
  | '"' :: rest =>
    match readText rest with
    | some (content, after) => .ok (.str content, after)
    | none => .error .malformed
  | 'n' :: _ => readWord "null" .null text
  | 't' :: _ => readWord "true" (.bool true) text
  | 'f' :: _ => readWord "false" (.bool false) text
  | 'N' :: _ => readWord "NaN" (.real .nan) text
  | 'I' :: _ => readWord "Infinity" (.real (.infinite false)) text
  | '-' :: 'I' :: _ => readWord "-Infinity" (.real (.infinite true)) text
  | '-' :: rest => readMagnitude limits true rest
  | _ => readMagnitude limits false text

mutual

/-- One value, the blanks before it already skipped, that may hold `depth` levels of containers. -/
def readValue (limits : Limits) : Nat → Nat → List Char → Except Defect (Json × List Char)
  | 0, _, _ => .error .malformed
  | fuel + 1, depth, text =>
    match text, depth with
    | '[' :: _, 0 => .error .tooDeep
    | '{' :: _, 0 => .error .tooDeep
    | '[' :: rest, depth + 1 =>
      match skipGap rest with
      | ']' :: after => .ok (.arr [], after)
      | first => (readItems limits fuel depth first).map fun (items, after) => (.arr items, after)
    | '{' :: rest, depth + 1 =>
      match skipGap rest with
      | '}' :: after => .ok (.obj [], after)
      | first =>
        (readFields limits fuel depth [] first).map fun (fields, after) => (.obj fields, after)
    | _, _ => readScalar limits text

/-- One or more items and the closing bracket. -/
def readItems (limits : Limits) : Nat → Nat → List Char → Except Defect (List Json × List Char)
  | 0, _, _ => .error .malformed
  | fuel + 1, depth, text => do
    let (item, after) ← readValue limits fuel depth text
    match skipGap after with
    | ']' :: rest => return ([item], rest)
    | ',' :: rest =>
      let (items, last) ← readItems limits fuel depth (skipGap rest)
      return (item :: items, last)
    | _ => throw .malformed

/-- One or more fields and the closing brace, added to the fields read before. -/
def readFields (limits : Limits) : Nat → Nat → List (String × Json) → List Char →
    Except Defect (List (String × Json) × List Char)
  | fuel + 1, depth, done, '"' :: text =>
    match readText text with
    | none => .error .malformed
    | some (key, afterKey) =>
      match skipGap afterKey with
      | ':' :: rest => do
        let (value, after) ← readValue limits fuel depth (skipGap rest)
        match skipGap after with
        | '}' :: last => return (setField key value done, last)
        | ',' :: more => readFields limits fuel depth (setField key value done) (skipGap more)
        | _ => throw .malformed
      | _ => .error .malformed
  | _, _, _, _ => .error .malformed

end

def parse (limits : Limits) (text : String) : Except Defect Json := do
  let characters := text.toList
  let (value, rest) ←
    readValue limits (2 * characters.length + 2) limits.depth (skipGap characters)
  if (skipGap rest).isEmpty then return value else throw .malformed

end BitMachine.Json
