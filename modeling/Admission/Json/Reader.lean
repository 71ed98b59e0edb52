import Admission.Json.Value
import Admission.Text.Numeral

/-!
# Reading JSON

The reader accepts the grammar of JSON and, beyond it, `NaN`, `Infinity` and `-Infinity`. A fault
names what was expected and where: by the number of characters left, from which `Fault.position`
counts. Escapes of half a surrogate pair are read as the replacement character.
-/
namespace Admission.Json

/-- What the reader missed. -/
inductive Reason where
  | value
  | fieldName
  | colon
  | comma
  | endOfText
  | closingQuote
  | plainCharacter
  | escape
  | hexEscape
  deriving DecidableEq, Repr

def Reason.message : Reason → String
  | .value => "Expecting value"
  | .fieldName => "Expecting property name enclosed in double quotes"
  | .colon => "Expecting ':' delimiter"
  | .comma => "Expecting ',' delimiter"
  | .endOfText => "Extra data"
  | .closingQuote => "Unterminated string starting at"
  | .plainCharacter => "Invalid control character at"
  | .escape => "Invalid \\escape"
  | .hexEscape => "Invalid \\uXXXX escape"

/-- Why a text is no JSON value: it is malformed where `left` characters are left, or it writes a
whole number with more digits than `Text.maxDigits`. -/
inductive Fault where
  | malformed (reason : Reason) (left : Nat)
  | tooManyDigits
  deriving DecidableEq, Repr

/-- A value read from the front of the characters, and what is left of them. -/
abbrev Read (α : Type) := Except Fault (α × List Char)

/-- The characters without leading blanks. JSON knows four blanks. -/
def skip (cs : List Char) : List Char :=
  cs.dropWhile fun c => c == ' ' || c == '\t' || c == '\n' || c == '\r'

def hexDigit? (c : Char) : Option Nat :=
  let n := c.toNat
  if 0x30 ≤ n ∧ n ≤ 0x39 then some (n - 0x30)
  else if 0x41 ≤ n ∧ n ≤ 0x46 then some (n - 0x41 + 10)
  else if 0x61 ≤ n ∧ n ≤ 0x66 then some (n - 0x61 + 10)
  else none

def hexQuad? (a b c d : Char) : Option Nat := do
  return ((← hexDigit? a) * 16 + (← hexDigit? b)) * 256 + (← hexDigit? c) * 16 + (← hexDigit? d)

/-- The character that stands for itself after a backslash, or that a letter there stands for. -/
def shortEscape? : Char → Option Char
  | '"' => some '"'
  | '\\' => some '\\'
  | '/' => some '/'
  | 'b' => some '\x08'
  | 'f' => some '\x0c'
  | 'n' => some '\n'
  | 'r' => some '\r'
  | 't' => some '\t'
  | _ => none

/-- The character of a code unit; half a surrogate pair stands for no character. -/
def unitChar (n : Nat) : Char :=
  if 0xd800 ≤ n ∧ n < 0xe000 then '\ufffd' else Char.ofNat n

/-- The character of a surrogate pair, if the two units are one. -/
def pairChar? (high low : Nat) : Option Char :=
  if 0xd800 ≤ high ∧ high < 0xdc00 ∧ 0xdc00 ≤ low ∧ low < 0xe000 then
    some (Char.ofNat (0x10000 + (high - 0xd800) * 0x400 + (low - 0xdc00)))
  else none

/-- The text of code units: a surrogate pair is one character. -/
def joinUnits : List Nat → List Char
  | [] => []
  | [n] => [unitChar n]
  | n :: m :: rest =>
    match pairChar? n m with
    | some c => c :: joinUnits rest
    | none => unitChar n :: joinUnits (m :: rest)

/-- A code unit put in front of what the rest of a text reads as. -/
def consUnit (n : Nat) : Read (List Nat) → Read (List Nat)
  | .ok (units, rest) => .ok (n :: units, rest)
  | .error e => .error e

/-- The code units of a text after its opening quote, where `opened` characters were left. An
escape of four digits is never the last of the characters. -/
def readUnits (opened : Nat) : List Char → Read (List Nat)
  | [] => .error (.malformed .closingQuote opened)
  | '"' :: rest => .ok ([], rest)
  | '\\' :: 'u' :: a :: b :: c :: d :: rest =>
    match hexQuad? a b c d with
    | some n =>
      if rest.isEmpty then .error (.malformed .hexEscape 5)
      else consUnit n (readUnits opened rest)
    | none => .error (.malformed .hexEscape (rest.length + 5))
  | '\\' :: 'u' :: rest => .error (.malformed .hexEscape (rest.length + 1))
  | '\\' :: e :: rest =>
    match shortEscape? e with
    | some c => consUnit c.toNat (readUnits opened rest)
    | none => .error (.malformed .escape (rest.length + 2))
  | ['\\'] => .error (.malformed .closingQuote opened)
  | c :: rest =>
    if c.toNat ≤ 0x1f then .error (.malformed .plainCharacter (rest.length + 1))
    else consUnit c.toNat (readUnits opened rest)

/-- A text after its opening quote. -/
def readText (rest : List Char) : Read String :=
  match readUnits (rest.length + 1) rest with
  | .ok (units, rest) => .ok (String.ofList (joinUnits units), rest)
  | .error e => .error e

/-- The ASCII digits at the front, and the rest. -/
def spanDigits (cs : List Char) : List Nat × List Char :=
  ((cs.takeWhile Char.isDigit).map (·.toNat - 48), cs.dropWhile Char.isDigit)

/-- The fraction at the front: a point and at least one digit. -/
def takeFraction : List Char → List Nat × List Char
  | '.' :: rest =>
    match spanDigits rest with
    | ([], _) => ([], '.' :: rest)
    | found => found
  | cs => ([], cs)

/-- The exponent at the front: `e`, an optional sign and at least one digit. -/
def takeExponent : List Char → Option Int × List Char
  | c :: rest =>
    if c == 'e' || c == 'E' then
      let (negative, tail) := Text.takeSign rest
      match spanDigits tail with
      | ([], _) => (none, c :: rest)
      | (ds, tail) =>
        (some (if negative then -(Text.ofDigits ds : Int) else Text.ofDigits ds), tail)
    else (none, c :: rest)
  | [] => (none, [])

/-- The whole part at the front of a number: a zero, or digits that start with another one. -/
def takeWhole : List Char → Option (List Nat × List Char)
  | '0' :: rest => some ([0], rest)
  | cs =>
    match spanDigits cs with
    | ([], _) => none
    | found => some found

/-- A number with its sign; without fraction and exponent it is whole. -/
def readNumber (cs : List Char) : Read Value :=
  let (negative, digits) :=
    match cs with
    | '-' :: rest => (true, rest)
    | _ => (false, cs)
  match takeWhole digits with
  | none => .error (.malformed .value cs.length)
  | some (whole, rest) =>
    let (fraction, rest) := takeFraction rest
    let (exponent, rest) := takeExponent rest
    if fraction.isEmpty && exponent.isNone then
      if whole.length > Text.maxDigits then .error .tooManyDigits
      else
        let n := Text.ofDigits whole
        .ok (.whole (if negative then -(n : Int) else n), rest)
    else
      let x := Text.roundDecimal (whole ++ fraction) (exponent.getD 0 - fraction.length)
      .ok (.real (if negative then -x else x), rest)

/-- The words at the front that stand for a value. -/
def readWord? : List Char → Option (Value × List Char)
  | 'n' :: 'u' :: 'l' :: 'l' :: rest => some (.null, rest)
  | 't' :: 'r' :: 'u' :: 'e' :: rest => some (.bool true, rest)
  | 'f' :: 'a' :: 'l' :: 's' :: 'e' :: rest => some (.bool false, rest)
  | 'N' :: 'a' :: 'N' :: rest => some (.real (0.0 / 0.0), rest)
  | 'I' :: 'n' :: 'f' :: 'i' :: 'n' :: 'i' :: 't' :: 'y' :: rest => some (.real (1.0 / 0.0), rest)
  | '-' :: 'I' :: 'n' :: 'f' :: 'i' :: 'n' :: 'i' :: 't' :: 'y' :: rest =>
    some (.real (-1.0 / 0.0), rest)
  | _ => none

mutual

/-- A value at the front of the characters. The fuel bounds the nesting. -/
def readValue : Nat → List Char → Read Value
  | 0, cs => .error (.malformed .value cs.length)
  | fuel + 1, cs =>
    match cs with
    | '"' :: rest =>
      match readText rest with
      | .ok (s, rest) => .ok (.text s, rest)
      | .error e => .error e
    | '[' :: rest =>
      match skip rest with
      | ']' :: rest => .ok (.list [], rest)
      | rest =>
        match readItems fuel rest with
        | .ok (items, rest) => .ok (.list items, rest)
        | .error e => .error e
    | '\x7b' :: rest =>
      match skip rest with
      | '\x7d' :: rest => .ok (.object [], rest)
      | rest =>
        match readPairs fuel rest with
        | .ok (pairs, rest) => .ok (.object (Fields.ofPairs pairs), rest)
        | .error e => .error e
    | cs =>
      match readWord? cs with
      | some found => .ok found
      | none => readNumber cs

/-- The items of a list that has one, up to its closing bracket. -/
def readItems : Nat → List Char → Read (List Value)
  | 0, cs => .error (.malformed .value cs.length)
  | fuel + 1, cs =>
    match readValue fuel cs with
    | .error e => .error e
    | .ok (v, rest) =>
      match skip rest with
      | ']' :: rest => .ok ([v], rest)
      | ',' :: rest =>
        match readItems fuel (skip rest) with
        | .ok (items, rest) => .ok (v :: items, rest)
        | .error e => .error e
      | rest => .error (.malformed .comma rest.length)

/-- The fields of an object that has one, up to its closing brace. -/
def readPairs : Nat → List Char → Read (List (String × Value))
  | 0, cs => .error (.malformed .fieldName cs.length)
  | fuel + 1, cs =>
    match cs with
    | '"' :: rest =>
      match readText rest with
      | .error e => .error e
      | .ok (key, rest) =>
        match skip rest with
        | ':' :: rest =>
          match readValue fuel (skip rest) with
          | .error e => .error e
          | .ok (v, rest) =>
            match skip rest with
            | '\x7d' :: rest => .ok ([(key, v)], rest)
            | ',' :: rest =>
              match readPairs fuel (skip rest) with
              | .ok (pairs, rest) => .ok ((key, v) :: pairs, rest)
              | .error e => .error e
            | rest => .error (.malformed .comma rest.length)
        | rest => .error (.malformed .colon rest.length)
    | cs => .error (.malformed .fieldName cs.length)

end

/-- The value that the characters write, with blanks around it. -/
def readAll (cs : List Char) : Except Fault Value :=
  match readValue (2 * cs.length + 2) (skip cs) with
  | .error e => .error e
  | .ok (v, rest) =>
    match skip rest with
    | [] => .ok v
    | rest => .error (.malformed .endOfText rest.length)

/-- The value that a text writes. -/
def read (s : String) : Except Fault Value := readAll s.toList

/-- The place of a fault in a text: the characters before what is left. -/
def position (s : String) (left : Nat) : Nat := s.length - left

end Admission.Json
