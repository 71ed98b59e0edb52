import Admission.Json.Value
import Admission.Text.Quoted

/-!
# Writing JSON

The written text is ASCII: what lies outside U+0020 to U+007E is escaped, by surrogate pairs
where one unit does not hold it. Decimals are written out exactly, so that no digit of the double
is lost and none is guessed.
-/
namespace Admission.Json

/-- How a value is laid out: on one line, or with each item on a line of its own. -/
inductive Layout where
  | line
  | indented (width : Nat)
  deriving DecidableEq, Repr

/-- The break before an item at a depth. -/
def Layout.lineBreak : Layout → Nat → List Char
  | .line, _ => []
  | .indented width, depth => '\n' :: List.replicate (width * depth) ' '

/-- What stands between a field's key and its value. -/
def Layout.colon : Layout → List Char
  | .line => [':']
  | .indented _ => [':', ' ']

def unitEscape (n : Nat) : List Char := '\\' :: 'u' :: Text.hexDigits 4 n

/-- One character of a written text. -/
def writeChar (c : Char) : List Char :=
  if c = '"' then ['\\', '"']
  else if c = '\\' then ['\\', '\\']
  else if c = '\n' then ['\\', 'n']
  else if c = '\r' then ['\\', 'r']
  else if c = '\t' then ['\\', 't']
  else if c = '\x08' then ['\\', 'b']
  else if c = '\x0c' then ['\\', 'f']
  else if 0x20 ≤ c.toNat ∧ c.toNat ≤ 0x7e then [c]
  else if c.toNat < 0x10000 then unitEscape c.toNat
  else
    let n := c.toNat - 0x10000
    unitEscape (0xd800 + n / 0x400) ++ unitEscape (0xdc00 + n % 0x400)

def writeText (s : String) : List Char := '"' :: s.toList.flatMap writeChar ++ ['"']

def writeWhole (n : Int) : List Char := (toString n).toList

/-- The digits of `m / 10 ^ places`, with at least one digit on either side of the point. -/
def writePlaces (m places : Nat) : List Char :=
  let ds := Nat.toDigits 10 m
  let ds := List.replicate (places + 1 - ds.length) '0' ++ ds
  let (whole, fraction) := ds.splitAt (ds.length - places)
  whole ++ '.' :: (if fraction.isEmpty then ['0'] else fraction)

/-- A double written out exactly, or the word for a special value. -/
def writeReal (x : Float) : List Char :=
  let bits := x.toBits.toNat
  let minus := if bits / 0x8000000000000000 = 1 then ['-'] else []
  let biased := bits / 0x10000000000000 % 0x800
  let fraction := bits % 0x10000000000000
  if biased = 0x7ff then
    if fraction = 0 then minus ++ "Infinity".toList else "NaN".toList
  else
    let m := if biased = 0 then fraction else fraction + 0x10000000000000
    let exponent := if biased = 0 then 1 else biased
    let down := 1075 - exponent
    let up := exponent - 1075
    minus ++ writePlaces (m * Nat.pow 2 up * Nat.pow 5 down) down

mutual

def write (layout : Layout) (depth : Nat) : Value → List Char
  | .null => "null".toList
  | .bool true => "true".toList
  | .bool false => "false".toList
  | .whole n => writeWhole n
  | .real x => writeReal x
  | .text s => writeText s
  | .list [] => ['[', ']']
  | .list (v :: rest) =>
    '[' :: layout.lineBreak (depth + 1) ++ write layout (depth + 1) v ++
      writeItems layout (depth + 1) rest ++ layout.lineBreak depth ++ [']']
  | .object [] => ['\x7b', '\x7d']
  | .object ((key, v) :: rest) =>
    '\x7b' :: layout.lineBreak (depth + 1) ++ writeText key ++ layout.colon ++
      write layout (depth + 1) v ++ writePairs layout (depth + 1) rest ++
      layout.lineBreak depth ++ ['\x7d']

/-- The items after the first. -/
def writeItems (layout : Layout) (depth : Nat) : List Value → List Char
  | [] => []
  | v :: rest =>
    ',' :: layout.lineBreak depth ++ write layout depth v ++ writeItems layout depth rest

/-- The fields after the first. -/
def writePairs (layout : Layout) (depth : Nat) : List (String × Value) → List Char
  | [] => []
  | (key, v) :: rest =>
    ',' :: layout.lineBreak depth ++ writeText key ++ layout.colon ++ write layout depth v ++
      writePairs layout depth rest

end

def Value.render (layout : Layout) (v : Value) : String := String.ofList (write layout 0 v)

end Admission.Json
