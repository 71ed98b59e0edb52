import Admission.Text.Blank
import Admission.Text.Digit

/-!
# Numerals

The readers of the numbers that people write: whole numbers for an address, decimals for a time
limit. Digits may be of any script, and a single underscore may stand between two of them.
A decimal is rounded correctly; a whole number has no bound but the number of its digits.
-/
namespace Admission.Text

/-- The decimal digits at the front, each with at most one underscore before it, and the rest.
`joined` says that a digit came right before. -/
def takeDigits (joined : Bool) : List Char → List Nat × List Char
  | [] => ([], [])
  | c :: rest =>
    match digit? c with
    | some d =>
      let (ds, tail) := takeDigits true rest
      (d :: ds, tail)
    | none =>
      match joined, c, rest with
      | true, '_', next :: tail =>
        match digit? next with
        | some d =>
          let (ds, tail) := takeDigits true tail
          (d :: ds, tail)
        | none => ([], c :: rest)
      | _, _, _ => ([], c :: rest)

/-- The number that the digits write. -/
def ofDigits (ds : List Nat) : Nat := ds.foldl (fun n d => 10 * n + d) 0

/-- A leading sign, and the rest. -/
def takeSign : List Char → Bool × List Char
  | '-' :: rest => (true, rest)
  | '+' :: rest => (false, rest)
  | cs => (false, cs)

/-- The greatest number of digits a whole number may have. -/
def maxDigits : Nat := 4300

/-- The blanks around a whole number: the four separators U+001C to U+001F are none. -/
def isMargin (c : Char) : Bool := isBlank c && !(0x1c ≤ c.toNat && c.toNat ≤ 0x1f)

/-- A whole number with an optional sign and blanks around it. -/
def readInt? (s : String) : Option Int :=
  let cs := ((s.toList.dropWhile isMargin).reverse.dropWhile isMargin).reverse
  let (negative, cs) := takeSign cs
  match takeDigits false cs with
  | (ds, []) =>
    if ds.isEmpty || ds.length > maxDigits then none
    else some (if negative then -(ofDigits ds : Int) else ofDigits ds)
  | _ => none

/-- The nearest double to `digits` (a whole number written with them) times ten to the `scale`.
Beyond `± 400` for the leading digit every number rounds to infinity or to zero. -/
def roundDecimal (digits : List Nat) (scale : Int) : Float :=
  let ds := digits.dropWhile (· == 0)
  let top := (ds.length : Int) + scale
  if ds.isEmpty || top < -400 then 0.0
  else if top > 400 then 1.0 / 0.0
  else if scale < 0 then Float.ofScientific (ofDigits ds) true scale.natAbs
  else Float.ofScientific (ofDigits ds) false scale.toNat

/-- The exponent after the fraction of a decimal: `e`, an optional sign and digits. -/
def takeExponent : List Char → Option (Int × List Char)
  | c :: rest =>
    if c == 'e' || c == 'E' then
      let (negative, rest) := takeSign rest
      match takeDigits false rest with
      | ([], _) => none
      | (ds, rest) => some (if negative then -(ofDigits ds : Int) else ofDigits ds, rest)
    else some (0, c :: rest)
  | [] => some (0, [])

/-- The words for the two special values, in any case. -/
def readSpecial? (cs : List Char) : Option Float :=
  let word := String.ofList (cs.map Char.toLower)
  if word == "inf" || word == "infinity" then some (1.0 / 0.0)
  else if word == "nan" then some (0.0 / 0.0)
  else none

/-- A decimal without its sign: digits with at most one point among them, then an exponent. -/
def readUnsigned? (cs : List Char) : Option Float :=
  let (whole, rest) := takeDigits false cs
  let (fraction, rest) :=
    match rest with
    | '.' :: rest => takeDigits false rest
    | _ => ([], rest)
  if whole.isEmpty && fraction.isEmpty then readSpecial? cs
  else
    match takeExponent rest with
    | some (e, []) => some (roundDecimal (whole ++ fraction) (e - fraction.length))
    | _ => none

/-- A decimal with an optional sign. -/
def readFloat? (s : String) : Option Float :=
  let (negative, cs) := takeSign s.toList
  (readUnsigned? cs).map fun x => if negative then -x else x

end Admission.Text
