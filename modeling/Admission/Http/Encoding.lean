import Admission.Json.Reader

/-!
# The encoding of a JSON body

JSON may be sent in UTF-8, UTF-16 or UTF-32. Its first two characters are ASCII, so the zero bytes
among the first four tell which. What is decoded here came as UTF-8 text; a wider encoding can
only hide in the zeros of that text, and its byte order marks cannot.
-/
namespace Admission.Http

/-- An encoding by the width of its units, with the order of their bytes. -/
inductive Encoding where
  | bytes
  | pairs (bigEndian : Bool)
  | quads (bigEndian : Bool)
  deriving DecidableEq, Repr

/-- The encoding that the first bytes tell. -/
def Encoding.ofBytes : List UInt8 → Encoding
  | a :: b :: c :: d :: _ =>
    if a = 0 then (if b = 0 then .quads true else .pairs true)
    else if b = 0 then (if c = 0 ∧ d = 0 then .quads false else .pairs false)
    else .bytes
  | [a, b] => if a = 0 then .pairs true else if b = 0 then .pairs false else .bytes
  | _ => .bytes

/-- The number that bytes write. -/
def unitOf (bigEndian : Bool) (bs : List UInt8) : Nat :=
  (if bigEndian then bs else bs.reverse).foldl (fun n b => 256 * n + b.toNat) 0

/-- The units of two bytes each; none if a byte is left over. -/
def pairUnits? (bigEndian : Bool) : List UInt8 → Option (List Nat)
  | [] => some []
  | a :: b :: rest => (pairUnits? bigEndian rest).map (unitOf bigEndian [a, b] :: ·)
  | _ => none

/-- The characters of four bytes each; none if bytes are left over or write no character. -/
def quadChars? (bigEndian : Bool) : List UInt8 → Option (List Char)
  | [] => some []
  | a :: b :: c :: d :: rest =>
    let n := unitOf bigEndian [a, b, c, d]
    if n < 0x110000 then (quadChars? bigEndian rest).map (Json.unitChar n :: ·) else none
  | _ => none

/-- The text of a body in the encoding that it tells. A byte order mark of UTF-8 is dropped. -/
def decodeBody? (body : String) : Option String :=
  match Encoding.ofBytes body.toUTF8.toList with
  | .pairs bigEndian =>
    (pairUnits? bigEndian body.toUTF8.toList).map fun units =>
      String.ofList (Json.joinUnits units)
  | .quads bigEndian => (quadChars? bigEndian body.toUTF8.toList).map String.ofList
  | .bytes =>
    match body.toList with
    | '\ufeff' :: rest => some (String.ofList rest)
    | _ => some body

end Admission.Http
