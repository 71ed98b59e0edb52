/-!
# JSON values

The values of the interchange format. Whole numbers and decimals stay apart, and an object keeps
the order in which its fields first came.
-/
namespace Admission.Json

inductive Value where
  | null
  | bool (b : Bool)
  | whole (n : Int)
  | real (x : Float)
  | text (s : String)
  | list (items : List Value)
  | object (fields : List (String × Value))
  deriving Repr, Inhabited

/-- The fields of an object, in order. -/
abbrev Fields := List (String × Value)

namespace Fields

def get? (fields : Fields) (key : String) : Option Value :=
  (fields.find? (·.1 == key)).map (·.2)

/-- A field set to a value: in its place if the key is there, else at the end. -/
def put : Fields → String → Value → Fields
  | [], key, v => [(key, v)]
  | (k, old) :: rest, key, v => if k = key then (k, v) :: rest else (k, old) :: put rest key v

/-- The fields that pairs make: the last value of a key counts, at the place of its first. -/
def ofPairs (pairs : List (String × Value)) : Fields :=
  pairs.foldl (fun fields pair => put fields pair.1 pair.2) []

end Fields

namespace Value

/-- The value of an object's field; any other value has none. -/
def field? (v : Value) (key : String) : Option Value :=
  match v with
  | .object fields => Fields.get? fields key
  | _ => none

def text? : Value → Option String
  | .text s => some s
  | _ => none

def items? : Value → Option (List Value)
  | .list items => some items
  | _ => none

end Value

end Admission.Json
