import Admission.Wire.Complaint
import Admission.Classification

/-!
# Forms

A form says which fields an object has and how each is read. Reading a form collects the
complaints of all its fields, in the order of the form, and after them one for each field of the
object that the form does not name.
-/
namespace Admission.Wire

open Json (Value Fields)

abbrev Reader (α : Type) := Value → Checked α

/-- Some fields of an object: their names, and what they read as. -/
structure Form (α : Type) where
  names : List String
  read : Fields → Checked α

namespace Form

def done {α : Type} (a : α) : Form α := ⟨[], fun _ => .ok a⟩

/-- A form with one more field after it. -/
def field {α β : Type} (f : Form (α → β)) (name : String) (absent : Fields → Checked α)
    (r : Reader α) : Form β where
  names := f.names ++ [name]
  read fields :=
    Checked.both (· ·) (f.read fields)
      (match fields.get? name with
        | some v => (r v).under (.key name)
        | none => absent fields)

/-- A form with one more field that has to be there. -/
def required {α β : Type} (f : Form (α → β)) (name : String) (r : Reader α) : Form β :=
  f.field name (fun fields => .error [⟨.missing, [.key name], .object fields⟩]) r

/-- A form with one more field that has a default. -/
def optional {α β : Type} (f : Form (α → β)) (name : String) (default : α) (r : Reader α) :
    Form β :=
  f.field name (fun _ => .ok default) r

/-- The complaints about fields that the form does not name. -/
def extras {α : Type} (f : Form α) (fields : Fields) : List Complaint :=
  (fields.filter fun field => !f.names.contains field.1).map fun field =>
    ⟨.extra, [.key field.1], field.2⟩

/-- The fields of an object read by the form; nothing else may be in it. -/
def readFields {α : Type} (f : Form α) (fields : Fields) : Checked α :=
  match f.extras fields with
  | [] => f.read fields
  | more => Checked.both (fun a _ => a) (f.read fields) (.error more : Checked Unit)

/-- An object read by the form; `cause` is the complaint about any other value. -/
def reader {α : Type} (f : Form α) (cause : Cause) : Reader α
  | .object fields => f.readFields fields
  | v => .complain cause v

end Form

def text : Reader String
  | .text s => .ok s
  | v => .complain .notText v

/-- A text that is not empty. -/
def filledText : Reader String
  | .text s => if s = "" then .complain .emptyText (.text s) else .ok s
  | v => .complain .notText v

def nullable {α : Type} (r : Reader α) : Reader (Option α)
  | .null => .ok none
  | v =>
    match r v with
    | .ok a => .ok (some a)
    | .error cs => .error cs

/-- The words for yes and no. -/
def flagWord? (s : String) : Option Bool :=
  let word := s.map Char.toLower
  if ["0", "off", "f", "false", "n", "no"].contains word then some false
  else if ["1", "on", "t", "true", "y", "yes"].contains word then some true
  else none

/-- Whether a double is a whole number of 64 bits. -/
def isWord (x : Float) : Bool := x.floor == x && x.abs < 9223372036854775808.0

/-- Whether a whole number has 64 bits. -/
def isWordInt (n : Int) : Bool := -9223372036854775808 ≤ n && n ≤ 9223372036854775807

/-- A flag: a Boolean, zero or one, or a word for either. -/
def flag : Reader Bool
  | .bool b => .ok b
  | .whole n =>
    if n = 0 then .ok false
    else if n = 1 then .ok true
    else .complain (if isWordInt n then .unclearFlag else .notFlag) (.whole n)
  | .real x =>
    if x == 0.0 then .ok false
    else if x == 1.0 then .ok true
    else .complain (if isWord x then .unclearFlag else .notFlag) (.real x)
  | .text s =>
    match flagWord? s with
    | some b => .ok b
    | none => .complain .unclearFlag (.text s)
  | v => .complain .notFlag v

def kind : Reader Classification.Kind
  | .text s =>
    match Classification.Kind.ofText? s with
    | some k => .ok k
    | none => .complain .notKind (.text s)
  | v => .complain .notKind v

/-- The items of a list, read from the place `i` on. -/
def itemsFrom {α : Type} (r : Reader α) (i : Nat) : List Value → Checked (List α)
  | [] => .ok []
  | v :: rest => .both (· :: ·) ((r v).under (.index i)) (itemsFrom r (i + 1) rest)

def listOf {α : Type} (r : Reader α) : Reader (List α)
  | .list items => itemsFrom r 0 items
  | v => .complain .notList v

end Admission.Wire
