import Admission.Json.Value

/-!
# Complaints about wire values

What is wrong with a value that came over the wire, where in it, and which part of it is meant.
-/
namespace Admission.Wire

open Json (Value Fields)

/-- One step from a value to a part of it. -/
inductive Step where
  | key (name : String)
  | index (i : Nat)
  deriving DecidableEq, Repr

inductive Cause where
  | missing
  | extra
  | notText
  | emptyText
  | unclearFlag
  | notFlag
  | notKind
  | notList
  | notRecord (name : String)
  | notFields
  deriving DecidableEq, Repr

def Cause.code : Cause → String
  | .missing => "missing"
  | .extra => "extra_forbidden"
  | .notText => "string_type"
  | .emptyText => "string_too_short"
  | .unclearFlag => "bool_parsing"
  | .notFlag => "bool_type"
  | .notKind => "literal_error"
  | .notList => "list_type"
  | .notRecord _ => "model_type"
  | .notFields => "model_attributes_type"

def Cause.message : Cause → String
  | .missing => "Field required"
  | .extra => "Extra inputs are not permitted"
  | .notText => "Input should be a valid string"
  | .emptyText => "String should have at least 1 character"
  | .unclearFlag => "Input should be a valid boolean, unable to interpret input"
  | .notFlag => "Input should be a valid boolean"
  | .notKind => "Input should be 'missing', 'unsafe', 'bare' or 'valid'"
  | .notList => "Input should be a valid list"
  | .notRecord name => "Input should be a valid dictionary or instance of " ++ name
  | .notFields => "Input should be a valid dictionary or object to extract fields from"

/-- One complaint: the cause, the way to the part, and the part itself. For a missing field the
part is the object that lacks it. -/
structure Complaint where
  cause : Cause
  path : List Step
  input : Value
  deriving Repr

/-- The complaint seen from one step further out. -/
def Complaint.under (c : Complaint) (s : Step) : Complaint := { c with path := s :: c.path }

/-- What a value reads as, or every complaint about it, in order. -/
abbrev Checked (α : Type) := Except (List Complaint) α

namespace Checked

/-- One complaint about a value as a whole. -/
def complain {α : Type} (cause : Cause) (input : Value) : Checked α :=
  .error [⟨cause, [], input⟩]

/-- A reading of a part, with its complaints placed there. -/
def under {α : Type} (s : Step) : Checked α → Checked α
  | .ok a => .ok a
  | .error cs => .error (cs.map (·.under s))

/-- Two readings together; the complaints of both count. -/
def both {α β γ : Type} (f : α → β → γ) : Checked α → Checked β → Checked γ
  | .ok a, .ok b => .ok (f a b)
  | .error cs, .ok _ => .error cs
  | .ok _, .error ds => .error ds
  | .error cs, .error ds => .error (cs ++ ds)

end Checked

end Admission.Wire
