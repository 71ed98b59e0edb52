/-!
# Classifications

What is known about a directory: nothing usable, a repository of another owner, a bare
repository, or a usable one; and, for a path under review, that nothing is known yet.
-/
namespace Admission

/-- What a path turned out to be. `dubious` names the directory that another user owns. -/
inductive Classification where
  | missing
  | dubious (owner : String)
  | bare
  | valid
  deriving DecidableEq, Repr

namespace Classification

inductive Kind where
  | missing
  | dubious
  | bare
  | valid
  deriving DecidableEq, Repr

/-- The tags in the order in which messages list them. -/
def Kind.all : List Kind := [.missing, .dubious, .bare, .valid]

def Kind.text : Kind → String
  | .missing => "missing"
  | .dubious => "unsafe"
  | .bare => "bare"
  | .valid => "valid"

def Kind.ofText? (s : String) : Option Kind := Kind.all.find? (·.text == s)

theorem Kind.ofText?_text (k : Kind) : Kind.ofText? k.text = some k := by cases k <;> decide

theorem Kind.text_injective {j k : Kind} (h : j.text = k.text) : j = k := by
  have := congrArg Kind.ofText? h
  simpa [Kind.ofText?_text] using this

def kind : Classification → Kind
  | .missing => .missing
  | .dubious _ => .dubious
  | .bare => .bare
  | .valid => .valid

/-- The directory that another user owns. -/
def owner? : Classification → Option String
  | .dubious owner => some owner
  | _ => none

def isValid : Classification → Bool
  | .valid => true
  | _ => false

def isDubious : Classification → Bool
  | .dubious _ => true
  | _ => false

/-- Why a tag with an owner makes no classification. -/
inductive TagError where
  | ownerRequired
  | unknownKind (tag : String)
  deriving DecidableEq, Repr

def TagError.message : TagError → String
  | .ownerRequired => "An 'unsafe' classification requires an owner path."
  | .unknownKind tag =>
    "Unknown classification '" ++ tag ++ "'. Expected one of: " ++
      ", ".intercalate (Kind.all.map Kind.text)

/-- The classification of a tag; a dubious one needs an owner, and an empty one is none. -/
def ofKind (k : Kind) (owner : Option String) : Except TagError Classification :=
  match k, owner with
  | .missing, _ => .ok .missing
  | .bare, _ => .ok .bare
  | .valid, _ => .ok .valid
  | .dubious, some o => if o = "" then .error .ownerRequired else .ok (.dubious o)
  | .dubious, none => .error .ownerRequired

def ofTag (tag : String) (owner : Option String) : Except TagError Classification :=
  match Kind.ofText? tag with
  | some k => ofKind k owner
  | none => .error (.unknownKind tag)

/-- A classification is read back from its tag and owner, unless that is empty. -/
theorem ofKind_kind {c : Classification} (h : c ≠ .dubious "") :
    ofKind c.kind c.owner? = .ok c := by
  cases c with
  | dubious o =>
    have ho : o ≠ "" := fun he => h (by rw [he])
    simp [ofKind, kind, owner?, ho]
  | _ => rfl

end Classification

/-- What is known about a path under review: nothing as long as there is no path, that an answer
is outstanding, or what it turned out to be. -/
inductive Assessment where
  | blank
  | pending
  | settled (c : Classification)
  deriving DecidableEq, Repr

namespace Assessment

def settled? : Assessment → Option Classification
  | .settled c => some c
  | _ => none

def isValid (a : Assessment) : Bool := a.settled?.any Classification.isValid

def isDubious (a : Assessment) : Bool := a.settled?.any Classification.isDubious

def owner? (a : Assessment) : Option String := a.settled?.bind Classification.owner?

theorem isValid_iff (a : Assessment) : a.isValid = true ↔ a = .settled .valid := by
  cases a with
  | settled c => cases c <;> simp [isValid, settled?, Classification.isValid]
  | _ => simp [isValid, settled?]

/-- Only a settled assessment shows an owner. -/
theorem owner?_eq_some_iff (a : Assessment) (o : String) :
    a.owner? = some o ↔ a = .settled (.dubious o) := by
  cases a with
  | settled c => cases c <;> simp [owner?, settled?, Classification.owner?]
  | _ => simp [owner?, settled?]

end Assessment

end Admission
