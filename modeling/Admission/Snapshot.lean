import Admission.Classification

/-!
# Snapshots of a dialog

What a dialog shows: its path, what is known about it, and what follows from these two. A
snapshot says nothing about requests that are still under way.
-/
namespace Admission

/-- The visible state of a dialog. `warning` is what the path last turned out to be; it stays
while a newer answer is outstanding and goes with the path. -/
structure Snapshot where
  path : String
  classification : Assessment
  trusting : Bool
  warning : Assessment
  deriving DecidableEq, Repr

namespace Snapshot

def isPending (s : Snapshot) : Bool := s.classification == .pending

def owner? (s : Snapshot) : Option String := s.classification.owner?

/-- A path with forward slashes, as git reports it. -/
def forwardSlashes (s : String) : String := s.map fun c => if c = '\\' then '/' else c

/-- Whether the directory that another user owns is another one than the path. -/
def ownerDiffers (s : Snapshot) : Bool :=
  match s.owner? with
  | some owner => owner != forwardSlashes s.path
  | none => false

/-- Whether the last answer is shown as a warning. -/
def showWarning (s : Snapshot) : Bool :=
  s.path != "" && s.warning != .blank && !s.warning.isValid

/-- Whether the path may be added: it is there, and it turned out to be valid. -/
def canSubmit (s : Snapshot) : Bool := s.path != "" && s.classification.isValid

/-- What is known about the path, in a sentence. -/
def describe (s : Snapshot) : String :=
  match s.classification with
  | .settled .valid => s.path ++ " is a Git repository."
  | .settled .bare =>
    s.path ++ " appears to be a bare repository. Bare repositories are not currently supported."
  | .settled (.dubious owner) =>
    let place := if s.ownerDiffers then " at " ++ owner else ""
    "The Git repository" ++ place ++ " appears to be owned by another user on this machine. " ++
      "Adding untrusted repositories may automatically execute files in the repository."
  | .settled .missing => s.path ++ " does not appear to be a Git repository."
  | _ => s.path ++ " has not been validated."

theorem canSubmit_iff (s : Snapshot) :
    s.canSubmit = true ↔ s.path ≠ "" ∧ s.classification = .settled .valid := by
  simp [canSubmit, Assessment.isValid_iff]

theorem owner?_eq_some_iff (s : Snapshot) (o : String) :
    s.owner? = some o ↔ s.classification = .settled (.dubious o) :=
  s.classification.owner?_eq_some_iff o

end Snapshot

end Admission
