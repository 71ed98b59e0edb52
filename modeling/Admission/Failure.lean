import Admission.Snapshot
import Admission.Text.Quoted

/-!
# Failures and errors

A failure comes from outside: from git, from the trust store, from the file system. An error is
what an operation ends in; one of its causes is a failure that nobody absorbed.
-/
namespace Admission

/-- What failed outside. -/
inductive FailureKind where
  | trustStore
  | system
  | permission
  | notFound
  | timeout
  | isDirectory
  | fileExists
  | runtime
  | value
  deriving DecidableEq, Repr

/-- Whether the operating system is to blame. -/
def FailureKind.isSystem : FailureKind → Bool
  | .trustStore | .runtime | .value => false
  | _ => true

structure Failure where
  kind : FailureKind
  message : String
  deriving DecidableEq, Repr

/-- What an operation ends in when it gives no result. -/
inductive Error where
  /-- The path needs the home directory, and that is unknown. -/
  | homeUnknown
  | notAdmissible (snapshot : Snapshot)
  | noDialog
  /-- The dialog that a reply was to show has been closed meanwhile. -/
  | dialogGone
  /-- Trust was asked for a path that no other user owns. -/
  | notDubious (snapshot : Snapshot)
  /-- A snapshot whose warning is itself outstanding has no wire form. -/
  | warningPending
  | failure (f : Failure)
  deriving DecidableEq, Repr

/-- What is known about a path, in one word. -/
def Assessment.word : Assessment → String
  | .blank => "None"
  | .pending => "PENDING"
  | .settled c => c.kind.text

def Error.message : Error → String
  | .homeUnknown => "Could not determine home directory."
  | .notAdmissible s =>
    "Cannot add " ++ Text.quoted s.path ++ ": classification is " ++ s.classification.word ++ "."
  | .noDialog => "No add-repository dialog is open."
  | .dialogGone => "'NoneType' object has no attribute 'get_snapshot'"
  | .notDubious _ => "Only repositories owned by another user can be trusted."
  | .warningPending => "'Pending' object has no attribute 'kind'"
  | .failure f => f.message

end Admission
