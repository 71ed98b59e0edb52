import Admission.Git.Host
import Admission.Git.Ownership
import Admission.Path.Location
import Admission.Text.Blank

/-!
# Inspecting a path with git

A path is a repository if git says so. A path that is no directory or that may not be looked at
is missing, and so is one that the system does not let git run for. A failure that is not the
system's is passed on.
-/
namespace Admission.Git

/-- The command that inspects a path. -/
def inspection (git path : String) : List String :=
  [git, "-C", path, "rev-parse", "--is-bare-repository"]

/-- What an exit says about the path. -/
def Exit.classification (e : Exit) : Classification :=
  if e.status = 0 then
    if Text.strip e.output = "true" then .bare else .valid
  else
    match dubiousOwner? e.errors with
    | some owner => .dubious owner
    | none => .missing

/-- A failure of the system leaves the path missing. -/
def absorb (f : Failure) : Except Failure Classification :=
  if f.kind.isSystem then .ok .missing else .error f

/-- What a path is. Git runs at most once, and only for a directory. -/
def classify {σ : Type} (host : Host σ) (git path : String) (s : σ) :
    Except Failure Classification × σ :=
  match host.isDirectory (Path.locationText path) s with
  | .error f => (absorb f, s)
  | .ok false => (.ok .missing, s)
  | .ok true =>
    match host.run (inspection git path) s with
    | (.ok e, s) => (.ok e.classification, s)
    | (.error f, s) => (absorb f, s)

end Admission.Git
