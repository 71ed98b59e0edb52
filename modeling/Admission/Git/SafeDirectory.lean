import Admission.Git.Host
import Admission.Text.Blank

/-!
# Trusted directories

Git keeps the directories that its user trusts in the global configuration. A directory is added
unless it is listed already, and every failure of the system counts as one of the trust store.
-/
namespace Admission.Git

/-- The command that lists the trusted directories. -/
def listing (git : String) : List String :=
  [git, "config", "--global", "--get-all", "safe.directory"]

/-- The command that trusts a directory. -/
def addition (git path : String) : List String :=
  [git, "config", "--global", "--add", "safe.directory", path]

/-- A run for the trust store. -/
def storeRun {σ : Type} (host : Host σ) (git : String) (words : List String) (s : σ) :
    Except Failure Exit × σ :=
  match host.run words s with
  | (.ok e, s) => (.ok e, s)
  | (.error f, s) =>
    if f.kind.isSystem then
      (.error ⟨.trustStore, "Could not run " ++ git ++ ": " ++ f.message⟩, s)
    else (.error f, s)

/-- The failure of a run, in its own words or, if it has none, in others. -/
def storeFailure (e : Exit) (otherwise : String) : Failure :=
  let words := Text.strip e.errors
  ⟨.trustStore, if words = "" then otherwise else words⟩

/-- The directories in a listing: its lines without outer blanks, except blank ones. -/
def listed (output : String) : List String :=
  ((Text.lines output).map Text.strip).filter (· ≠ "")

/-- The directories that the user trusts. Exit status 1 says that there are none. -/
def trustedPaths {σ : Type} (host : Host σ) (git : String) (s : σ) :
    Except Failure (List String) × σ :=
  match storeRun host git (listing git) s with
  | (.error f, s) => (.error f, s)
  | (.ok e, s) =>
    if e.status = 1 then (.ok [], s)
    else if e.status = 0 then (.ok (listed e.output), s)
    else (.error (storeFailure e "git config --get-all safe.directory failed"), s)

def trust {σ : Type} (host : Host σ) (git path : String) (s : σ) : Except Failure Unit × σ :=
  match trustedPaths host git s with
  | (.error f, s) => (.error f, s)
  | (.ok paths, s) =>
    if paths.contains path then (.ok (), s)
    else
      match storeRun host git (addition git path) s with
      | (.error f, s) => (.error f, s)
      | (.ok e, s) =>
        if e.status = 0 then (.ok (), s)
        else
          (.error (storeFailure e ("git config --add safe.directory " ++ path ++ " failed")), s)

end Admission.Git
