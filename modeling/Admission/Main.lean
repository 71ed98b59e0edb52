import Admission.CommandLine.Session
import Admission.Premises
import Admission.Settings

/-!
# The command line tool

The outer layer: the environment, the registry's file and the terminal. It launches no other
program, so git counts as not installed here: no path is found to be a repository, nothing is
added, and only the list of repositories is read from outside.
-/
namespace Admission.Main

/-- The variables that the settings look at. -/
def variableNames : List String :=
  ["HOME", "APPDATA", "REPO_INTAKE_GIT", "REPO_INTAKE_CLASSIFY_TIMEOUT",
    "REPO_INTAKE_USER_CONFIG_PATH"]

/-- The environment, as far as it is looked at. -/
def environment : IO Environment := do
  let values ← variableNames.mapM fun name => do return (name, ← IO.getEnv name)
  return fun name => (values.find? (·.1 == name)).bind (·.2)

/-- A host that cannot run git. -/
def host : Git.Host Unit where
  isDirectory _ _ := .ok true
  run words s := (.error ⟨.notFound, "No such file or directory: " ++ words.headD ""⟩, s)

def registry (env : Environment) : IO (Option Registry) := do
  match env.registryLocation? false with
  | none => return none
  | some location =>
    let storage ← try pure (Storage.file (← IO.FS.readBinFile location.toText))
      catch _ => pure Storage.absent
    return some ⟨location, storage⟩

/-- Runs the tool and gives its exit status. -/
def run (line : List String) : IO UInt32 := do
  let env ← environment
  let stdin ← IO.getStdin
  let stdout ← IO.getStdout
  let terminal : CommandLine.Terminal :=
    { inputIsTerminal := ← stdin.isTty, outputIsTerminal := ← stdout.isTty }
  let setting : Setting (Premises Unit) :=
    { Premises.services host env.gitExecutable with home := env.home, limit := env.timeLimit }
  match ← registry env, CommandLine.readTool line with
  | none, .ok .list =>
    IO.eprintln Error.homeUnknown.message
    return 1
  | found, _ =>
    let registry := found.getD ⟨Path.Location.ofText "", .absent⟩
    let (run, finish) := CommandLine.runTool setting terminal line ⟨(), registry, Disk.sound⟩
    IO.print run.output
    IO.eprint run.errors
    match finish with
    | .exit status => return status.toUInt32
    | .failed e =>
      IO.eprintln e.message
      return 1
    | .hung => return 1

end Admission.Main

def main (line : List String) : IO UInt32 := Admission.Main.run line
