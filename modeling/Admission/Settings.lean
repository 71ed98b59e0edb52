import Admission.Path.Home
import Admission.Text.Numeral
import Admission.Text.Blank

/-!
# Settings

What the environment sets: the git executable, the time limit for an inspection, and the place of
the registry. A blank variable counts as unset.
-/
namespace Admission

abbrev Environment := String → Option String

namespace Environment

/-- The value of a variable without outer blanks; the empty text if it is unset. -/
def trimmed (env : Environment) (name : String) : String := Text.strip ((env name).getD "")

/-- The text that names the home directory. -/
def home (env : Environment) : String := (env "HOME").getD ""

def gitExecutable (env : Environment) : String :=
  let git := env.trimmed "REPO_INTAKE_GIT"
  if git = "" then "git" else git

/-- The time limit for an inspection in seconds, a positive number, if one is set. -/
def timeLimit (env : Environment) : Option Float :=
  match Text.readFloat? (env.trimmed "REPO_INTAKE_CLASSIFY_TIMEOUT") with
  | some x => if x > 0.0 then some x else none
  | none => none

/-- The directory for settings on Windows: where the system says, else below the home directory.
The home directory has to be known either way. -/
def roamingDirectory? (env : Environment) : Option Path.Location :=
  (Path.homeLocation? env.home).map fun home =>
    match env "APPDATA" with
    | some place => Path.Location.ofText place
    | none => (home.child "AppData").child "Roaming"

def settingsDirectory? (env : Environment) (windows : Bool) : Option Path.Location :=
  if windows then env.roamingDirectory?
  else (Path.homeLocation? env.home).map (·.child ".config")

/-- The place of the registry, or `none` if it needs the home directory and that is unknown. -/
def registryLocation? (env : Environment) (windows : Bool) : Option Path.Location :=
  let place := env.trimmed "REPO_INTAKE_USER_CONFIG_PATH"
  if place = "" then
    (env.settingsDirectory? windows).map fun base =>
      (base.child "repo-intake").child "config.json"
  else some (Path.Location.ofText place)

end Environment

end Admission
