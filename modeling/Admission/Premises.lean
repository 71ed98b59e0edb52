import Admission.Desk.Run
import Admission.Git.Inspection
import Admission.Git.SafeDirectory
import Admission.Registry.Storage

/-!
# Premises

Git and the registry as the services of a desk. Nothing waits here: git answers every call at once,
and no gate is ever shut.
-/
namespace Admission

/-- A host for git, the registry of its user, and the disk that holds it. -/
structure Premises (σ : Type) where
  host : σ
  registry : Registry
  disk : Disk

namespace Premises

variable {σ : Type}

/-- The classifier: git looks at the path. -/
def classify (p : Premises σ) (host : Git.Host σ) (git path : String) :
    Except Failure Classification × Premises σ :=
  let (outcome, state) := Git.classify host git path p.host
  (outcome, { p with host := state })

/-- The trust store: git's global configuration. -/
def trust (p : Premises σ) (host : Git.Host σ) (git path : String) :
    Except Failure Unit × Premises σ :=
  let (outcome, state) := Git.trust host git path p.host
  (outcome, { p with host := state })

/-- The registrar: the paths are put on the list, and given back if the list could be saved. -/
def register (paths : List String) (p : Premises σ) :
    Except Failure (List String) × Premises σ :=
  let (outcome, registry) := p.registry.add paths (p.disk 0)
  (outcome.map fun _ => paths, { p with registry, disk := p.disk.next })

/-- The services. -/
def services (host : Git.Host σ) (git : String) : Services (Premises σ) where
  classify path p :=
    let (outcome, p) := p.classify host git path
    (some outcome, p)
  trustGate _ := none
  trust path p := p.trust host git path
  registerGate _ := none
  register := register
  registered p := p.registry.repositories

end Premises

end Admission
