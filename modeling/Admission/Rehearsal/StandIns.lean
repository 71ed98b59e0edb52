import Admission.Desk.Run
import Admission.Registry.Storage

/-!
# Stand-ins

Services for rehearsals: what they answer is set beforehand, they can be made to wait, and nothing
outside is touched. The registry is only read.
-/
namespace Admission.Rehearsal

/-- What the classifier stand-in does with a call: it answers at once, or it keeps it waiting. -/
abbrev Cue := Option (Except Failure Classification)

/-- Cues by canonical path; the last one for a path counts. -/
abbrev Cues := List (String × Cue)

/-- A gate. Every new one has a number of its own. -/
structure Gate where
  number : Nat := 0
  shut : Bool := false
  deriving DecidableEq, Repr

/-- A new gate, which is shut. -/
def Gate.next (g : Gate) : Gate := ⟨g.number + 1, true⟩

/-- The gate, opened for good. -/
def Gate.opened (g : Gate) : Gate := { g with shut := false }

/-- The number of a gate that is shut. -/
def Gate.barrier? (g : Gate) : Option Nat := if g.shut then some g.number else none

/-- The settings of the trust store stand-in. -/
structure TrustScript where
  failure : Option Failure := none
  /-- The cues that take effect when a directory is trusted. -/
  cues : Cues := []

/-- The settings of the registrar stand-in. -/
structure RegistrarScript where
  failure : Option Failure := none
  addsNothing : Bool := false

structure StandIns where
  cues : Cues := []
  /-- The cue for a path that has none of its own. -/
  otherwise : Cue := none
  trust : TrustScript := {}
  registrar : RegistrarScript := {}
  trustGate : Gate := {}
  registrarGate : Gate := {}
  registry : Registry

namespace StandIns

def cue (w : StandIns) (path : String) : Cue :=
  match w.cues.reverse.find? (·.1 == path) with
  | some (_, cue) => cue
  | none => w.otherwise

/-- The stand-ins with more cues. -/
def prompt (w : StandIns) (more : Cues) : StandIns := { w with cues := w.cues ++ more }

/-- The trust store: it fails as set, or gives the cues set for it. -/
def runTrust (_ : String) (w : StandIns) : Except Failure Unit × StandIns :=
  match w.trust.failure with
  | some f => (.error f, w)
  | none => (.ok (), w.prompt w.trust.cues)

/-- The registrar: it fails as set, adds nothing, or gives the paths back. -/
def runRegistrar (paths : List String) (w : StandIns) :
    Except Failure (List String) × StandIns :=
  match w.registrar.failure with
  | some f => (.error f, w)
  | none => (.ok (if w.registrar.addsNothing then [] else paths), w)

def services : Services StandIns where
  classify path w := (w.cue path, w)
  trustGate w := w.trustGate.barrier?
  trust := runTrust
  registerGate w := w.registrarGate.barrier?
  register := runRegistrar
  registered w := w.registry.repositories

end StandIns

/-- A new gate in front of a service. -/
def hold (service : Desk.Gated) (d : Desk StandIns) : Desk StandIns :=
  d.alter fun w =>
    match service with
    | .trustStore => { w with trustGate := w.trustGate.next }
    | .registrar => { w with registrarGate := w.registrarGate.next }

/-- The gate in front of a service opened. -/
def release (service : Desk.Gated) (d : Desk StandIns) : Desk StandIns :=
  match service with
  | .trustStore =>
    (d.alter fun w => { w with trustGate := w.trustGate.opened }).openGate service
      d.world.trustGate.number
  | .registrar =>
    (d.alter fun w => { w with registrarGate := w.registrarGate.opened }).openGate service
      d.world.registrarGate.number

end Admission.Rehearsal
