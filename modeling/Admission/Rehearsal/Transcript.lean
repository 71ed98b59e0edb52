import Admission.Desk.Run

/-!
# Transcripts

A transcript names the requests and errands of a desk and tells of each of them once that it has
ended, in the order of the names. A request that trust called for is named when it is first seen.
-/
namespace Admission.Rehearsal

variable {σ : Type}

/-- Something that runs on a desk and ends. -/
inductive Work where
  | request (r : Nat)
  | errand (e : Nat)
  deriving DecidableEq, Repr

/-- How a piece of work ended: a request by whether its answer counted, an errand by its reply. -/
inductive Outcome where
  | applied (counted : Bool)
  | gave (reply : Reply)
  | failed (e : Error)
  | cancelled
  deriving DecidableEq, Repr

/-- How a piece of work ended, if it has. -/
def Work.outcome? (d : Desk σ) : Work → Option Outcome
  | .request r =>
    match d.requests[r]?.map Request.stage with
    | some (.ended (.answered _ applied)) => some (.applied applied)
    | some (.ended (.failed e)) => some (.failed e)
    | some (.ended .cancelled) => some .cancelled
    | _ => none
  | .errand e =>
    match d.errands[e]?.map Errand.progress with
    | some (.ended (.gave reply)) => some (.gave reply)
    | some (.ended (.failed e)) => some (.failed e)
    | some (.ended .cancelled) => some .cancelled
    | _ => none

/-- The names given so far, and the works whose end has not been told yet. -/
structure Transcript where
  names : List (String × Work) := []
  untold : List (String × Work) := []

namespace Transcript

def name (t : Transcript) (label : String) (w : Work) : Transcript :=
  { names := t.names ++ [(label, w)], untold := t.untold ++ [(label, w)] }

def work? (t : Transcript) (label : String) : Option Work :=
  (t.names.find? (·.1 == label)).map (·.2)

def label? (t : Transcript) (w : Work) : Option String :=
  (t.names.find? (·.2 == w)).map (·.1)

/-- The works that have ended since the last report, and the transcript after this one. -/
def report (t : Transcript) (d : Desk σ) : List (String × Outcome) × Transcript :=
  (t.untold.filterMap fun (label, w) => (w.outcome? d).map fun o => (label, o),
    { t with untold := t.untold.filter fun (_, w) => (w.outcome? d).isNone })

/-- The request that the last trust of a dialog called for. -/
def revalidation? (d : Desk σ) (i : Nat) : Option Work :=
  (d.dialogs[i]?.bind Dialog.revalidation).bind fun n =>
    (d.requests.findIdx? fun q => q.dialog == i && q.number == n).map .request

/-- A name for the request that the last trust of a dialog called for, unless it has one. -/
def nameRevalidation (t : Transcript) (d : Desk σ) (i : Nat) (label : String) : Transcript :=
  match revalidation? d i with
  | some w => if (t.label? w).isSome then t else t.name label w
  | none => t

/-- Cancels the work with a name. Says whether there was anything to cancel. -/
def cancel (t : Transcript) (d : Desk σ) (label : String) : Desk σ × Bool :=
  match t.work? label with
  | some (.request r) => d.cancelRequest r
  | some (.errand e) => d.cancelErrand e
  | none => (d, false)

end Transcript

end Admission.Rehearsal
