import Admission.Desk.Errand

/-!
# Running the desk

The jobs are run in passes: all that wait, then those they set off. Timers that are due join
between two passes. The desk is at rest when no job waits and no timer is due; calls may still
wait for a reply and errands in front of a gate then. What comes from outside — edits, replies,
the clock — is at the end of the module.
-/
namespace Admission
namespace Desk

variable {σ : Type}

def run (s : Setting σ) (d : Desk σ) : Job → Desk σ
  | .request r => runRequest s d r
  | .probe r => runProbe s d r
  | .probeEnded r => d.tellProbeEnded r
  | .requestEnded r => d.tellRequestEnded r
  | .limit r => d.tellLimit r
  | .errand e => runErrand s d e

/-- Whether a timer has nobody to tell: its request has ended. -/
def isIdle (d : Desk σ) (t : Timer) : Bool := d.requests[t.request]?.all Request.isEnded

/-- The timers without the idle ones at the front. -/
def liveTimers (d : Desk σ) : Timers :=
  (d.timers.popWhile d.isIdle d.timers.length).2

/-- The next pass: the jobs that wait, then the limits that are due; `none` if there are none. -/
def nextPass (d : Desk σ) : Option (Desk σ) :=
  let (due, timers) := d.liveTimers.takeDue d.clock
  match d.agenda.next ++ due.map fun t => .limit t.request with
  | [] => none
  | jobs => some { d with agenda := ⟨jobs, []⟩, timers := timers }

/-- One step: the next job, or the next pass if this one is over; `none` if the desk is at
rest. -/
def step (s : Setting σ) (d : Desk σ) : Option (Desk σ) :=
  match d.agenda.now with
  | j :: rest =>
    let d : Desk σ := { d with agenda := { d.agenda with now := rest } }
    some (run s d j)
  | [] => d.nextPass

def steps (s : Setting σ) : Nat → Desk σ → Desk σ
  | 0, d => d
  | n + 1, d =>
    match d.step s with
    | some d => steps s n d
    | none => d

/-- A bound on the steps that a desk can take before it rests: each request and each errand runs a
few times, and an errand makes at most one request. -/
def stepBound (d : Desk σ) : Nat :=
  64 * (d.requests.length + d.errands.length + d.timers.length + d.agenda.now.length +
    d.agenda.next.length + 1)

def settle (s : Setting σ) (d : Desk σ) : Desk σ := steps s d.stepBound d

/-- A new errand, which waits in line. -/
def spawn (d : Desk σ) (op : Operation) : Desk σ × Nat :=
  let more : Desk σ := { d with errands := d.errands ++ [{ operation := op }] }
  (more.enqueue (.errand d.errands.length), d.errands.length)

/-- A new errand, which starts at once. -/
def perform (s : Setting σ) (d : Desk σ) (op : Operation) : Desk σ × Nat :=
  let more : Desk σ := { d with errands := d.errands ++ [{ operation := op }] }
  (runErrand s more d.errands.length, d.errands.length)

/-- The places of the calls for a path that wait for an answer, oldest first. -/
def openCalls (d : Desk σ) (path : String) : List Nat :=
  (List.range d.calls.length).filter fun c =>
    match d.calls[c]? with
    | some ⟨_, p, .waiting⟩ => p == path
    | _ => false

/-- The job that goes on when a call is answered: its request, or the probe of it. -/
def waiter (d : Desk σ) (c : Nat) : Option Job :=
  d.calls[c]?.map fun call =>
    match d.requests[call.request]?.map Request.stage with
    | some (.calling _) => .request call.request
    | _ => .probe call.request

/-- Answers a call that waits; the job that waits for it goes on. Says whether it waited. -/
def answer (d : Desk σ) (c : Nat) (outcome : Except Failure Classification) : Desk σ × Bool :=
  match d.calls[c]? with
  | some ⟨_, _, .waiting⟩ =>
    let answered := d.onCall c fun call => { call with state := .answered outcome }
    match d.waiter c with
    | some j => (answered.enqueue j, true)
    | none => (answered, true)
  | _ => (d, false)

/-- Answers the oldest open call for a path, or the newest. Says whether there was one. -/
def reply (d : Desk σ) (path : String) (outcome : Except Failure Classification)
    (newest : Bool) : Desk σ × Bool :=
  let calls := d.openCalls path
  match if newest then calls.getLast? else calls.head? with
  | none => (d, false)
  | some c => d.answer c outcome

def advance (d : Desk σ) (seconds : Float) : Desk σ := { d with clock := d.clock + seconds }

inductive Gated where
  | trustStore
  | registrar
  deriving DecidableEq, Repr

/-- The errand's progress once a gate is open, if it waits in front of it. -/
def passing (service : Gated) (gate : Nat) : Progress → Option Progress
  | .trusting i owner g .waiting =>
    if service = .trustStore ∧ g = gate then some (.trusting i owner g .given) else none
  | .registering i path g .waiting =>
    if service = .registrar ∧ g = gate then some (.registering i path g .given) else none
  | _ => none

/-- A gate opened: the errands in front of it go on, in order. -/
def openGate (d : Desk σ) (service : Gated) (gate : Nat) : Desk σ :=
  (List.range d.errands.length).foldl
    (fun d e =>
      match d.errands[e]?.bind fun x => passing service gate x.progress with
      | some p => (d.await e p).enqueue (.errand e)
      | none => d)
    d

def alter (d : Desk σ) (f : σ → σ) : Desk σ := { d with world := f d.world }

end Desk
end Admission
