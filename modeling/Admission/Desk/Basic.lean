import Admission.Desk.Timers
import Admission.Dialog
import Admission.Failure

/-!
# The desk

The desk is where dialogs are worked on: their requests, the errands run for them, the calls of
the classifier, and the jobs that wait to be run. Jobs run one at a time, first in first out; what
a job sets off waits in line behind it. Nothing here says how a job is run.
-/
namespace Admission

/-- How something that a request or an errand waits for stands. -/
inductive Signal where
  | waiting
  | given
  | withdrawn
  deriving DecidableEq, Repr

/-- How a request ended: with an answer that counted or came too late, with an error, or
cancelled. -/
inductive Verdict where
  | answered (answer : Classification) (applied : Bool)
  | failed (e : Error)
  | cancelled
  deriving DecidableEq, Repr

/-- How far the inspection that runs under a time limit has come. -/
inductive Probe where
  | idle
  /-- It is to call the classifier for this canonical path. -/
  | ready (path : String)
  | calling (call : Nat)
  | found (outcome : Except Failure Classification)
  | stopped

/-- How far a request has come. Without a time limit it calls the classifier itself; with one it
waits for its probe or for the limit, and then, if the probe has not ended, for the probe to be
withdrawn: `late` if the limit was the cause. -/
inductive Stage where
  | created
  | calling (call : Nat)
  | racing (signal : Signal)
  | withdrawing (late : Bool) (signal : Signal)
  | ended (verdict : Verdict)

/-- A request of a dialog to classify a path. `stopping` says that it is to be cancelled when it
runs next, `halting` says so of its probe, and `tracked` that its dialog still counts it. -/
structure Request where
  dialog : Nat
  number : Nat
  path : String
  stage : Stage := .created
  stopping : Bool := false
  probe : Probe := .idle
  halting : Bool := false
  tracked : Bool := true

/-- What is to be done for a dialog. The operations that name no dialog work on the current one. -/
inductive Operation where
  | trust (dialog : Nat)
  | submit (dialog : Nat)
  | openDialog (path : String) (wait : Bool)
  | changePath (path : String) (wait : Bool)
  | choosePath (selected : Option String) (wait : Bool)
  /-- With `strict`, a path that no other user owns is an error. -/
  | trustCurrent (wait strict : Bool)
  | submitCurrent
  | look
  | dismiss
  | repositories
  | nothing
  deriving DecidableEq, Repr

inductive Reply where
  | trusted (granted : Bool)
  | added (path : Option String)
  | shown (snapshot : Snapshot)
  | trustShown (granted : Bool) (snapshot : Snapshot)
  | dismissed (wasOpen : Bool)
  | listed (paths : List String)
  | nothing
  deriving DecidableEq, Repr

inductive Ending where
  | gave (reply : Reply)
  | failed (e : Error)
  | cancelled
  deriving DecidableEq, Repr

/-- How far an errand has come: not started, in front of a service's gate, waiting for a request, or
at its end. -/
inductive Progress where
  | created
  | trusting (dialog : Nat) (owner : String) (gate : Nat) (signal : Signal)
  | registering (dialog : Nat) (path : String) (gate : Nat) (signal : Signal)
  | watching (dialog request : Nat) (signal : Signal)
  | ended (ending : Ending)
  deriving DecidableEq, Repr

structure Errand where
  operation : Operation
  progress : Progress := .created
  stopping : Bool := false
  deriving DecidableEq, Repr

/-- What waits to be run. -/
inductive Job where
  | request (r : Nat)
  | probe (r : Nat)
  | probeEnded (r : Nat)
  | requestEnded (r : Nat)
  /-- A request's time limit is over. -/
  | limit (r : Nat)
  | errand (e : Nat)
  deriving DecidableEq, Repr

inductive CallState where
  | waiting
  | answered (outcome : Except Failure Classification)
  | withdrawn

/-- A call of the classifier for a canonical path, made for a request. -/
structure Call where
  request : Nat
  path : String
  state : CallState

/-- A call of a service. -/
inductive Entry where
  | classify (request : Nat) (path : String)
  | trust (dialog : Nat) (owner : String)
  | register (dialog : Nat) (paths : List String)
  deriving DecidableEq, Repr

/-- The jobs of the pass under way, and those of the next. Timers that are due join between two
passes, behind the jobs that wait already. -/
structure Agenda where
  now : List Job := []
  next : List Job := []

/-- The desk. `world` is the state of the services, `current` the dialog that is shown, and `log`
the service calls made so far. -/
structure Desk (σ : Type) where
  world : σ
  dialogs : List Dialog := []
  current : Option Nat := none
  requests : List Request := []
  errands : List Errand := []
  calls : List Call := []
  agenda : Agenda := {}
  timers : Timers := []
  clock : Float := 0.0
  log : List Entry := []

/-- The services of a desk. A classifier call is answered at once or kept waiting; a call of another
service may first have to pass a gate that is shut. -/
structure Services (σ : Type) where
  classify : String → σ → Option (Except Failure Classification) × σ
  trustGate : σ → Option Nat
  trust : String → σ → Except Failure Unit × σ
  registerGate : σ → Option Nat
  register : List String → σ → Except Failure (List String) × σ
  registered : σ → List String

/-- What a desk works with: its services, the text that names the home directory, and the time limit
of an inspection. -/
structure Setting (σ : Type) extends Services σ where
  home : String
  limit : Option Float := none

def Request.isEnded (r : Request) : Bool :=
  match r.stage with
  | .ended _ => true
  | _ => false

def Errand.isEnded (e : Errand) : Bool :=
  match e.progress with
  | .ended _ => true
  | _ => false

namespace Desk

variable {σ : Type}

/-- A job at the end of the line. -/
def enqueue (d : Desk σ) (j : Job) : Desk σ :=
  { d with agenda := { d.agenda with next := d.agenda.next ++ [j] } }

/-- The desk with a dialog changed. -/
def onDialog (d : Desk σ) (i : Nat) (f : Dialog → Dialog) : Desk σ :=
  { d with dialogs := d.dialogs.modify i f }

def onRequest (d : Desk σ) (i : Nat) (f : Request → Request) : Desk σ :=
  { d with requests := d.requests.modify i f }

def onErrand (d : Desk σ) (i : Nat) (f : Errand → Errand) : Desk σ :=
  { d with errands := d.errands.modify i f }

def onCall (d : Desk σ) (i : Nat) (f : Call → Call) : Desk σ :=
  { d with calls := d.calls.modify i f }

def note (d : Desk σ) (e : Entry) : Desk σ := { d with log := d.log ++ [e] }

def snapshot? (d : Desk σ) (i : Nat) : Option Snapshot := d.dialogs[i]?.map Dialog.snapshot

/-- How many requests a dialog counts as outstanding. -/
def inflight (d : Desk σ) (i : Nat) : Nat :=
  d.requests.countP fun r => r.dialog == i && r.tracked

end Desk

end Admission
