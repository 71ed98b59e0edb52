import Admission.Desk.Basic

/-!
# Requests

A request finds the canonical path, asks the classifier, and offers the answer to its dialog.
Under a time limit the classifier is asked by a probe of its own, so that the request can give it
up: the request then waits until the probe has stopped, and only after that counts the path as
missing. Whatever the request is cancelled by reaches it at its next run.
-/
namespace Admission
namespace Desk

variable {σ : Type}

/-- The request that an edit of a dialog calls for. `dialog` is the dialog before the edit. -/
def ask (d : Desk σ) (i : Nat) (dialog : Dialog) (path : String) : Desk σ × Option Nat :=
  if dialog.asks path then
    let r := d.requests.length
    let request : Request := { dialog := i, number := dialog.issued + 1, path := path }
    ({ d with requests := d.requests ++ [request] }.enqueue (.request r), some r)
  else (d, none)

/-- An edit of a dialog's path, and the request it calls for. -/
def edit (d : Desk σ) (i : Nat) (path : String) : Desk σ × Option Nat :=
  match d.dialogs[i]? with
  | none => (d, none)
  | some dialog =>
    let (d, r) := d.ask i dialog path
    (d.onDialog i (·.edit path), r)

/-- What a user does to the path of a dialog, and the request it calls for. -/
def amend (d : Desk σ) (i : Nat) (e : Edit) : Desk σ × Option Nat :=
  match d.dialogs[i]?.bind (·.target? e) with
  | none => (d, none)
  | some path => d.edit i path

def endRequest (d : Desk σ) (r : Nat) (v : Verdict) : Desk σ :=
  (d.onRequest r fun q => { q with stage := .ended v, stopping := false }).enqueue
    (.requestEnded r)

/-- The classifier's outcome as a request takes it: under a time limit, a failure that is a
timeout makes the path missing. -/
def taken (limit : Option Float) : Except Failure Classification → Except Failure Classification
  | .ok c => .ok c
  | .error f => if limit.isSome ∧ f.kind = .timeout then .ok .missing else .error f

/-- A request ends with an outcome; a classification is offered to its dialog. -/
def conclude (s : Setting σ) (d : Desk σ) (r : Nat)
    (outcome : Except Failure Classification) : Desk σ :=
  match d.requests[r]?, taken s.limit outcome with
  | none, _ => d
  | some _, .error f => d.endRequest r (.failed (.failure f))
  | some q, .ok c =>
    let applied := d.dialogs[q.dialog]?.any (·.accepts q.path (some q.number))
    (d.onDialog q.dialog (·.offer q.path (.settled c) (some q.number))).endRequest r
      (.answered c applied)

/-- A classifier call for a request: its number, and its outcome if there is one at once. -/
def call (s : Setting σ) (d : Desk σ) (r : Nat) (path : String) :
    Desk σ × Nat × Option (Except Failure Classification) :=
  let (outcome, world) := s.classify path d.world
  let state : CallState :=
    match outcome with
    | some o => .answered o
    | none => .waiting
  let d := ({ d with world := world }).note (.classify r path)
  ({ d with calls := d.calls ++ [⟨r, path, state⟩] }, d.calls.length, outcome)

/-- Gives up a call that waits; `j` goes on without it. Says whether there was one to give up. -/
def withdrawCall (d : Desk σ) (c : Nat) (j : Job) : Desk σ × Bool :=
  match d.calls[c]? with
  | some ⟨_, _, .waiting⟩ =>
    ((d.onCall c fun call => { call with state := .withdrawn }).enqueue j, true)
  | _ => (d, false)

/-- Stops a request's probe: at its next run, unless it has ended. -/
def haltProbe (d : Desk σ) (r : Nat) : Desk σ :=
  match d.requests[r]?.map Request.probe with
  | some (.ready _) => d.onRequest r fun q => { q with halting := true }
  | some (.calling c) =>
    match d.withdrawCall c (.probe r) with
    | (d, true) => d
    | (d, false) => d.onRequest r fun q => { q with halting := true }
  | _ => d

/-- Cancels a request: what it waits for is given up, or else it is stopped at its next run. Says
whether there was anything to cancel. -/
def cancelRequest (d : Desk σ) (r : Nat) : Desk σ × Bool :=
  let stop (d : Desk σ) : Desk σ := d.onRequest r fun q => { q with stopping := true }
  match d.requests[r]?.map Request.stage with
  | none | some (.ended _) => (d, false)
  | some (.calling c) =>
    match d.withdrawCall c (.request r) with
    | (d, true) => (d, true)
    | (d, false) => (stop d, true)
  | some (.racing .waiting) =>
    ((d.onRequest r fun q => { q with stage := .racing .withdrawn }).enqueue (.request r), true)
  | some (.withdrawing late .waiting) =>
    ((d.onRequest r fun q => { q with stage := .withdrawing late .withdrawn }).enqueue
      (.request r), true)
  | some _ => (stop d, true)

/-- Closes a dialog and cancels its requests. -/
def closeDialog (d : Desk σ) (i : Nat) : Desk σ :=
  (List.range d.requests.length).foldl
    (fun d r =>
      if d.requests[r]?.any (·.dialog == i) then (d.cancelRequest r).1 else d)
    (d.onDialog i Dialog.close)

def beginRequest (s : Setting σ) (d : Desk σ) (r : Nat) (q : Request) : Desk σ :=
  if q.stopping then d.endRequest r .cancelled
  else
    match Path.canonical s.home q.path, s.limit with
    | none, _ => d.endRequest r (.failed .homeUnknown)
    | some path, none =>
      match call s d r path with
      | (d, _, some outcome) => conclude s d r outcome
      | (d, c, none) => d.onRequest r fun q => { q with stage := .calling c }
    | some path, some limit =>
      if limit ≤ 0.0 then
        (d.onRequest r fun q =>
          { q with
            stage := .withdrawing true .waiting
            probe := .ready path
            halting := true }).enqueue (.probe r)
      else
        let d := { d with timers := d.timers.push ⟨d.clock + limit, r⟩ }
        (d.onRequest r fun q => { q with stage := .racing .waiting, probe := .ready path }).enqueue
          (.probe r)

/-- A request goes on after what it waited for. A probe that has ended counts even if the request
is being stopped. -/
def runRequest (s : Setting σ) (d : Desk σ) (r : Nat) : Desk σ :=
  match d.requests[r]? with
  | none => d
  | some q =>
    match q.stage with
    | .created => beginRequest s d r q
    | .calling c =>
      match q.stopping, d.calls[c]?.map Call.state with
      | false, some (.answered outcome) => conclude s d r outcome
      | _, _ => d.endRequest r .cancelled
    | .racing signal =>
      match q.probe with
      | .found outcome => conclude s d r outcome
      | .stopped => d.endRequest r .cancelled
      | _ =>
        let late := !q.stopping && signal == .given
        (d.onRequest r fun q =>
          { q with stage := .withdrawing late .waiting, stopping := false }).haltProbe r
    | .withdrawing late signal =>
      if late && !q.stopping && signal == .given then
        match q.probe with
        | .found outcome => conclude s d r outcome
        | _ => conclude s d r (.ok .missing)
      else d.endRequest r .cancelled
    | .ended _ => d

def endProbe (d : Desk σ) (r : Nat) (probe : Probe) : Desk σ :=
  (d.onRequest r fun q => { q with probe := probe, halting := false }).enqueue (.probeEnded r)

/-- A probe goes on: it calls the classifier, or takes what its call gave. -/
def runProbe (s : Setting σ) (d : Desk σ) (r : Nat) : Desk σ :=
  match d.requests[r]? with
  | none => d
  | some q =>
    match q.probe with
    | .ready path =>
      if q.halting then d.endProbe r .stopped
      else
        match call s d r path with
        | (d, _, some outcome) => d.endProbe r (.found outcome)
        | (d, c, none) => d.onRequest r fun q => { q with probe := .calling c }
    | .calling c =>
      match q.halting, d.calls[c]?.map Call.state with
      | false, some (.answered outcome) => d.endProbe r (.found outcome)
      | _, _ => d.endProbe r .stopped
    | _ => d

def tellProbeEnded (d : Desk σ) (r : Nat) : Desk σ :=
  match d.requests[r]?.map Request.stage with
  | some (.racing .waiting) =>
    (d.onRequest r fun q => { q with stage := .racing .given }).enqueue (.request r)
  | some (.withdrawing late .waiting) =>
    (d.onRequest r fun q => { q with stage := .withdrawing late .given }).enqueue (.request r)
  | _ => d

/-- Tells a request that its time is over, unless it waits no longer. -/
def tellLimit (d : Desk σ) (r : Nat) : Desk σ :=
  match d.requests[r]?.map Request.stage with
  | some (.racing .waiting) =>
    (d.onRequest r fun q => { q with stage := .racing .given }).enqueue (.request r)
  | _ => d

/-- Tells whom it concerns that a request has ended: its dialog counts it no longer, and errands
that watch it go on. -/
def tellRequestEnded (d : Desk σ) (r : Nat) : Desk σ :=
  (List.range d.errands.length).foldl
    (fun d e =>
      match d.errands[e]?.map Errand.progress with
      | some (.watching i q .waiting) =>
        if q = r then
          (d.onErrand e fun x => { x with progress := .watching i q .given }).enqueue (.errand e)
        else d
      | _ => d)
    (d.onRequest r fun q => { q with tracked := false })

end Desk
end Admission
