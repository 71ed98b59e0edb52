import Admission.Desk.Request

/-!
# Errands

An errand runs one operation. It goes on without a break until it has to wait: for the gate of the
trust store or of the registrar, or for a request whose end it is to report. What it does to
dialogs and to the desk between two waits happens in one job.
-/
namespace Admission
namespace Desk

variable {σ : Type}

def endErrand (d : Desk σ) (e : Nat) (x : Ending) : Desk σ :=
  d.onErrand e fun q => { q with progress := .ended x, stopping := false }

def await (d : Desk σ) (e : Nat) (p : Progress) : Desk σ :=
  d.onErrand e fun q => { q with progress := p }

/-- What an errand for dialog `i` reports when nothing is left to wait for: the dialog it worked
on, except that an opened dialog has to be the current one still. -/
def report (d : Desk σ) (i : Nat) : Operation → Ending
  | .openDialog _ _ =>
    match d.current.bind d.snapshot? with
    | some s => .gave (.shown s)
    | none => .failed .dialogGone
  | op =>
    match d.snapshot? i, op with
    | some s, .trustCurrent _ _ => .gave (.trustShown true s)
    | some s, _ => .gave (.shown s)
    | none, _ => .failed .noDialog

/-- An errand after an edit: it waits for the request if it is to and there is one. -/
def afterEdit (d : Desk σ) (e i : Nat) (op : Operation) (wait : Bool) (r : Option Nat) :
    Desk σ :=
  match wait, r with
  | true, some r => d.await e (.watching i r .waiting)
  | _, _ => d.endErrand e (d.report i op)

def afterTrust (d : Desk σ) (e i : Nat) (granted : Bool) (r : Option Nat) : Desk σ :=
  match d.errands[e]?.map Errand.operation with
  | some (.trustCurrent wait strict) =>
    if granted then d.afterEdit e i (.trustCurrent wait strict) wait r
    else
      match d.snapshot? i with
      | some s => d.endErrand e (.gave (.trustShown false s))
      | none => d.endErrand e (.failed .noDialog)
  | _ => d.endErrand e (.gave (.trusted granted))

/-- A trust call that has passed its gate. Whatever fails, the dialog is free for the next one;
only success puts the live path under review again. -/
def passTrust (s : Setting σ) (d : Desk σ) (e i : Nat) (owner : String) : Desk σ :=
  let (outcome, world) := s.trust owner d.world
  let d := { d with world := world }
  match outcome, d.dialogs[i]? with
  | .ok (), some dialog =>
    let (d, r) := d.ask i dialog dialog.path
    (d.onDialog i Dialog.endTrust).afterTrust e i true r
  | _, _ => (d.onDialog i Dialog.stopTrust).afterTrust e i false none

/-- A trust errand of dialog `i`. The store is called only if trust is possible now. -/
def beginTrust (s : Setting σ) (d : Desk σ) (e i : Nat) : Desk σ :=
  match d.dialogs[i]?.bind Dialog.trustTarget? with
  | none => d.afterTrust e i false none
  | some owner =>
    let d := (d.onDialog i Dialog.startTrust).note (.trust i owner)
    match s.trustGate d.world with
    | some gate => d.await e (.trusting i owner gate .waiting)
    | none => passTrust s d e i owner

/-- A registrar call that has passed its gate. Success closes the dialog, and the desk then shows
no dialog if the errand was for the current one; failure leaves both as they are. -/
def passRegister (s : Setting σ) (d : Desk σ) (e i : Nat) (path : String) : Desk σ :=
  let (outcome, world) := s.register [path] d.world
  let d := { d with world := world }
  match outcome with
  | .error f => d.endErrand e (.failed (.failure f))
  | .ok handles =>
    let d := d.closeDialog i
    let d :=
      match d.errands[e]?.map Errand.operation with
      | some .submitCurrent => { d with current := none }
      | _ => d
    d.endErrand e (.gave (.added handles.head?))

/-- A submission of dialog `i`. The registrar is called only for a path that may be added. -/
def beginSubmit (s : Setting σ) (d : Desk σ) (e i : Nat) : Desk σ :=
  match d.snapshot? i with
  | none => d.endErrand e (.failed .noDialog)
  | some shown =>
    if shown.canSubmit then
      match Path.canonical s.home shown.path with
      | none => d.endErrand e (.failed .homeUnknown)
      | some path =>
        let d := d.note (.register i [path])
        match s.registerGate d.world with
        | some gate => d.await e (.registering i path gate .waiting)
        | none => passRegister s d e i path
    else d.endErrand e (.failed (.notAdmissible shown))

def closeCurrent (d : Desk σ) : Desk σ :=
  match d.current with
  | some i => d.closeDialog i
  | none => d

/-- A new dialog, which becomes the current one. -/
def seat (d : Desk σ) (path : String) : Desk σ × Nat :=
  ({ d with dialogs := d.dialogs ++ [{ initial := path }], current := some d.dialogs.length },
    d.dialogs.length)

/-- The dialog that is shown, closed and put away. Says whether there was one. -/
def dismiss (d : Desk σ) : Desk σ × Bool :=
  ({ d.closeCurrent with current := none }, d.current.isSome)

/-- An errand for the dialog that is shown; without one it fails. -/
def onCurrent (d : Desk σ) (e : Nat) (go : Nat → Desk σ) : Desk σ :=
  match d.current with
  | some i => go i
  | none => d.endErrand e (.failed .noDialog)

def beginErrand (s : Setting σ) (d : Desk σ) (e : Nat) (op : Operation) : Desk σ :=
  match op with
  | .trust i => beginTrust s d e i
  | .submit i => beginSubmit s d e i
  | .openDialog path wait =>
    let (d, i) := d.closeCurrent.seat path
    let (d, r) := d.amend i .openInitial
    d.afterEdit e i op wait r
  | .changePath path wait =>
    d.onCurrent e fun i =>
      let (d, r) := d.amend i (.changePath path)
      d.afterEdit e i op wait r
  | .choosePath selected wait =>
    d.onCurrent e fun i =>
      let (d, r) := d.amend i (.choosePath selected)
      d.afterEdit e i op wait r
  | .trustCurrent _ strict =>
    d.onCurrent e fun i =>
      match strict, d.snapshot? i with
      | true, some shown =>
        if shown.owner?.isSome then beginTrust s d e i
        else d.endErrand e (.failed (.notDubious shown))
      | _, _ => beginTrust s d e i
  | .submitCurrent => d.onCurrent e fun i => beginSubmit s d e i
  | .look => d.onCurrent e fun i => d.endErrand e (d.report i op)
  | .dismiss =>
    let (d, wasOpen) := d.dismiss
    d.endErrand e (.gave (.dismissed wasOpen))
  | .repositories => d.endErrand e (.gave (.listed (s.registered d.world)))
  | .nothing => d.endErrand e (.gave .nothing)

/-- An errand goes on after what it waited for. -/
def runErrand (s : Setting σ) (d : Desk σ) (e : Nat) : Desk σ :=
  match d.errands[e]? with
  | none => d
  | some x =>
    let stopped (signal : Signal) : Bool := x.stopping || signal != .given
    match x.progress with
    | .created =>
      if x.stopping then d.endErrand e .cancelled else beginErrand s d e x.operation
    | .trusting i owner _ signal =>
      if stopped signal then (d.onDialog i Dialog.stopTrust).endErrand e .cancelled
      else passTrust s d e i owner
    | .registering i path _ signal =>
      if stopped signal then d.endErrand e .cancelled else passRegister s d e i path
    | .watching i r signal =>
      if stopped signal then d.endErrand e .cancelled
      else
        match d.requests[r]?.map Request.stage with
        | some (.ended (.failed error)) => d.endErrand e (.failed error)
        | _ => d.endErrand e (d.report i x.operation)
    | .ended _ => d

/-- Cancels an errand: what it waits for is given up, or else it is stopped at its next run. Says
whether there was anything to cancel. -/
def cancelErrand (d : Desk σ) (e : Nat) : Desk σ × Bool :=
  let withdraw (p : Progress) : Desk σ × Bool := ((d.await e p).enqueue (.errand e), true)
  match d.errands[e]?.map Errand.progress with
  | none | some (.ended _) => (d, false)
  | some (.trusting i owner gate .waiting) => withdraw (.trusting i owner gate .withdrawn)
  | some (.registering i path gate .waiting) => withdraw (.registering i path gate .withdrawn)
  | some (.watching i r .waiting) => withdraw (.watching i r .withdrawn)
  | some _ => (d.onErrand e fun x => { x with stopping := true }, true)

end Desk
end Admission
