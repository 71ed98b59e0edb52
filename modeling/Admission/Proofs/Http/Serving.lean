import Admission.Http.Exchange
import Admission.Proofs.Desk.Visit
import Admission.Proofs.Http.Bodies

/-!
# Requests served one after the other

A server that gets one request at a time and has it carried out before the next comes in. The four
requests that add a repository are served here: one that opens the dialog, one for the path, one to
trust its owner, and the submission.
-/
namespace Admission
namespace Http

open Json (Value)

variable {σ : Type}

/-- A request carried out, until the desk is at rest, and its answer. -/
def serve (s : Setting σ) (d : Desk σ) (r : Request) : Desk σ × Option Answer :=
  let (d, x) := receive d r
  let d := d.settle s
  (d, (d.progress? x.errand).bind fun
    | .ended e => x.answer? e
    | _ => none)

def openRequest : Request := post "/api/add-repository" []

def pathRequest (path : String) : Request :=
  post "/api/add-repository/path" [("path", .text path), ("wait", .bool true)]

def trustRequest : Request := post "/api/add-repository/trust" [("wait", .bool true)]

def submitRequest : Request where
  method := "POST"
  path := "/api/add-repository/submit"

theorem command_of_endpoint {r : Request} {e : Endpoint} (h : findEndpoint r = .ok e) :
    command r = commandAt r e := by
  rw [command, h]
  rfl

theorem command_openRequest : command openRequest = .ok (.openDialog "") := by
  have hplain : (Value.object []).Plain := .object (by simp) (by simp)
  have hbody := bodyValue_post "/api/add-repository" hplain
  rw [command_of_endpoint (e := .openDialog) rfl]
  simp only [commandAt, optionalBody, openRequest, hbody]
  rfl

theorem command_pathRequest (path : String) :
    command (pathRequest path) = .ok (.changePath path true) := by
  have hplain : (Value.object [("path", .text path), ("wait", .bool true)]).Plain :=
    .object (by simp) (by simp [Value.Plain.text, Value.Plain.bool])
  have hbody := bodyValue_post "/api/add-repository/path" hplain
  rw [command_of_endpoint (e := .changePath) rfl]
  simp only [commandAt, requiredBody, pathRequest, hbody]
  rfl

theorem command_trustRequest : command trustRequest = .ok (.trust true) := by
  have hplain : (Value.object [("wait", .bool true)]).Plain :=
    .object (by simp) (by simp [Value.Plain.bool])
  have hbody := bodyValue_post "/api/add-repository/trust" hplain
  rw [command_of_endpoint (e := .trust) rfl]
  simp only [commandAt, optionalBody, trustRequest, hbody]
  rfl

theorem command_submitRequest : command submitRequest = .ok .submit := rfl

end Http

namespace Desk.Visit

open Http

variable {σ : Type} {s : Setting σ} (v : Visit σ) {timers : Timers}

theorem receive_desk {r : Http.Request} {c : Command} (h : command r = .ok c) :
    receive (v.desk [] [] {} []) r =
      (v.desk [] [{ operation := c.operation }] ⟨[], [.errand v.done.length]⟩ [],
        ⟨.ok c, v.done.length⟩) := by
  simp only [receive, h, spawn]
  simp [desk, enqueue]

theorem progress?_served (x : Errand) (hx : x.isEnded = true) :
    ((v.served x hx).desk [] [] {} []).progress? v.done.length = some x.progress := by
  simp [progress?, desk, served]

/-- A request whose errand needs no inquiry. -/
theorem serve_ended {r : Http.Request} {c : Command} {u : Visit σ} {e : Ending} {a : Answer}
    (hr : command r = .ok c) (hdone : u.done = v.done)
    (h : beginErrand s (v.desk [] [{ operation := c.operation }] {} []) v.done.length c.operation =
      u.desk [] [{ operation := c.operation, progress := .ended e }] {} [])
    (ha : (Exchange.mk (.ok c) v.done.length).answer? e = some a) :
    ∃ x hx, serve s (v.desk [] [] {} []) r =
      ((u.served x hx).desk [] [] {} [], some a) := by
  refine ⟨{ operation := c.operation, progress := .ended e }, rfl, ?_⟩
  have hprogress := u.progress?_served
    { operation := c.operation, progress := .ended e } rfl
  rw [hdone] at hprogress
  simp only [serve, v.receive_desk hr, v.settle_ended h, hprogress]
  exact congrArg (Prod.mk _) ha

/-- A request whose errand waits for an inquiry. -/
theorem serve_inquiry (hs : s.Prompt) {r : Http.Request} {c : Command} {u : Visit σ}
    (hr : command r = .ok c) (hdone : u.done = v.done)
    (h : beginErrand s (v.desk [] [{ operation := c.operation }] {} []) v.done.length c.operation =
      u.desk [u.request]
        [{ operation := c.operation, progress := .watching 0 u.past.length .waiting }]
        ⟨[], [.request u.past.length]⟩ []) :
    ∃ q hq x hx, serve s (v.desk [] [] {} []) r =
      ((((u.inquire s).1.filed q hq).served x hx).desk [] [] {} [],
        (Exchange.mk (.ok c) v.done.length).answer?
          (((u.inquire s).2.map .failed).getD ((u.inquire s).1.report c.operation))) := by
  obtain ⟨q, hq, x, hx, hsettle, hprogress⟩ := v.settle_inquiry hs h
  refine ⟨q, hq, x, hx, ?_⟩
  have hlength : v.done.length = ((u.inquire s).1.filed q hq).done.length := by
    rw [← hdone, ← (u.inquire_frame s).2]
    rfl
  simp only [serve, v.receive_desk hr, hsettle]
  rw [hlength, progress?_served, hprogress]
  rfl

/-! ## The path -/

theorem current_desk (qs : List Request) (xs : List Errand) (agenda : Agenda) :
    (v.desk qs xs agenda timers).current = some 0 := rfl

@[simp] theorem dialogs_desk (qs : List Request) (xs : List Errand) (agenda : Agenda) :
    (v.desk qs xs agenda timers).dialogs[0]? = some v.dialog := rfl

/-- A live path that is put under review: its request waits in line. -/
theorem ask_desk (xs : List Errand) (path : String) {f : Dialog → Dialog}
    (hasks : v.dialog.asks path = true) (hpath : (f v.dialog).path = path)
    (hissued : (f v.dialog).issued = v.dialog.issued + 1) :
    (((v.desk [] xs {} []).ask 0 v.dialog path).1.onDialog 0 f,
      ((v.desk [] xs {} []).ask 0 v.dialog path).2) =
      ((v.onDialog f).desk [(v.onDialog f).request] xs ⟨[], [.request v.past.length]⟩ [],
        some v.past.length) := by
  have hrequest : (v.onDialog f).request =
      { dialog := 0, number := v.dialog.issued + 1, path := path } := by
    simp [request, onDialog, hpath, hissued]
  rw [ask, if_pos hasks, hrequest]
  simp [desk, enqueue, Desk.onDialog, onDialog]

theorem begin_changePath_same :
    beginErrand s (v.desk [] [{ operation := .changePath v.dialog.path true }] {} [])
      v.done.length (.changePath v.dialog.path true) =
      v.desk [] [{
        operation := .changePath v.dialog.path true
        progress := .ended (.gave (.shown v.dialog.snapshot)) }] {} [] := by
  simp [beginErrand, onCurrent, current_desk, amend, Dialog.target?, afterEdit, endErrand,
    report_desk, report]

theorem begin_changePath {path : String} (hne : path ≠ v.dialog.path)
    (hasks : v.dialog.asks path = true) :
    beginErrand s (v.desk [] [{ operation := .changePath path true }] {} [])
      v.done.length (.changePath path true) =
      (v.onDialog (·.edit path)).desk [(v.onDialog (·.edit path)).request] [{
        operation := .changePath path true
        progress := .watching 0 v.past.length .waiting }] ⟨[], [.request v.past.length]⟩ [] := by
  have hedit : (v.dialog.edit path).path = path ∧
      (v.dialog.edit path).issued = v.dialog.issued + 1 :=
    ⟨(Dialog.edit_of_asks hasks).1, by rw [Dialog.issued_edit, if_pos hasks]⟩
  have hask := v.ask_desk [{ operation := .changePath path true }] path
    (f := (·.edit path)) hasks hedit.1 hedit.2
  obtain ⟨hdesk, hrequest⟩ := Prod.mk.inj hask
  simp only [beginErrand, onCurrent, current_desk, amend, dialogs_desk, Option.bind_some,
    Dialog.target?, if_neg hne, edit, hdesk, hrequest, afterEdit]
  exact (v.onDialog (·.edit path)).onErrand_desk _ _ _ _ _

/-! ## Trust -/

/-- The visit after a call of the trust store. -/
def trusted (s : Setting σ) (owner : String) (f : Dialog → Dialog) : Visit σ :=
  { v with
    world := (s.trust owner v.world).2
    dialog := f v.dialog
    log := v.log ++ [.trust 0 owner] }

/-- The errand of a visitor who asks for trust and waits for what comes of it. -/
def trusting : Errand := { operation := .trustCurrent true true }

theorem afterTrust_granted (qs : List Request) (agenda : Agenda) (r : Nat) :
    (v.desk qs [trusting] agenda timers).afterTrust v.done.length 0 true (some r) =
      v.desk qs [{ trusting with progress := .watching 0 r .waiting }] agenda timers := by
  simp [afterTrust, trusting, afterEdit, await]

theorem afterTrust_refused (qs : List Request) (agenda : Agenda) :
    (v.desk qs [trusting] agenda timers).afterTrust v.done.length 0 false none =
      v.desk qs
        [{ trusting with progress := .ended (.gave (.trustShown false v.dialog.snapshot)) }]
        agenda timers := by
  simp [afterTrust, trusting, snapshot?, endErrand]

variable {owner : String}

/-- Such an errand calls the store for the directory that is shown. -/
theorem begin_trust (hs : s.Prompt) (hshown : v.dialog.classification = .settled (.dubious owner))
    (htrusting : v.dialog.trusting = false) :
    beginErrand s (v.desk [] [trusting] {} []) v.done.length trusting.operation =
      passTrust s (((v.onDialog Dialog.startTrust).desk [] [trusting] {} []).note (.trust 0 owner))
        v.done.length 0 owner := by
  have howner : v.dialog.snapshot.owner? = some owner :=
    (v.dialog.snapshot.owner?_eq_some_iff owner).mpr hshown
  have htarget : v.dialog.trustTarget? = some owner := by
    simp [Dialog.trustTarget?, htrusting, hshown, Assessment.owner?, Assessment.settled?,
      Classification.owner?]
  have hgate (world : σ) := hs.trustGate world
  simp only [beginErrand, trusting, onCurrent, current_desk, snapshot?, dialogs_desk,
    Option.map_some, howner, Option.isSome_some, if_true, beginTrust, Option.bind_some, htarget,
    hgate, onDialog_desk]

/-- The store has put the directory on its list: the live path is under review again. -/
theorem begin_trust_granted (hs : s.Prompt)
    (hshown : v.dialog.classification = .settled (.dubious owner))
    (htrusting : v.dialog.trusting = false) (hasks : v.dialog.asks v.dialog.path = true)
    (hgranted : (s.trust owner v.world).1 = .ok ()) :
    beginErrand s (v.desk [] [trusting] {} []) v.done.length trusting.operation =
      (v.trusted s owner Dialog.endTrust).desk [(v.trusted s owner Dialog.endTrust).request]
        [{ trusting with progress := .watching 0 v.past.length .waiting }]
        ⟨[], [.request v.past.length]⟩ [] := by
  let u := v.trusted s owner Dialog.startTrust
  have hu : u.onDialog Dialog.endTrust = v.trusted s owner Dialog.endTrust := by
    simp only [u, onDialog, trusted, Dialog.endTrust_startTrust]
  have hasks' : u.dialog.asks u.dialog.path = true := hasks
  have hend : u.dialog.endTrust.path = u.dialog.path ∧
      u.dialog.endTrust.issued = u.dialog.issued + 1 :=
    ⟨(Dialog.edit_of_asks hasks').1,
      (Dialog.issued_edit u.dialog u.dialog.path).trans (if_pos hasks')⟩
  obtain ⟨hdesk, hrequest⟩ := Prod.mk.inj
    (u.ask_desk [trusting] u.dialog.path (f := Dialog.endTrust) hasks' hend.1 hend.2)
  rw [v.begin_trust hs hshown htrusting, passTrust_of_ok (x := v.dialog.startTrust) rfl hgranted]
  change (((u.desk [] [trusting] {} []).ask 0 u.dialog u.dialog.path).1.onDialog 0 _).afterTrust
    _ 0 true ((u.desk [] [trusting] {} []).ask 0 u.dialog u.dialog.path).2 = _
  rw [hdesk, hrequest, hu]
  exact (v.trusted s owner Dialog.endTrust).afterTrust_granted _ _ _

/-- The store has failed: the dialog shows what it showed before. -/
theorem begin_trust_refused (hs : s.Prompt)
    (hshown : v.dialog.classification = .settled (.dubious owner))
    (htrusting : v.dialog.trusting = false) {f : Failure}
    (hrefused : (s.trust owner v.world).1 = .error f) :
    beginErrand s (v.desk [] [trusting] {} []) v.done.length trusting.operation =
      (v.trusted s owner id).desk []
        [{ trusting with progress := .ended (.gave (.trustShown false v.dialog.snapshot)) }]
        {} [] := by
  rw [v.begin_trust hs hshown htrusting, passTrust_of_error hrefused]
  have hdialog : v.dialog.startTrust.stopTrust = v.dialog := by
    simp only [Dialog.startTrust, Dialog.stopTrust, ← htrusting]
  have hvisit : v.trusted s owner (fun x => x.startTrust.stopTrust) = v.trusted s owner id := by
    simp only [trusted, hdialog, id]
  refine ((v.trusted s owner fun x => x.startTrust.stopTrust).afterTrust_refused _ _).trans ?_
  rw [hvisit]
  rfl

/-! ## The submission -/

/-- A submission that goes no further than the dialog, or that the registrar answers. -/
theorem serve_refused (h : v.dialog.snapshot.canSubmit = false) :
    (serve s (v.desk [] [] {} []) submitRequest).1.log = v.log ∧
      (serve s (v.desk [] [] {} []) submitRequest).2 =
        some (errorAnswer .submit (.notAdmissible v.dialog.snapshot)) := by
  have hbegin : beginErrand s (v.desk [] [{ operation := Command.submit.operation }] {} [])
      v.done.length Command.submit.operation =
        v.desk [] [{
          operation := Command.submit.operation
          progress := .ended (.failed (.notAdmissible v.dialog.snapshot)) }] {} [] := by
    simp [Command.operation, beginErrand, onCurrent, current_desk, beginSubmit, snapshot?, h,
      endErrand]
  obtain ⟨x, hx, hserve⟩ := v.serve_ended command_submitRequest rfl hbegin rfl
  rw [hserve]
  exact ⟨rfl, rfl⟩

/-- No request is left to cancel when the dialog is closed. -/
theorem closeDialog_desk (xs : List Errand) (agenda : Agenda) :
    (v.desk [] xs agenda timers).closeDialog 0 =
      (v.onDialog Dialog.close).desk [] xs agenda timers := by
  refine List.foldl_fixed' (fun r => ?_) _
  split
  · rename_i hdialog
    obtain ⟨q, hq, -⟩ := Option.any_eq_true _ _ |>.mp hdialog
    have hq : ((v.onDialog Dialog.close).desk [] xs agenda timers).requests[r]? = some q := hq
    have hended := v.past_ended q (by simpa [desk, onDialog] using List.mem_of_getElem? hq)
    unfold Request.isEnded at hended
    split at hended
    · rename_i hstage
      rw [onDialog_desk, cancelRequest, hq, Option.map_some, hstage]
    · cases hended
  · rfl

/-- The visit after a call of the registrar. -/
def registered (s : Setting σ) (path : String) : Visit σ :=
  { v with
    world := (s.register [path] v.world).2
    log := v.log ++ [.register 0 [path]] }

/-- The errand of a visitor who submits. -/
def submitting : Errand := { operation := .submitCurrent }

variable {path : String}

/-- Such an errand goes to the registrar if the path may be added and its canonical form is
known. -/
theorem begin_submit (hs : s.Prompt) (h : v.dialog.snapshot.canSubmit = true)
    (hp : Path.canonical s.home v.dialog.path = some path) :
    beginErrand s (v.desk [] [submitting] {} []) v.done.length submitting.operation =
      passRegister s ((v.desk [] [submitting] {} []).note (.register 0 [path])) v.done.length 0
        path := by
  have hgate (world : σ) := hs.registerGate world
  have hshown : Path.canonical s.home v.dialog.snapshot.path = some path := hp
  simp only [beginErrand, submitting, onCurrent, current_desk, beginSubmit, snapshot?,
    dialogs_desk, Option.map_some, h, if_true, hshown, hgate]

theorem passRegister_of_error {f : Failure} (hf : (s.register [path] v.world).1 = .error f) :
    passRegister s ((v.desk [] [submitting] {} []).note (.register 0 [path])) v.done.length 0
        path =
      (v.registered s path).desk []
        [{ submitting with progress := .ended (.failed (.failure f)) }] {} [] := by
  rw [Desk.passRegister_of_error hf]
  exact (v.registered s path).onErrand_desk [] {} [] submitting _

/-- The desk when the registrar has answered: the dialog is closed and put away. -/
def left (s : Setting σ) (path : String) (handles : List String) : Desk σ :=
  { ((v.registered s path).onDialog Dialog.close).desk []
      [{ submitting with progress := .ended (.gave (.added handles.head?)) }] {} [] with
    current := none }

theorem passRegister_of_ok {handles : List String}
    (hok : (s.register [path] v.world).1 = .ok handles) :
    passRegister s ((v.desk [] [submitting] {} []).note (.register 0 [path])) v.done.length 0
        path = v.left s path handles := by
  let w := (v.registered s path).onDialog Dialog.close
  have hfound : ((v.desk [] [submitting] {} []).note (.register 0 [path])).errands[v.done.length]? =
      some submitting := v.errands_desk [] {} [] submitting
  have hclosed : ((v.registered s path).desk [] [submitting] {} []).closeDialog 0 =
      w.desk [] [submitting] {} [] :=
    (v.registered s path).closeDialog_desk [submitting] {}
  have hend := w.onErrand_desk [] {} [] submitting
    fun x => { x with progress := .ended (.gave (.added handles.head?)), stopping := false }
  rw [Desk.passRegister_of_ok hfound hok]
  refine (congrArg (fun d : Desk σ => { d with current := none }.endErrand v.done.length
    (.gave (.added handles.head?))) hclosed).trans ?_
  exact congrArg (fun d : Desk σ => { d with current := none }) hend

/-- A submission of a path that may be added, and whose canonical form is known, is answered by the
registrar. -/
theorem serve_submitted (hs : s.Prompt) (h : v.dialog.snapshot.canSubmit = true)
    (hp : Path.canonical s.home v.dialog.path = some path) :
    (serve s (v.desk [] [] {} []) submitRequest).1.log = v.log ++ [.register 0 [path]] ∧
      (serve s (v.desk [] [] {} []) submitRequest).2 =
        some (match (s.register [path] v.world).1 with
          | .ok handles => replyAnswer (.added handles.head?)
          | .error f => errorAnswer .submit (.failure f)) := by
  have hbegin := v.begin_submit hs h hp
  cases hout : (s.register [path] v.world).1 with
  | error f =>
    obtain ⟨x, hx, hserve⟩ := v.serve_ended command_submitRequest
      (u := v.registered s path) rfl (hbegin.trans (v.passRegister_of_error hout)) rfl
    rw [hserve]
    exact ⟨rfl, rfl⟩
  | ok handles =>
    have hsettle : (v.desk [] [submitting] ⟨[], [.errand v.done.length]⟩ []).settle s =
        v.left s path handles := by
      refine settle_of_steps (n := 2) ?_ (step_of_no_timer rfl rfl) (by decide)
      rw [v.steps_pass _ _ _ _ (.inr rfl)]
      simp only [run, runErrand, errands_desk]
      exact hbegin.trans (v.passRegister_of_ok hout)
    have hprogress : (v.left s path handles).progress? v.done.length =
        some (.ended (.gave (.added handles.head?))) := by
      simp [progress?, left, desk, onDialog, registered]
    simp only [serve, v.receive_desk command_submitRequest]
    refine ⟨?_, ?_⟩
    · exact congrArg Desk.log hsettle
    · refine (congrArg (fun d : Desk σ => (d.progress? v.done.length).bind _) hsettle).trans ?_
      rw [hprogress]
      rfl

theorem serve_homeless (h : v.dialog.snapshot.canSubmit = true)
    (hp : Path.canonical s.home v.dialog.path = none) :
    (serve s (v.desk [] [] {} []) submitRequest).1.log = v.log ∧
      (serve s (v.desk [] [] {} []) submitRequest).2 =
        some (errorAnswer .submit .homeUnknown) := by
  have hshown : Path.canonical s.home v.dialog.snapshot.path = none := hp
  have hbegin : beginErrand s (v.desk [] [{ operation := Command.submit.operation }] {} [])
      v.done.length Command.submit.operation =
        v.desk [] [{
          operation := Command.submit.operation
          progress := .ended (.failed .homeUnknown) }] {} [] := by
    simp [Command.operation, beginErrand, onCurrent, current_desk, beginSubmit, snapshot?, h,
      hshown, endErrand]
  obtain ⟨x, hx, hserve⟩ := v.serve_ended command_submitRequest rfl hbegin rfl
  rw [hserve]
  exact ⟨rfl, rfl⟩

end Desk.Visit
end Admission
