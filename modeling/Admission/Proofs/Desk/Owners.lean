import Admission.Proofs.Desk.Orderly

/-!
# Whose work a move is

Everything that happens at a desk is for one dialog at most: a job of a request is for the dialog of
the request, an errand that waits is for the dialog that it waits for, and an operation that names
none is for the dialog that is shown. Whoever it is for, the other dialogs stay as they are, and so
do their requests with their calls and their places in line.
-/
namespace Admission

/-- The dialog that an operation is for; one that names none is for the dialog that is shown. -/
def Operation.owner? (current : Option Nat) : Operation → Option Nat
  | .trust i | .submit i => some i
  | .repositories | .nothing => none
  | _ => current

/-- The dialog that an errand is for. -/
def Errand.owner? (current : Option Nat) (x : Errand) : Option Nat :=
  match x.progress with
  | .created => x.operation.owner? current
  | .trusting i _ _ _ | .registering i _ _ _ | .watching i _ _ => some i
  | .ended _ => none

namespace Desk

variable {σ : Type} {s : Setting σ} {d e f : Desk σ} {b : Nat → Prop} {i j k r : Nat}

/-- The dialog of a request. -/
def requestOwner? (d : Desk σ) (r : Nat) : Option Nat := d.requests[r]?.map Request.dialog

/-- The dialog that an errand is for, if there is such an errand. -/
def errandOwner? (d : Desk σ) (k : Nat) : Option Nat :=
  d.errands[k]?.bind (Errand.owner? d.current)

def jobOwner? (d : Desk σ) : Job → Option Nat
  | .request r | .probe r | .probeEnded r | .requestEnded r | .limit r => d.requestOwner? r
  | .errand k => d.errandOwner? k

/-- The dialog that a move is for. The clock, the world and the gates are nobody's, and so is a
pass that begins. -/
def owner? (d : Desk σ) : Move σ → Option Nat
  | .step => d.agenda.now.head?.bind d.jobOwner?
  | .edit i _ | .close i => some i
  | .perform op => op.owner? d.current
  | .dismiss => d.current
  | .answer c _ => d.calls[c]?.bind fun call => d.requestOwner? call.request
  | .cancelRequest r => d.requestOwner? r
  | .cancelErrand k => d.errandOwner? k
  | .spawn _ | .openGate _ _ | .advance _ | .alter _ => none

/-- Dialog `j` and its requests are left alone. -/
structure Apart (j : Nat) (d e : Desk σ) : Prop where
  dialog : e.dialogs[j]? = d.dialogs[j]?
  posts : ∀ (r : Nat) (q : Request), d.requests[r]? = some q → q.dialog = j → e.post r = d.post r
  requests : ∀ (r : Nat) (q : Request), e.requests[r]? = some q → q.dialog = j →
    d.requests[r]? = some q

theorem Apart.trans (h : Apart j d e) (h' : Apart j e f) : Apart j d f where
  dialog := h'.dialog.trans h.dialog
  posts r q hq hj := by
    have hpost := h.posts r q hq hj
    have hq' : e.requests[r]? = some q := (congrArg Post.request hpost).trans hq
    exact (h'.posts r q hq' hj).trans hpost
  requests r q hq hj := h.requests r q (h'.requests r q hq hj) hj

/-- Nothing happens to requests, and nothing to dialog `j`. -/
theorem apart_of (hd : e.dialogs[j]? = d.dialogs[j]?) (hp : ∀ r, e.post r = d.post r) :
    Apart j d e :=
  ⟨hd, fun r _ _ _ => hp r, fun r _ hq _ => (congrArg Post.request (hp r)).symm.trans hq⟩

theorem Apart.refl (j : Nat) (d : Desk σ) : Apart j d d := apart_of rfl fun _ => rfl

theorem Alike.apart (h : Alike d e) (j : Nat) : Apart j d e :=
  apart_of (by rw [h.dialogs]) h.post

theorem Apart.alike (h : Apart j d e) (ha : Alike e f) : Apart j d f := h.trans (ha.apart j)

theorem apart_onDialog (d : Desk σ) {f : Dialog → Dialog} (h : i ≠ j) :
    Apart j d (d.onDialog i f) :=
  apart_of (by simp [onDialog, h]) fun _ => rfl

/-- Work on a request of another dialog. -/
theorem Beside.apart (h : Beside r d e) (hr : d.requestOwner? r ≠ some j)
    (hd : e.dialogs[j]? = d.dialogs[j]?) : Apart j d e where
  dialog := hd
  posts r' q hq hj := h.others r' fun he => hr (by rw [requestOwner?, ← he, hq, ← hj]; rfl)
  requests r' q hq hj := by
    by_cases he : r' = r
    · have hdialog := h.dialogs r'
      rw [hq] at hdialog
      exact absurd (hdialog.symm.trans (congrArg some hj)) (he ▸ hr)
    · exact (congrArg Post.request (h.others r' he)).symm.trans hq

/-! ## Requests -/

/-- A request that is concluded offers its answer to its dialog only. -/
theorem dialog_conclude {q : Request} (hq : d.requests[r]? = some q) (hj : q.dialog ≠ j)
    (o : Except Failure Classification) : (conclude s d r o).dialogs[j]? = d.dialogs[j]? := by
  rcases conclude_spec (s := s) hq o with ⟨x, -, hd, -⟩ | ⟨c, -, hd, -⟩
  · rw [hd]
  · rw [hd]
    simp [hj]

theorem dialog_runRequest (h : d.requestOwner? r ≠ some j) :
    (runRequest s d r).dialogs[j]? = d.dialogs[j]? := by
  rcases runRequest_changes (s := s) d r with hstill | ⟨m, q, o, hstill, hr, hq, -, he⟩
  · rw [hstill.aloof.dialogs]
  · have hj : q.dialog ≠ j := fun hj => h (by rw [requestOwner?, ← hr, hq, ← hj]; rfl)
    rw [he, dialog_conclude hq hj, hstill.aloof.dialogs]

/-- A request that was there before goes on as it was. -/
theorem post_ask (d : Desk σ) (i : Nat) (x : Dialog) (path : String)
    (hr : r < d.requests.length) : (d.ask i x path).1.post r = d.post r := by
  unfold ask
  split
  · dsimp only
    rw [post_enqueue]
    simp [post, List.getElem?_append_left hr, Nat.ne_of_gt hr]
  · rfl

theorem requests_ask {x : Dialog} {path : String} {q : Request}
    (hq : (d.ask i x path).1.requests[r]? = some q) :
    d.requests[r]? = some q ∨ r = d.requests.length ∧ x.asks path = true ∧
      q = { dialog := i, number := x.issued + 1, path := path } := by
  unfold ask at hq
  split at hq
  · rename_i hasks
    rcases getElem?_concat_eq_some_iff.mp hq with hq | ⟨hr, rfl⟩
    · exact Or.inl hq
    · exact Or.inr ⟨hr, hasks, rfl⟩
  · exact Or.inl hq

theorem apart_ask (d : Desk σ) (x : Dialog) (path : String) (h : i ≠ j) :
    Apart j d (d.ask i x path).1 where
  dialog := by rw [dialogs_ask]
  posts r q hq _ := post_ask d i x path (List.getElem?_eq_some_iff.mp hq).1
  requests r q hq hj := by
    rcases requests_ask hq with hq | ⟨-, -, rfl⟩
    · exact hq
    · exact absurd hj h

theorem apart_edit (d : Desk σ) (path : String) (h : i ≠ j) : Apart j d (d.edit i path).1 := by
  unfold edit
  split
  · exact .refl j d
  · exact (apart_ask d _ path h).trans (apart_onDialog _ h)

theorem apart_amend (d : Desk σ) (x : Edit) (h : i ≠ j) : Apart j d (d.amend i x).1 := by
  unfold amend
  split
  · exact .refl j d
  · exact apart_edit d _ h

theorem apart_cancelRequest (hd : Orderly s b d) (h : d.requestOwner? r ≠ some j) :
    Apart j d (d.cancelRequest r).1 := by
  have hs := settles_cancelRequest (g := True) trivial ((hd r).mono fun _ => trivial)
  exact hs.beside.apart h (by rw [(still_cancelRequest (s := s) d r).aloof.dialogs])

/-- The requests of another dialog are cancelled with it. -/
theorem apart_closeDialog (hd : Orderly s b d) (h : i ≠ j) : Apart j d (d.closeDialog i) := by
  have hclosed : Orderly s (fun _ => True) d := hd.mono fun _ _ => trivial
  refine (closeDialog_induction
    (P := fun (e : Desk σ) => Orderly s (fun _ => True) e ∧ Apart j d e)
    ⟨hclosed.congr fun _ => rfl, apart_onDialog d h⟩ ?_).2
  rintro e r ⟨he, hapart⟩ hr
  have hother : e.requestOwner? r ≠ some j := fun hj => h (Option.some.inj (hr.symm.trans hj))
  exact ⟨he.settles (settles_cancelRequest trivial (he r)),
    hapart.trans (apart_cancelRequest he hother)⟩

theorem apart_closeCurrent (hd : Orderly s b d) (h : d.current ≠ some j) :
    Apart j d d.closeCurrent := by
  unfold closeCurrent
  split
  · rename_i i hi
    exact apart_closeDialog hd fun hij => h (hij ▸ hi)
  · exact .refl j d

/-! ## Errands -/

theorem apart_passTrust (d : Desk σ) (k : Nat) (owner : String) (h : i ≠ j) :
    Apart j d (passTrust s d k i owner) := by
  obtain ⟨m, hm, hanswered⟩ := passTrust_storeAnswered (s := s) d k i owner
  refine (hm.apart j).trans ?_
  cases hanswered with
  | refused hl => exact (apart_onDialog m h).alike hl.toAlike
  | granted _ hl => exact ((apart_ask m _ _ h).trans (apart_onDialog _ h)).alike hl.toAlike

theorem apart_beginTrust (d : Desk σ) (k : Nat) (h : i ≠ j) :
    Apart j d (beginTrust s d k i) := by
  unfold beginTrust
  split
  · exact (leaves_afterTrust d k i false none).apart j
  · rename_i owner _
    have hcalled : Apart j d (d.storeCalled i owner) :=
      (apart_onDialog d h).trans (apart_of rfl fun _ => rfl)
    dsimp only
    split
    · exact hcalled.alike (alike_onErrand _ k _)
    · exact hcalled.trans (apart_passTrust _ k owner h)

theorem apart_passRegister (hd : Orderly s b d) (k : Nat) (path : String) (h : i ≠ j) :
    Apart j d (passRegister s d k i path) := by
  have hworld := alike_world d (s.register [path] d.world).2
  unfold passRegister
  dsimp only
  split
  · exact (hworld.trans (alike_onErrand _ k _)).apart j
  · have hclose := (hworld.apart j).trans (apart_closeDialog (hd.congr hworld.post) h)
    refine Apart.alike ?_ (alike_onErrand _ k _)
    split
    · exact hclose.trans (apart_of rfl fun _ => rfl)
    · exact hclose

theorem apart_beginSubmit (hd : Orderly s b d) (k : Nat) (h : i ≠ j) :
    Apart j d (beginSubmit s d k i) := by
  have hnote (path : String) : Alike d (d.note (.register i [path])) := alike_note d rfl
  obtain ⟨x, hx⟩ | ⟨path, gate, hx⟩ | ⟨path, hx⟩ := beginSubmit_cases s d k i <;> rw [hx]
  · exact (alike_onErrand d k _).apart j
  · exact ((hnote path).trans (alike_onErrand _ k _)).apart j
  · exact ((hnote path).apart j).trans (apart_passRegister (hd.congr (hnote path).post) k path h)

theorem apart_onCurrent {go : Nat → Desk σ} (hc : d.current ≠ some j)
    (h : ∀ i, i ≠ j → Apart j d (go i)) : Apart j d (d.onCurrent k go) := by
  unfold onCurrent
  split
  · rename_i i hi
    exact h i fun hij => hc (hij ▸ hi)
  · exact (alike_onErrand d k _).apart j

/-- An operation that is for another dialog. A dialog that it opens is a new one. -/
theorem apart_beginErrand (hd : Orderly s b d) (hj : j < d.dialogs.length) (op : Operation)
    (h : op.owner? d.current ≠ some j) : Apart j d (beginErrand s d k op) := by
  have hend (x : Ending) : Apart j d (d.endErrand k x) := (alike_onErrand d k _).apart j
  have hedit (x : Edit) (op : Operation) (wait : Bool) (i : Nat) (hi : i ≠ j) :
      Apart j d ((d.amend i x).1.afterEdit k i op wait (d.amend i x).2) :=
    (apart_amend d x hi).alike (leaves_afterEdit _ k i op wait _).toAlike
  cases op with
  | trust i => exact apart_beginTrust d k fun hi => h (congrArg some hi)
  | submit i => exact apart_beginSubmit hd k fun hi => h (congrArg some hi)
  | openDialog path wait =>
    have hlen := closeCurrent_length s d
    have hclose := apart_closeCurrent hd h
    have hseat : Apart j d.closeCurrent (d.closeCurrent.seat path).1 :=
      apart_of (List.getElem?_append_left (hlen.symm ▸ hj)) fun _ => rfl
    have hnew : d.closeCurrent.dialogs.length ≠ j := Nat.ne_of_gt (hlen.symm ▸ hj)
    exact ((hclose.trans hseat).trans (apart_amend _ .openInitial hnew)).alike
      (leaves_afterEdit _ k _ _ wait _).toAlike
  | changePath path wait => exact apart_onCurrent h (hedit _ _ wait)
  | choosePath selected wait => exact apart_onCurrent h (hedit _ _ wait)
  | trustCurrent wait strict =>
    refine apart_onCurrent h fun i hi => ?_
    split
    · split
      · exact apart_beginTrust d k hi
      · exact hend _
    · exact apart_beginTrust d k hi
  | submitCurrent => exact apart_onCurrent h fun i hi => apart_beginSubmit hd k hi
  | look => exact apart_onCurrent h fun i _ => hend _
  | dismiss =>
    have hdismiss : Apart j d d.dismiss.1 :=
      (apart_closeCurrent hd h).trans (apart_of rfl fun _ => rfl)
    exact hdismiss.alike (alike_onErrand _ k _)
  | repositories => exact hend _
  | nothing => exact hend _

theorem apart_runErrand (hd : Orderly s b d) (hj : j < d.dialogs.length)
    (h : d.errandOwner? k ≠ some j) : Apart j d (runErrand s d k) := by
  have hother {x : Errand} {i : Nat} (hx : d.errands[k]? = some x)
      (hi : x.owner? d.current = some i) : i ≠ j := by
    rintro rfl
    exact h (by rw [errandOwner?, hx, Option.bind_some, hi])
  have hrun := errandRun s d k
  generalize runErrand s d k = e at hrun ⊢
  cases hrun with
  | absent hx => exact .refl j d
  | @begins op hx =>
    refine apart_beginErrand hd hj op fun hi => h ?_
    rw [errandOwner?, hx, Option.bind_some]
    exact hi
  | refused hx hp =>
    have hi := hother hx (by rw [Errand.owner?, hp])
    exact (apart_onDialog d hi).alike (alike_onErrand _ k _)
  | trusts hx hp => exact apart_passTrust d k _ (hother hx (by rw [Errand.owner?, hp]))
  | registers hx hp => exact apart_passRegister hd k _ (hother hx (by rw [Errand.owner?, hp]))
  | ends hx hp v => exact (alike_onErrand d k _).apart j
  | ended hx hp => exact .refl j d

theorem Runs.apart {m : Move σ} (h : Runs d m k e) (j : Nat) : Apart j d e :=
  apart_of (by rw [h.found.dialogs]) h.post

/-! ## Moves -/

/-- A job of another dialog is taken from the line. -/
theorem apart_pop {w : Job} {rest : List Job} (hnow : d.agenda.now = w :: rest)
    (h : d.jobOwner? w ≠ some j) :
    Apart j d { d with agenda := { d.agenda with now := rest } } where
  dialog := rfl
  posts r q hq hj := by
    have hother (hw : w = .request r ∨ w = .probe r) : False := by
      refine h ?_
      rcases hw with rfl | rfl <;> simp [jobOwner?, requestOwner?, hq, hj]
    have hr : w ≠ .request r := fun hw => hother (Or.inl hw)
    have hp : w ≠ .probe r := fun hw => hother (Or.inr hw)
    rw [post_pop hnow r, if_neg hr, if_neg hp]
    rfl
  requests _ _ hq _ := hq

/-- What is told of a request's end makes no difference to another dialog. -/
theorem apart_tellRequestEnded (d : Desk σ) (h : d.requestOwner? r ≠ some j) :
    Apart j d (d.tellRequestEnded r) := by
  have hmark : Beside r d (d.onRequest r fun q => { q with tracked := false }) :=
    beside_onRequest fun _ => rfl
  refine (hmark.apart h rfl).trans (apart_of ?_ (post_tellRequestEnded d r))
  rw [(backstage_tellRequestEnded d r).dialogs]
  rfl

/-- A step that is for another dialog. -/
theorem apart_step (hd : Orderly s b d) (hj : j < d.dialogs.length)
    (h : d.owner? (.step : Move σ) ≠ some j) : Apart j d (d.move s .step) := by
  cases hnow : d.agenda.now with
  | nil =>
    simp only [move, step, hnow]
    cases hnext : d.nextPass with
    | none => exact .refl j d
    | some e =>
      exact apart_of (by rw [Option.getD_some, (still_nextPass (s := s) hnext).aloof.dialogs])
        (post_nextPass hnow hnext)
  | cons w rest =>
    have hw : d.jobOwner? w ≠ some j := by simpa [owner?, hnow] using h
    have hpop := apart_pop hnow hw
    have hmove : d.move s .step = run s { d with agenda := { d.agenda with now := rest } } w := by
      simp only [move, step, hnow, Option.getD_some]
    rw [hmove]
    refine hpop.trans ?_
    have hpopped := hd.pop hnow
    cases w with
    | request r =>
      have hsettles := settles_runRequest (hd.sound_request hnow rfl)
      exact hsettles.beside.apart hw (dialog_runRequest hw)
    | probe r =>
      refine (settles_runProbe (hd.sound_probe hnow rfl)).beside.apart hw ?_
      exact congrArg (·[j]?) (still_runProbe (s := s) _ r).aloof.dialogs
    | probeEnded r =>
      have he := hpopped (fun _ => by simp)
      refine (settles_tellProbeEnded (he r)).beside.apart hw ?_
      exact congrArg (·[j]?) (aloof_tellProbeEnded _ r).dialogs
    | requestEnded r => exact apart_tellRequestEnded _ hw
    | limit r =>
      have he := hpopped (fun _ => by simp)
      refine (settles_tellLimit (he r)).beside.apart hw ?_
      exact congrArg (·[j]?) (still_tellLimit (s := s) _ r).aloof.dialogs
    | errand k => exact apart_runErrand (hpopped fun _ => by simp) hj hw

/-- **A move that is for another dialog leaves this one alone**, with its requests, their calls and
their places in line. -/
theorem apart_move (hd : Orderly s b d) (hj : j < d.dialogs.length) (m : Move σ)
    (h : d.owner? m ≠ some j) : Apart j d (d.move s m) := by
  cases m with
  | step => exact apart_step hd hj h
  | edit i x => exact apart_amend d x fun hi => h (congrArg some hi)
  | spawn op =>
    refine apart_of rfl fun r => ?_
    simp only [move, spawn, post_enqueue, reduceCtorEq, if_false, Nat.add_zero]
    rfl
  | perform op =>
    have hruns : Runs d (.perform op) d.errands.length _ := .atOnce op
    refine (hruns.apart j).trans (apart_runErrand (hd.congr hruns.post) hj ?_)
    simpa [errandOwner?, Errand.owner?, owner?] using h
  | close i => exact apart_closeDialog hd fun hi => h (congrArg some hi)
  | dismiss => exact (apart_closeCurrent hd h).trans (apart_of rfl fun _ => rfl)
  | answer c o =>
    cases hc : d.calls[c]? with
    | none => simpa only [move, answer, hc] using Apart.refl j d
    | some call =>
      obtain ⟨r, path, a⟩ := call
      have hr : d.requestOwner? r ≠ some j := by simpa [owner?, hc] using h
      cases a with
      | waiting =>
        have hsound : (d.post r).Sound s True := (hd r).mono fun _ => trivial
        have hs := settles_answer hc hsound o
        exact hs.beside.apart hr (by rw [(still_answer (s := s) d c o).aloof.dialogs])
      | answered x => simpa only [move, answer, hc] using Apart.refl j d
      | withdrawn => simpa only [move, answer, hc] using Apart.refl j d
  | openGate service gate =>
    exact apart_of (by rw [move, (backstage_openGate d service gate).dialogs])
      (post_openGate d service gate)
  | cancelRequest r => exact apart_cancelRequest hd h
  | cancelErrand k =>
    exact apart_of (by rw [move, (backstage_cancelErrand d k).dialogs]) (post_cancelErrand d k)
  | advance seconds => exact apart_of rfl fun _ => rfl
  | alter f => exact apart_of rfl fun _ => rfl

end Desk
end Admission
