import Admission.Proofs.Desk.Owners
import Admission.Proofs.Desk.Wakes

/-!
# No request is forgotten

Whatever is done to a desk, every request that has not ended keeps its turn. Only a request of a
dialog that is open may wait for the classifier or for the clock; one whose dialog is closed waits
for nobody outside. That a turn brings a request nearer to its end is not said here.
-/
namespace Admission
namespace Desk

variable {σ : Type} {s : Setting σ} {d e f : Desk σ} {b : Nat → Prop} {w : Prop} {i k r : Nat}

/-- The dialog of request `r` is open. -/
def OpenFor (d : Desk σ) (r : Nat) : Prop :=
  ∃ i x, d.requestOwner? r = some i ∧ d.dialogs[i]? = some x ∧ x.closed = false

/-- Dialogs that are open stay open. -/
def StayOpen (d e : Desk σ) : Prop :=
  ∀ ⦃i : Nat⦄ ⦃x : Dialog⦄, d.dialogs[i]? = some x → x.closed = false →
    ∃ y, e.dialogs[i]? = some y ∧ y.closed = false

/-- Every request has its turn; only for an open dialog may one wait for somebody outside. -/
def Wakeful (d : Desk σ) : Prop := ∀ r, Wakes (OpenFor d r) d r

theorem OpenFor.mono (h : OpenFor d r) (hr : e.requestOwner? r = d.requestOwner? r)
    (ho : StayOpen d e) : OpenFor e r := by
  obtain ⟨i, x, hi, hx, hopen⟩ := h
  obtain ⟨y, hy, hopen'⟩ := ho hx hopen
  exact ⟨i, y, hr.trans hi, hy, hopen'⟩

theorem StayOpen.trans (h : StayOpen d e) (h' : StayOpen e f) : StayOpen d f := by
  intro i x hx ho
  obtain ⟨y, hy, ho⟩ := h hx ho
  exact h' hy ho

theorem stayOpen_of (hd : e.dialogs = d.dialogs) : StayOpen d e :=
  fun _ x hx ho => ⟨x, hd ▸ hx, ho⟩

theorem stayOpen_onDialog (d : Desk σ) (i : Nat) {f : Dialog → Dialog}
    (hf : ∀ x : Dialog, (f x).closed = x.closed) : StayOpen d (d.onDialog i f) := by
  intro j x hx ho
  refine ⟨_, getElem?_modify_eq_some_iff.mpr ⟨x, hx, rfl⟩, ?_⟩
  split
  · rw [hf, ho]
  · exact ho

theorem AloofOrOffered.stayOpen (h : AloofOrOffered d e) : StayOpen d e := by
  rcases h with h | ⟨i, path, c, n, h⟩
  · exact stayOpen_of h.dialogs
  · exact (stayOpen_onDialog d i fun x => Dialog.closed_offer x _ _ _).trans (stayOpen_of h.dialogs)

/-- Nothing happens to requests. -/
theorem Wakeful.congr (h : Wakeful d) (hp : ∀ r, e.post r = d.post r)
    (hj : ∀ r, .probeEnded r ∈ d.agenda.jobs → .probeEnded r ∈ e.agenda.jobs)
    (ho : StayOpen d e) : Wakeful e := by
  intro r
  have howner : e.requestOwner? r = d.requestOwner? r :=
    congrArg (Option.map Request.dialog) (congrArg Post.request (hp r))
  exact ((h r).congr (hp r) (hj r)).mono fun hopen => hopen.mono howner ho

theorem Wakeful.alike (h : Wakeful d) (ha : Alike d e) : Wakeful e :=
  h.congr ha.post (fun _ hr => ha.agenda ▸ hr) (stayOpen_of ha.dialogs)

/-- One request is worked on. -/
theorem Wakeful.beside (h : ∀ r', r' ≠ r → Wakes (OpenFor d r') d r') (hb : Beside r d e)
    (hj : ∀ r', .probeEnded r' ∈ d.agenda.jobs → .probeEnded r' ∈ e.agenda.jobs)
    (ho : StayOpen d e) (hr : Wakes (OpenFor d r) e r) : Wakeful e := by
  intro r'
  refine Wakes.mono (fun hopen => OpenFor.mono hopen (hb.dialogs r') ho) ?_
  by_cases he : r' = r
  · rw [he]
    exact hr
  · exact (h r' he).congr (hb.others r' he) (hj r')

theorem Wakeful.onDialog (h : Wakeful d) (i : Nat) {f : Dialog → Dialog}
    (hf : ∀ x : Dialog, (f x).closed = x.closed) : Wakeful (d.onDialog i f) :=
  h.congr (fun _ => rfl) (fun _ hr => hr) (stayOpen_onDialog d i hf)

/-- A new request is in line, and its dialog is open. -/
theorem Wakeful.ask {x : Dialog} (h : Wakeful d) (hx : d.dialogs[i]? = some x) (path : String) :
    Wakeful (d.ask i x path).1 := by
  intro r q hq
  rcases requests_ask hq with hold | ⟨rfl, hasks, rfl⟩
  · have hr := (List.getElem?_eq_some_iff.mp hold).1
    have hpost := post_ask d i x path hr
    have howner : (d.ask i x path).1.requestOwner? r = d.requestOwner? r :=
      congrArg (Option.map Request.dialog) (congrArg Post.request hpost)
    refine (((h r).congr hpost (going_ask d i x path).jobs).mono fun hopen => ?_) q hq
    exact hopen.mono howner (stayOpen_of (dialogs_ask d i x path))
  · have hopen : x.closed = false := by
      simp only [Dialog.asks, Bool.and_eq_true, Bool.not_eq_true'] at hasks
      exact hasks.1
    refine ⟨?_, Or.inr ⟨i, x, ?_, (dialogs_ask d i x path).symm ▸ hx, hopen⟩⟩
    · simp [Desk.ask, hasks, post_enqueue]
    · rw [requestOwner?, hq]
      rfl

theorem Wakeful.edit (h : Wakeful d) (i : Nat) (path : String) : Wakeful (d.edit i path).1 := by
  unfold Desk.edit
  split
  · exact h
  · exact (h.ask ‹_› path).onDialog i fun x => Dialog.closed_edit x path

theorem Wakeful.amend (h : Wakeful d) (i : Nat) (x : Edit) : Wakeful (d.amend i x).1 := by
  unfold Desk.amend
  split
  · exact h
  · exact h.edit i _

/-- The requests of dialog `i` are cancelled, one after the other. -/
theorem wakes_cancelAll (l : List Nat) {e : Desk σ} (he : Orderly s (fun _ => True) e)
    (hw : ∀ r, e.requestOwner? r = some i → Wakes True e r) {r : Nat}
    (hr : e.requestOwner? r = some i) (hl : r ∈ l ∨ Wakes False e r) :
    Wakes False (l.foldl (fun d r =>
      if d.requests[r]?.any (·.dialog == i) then (d.cancelRequest r).1 else d) e) r := by
  induction l generalizing e with
  | nil => exact hl.resolve_left List.not_mem_nil
  | cons r' l ih =>
    rw [List.foldl_cons]
    have hs := settles_cancelRequest (g := True) trivial (he r')
    have hstay {w : Prop} {r₁ : Nat} (hne : r₁ ≠ r') (h : Wakes w e r₁) :
        Wakes w (e.cancelRequest r').1 r₁ :=
      h.congr (hs.beside.others r₁ hne) (going_cancelRequest e r').jobs
    split
    · rename_i hany
      have hr' : e.requestOwner? r' = some i := by
        cases hq : e.requests[r']? with
        | none => simp [hq] at hany
        | some q => simpa [requestOwner?, hq] using hany
      have hcancelled := wakes_cancelRequest (he r') (hw r' hr')
      refine ih (he.settles hs) (fun r₁ h₁ => ?_) ((hs.beside.dialogs r).trans hr) ?_
      · by_cases hne : r₁ = r'
        · rw [hne]
          exact hcancelled.mono False.elim
        · exact hstay hne (hw r₁ ((hs.beside.dialogs r₁).symm.trans h₁))
      · by_cases hne : r = r'
        · exact Or.inr (hne ▸ hcancelled)
        · refine hl.imp (fun hmem => ?_) (hstay hne)
          exact (List.mem_cons.mp hmem).resolve_left hne
    · rename_i hany
      refine ih he hw hr (hl.imp_left fun hmem => (List.mem_cons.mp hmem).resolve_left ?_)
      rintro rfl
      obtain ⟨q, hq, hdialog⟩ := Option.map_eq_some_iff.mp hr
      exact hany (by simp [hq, hdialog])

/-- With a dialog that is closed, its requests wait for nobody outside any more. -/
theorem Wakeful.closeDialog (h : Wakeful d) (hd : Orderly s b d) (i : Nat) :
    Wakeful (d.closeDialog i) := by
  intro r
  by_cases hr : d.requestOwner? r = some i
  · have hclosed : Orderly s (fun _ => True) (d.onDialog i Dialog.close) :=
      (hd.mono fun _ _ => trivial).congr fun _ => rfl
    refine (wakes_cancelAll _ hclosed (fun r _ => ?_) hr (Or.inl ?_)).mono False.elim
    · exact ((h r).mono fun _ => trivial).congr rfl id
    · obtain ⟨q, hq, -⟩ := Option.map_eq_some_iff.mp hr
      exact List.mem_range.mpr (List.getElem?_eq_some_iff.mp hq).1
  · have hpost := post_closeDialog hd hr
    have howner : (d.closeDialog i).requestOwner? r = d.requestOwner? r :=
      congrArg (Option.map Request.dialog) (congrArg Post.request hpost)
    refine ((h r).congr hpost (going_closeDialog d i).jobs).mono ?_
    rintro ⟨j, x, hj, hx, ho⟩
    have hij : i ≠ j := fun he => hr (he ▸ hj)
    refine ⟨j, x, howner.trans hj, ?_, ho⟩
    rw [dialogs_closeDialog s]
    simpa [hij] using hx

theorem Wakeful.closeCurrent (h : Wakeful d) (hd : Orderly s b d) : Wakeful d.closeCurrent := by
  unfold Desk.closeCurrent
  split
  · exact h.closeDialog hd _
  · exact h

theorem Wakeful.storeAnswered (h : Wakeful d) (ha : StoreAnswered k i d e) : Wakeful e := by
  cases ha with
  | refused hl => exact (h.onDialog i (f := Dialog.stopTrust) fun _ => rfl).alike hl.toAlike
  | granted hx hl =>
    refine Wakeful.alike ((h.ask hx _).onDialog i fun y => ?_) hl.toAlike
    exact Dialog.closed_edit y y.path

theorem Wakeful.deed (h : Wakeful d) (hd : Orderly s b d) (hdeed : Deed d k e) : Wakeful e := by
  have hstored (i : Nat) (owner : String) : Wakeful (d.storeCalled i owner) :=
    (h.onDialog i (f := Dialog.startTrust) fun _ => rfl).congr (fun _ => rfl) (fun _ hr => hr)
      (stayOpen_of rfl)
  cases hdeed with
  | plain _ hl => exact h.alike hl.toAlike
  | edited _ hl => exact (h.edit _ _).alike hl.toAlike
  | @opened e path _ hl =>
    have hseat : Wakeful (d.closeCurrent.seat path).1 :=
      (h.closeCurrent hd).congr (fun _ => rfl) (fun _ hr => hr) fun j x hx ho =>
        ⟨x, getElem?_concat_eq_some_iff.mpr (Or.inl hx), ho⟩
    exact (hseat.amend _ _).alike hl.toAlike
  | dismissed _ hl =>
    have hclose : Wakeful d.dismiss.1 :=
      (h.closeCurrent hd).congr (fun _ => rfl) (fun _ hr => hr) (stayOpen_of rfl)
    exact hclose.alike hl.toAlike
  | registered _ hm hl =>
    exact ((h.alike hm).closeDialog (hd.congr hm.post) _).alike hl.toAlike
  | @putAway m e i _ hm _ _ hl =>
    have hclose := (h.alike hm).closeDialog (hd.congr hm.post) i
    have hgone : Wakeful { m.closeDialog i with current := none } :=
      hclose.congr (fun _ => rfl) (fun _ hr => hr) (stayOpen_of rfl)
    exact hgone.alike hl.toAlike
  | storeCalled _ _ hl => exact (hstored _ _).alike hl
  | storeAnswered _ hm ha => exact (h.alike hm).storeAnswered ha
  | answeredAtOnce _ hm ha => exact ((hstored _ _).alike hm).storeAnswered ha

/-- A request is no longer looked after, and goes on as before. -/
theorem Wakeful.tellRequestEnded (h : Wakeful d) (r : Nat) : Wakeful (d.tellRequestEnded r) := by
  have hmark : Wakeful (d.onRequest r fun q => { q with tracked := false }) := by
    refine .beside (fun r' _ => h r') (beside_onRequest fun _ => rfl) (fun _ => id)
      (stayOpen_of rfl) ?_
    cases hq : d.requests[r]? with
    | none => exact wakes_of_none (by simp [onRequest, hq])
    | some q => exact wakes_onRequest hq (h r q hq)
  exact hmark.congr (post_tellRequestEnded d r)
    (fun r' => (going_tellRequestEnded d r).jobs (j := .probeEnded r'))
    (stayOpen_of (backstage_tellRequestEnded d r).dialogs)

/-! ## Moves -/

/-- A job does its work, and every request keeps its turn. -/
theorem wakeful_run {j : Job} {rest : List Job} (h : Wakeful d) (hd : Orderly s b d)
    (hnow : d.agenda.now = j :: rest) :
    Wakeful (run s { d with agenda := { d.agenda with now := rest } } j) := by
  obtain ⟨e, he⟩ : ∃ e, e = { d with agenda := { d.agenda with now := rest } } := ⟨_, rfl⟩
  rw [← he]
  have hopen {r : Nat} (ho : OpenFor d r) : OpenFor e r := by
    rw [he]
    exact ho
  have hwakes {r : Nat} {q : Request} (hq : e.requests[r]? = some q) :=
    ((h r).mono hopen).popped hnow he hq
  have horderly (hj : ∀ r, j ≠ .request r ∧ j ≠ .probe r) : Orderly s b e := he ▸ hd.pop hnow hj
  have hother {r : Nat} (hj : ∀ r', r' ≠ r → j ≠ .request r' ∧ j ≠ .probe r' ∧
      j ≠ .probeEnded r') (r' : Nat) (hr : r' ≠ r) : Wakes (OpenFor e r') e r' :=
    ((h r').mono hopen).pop hnow he (hj r' hr).1 (hj r' hr).2.1 (hj r' hr).2.2
  have hpopped (hj : ∀ r, j ≠ .request r ∧ j ≠ .probe r ∧ j ≠ .probeEnded r) : Wakeful e :=
    fun r => ((h r).mono hopen).pop hnow he (hj r).1 (hj r).2.1 (hj r).2.2
  have hjobs (r : Nat) := (goingBy_run (s := s) e j).jobs (j := .probeEnded r)
  cases j with
  | request r =>
    have hsound := hd.sound_request hnow he
    refine .beside (hother fun r' hr => by simp [Ne.symm hr]) (settles_runRequest hsound).beside
      hjobs (aloof_runRequest e r).stayOpen (wakes_runRequest (hsound.mono fun _ => trivial) ?_)
    intro q hq
    simpa using hwakes hq
  | probe r =>
    have hsound := hd.sound_probe hnow he
    have hstay : StayOpen e (runProbe s e r) := stayOpen_of (still_runProbe e r).aloof.dialogs
    refine .beside (hother fun r' hr => by simp [Ne.symm hr]) (settles_runProbe hsound).beside
      hjobs hstay (wakes_runProbe fun q hq => ?_)
    simpa using hwakes hq
  | probeEnded r =>
    have hsound := horderly (fun r' => by simp) r
    refine .beside (hother fun r' hr => by simp [Ne.symm hr]) (settles_tellProbeEnded hsound).beside
      hjobs (stayOpen_of (aloof_tellProbeEnded e r).dialogs) (wakes_tellProbeEnded fun q hq => ?_)
    simpa using (hwakes hq).mono id fun _ => trivial
  | requestEnded r => exact (hpopped fun r' => by simp).tellRequestEnded r
  | limit r =>
    have hwakeful := hpopped fun r' => by simp
    have hsettles := settles_tellLimit (horderly (fun r' => by simp) r)
    have hstay : StayOpen e (e.tellLimit r) :=
      stayOpen_of (still_tellLimit (s := s) e r).aloof.dialogs
    exact .beside (fun r' _ => hwakeful r') hsettles.beside hjobs hstay
      (wakes_tellLimit (hwakeful r))
  | errand k =>
    exact (hpopped fun r' => by simp).deed (horderly fun r' => by simp) (runErrand_deed e k)

theorem wakeful_step (h : Wakeful d) (hd : Orderly s b d) : Wakeful (d.move s .step) := by
  cases hnow : d.agenda.now with
  | nil =>
    simp only [move, step, hnow]
    cases hnext : d.nextPass with
    | none => exact h
    | some e =>
      obtain ⟨-, -, due, ha⟩ := nextPass_spec hnext
      refine h.congr (post_nextPass hnow hnext) (fun r hr => ?_)
        (stayOpen_of (still_nextPass (s := s) hnext).aloof.dialogs)
      simp only [Agenda.jobs, hnow, List.nil_append] at hr
      simp only [Option.getD_some, Agenda.jobs, ha]
      exact List.mem_append_left _ (List.mem_append_left _ hr)
  | cons j rest =>
    rw [move_step_of_now hnow]
    exact wakeful_run h hd hnow

/-- **Whatever is done to a desk, every request that has not ended keeps its turn.** -/
theorem wakeful_move (h : Wakeful d) (hd : Orderly s (fun _ => True) d) (m : Move σ) :
    Wakeful (d.move s m) := by
  cases m with
  | step => exact wakeful_step h hd
  | edit i x => exact h.amend i x
  | spawn op =>
    refine h.congr (fun r => ?_) (fun r hr => mem_jobs_enqueue.mpr (Or.inl hr)) (stayOpen_of rfl)
    simp only [move, spawn, post_enqueue, reduceCtorEq, if_false, Nat.add_zero]
    rfl
  | perform op =>
    have hruns : Runs d (.perform op) d.errands.length _ := .atOnce op
    exact (h.congr hruns.post (fun _ hr => hr) (stayOpen_of rfl)).deed (hd.congr hruns.post)
      (runErrand_deed _ _)
  | close i => exact h.closeDialog hd i
  | dismiss =>
    exact (h.closeCurrent hd).congr (fun _ => rfl) (fun _ hr => hr) (stayOpen_of rfl)
  | answer c o =>
    cases hc : d.calls[c]? with
    | none => simpa only [move, answer, hc] using h
    | some call =>
      obtain ⟨r, path, a⟩ := call
      cases a with
      | waiting =>
        exact .beside (fun r' _ => h r') (settles_answer hc (hd r) o).beside
          (fun _ => (going_answer d c o).jobs)
          (stayOpen_of (still_answer (s := s) d c o).aloof.dialogs) (wakes_answer hc (h r) o)
      | answered x => simpa only [move, answer, hc] using h
      | withdrawn => simpa only [move, answer, hc] using h
  | openGate service gate =>
    exact h.congr (post_openGate d service gate) (fun _ => (going_openGate d service gate).jobs)
      (stayOpen_of (backstage_openGate d service gate).dialogs)
  | cancelRequest r =>
    exact .beside (fun r' _ => h r') (settles_cancelRequest trivial (hd r)).beside
      (fun _ => (going_cancelRequest d r).jobs)
      (stayOpen_of (still_cancelRequest (s := s) d r).aloof.dialogs)
      ((wakes_cancelRequest (hd r) (h r)).mono False.elim)
  | cancelErrand k =>
    exact h.congr (post_cancelErrand d k) (fun _ => (going_cancelErrand d k).jobs)
      (stayOpen_of (backstage_cancelErrand d k).dialogs)
  | advance seconds => exact h.congr (fun _ => rfl) (fun _ hr => hr) (stayOpen_of rfl)
  | alter f => exact h.congr (fun _ => rfl) (fun _ hr => hr) (stayOpen_of rfl)

theorem Reachable.wakeful (h : Reachable s d) : Wakeful d := by
  obtain ⟨world, paths, ms, rfl⟩ := h
  induction ms using List.reverseRecOn with
  | nil => exact fun r => wakes_of_none rfl
  | append_singleton ms m ih =>
    rw [after_concat]
    exact wakeful_move ih ((reachable_opening world paths).after ms).orderly m

end Desk
end Admission
