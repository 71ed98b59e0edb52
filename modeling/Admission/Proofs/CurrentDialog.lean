import Admission.Proofs.Desk.Orderly
import Admission.Proofs.Submission

/-!
# The dialog that is shown

A desk that starts with no dialogs has one open dialog at most besides those that it has lost. It
loses a dialog in one way only: a submission that the registrar kept waiting is completed after
another dialog has taken the place of the one that was submitted. The desk then shows none, and the
other one is left open with its path and its requests.
-/
namespace Admission
namespace Desk

variable {σ : Type} {s : Setting σ} {d e : Desk σ} {k : Nat} {lost : Nat → Prop}

/-- Every open dialog is the one that is shown, but for those that are lost. -/
def OneShown (lost : Nat → Prop) (d : Desk σ) : Prop :=
  ∀ ⦃i : Nat⦄ ⦃x : Dialog⦄, d.dialogs[i]? = some x → x.closed = false →
    d.current = some i ∨ lost i

theorem OneShown.mono {lost' : Nat → Prop} (h : OneShown lost d) (hl : ∀ i, lost i → lost' i) :
    OneShown lost' d := fun _ _ hx ho => (h hx ho).imp_right (hl _)

theorem OneShown.congr (h : OneShown lost d) (hd : e.dialogs = d.dialogs)
    (hc : e.current = d.current) : OneShown lost e := by
  unfold OneShown
  rw [hd, hc]
  exact h

theorem OneShown.alike (h : OneShown lost d) (ha : Alike d e) : OneShown lost e :=
  h.congr ha.dialogs ha.current

theorem OneShown.backstage (h : OneShown lost d) (hb : Backstage d e) : OneShown lost e :=
  h.congr hb.dialogs hb.current

theorem OneShown.onDialog (h : OneShown lost d) (i : Nat) (f : Dialog → Dialog)
    (hf : ∀ x : Dialog, x.closed = true → (f x).closed = true) :
    OneShown lost (d.onDialog i f) := by
  intro j y hy ho
  obtain ⟨x, hx, rfl⟩ := getElem?_modify_eq_some_iff.mp hy
  refine h hx ?_
  by_contra hc
  have hc : x.closed = true := by simpa using hc
  split at ho
  · rw [hf x hc] at ho
    cases ho
  · rw [hc] at ho
    cases ho

theorem OneShown.closeDialog (s : Setting σ) (h : OneShown lost d) (i : Nat) :
    OneShown lost (d.closeDialog i) :=
  (h.onDialog i Dialog.close fun _ _ => rfl).backstage (backstage_closeDialog s d i)

/-- When a dialog is closed, any may be shown, if none is lost with that. -/
theorem OneShown.replaced {j : Nat} (h : OneShown lost d)
    (hj : ∀ i, d.current = some i → i ≠ j → lost i) (c : Option Nat) :
    OneShown lost { d.onDialog j Dialog.close with current := c } := by
  intro i y hy ho
  obtain ⟨x, hx, rfl⟩ := getElem?_modify_eq_some_iff.mp hy
  split at ho
  · cases ho
  · rename_i hne
    exact Or.inr ((h hx ho).elim (fun hi => hj i hi (Ne.symm hne)) id)

/-- Nothing is lost with the dialog that is shown. -/
theorem OneShown.putAway {i : Nat} (h : OneShown lost d) (hi : d.current = some i)
    (c : Option Nat) : OneShown lost { d.onDialog i Dialog.close with current := c } :=
  h.replaced (fun _ hj hne => absurd (Option.some.inj (hj.symm.trans hi)) hne) c

theorem OneShown.closeCurrent (s : Setting σ) (h : OneShown lost d) (c : Option Nat) :
    OneShown lost { d.closeCurrent with current := c } := by
  cases hi : d.current with
  | none =>
    simp only [Desk.closeCurrent, hi]
    intro i y hy ho
    rcases h hy ho with hj | hj
    · rw [hi] at hj
      cases hj
    · exact Or.inr hj
  | some i =>
    simp only [Desk.closeCurrent, hi]
    exact (h.putAway hi c).congr (dialogs_closeDialog s d i) rfl

/-- A new dialog is the one that is shown. -/
theorem OneShown.seat (h : OneShown lost { d with current := none }) (path : String) :
    OneShown lost (d.seat path).1 := by
  intro i y hy ho
  rcases getElem?_concat_eq_some_iff.mp hy with hy | ⟨rfl, -⟩
  · rcases h hy ho with hi | hi
    · cases hi
    · exact Or.inr hi
  · exact Or.inl rfl

theorem OneShown.edit (h : OneShown lost d) (i : Nat) (path : String) :
    OneShown lost (d.edit i path).1 := by
  have hedited := h.onDialog i (·.edit path) fun x hc => by rw [Dialog.closed_edit, hc]
  exact hedited.congr (aloof_edit d i path).dialogs (aloof_edit d i path).current

theorem OneShown.amend (h : OneShown lost d) (i : Nat) (x : Edit) :
    OneShown lost (d.amend i x).1 := by
  unfold Desk.amend
  split
  · exact h
  · exact h.edit i _

theorem OneShown.storeCalled (h : OneShown lost d) (i : Nat) (owner : String) :
    OneShown lost (d.storeCalled i owner) :=
  (h.onDialog i Dialog.startTrust fun _ hc => hc).congr rfl rfl

theorem OneShown.storeAnswered {i : Nat} (h : OneShown lost d) (ha : StoreAnswered k i d e) :
    OneShown lost e := by
  cases ha with
  | refused hl => exact (h.onDialog i Dialog.stopTrust fun _ hc => hc).alike hl.toAlike
  | @granted x _ hl =>
    have hask : OneShown lost (d.ask i x x.path).1 :=
      h.congr (aloof_ask d i x x.path).dialogs (aloof_ask d i x x.path).current
    refine OneShown.alike (hask.onDialog i Dialog.endTrust fun y hc => ?_) hl.toAlike
    exact (Dialog.closed_edit y y.path).trans hc

/-! ## Submissions that wait for the registrar -/

/-- Errand `k` is a submission that has been kept waiting by the registrar, for dialog `i`. -/
structure Suspended (d : Desk σ) (k i : Nat) : Prop where
  submits : d.errands[k]?.map Errand.operation = some .submitCurrent
  waits : ∃ target gate a, d.progress? k = some (.registering i target gate a)

/-- With move `m`, the submission ends with what the registrar has added. -/
structure Completes (s : Setting σ) (d : Desk σ) (m : Move σ) (k i : Nat) : Prop
    extends Suspended d k i where
  completed : ∃ handle, (d.move s m).progress? k = some (.ended (.gave (.added handle)))

/-- The registrar's answer to a submission of the dialog that is shown: if it has added the
repository, the dialog that was submitted is closed, and the desk shows none, whichever it
showed. -/
theorem passRegister_current {x : Errand} {i : Nat} (hx : d.errands[k]? = some x)
    (hop : x.operation = .submitCurrent) (path : String) :
    (∃ f, (s.register [path] d.world).1 = .error f ∧ Alike d (passRegister s d k i path)) ∨
      ∃ handles, (s.register [path] d.world).1 = .ok handles ∧ ∃ m, Alike d m ∧
        Alike { m.closeDialog i with current := none } (passRegister s d k i path) := by
  have hworld := alike_world d (s.register [path] d.world).2
  cases h : (s.register [path] d.world).1 with
  | error f =>
    rw [passRegister_of_error h]
    exact Or.inl ⟨f, rfl, hworld.trans (alike_onErrand _ k _)⟩
  | ok handles =>
    rw [passRegister_of_ok hx h, hop]
    exact Or.inr ⟨handles, rfl, _, hworld, alike_onErrand _ k _⟩

/-- What becomes of a submission that has been kept waiting: it fails, or the dialog is closed and
the desk shows none from then on. -/
theorem Suspended.runErrand {i : Nat} (h : Suspended d k i) :
    (Alike d (runErrand s d k) ∧ ((runErrand s d k).progress? k = some (.ended .cancelled) ∨
      ∃ error, (runErrand s d k).progress? k = some (.ended (.failed error)))) ∨
    (∃ m, Alike d m ∧ Alike { m.closeDialog i with current := none } (runErrand s d k) ∧
      ∃ handle, (runErrand s d k).progress? k = some (.ended (.gave (.added handle)))) := by
  obtain ⟨hop, target, gate, a, hp⟩ := h
  obtain ⟨x, hx, hp⟩ := Option.map_eq_some_iff.mp hp
  have hop : x.operation = .submitCurrent := by simpa [hx] using hop
  unfold Desk.runErrand
  rw [hx]
  simp only [hp]
  split
  · exact Or.inl ⟨alike_onErrand d k _, Or.inl (progress?_endErrand hx _)⟩
  · have hends := progress?_passRegister (s := s) (i := i) hx target
    rcases passRegister_current (s := s) (i := i) hx hop target with
      ⟨f, hf, ha⟩ | ⟨handles, hf, m, hm, ha⟩
    · rw [hf] at hends
      exact Or.inl ⟨ha, Or.inr ⟨_, hends⟩⟩
    · rw [hf] at hends
      exact Or.inr ⟨m, hm, ha, _, hends⟩

/-- A move that ends a submission that has been kept waiting lets it run. -/
theorem Suspended.runs {m : Move σ} {i : Nat} {v : Ending} (h : Suspended d k i)
    (hv : (d.move s m).progress? k = some (.ended v)) : ∃ e, Runs d m k e := by
  obtain ⟨target, gate, a, hp⟩ := h.waits
  obtain ⟨e, -, hruns, -⟩ := runs_of_registering hp hv
  exact ⟨e, hruns⟩

/-- A new errand has not been kept waiting. -/
theorem Runs.suspended {m : Move σ} (h : Runs d m k e) (i : Nat) :
    Suspended e k i ↔ Suspended d k i := by
  cases h with
  | inLine _ => exact ⟨fun h => ⟨h.submits, h.waits⟩, fun h => ⟨h.submits, h.waits⟩⟩
  | atOnce op =>
    constructor
    · rintro ⟨-, target, gate, a, hp⟩
      simp [progress?] at hp
    · rintro ⟨hsubmits, -⟩
      simp at hsubmits

/-- A submission that is completed closes its dialog, and the desk shows none. Other dialogs stay as
they are, and so do their requests. -/
theorem Completes.spec {m : Move σ} {i : Nat} {b : Nat → Prop} (h : Completes s d m k i)
    (hd : Orderly s b d) :
    (d.move s m).current = none ∧ (d.move s m).dialogs = d.dialogs.modify i Dialog.close ∧
      ∀ (r : Nat) (q : Request), d.requests[r]? = some q → q.dialog ≠ i →
        (d.move s m).post r = d.post r := by
  obtain ⟨hsuspended, handle, hends⟩ := h
  obtain ⟨e, hruns⟩ := hsuspended.runs hends
  rw [hruns.move] at hends ⊢
  rcases ((hruns.suspended i).mpr hsuspended).runErrand (s := s) with
    ⟨-, hc | ⟨error, hc⟩⟩ | ⟨n, hn, ha, -⟩
  · cases hc.symm.trans hends
  · cases hc.symm.trans hends
  · have hpost (r : Nat) : n.post r = d.post r := (hn.post r).trans (hruns.post r)
    refine ⟨ha.current, ?_, fun r q hq hne => ?_⟩
    · have hclosed := hn.dialogs_closeDialog s i
      rw [hruns.found.dialogs] at hclosed
      exact ha.dialogs.trans hclosed
    · have hother : n.requests[r]?.map Request.dialog ≠ some i := by
        rw [hn.requests, hruns.requests, hq]
        exact fun hi => hne (Option.some.inj hi)
      have hclosed := post_closeDialog (hd.congr hpost) hother
      exact (ha.post r).trans (hclosed.trans (hpost r))

/-- A submission that ends otherwise leaves all dialogs as they are. -/
theorem Suspended.dialogs_of_not_added {m : Move σ} {i : Nat} {v : Ending} (h : Suspended d k i)
    (hv : (d.move s m).progress? k = some (.ended v)) (hno : ∀ handle, v ≠ .gave (.added handle)) :
    (d.move s m).current = d.current ∧ (d.move s m).dialogs = d.dialogs := by
  obtain ⟨e, hruns⟩ := h.runs hv
  rw [hruns.move] at hv ⊢
  rcases ((hruns.suspended i).mpr h).runErrand (s := s) with ⟨ha, -⟩ | ⟨-, -, -, handle, hends⟩
  · exact ⟨ha.current.trans hruns.found.current, ha.dialogs.trans hruns.found.dialogs⟩
  · have hadded := Option.some.inj (hends.symm.trans hv)
    exact absurd (Progress.ended.inj hadded).symm (hno handle)

/-! ## Runs -/

/-- An errand that is no submission that has been kept waiting loses no dialog. -/
theorem OneShown.deed (s : Setting σ) (h : OneShown lost d) (hd : Deed d k e)
    (hk : ∀ i, ¬ Suspended d k i) : OneShown lost e := by
  cases hd with
  | plain _ hl => exact h.alike hl.toAlike
  | edited _ hl => exact (h.edit _ _).alike hl.toAlike
  | opened _ hl => exact (((h.closeCurrent s none).seat _).amend _ _).alike hl.toAlike
  | dismissed _ hl => exact (h.closeCurrent s none).alike hl.toAlike
  | registered _ hm hl => exact ((h.alike hm).closeDialog s _).alike hl.toAlike
  | @putAway m e i _ hm hop hi hl =>
    rcases hi with hi | hwaits
    · refine OneShown.alike ?_ hl.toAlike
      exact (h.putAway hi none).congr (hm.dialogs_closeDialog s i) rfl
    · exact absurd ⟨hop, hwaits⟩ (hk i)
  | storeCalled _ _ hl => exact (h.storeCalled _ _).alike hl
  | storeAnswered _ hm ha => exact (h.alike hm).storeAnswered ha
  | answeredAtOnce _ hm ha => exact ((h.storeCalled _ _).alike hm).storeAnswered ha

/-- A move loses the dialog that is shown, and only if it completes a submission of another one. -/
theorem OneShown.move (h : OneShown lost d) (m : Move σ)
    (hlost : ∀ k j i, Completes s d m k j → d.current = some i → i ≠ j → lost i) :
    OneShown lost (d.move s m) := by
  rcases runs_or_touch (s := s) d m with ⟨k, e, hruns⟩ | ht
  · have he := h.congr hruns.found.dialogs hruns.found.current
    by_cases hk : ∃ j, Suspended e k j
    · obtain ⟨j, hk⟩ := hk
      rcases hk.runErrand (s := s) with ⟨ha, -⟩ | ⟨n, hn, ha, hends⟩
      · rw [hruns.move]
        exact he.alike ha
      · have hcompletes : Completes s d m k j :=
          ⟨(hruns.suspended j).mp hk, by rw [hruns.move]; exact hends⟩
        have hcurrent : n.current = d.current := hn.current.trans hruns.found.current
        have hreplaced := (he.alike hn).replaced (j := j) (fun i hi =>
          hlost k j i hcompletes (hcurrent.symm.trans hi)) none
        have hclosed : OneShown lost { n.closeDialog j with current := none } :=
          hreplaced.congr (dialogs_closeDialog s n j) rfl
        rw [hruns.move]
        exact hclosed.alike ha
    · rw [hruns.move]
      exact he.deed s (runErrand_deed e k) fun i hi => hk ⟨i, hi⟩
  · cases ht with
    | none hb => exact h.backstage hb
    | edited hb => exact (h.onDialog _ _ fun x hc => by rw [Dialog.closed_edit, hc]).backstage hb
    | answered _ hb =>
      exact (h.onDialog _ _ fun x hc => by rw [Dialog.closed_offer, hc]).backstage hb
    | closed hb => exact (h.onDialog _ _ fun _ _ => rfl).backstage hb
    | dismissed hi hb => exact (h.putAway hi none).backstage hb

/-- In the run `ms` from `d`, a submission of another dialog was completed while dialog `i` was
shown. -/
def Overtaken (s : Setting σ) (d : Desk σ) (ms : List (Move σ)) (i : Nat) : Prop :=
  ∃ (before later : List (Move σ)) (m : Move σ) (k j : Nat), ms = before ++ m :: later ∧
    (d.after s before).current = some i ∧ i ≠ j ∧ Completes s (d.after s before) m k j

theorem Overtaken.concat {ms : List (Move σ)} {i : Nat} (h : Overtaken s d ms i) (m : Move σ) :
    Overtaken s d (ms ++ [m]) i := by
  obtain ⟨before, later, m', k, j, rfl, hrest⟩ := h
  exact ⟨before, later ++ [m], m', k, j, by simp, hrest⟩

theorem oneShown_after (s : Setting σ) (world : σ) (ms : List (Move σ)) :
    OneShown (Overtaken s (opening world []) ms) ((opening world []).after s ms) := by
  induction ms using List.reverseRecOn with
  | nil =>
    intro i x hx
    cases hx
  | append_singleton ms m ih =>
    rw [after_concat]
    refine (ih.mono fun i hi => hi.concat m).move m fun k j i hc hi hne => ?_
    exact ⟨ms, [], m, k, j, rfl, hi, hne, hc⟩

/-- On every run of a desk that starts without dialogs, each open dialog is the one that is shown,
or it was shown when a submission of another dialog was completed. A submission that the registrar
kept waiting closes its dialog when it is completed, and the desk then shows none, whichever it
showed; the other dialogs and their requests stay as they are. One that ends otherwise changes no
dialog. -/
theorem open_dialog_shown_or_overtaken (s : Setting σ) (world : σ) (ms : List (Move σ)) :
    (∀ (i : Nat) (x : Dialog), ((opening world []).after s ms).dialogs[i]? = some x →
      x.closed = false → ((opening world []).after s ms).current = some i ∨
        Overtaken s (opening world []) ms i) ∧
    ∀ (m : Move σ) (k i : Nat) (d e : Desk σ), d = (opening world []).after s ms →
      e = d.move s m → Suspended d k i →
      (∀ handle, e.progress? k = some (.ended (.gave (.added handle))) →
        e.current = none ∧ e.dialogs = d.dialogs.modify i Dialog.close ∧
          ∀ (r : Nat) (q : Request), d.requests[r]? = some q → q.dialog ≠ i →
            e.post r = d.post r) ∧
      ∀ v, e.progress? k = some (.ended v) → (∀ handle, v ≠ .gave (.added handle)) →
        e.current = d.current ∧ e.dialogs = d.dialogs := by
  refine ⟨fun i x hx ho => oneShown_after s world ms hx ho, ?_⟩
  rintro m k i d e rfl rfl hsuspended
  refine ⟨fun handle hends => ?_, fun v hv hno => hsuspended.dialogs_of_not_added hv hno⟩
  exact Completes.spec ⟨hsuspended, handle, hends⟩ (orderly_after s world [] ms)

/-- The registrar keeps a submission waiting, another dialog is opened, and the gate opens. -/
def slowSubmission : List (Move Unit) :=
  [.perform (.openDialog "/a" false), .step, .step, .answer 0 (.ok .valid), .step, .step,
    .perform .submitCurrent, .perform (.openDialog "/b" false), .openGate .registrar 0,
    .step, .step, .step]

theorem suspended_slowSubmission :
    Suspended ((opening () []).after gated slowSubmission) 1 0 where
  submits := rfl
  waits := ⟨"/a", 0, .given, rfl⟩

/-- With the next step the desk shows none, and the other dialog is open; its request stays as it
was. -/
theorem open_dialog_shown_or_overtaken_slow :
    Overtaken gated (opening () []) (slowSubmission ++ [.step]) 1 ∧
    ((opening () []).after gated (slowSubmission ++ [.step])).current = none ∧
    ((opening () []).after gated (slowSubmission ++ [.step])).post 1 =
      ((opening () []).after gated slowSubmission).post 1 := by
  have h := (open_dialog_shown_or_overtaken gated () (slowSubmission ++ [.step])).1 1 _ rfl rfl
  have hends := ((open_dialog_shown_or_overtaken gated () slowSubmission).2 .step 1 0 _ _ rfl rfl
    suspended_slowSubmission).1 (some "/a") rfl
  obtain ⟨hnone, -, hpost⟩ := hends
  refine ⟨h.resolve_left ?_, hnone, hpost 1 _ rfl ?_⟩
  · nofun
  · decide

/-- An open dialog is not always shown, and a submission that is completed may find another one
shown. -/
theorem open_dialog_lost :
    (¬ ∀ (ms : List (Move Unit)) (i : Nat) (x : Dialog),
      ((opening () []).after gated ms).dialogs[i]? = some x → x.closed = false →
      ((opening () []).after gated ms).current = some i) ∧
    ¬ ∀ (ms : List (Move Unit)) (m : Move Unit) (k i : Nat),
      Completes gated ((opening () []).after gated ms) m k i →
      (((opening () []).after gated ms).move gated m).current = none →
      ((opening () []).after gated ms).current = some i := by
  constructor
  · intro h
    cases h (slowSubmission ++ [.step]) 1 _ rfl rfl
  · intro h
    cases h slowSubmission .step 1 0 ⟨suspended_slowSubmission, some "/a", rfl⟩ rfl

end Desk
end Admission
