import Admission.Proofs.Desk.Orderly

/-!
# No validation is lost

As long as an open dialog waits for an answer, its newest request is for the live path, and that
request is outstanding: no answer that was dropped was the one that the dialog waits for. Only a
request that fails, or that is cancelled by whoever holds it, leaves the dialog waiting.
-/
namespace Admission

/-- The path of a dialog is that of its last request, unless it is cleared. -/
def Dialog.Requested (x : Dialog) : Prop := x.path ≠ "" → x.requested = some x.path

theorem Dialog.Aside.requested_of {x y : Dialog} (h : x.Aside y) (hx : x.Requested) :
    y.Requested := by
  unfold Dialog.Requested
  rw [h.path, h.requested]
  exact hx

theorem Dialog.Requested.edit {x : Dialog} (h : x.Requested) (path : String) :
    (x.edit path).Requested := by
  unfold Dialog.edit
  split
  · exact h
  · split
    · exact fun hp => absurd rfl hp
    · exact fun _ => rfl

theorem Dialog.Requested.offer {x : Dialog} (h : x.Requested) (path : String) (a : Assessment)
    (number : Option Int) : (x.offer path a number).Requested := by
  unfold Dialog.offer
  split
  · exact h
  · exact h

theorem Dialog.Turn.requested {x y : Dialog} (h : x.Turn y) (hx : x.Requested) : y.Requested := by
  cases h with
  | aside h => exact h.requested_of hx
  | edited h => exact h.requested_of (hx.edit _)

namespace Desk

variable {σ : Type} {s : Setting σ} {d : Desk σ}

theorem Reachable.requested (h : Reachable s d) {i : Nat} {x : Dialog}
    (hx : d.dialogs[i]? = some x) : x.Requested := by
  obtain ⟨world, paths, ms, rfl⟩ := h
  induction ms using List.reverseRecOn generalizing i x with
  | nil =>
    have hx : (opening world paths).dialogs[i]? = some x := hx
    simp only [opening, List.getElem?_map, Option.map_eq_some_iff] at hx
    obtain ⟨path, -, rfl⟩ := hx
    exact fun hp => absurd rfl hp
  | append_singleton ms m ih =>
    rw [after_concat] at hx
    rcases answered_or_turned (s := s) ((opening world paths).after s ms) m with
      ⟨r, q, c, applied, ha⟩ | hturned
    · rw [ha.offered.1] at hx
      obtain ⟨y, hy, rfl⟩ := getElem?_modify_eq_some_iff.mp hx
      split
      · exact (ih hy).offer _ _ _
      · exact ih hy
    · obtain ⟨y, hy | ⟨-, path, rfl⟩, hturn⟩ := hturned hx
      · exact hturn.requested (ih hy)
      · exact hturn.requested fun hp => absurd rfl hp

/-- In the run `ms` from `d`, request `r`, which is `q` now, ended without an answer: there is no
canonical path, or the classifier failed, or it was cancelled by whoever holds it. -/
def EndedUnanswered (s : Setting σ) (d : Desk σ) (ms : List (Move σ)) (r : Nat) (q : Request) :
    Prop :=
  (∃ e, q.verdict? = some (.failed e) ∧ e.Raised s q.path (stateOf (d.after s ms).calls r)) ∨
    (q.verdict? = some .cancelled ∧ CancelledByHolder s d ms r)

/-- A request of a dialog that is open is outstanding, or it has been answered, or there is a reason
why not. -/
theorem answered_or_endedUnanswered (s : Setting σ) (world : σ) (paths : List String)
    (ms : List (Move σ)) {r : Nat} {q : Request} {x : Dialog}
    (hq : ((opening world paths).after s ms).requests[r]? = some q)
    (hx : ((opening world paths).after s ms).dialogs[q.dialog]? = some x) (ho : x.closed = false) :
    q.verdict? = none ∨ (∃ c applied, q.verdict? = some (.answered c applied)) ∨
      EndedUnanswered s (opening world paths) ms r q := by
  have hfits := (sound_iff_fits hq).mp (orderly_after s world paths ms r)
  cases hv : q.verdict? with
  | none => exact Or.inl rfl
  | some v =>
    have hstage := hfits.stage
    simp only [Request.Placed, stage_of_verdict hv] at hstage
    cases v with
    | answered c applied => exact Or.inr (Or.inl ⟨c, applied, rfl⟩)
    | failed e => exact Or.inr (Or.inr (Or.inl ⟨e, hv, hstage⟩))
    | cancelled =>
      rcases hstage with hheld | ⟨q', x', hq', hx', hc⟩
      · exact Or.inr (Or.inr (Or.inr ⟨hv, hheld⟩))
      · obtain rfl := Option.some.inj (hq.symm.trans hq')
        obtain rfl := Option.some.inj (hx.symm.trans hx')
        rw [ho] at hc
        cases hc

/-- On every run, an open dialog that waits for an answer has a path, its last request was for this
path, and this request is outstanding, unless it failed or was cancelled by whoever holds it. So no
open dialog waits once all its requests have been answered. -/
theorem no_lost_validation (s : Setting σ) (world : σ) (paths : List String) (ms : List (Move σ))
    {i : Nat} {x : Dialog} (hx : ((opening world paths).after s ms).dialogs[i]? = some x)
    (ho : x.closed = false) :
    (x.classification = .pending →
      x.path ≠ "" ∧ x.requested = some x.path ∧ ∃ (r : Nat) (q : Request),
        ((opening world paths).after s ms).requests[r]? = some q ∧ q.dialog = i ∧
        q.number = x.issued ∧
        (∀ (r' : Nat) (q' : Request), ((opening world paths).after s ms).requests[r']? = some q' →
          q'.dialog = i → q'.number = x.issued → r' = r) ∧
        q.path = x.path ∧
        (q.verdict? = none ∨ EndedUnanswered s (opening world paths) ms r q)) ∧
    ((∀ (r : Nat) (q : Request), ((opening world paths).after s ms).requests[r]? = some q →
      q.dialog = i → ∃ c applied, q.verdict? = some (.answered c applied)) →
      x.classification ≠ .pending) := by
  have hd := (reachable_opening (s := s) world paths).after ms
  have hb := hd.booked
  have ha := hb.agrees hx
  have hpath (hc : x.classification = .pending) : x.path ≠ "" := by
    intro hp
    rw [ha.blank.mp hp] at hc
    cases hc
  refine ⟨fun hc => ⟨hpath hc, hd.requested hx (hpath hc), ?_⟩, fun hall hc => ?_⟩
  · obtain ⟨r, l, hl, hdialog, hnumber, hlive, hanswer⟩ := ha.live ho (hpath hc)
    obtain ⟨q, hq, rfl⟩ := request_of_issue hl
    have hdialog : q.dialog = i := hdialog
    refine ⟨r, q, hq, hdialog, hnumber, fun r' q' hq' hd' hn' => ?_, hlive, ?_⟩
    · exact (InOrder.unique hb.ordered (issue_of_request hq') hl (hd'.trans hdialog.symm)
        (hn'.trans hnumber.symm)).1
    · rcases answered_or_endedUnanswered s world paths ms hq (hdialog ▸ hx) ho with
        hv | ⟨c, applied, hv⟩ | hended
      · exact Or.inl hv
      · have hsettled := (hanswer hv).2
        rw [hsettled] at hc
        cases hc
      · exact Or.inr hended
  · obtain ⟨r, l, hl, hdialog, -, -, hanswer⟩ := ha.live ho (hpath hc)
    obtain ⟨q, hq, rfl⟩ := request_of_issue hl
    obtain ⟨c, applied, hv⟩ := hall r q hq hdialog
    have hsettled := (hanswer hv).2
    rw [hsettled] at hc
    cases hc

/-- A request for a second path is cancelled by whoever holds it, and the first one is answered. -/
def cancelledSecond : List (Move Unit) :=
  [.edit 0 (.setPath "/a"), .step, .step, .edit 0 (.setPath "/b"), .step, .step, .cancelRequest 1,
    .answer 0 (.ok .valid), .step, .step, .step, .step]

/-- The dialog waits for the request that was cancelled; the answer for the first path is not the
one that it waits for. -/
theorem no_lost_validation_cancelled_second :
    ∃ x : Dialog, ((opening () [""]).after (patient "/root") cancelledSecond).dialogs[0]? = some x ∧
      x.classification = .pending ∧ x.requested = some "/b" ∧
      CancelledByHolder (patient "/root") (opening () [""]) cancelledSecond 1 := by
  have h := (no_lost_validation (patient "/root") () [""] cancelledSecond (i := 0) rfl rfl).1 rfl
  obtain ⟨-, hrequested, r, q, hq, -, hnumber, -, -, hended⟩ := h
  refine ⟨_, rfl, rfl, hrequested, ?_⟩
  match r with
  | 0 =>
    obtain rfl := Option.some.inj hq
    cases hnumber
  | 1 =>
    obtain rfl := Option.some.inj hq
    rcases hended with hv | ⟨e, hv, -⟩ | ⟨-, hheld⟩
    · cases hv
    · cases hv
    · exact hheld
  | r + 2 => cases hq

end Desk
end Admission
