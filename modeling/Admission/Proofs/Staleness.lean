import Admission.Proofs.Desk.Answers
import Admission.Proofs.Desk.Provenance

/-!
# No stale answer is shown

A settled classification is the answer for the live path of the request applied last, and that
answer came from the classifier or from the time limit. An answer for another path is dropped when
it comes. Only the warning may be an answer for an earlier path, as long as the live one has none.
-/
namespace Admission
namespace Desk

variable {σ : Type} {s : Setting σ} {d : Desk σ}

/-- Of all answers to requests of dialog `i`, which is `x`, it applied `c` last; the request is `r`,
which is `q`, and no other request has its number. -/
structure LastApplied (d : Desk σ) (i : Nat) (x : Dialog) (c : Classification) (r : Nat)
    (q : Request) : Prop where
  request : d.requests[r]? = some q
  dialog : q.dialog = i
  number : q.number = x.applied
  answer : q.verdict? = some (.answered c true)
  only : ∀ {r' : Nat} {q' : Request}, d.requests[r']? = some q' → q'.dialog = i →
    q'.number = x.applied → r' = r

theorem stage_of_verdict {q : Request} {v : Verdict} (h : q.verdict? = some v) :
    q.stage = .ended v := by
  unfold Request.verdict? at h
  split at h
  · rename_i w hw
    rw [hw, Option.some.inj h]
  · cases h

/-- The line of the ledger that a dialog's answer is from, read as a request. -/
theorem Booked.lastApplied (h : Booked d) {i r : Nat} {x : Dialog} {l : Issue}
    {c : Classification} (hl : d.issues[r]? = some l) (ha : l.IsApplied i c)
    (hn : l.number = x.applied) : ∃ q, LastApplied d i x c r q ∧ q.path = l.path := by
  obtain ⟨q, hq, rfl⟩ := request_of_issue hl
  refine ⟨q, ⟨hq, ha.1, hn, ha.2, fun {r' q'} hq' hd hn' => ?_⟩, rfl⟩
  exact (InOrder.unique h.ordered (issue_of_request hq') hl (hd.trans ha.1.symm)
    (hn'.trans hn.symm)).1

/-- An applied answer came from the classifier, for the canonical path, or from the limit. -/
theorem Backed.came (h : Backed s d) {r : Nat} {q : Request} {c : Classification} {applied : Bool}
    (hq : d.requests[r]? = some q) (hv : q.verdict? = some (.answered c applied)) :
    Came s d.calls r q.path q.probe c := by
  have hstage := h.stages hq
  rw [stage_of_verdict hv] at hstage
  exact hstage

/-- A settled classification is the answer of the request applied last, for the live path. -/
theorem Reachable.answer_of_settled (h : Reachable s d) {i : Nat} {x : Dialog}
    (hx : d.dialogs[i]? = some x) {c : Classification} (hc : x.classification = .settled c) :
    x.path ≠ "" ∧ ∃ (r : Nat) (q : Request),
      LastApplied d i x c r q ∧ q.path = x.path ∧ Came s d.calls r x.path q.probe c := by
  have hb := h.booked
  have ha := hb.agrees hx
  obtain ⟨-, r, l, hl, happlied, hnum, hpath⟩ := ha.shown hc
  obtain ⟨q, hlast, hq⟩ := hb.lastApplied hl happlied hnum
  have hqx : q.path = x.path := hq.trans hpath
  refine ⟨fun he => ?_, r, q, hlast, hqx, hqx ▸ h.backed.came hlast.request hlast.answer⟩
  rw [ha.blank.mp he] at hc
  cases hc

/-- On every run, what a dialog says of its path is the answer of the request applied last, and that
request was for just this path. The warning differs only while an answer is outstanding, and a
stale answer changes nothing. -/
theorem Reachable.no_stale_answer (h : Reachable s d) {i : Nat} {x : Dialog}
    (hx : d.dialogs[i]? = some x) :
    (∀ c, x.classification = .settled c → x.path ≠ "" ∧ ∃ (r : Nat) (q : Request),
      LastApplied d i x c r q ∧ q.path = x.path ∧ Came s d.calls r x.path q.probe c) ∧
    (∀ c, x.warning = .settled c → x.classification = .settled c ∨
      x.classification = .pending ∧ ∃ (r : Nat) (q : Request), LastApplied d i x c r q) ∧
    ∀ (m : Move σ) (r : Nat) (q : Request) (c : Classification) (applied : Bool),
      Answered s d m r q c applied → q.dialog = i → q.path ≠ x.path →
      applied = false ∧ (d.move s m).dialogs[i]? = some x := by
  have hb := h.booked
  have ha := hb.agrees hx
  refine ⟨fun c hc => h.answer_of_settled hx hc, fun c hw => ?_,
    fun m r q c applied hans hd hp => ?_⟩
  · cases hclass : x.classification with
    | blank =>
      rw [ha.cleared (ha.blank.mpr hclass)] at hw
      cases hw
    | settled c' =>
      have hw' := (ha.shown hclass).1
      rw [hw] at hw'
      exact Or.inl hw'.symm
    | pending =>
      rcases ha.warned with hblank | ⟨r, l, c', hl, happlied, hnum, hsettled⟩
      · rw [hblank] at hw
        cases hw
      · rw [hw] at hsettled
        cases hsettled
        obtain ⟨q, hlast, -⟩ := hb.lastApplied hl happlied hnum
        exact Or.inr ⟨rfl, r, q, hlast⟩
  · obtain ⟨happlied, hdialog⟩ := hans.dialog hx hd
    have hnot : applied = false := by
      rw [happlied, ← Bool.not_eq_true]
      exact fun hacc => hp ((Dialog.accepts_iff ..).mp hacc).2.1
    rw [hnot] at hdialog
    exact ⟨hnot, hdialog⟩

/-- The answer for a first path is applied, that for a second one comes when a third one is live. -/
def threePaths : List (Move Unit) :=
  [.edit 0 (.setPath "/a"), .step, .step, .answer 0 (.ok .bare), .step, .step,
    .edit 0 (.setPath "/b"), .step, .step, .step, .edit 0 (.setPath "/c"), .answer 1 (.ok .valid),
    .step, .step, .step]

/-- The desk after so many of these moves. -/
def afterPaths (n : Nat) : Desk Unit :=
  (opening () [""]).after (patient "/root") (threePaths.take n)

theorem reachable_afterPaths (n : Nat) : Reachable (patient "/root") (afterPaths n) :=
  (reachable_opening () [""]).after (threePaths.take n)

/-- The first answer is settled, then a warning, and the second one is dropped. -/
theorem no_stale_answer_three_paths :
    (∃ (r : Nat) (q : Request) (x : Dialog), (afterPaths 6).dialogs[0]? = some x ∧
      LastApplied (afterPaths 6) 0 x .bare r q ∧ q.path = "/a") ∧
    (∃ (r : Nat) (q : Request) (x : Dialog), (afterPaths 7).dialogs[0]? = some x ∧
      x.path = "/b" ∧ LastApplied (afterPaths 7) 0 x .bare r q) ∧
    (afterPaths 15).dialogs[0]? = (afterPaths 14).dialogs[0]? := by
  refine ⟨?_, ?_, ?_⟩
  · obtain ⟨-, r, q, hlast, hp, -⟩ :=
      ((reachable_afterPaths 6).no_stale_answer (i := 0) rfl).1 .bare rfl
    exact ⟨r, q, _, rfl, hlast, hp⟩
  · rcases ((reachable_afterPaths 7).no_stale_answer (i := 0) rfl).2.1 .bare rfl with
      hc | ⟨-, r, q, hlast⟩
    · cases hc
    · exact ⟨r, q, _, rfl, rfl, hlast⟩
  · exact (((reachable_afterPaths 14).no_stale_answer (i := 0) rfl).2.2 .step 1 _ .valid false
      ⟨rfl, rfl, _, rfl, rfl⟩ rfl (by decide)).2

/-- The warning is an answer for another path than the one shown. -/
theorem warning_for_another_path :
    ¬ ∀ (s : Setting Unit) (d : Desk Unit) (i : Nat) (shown : Snapshot) (c : Classification),
      Reachable s d → d.snapshot? i = some shown →
      shown.classification = .settled c ∨ shown.warning = .settled c →
      ∃ (r : Nat) (q : Request) (applied : Bool), d.requests[r]? = some q ∧ q.dialog = i ∧
        q.path = shown.path ∧ q.verdict? = some (.answered c applied) := by
  intro h
  obtain ⟨r, q, applied, hq, -, hp, hv⟩ :=
    h (patient "/root") _ 0 _ .bare (reachable_afterPaths 7) rfl (Or.inr rfl)
  match r with
  | 0 =>
    obtain rfl := Option.some.inj hq
    exact absurd hp (by decide)
  | 1 =>
    obtain rfl := Option.some.inj hq
    cases hv
  | r + 2 => cases hq

end Desk
end Admission
