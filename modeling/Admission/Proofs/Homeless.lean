import Admission.Proofs.Desk.Rest
import Admission.Proofs.Path.FixedPoints
import Admission.Proofs.SubmissionOutcomes

/-!
# Paths that need an unknown home directory

A request sets out only for a canonical path. One that has none fails with its first run, and the
classifier does not hear of it; so a dialog at such a path waits for good. Everything else that a
dialog does is done with an answer on show, which there is for canonical paths only.
-/
namespace Admission

/-- Whether a request has set out, and has not ended without an answer. -/
def Stage.hasSetOut : Stage → Bool
  | .created | .ended (.failed _) | .ended .cancelled => false
  | _ => true

namespace Desk

variable {σ : Type} {s : Setting σ} {d e : Desk σ}

/-- Every request that has set out has a canonical path. -/
def Placed (s : Setting σ) (d : Desk σ) : Prop :=
  ∀ ⦃r : Nat⦄ ⦃q : Request⦄, d.requests[r]? = some q → q.stage.hasSetOut = true →
    ∃ p, Path.canonical s.home q.path = some p

theorem Placed.congr (h : Placed s d) (hr : e.requests = d.requests) : Placed s e :=
  fun _ _ hq => h (hr ▸ hq)

theorem Placed.modify (h : Placed s d) {r : Nat} {f : Request → Request}
    (he : e.requests = d.requests.modify r f)
    (hf : ∀ q, d.requests[r]? = some q → (f q).path = q.path ∧ ((f q).stage.hasSetOut = true →
      q.stage.hasSetOut = true ∨ ∃ p, Path.canonical s.home q.path = some p)) :
    Placed s e := by
  intro r' q' hq' hout
  rw [he] at hq'
  obtain ⟨q, hq, rfl⟩ := getElem?_modify_eq_some_iff.mp hq'
  split at hout
  · rename_i he
    subst he
    obtain ⟨hpath, hreached⟩ := hf q hq
    rw [if_pos rfl, hpath]
    exact (hreached hout).elim (h hq) id
  · rename_i he
    rw [if_neg he]
    exact h hq hout

theorem Placed.ask (h : Placed s d) (i : Nat) (x : Dialog) (path : String) :
    Placed s (d.ask i x path).1 := by
  intro r q hq hout
  rcases requests_ask hq with hold | ⟨-, -, rfl⟩
  · exact h hold hout
  · cases hout

/-- A request sets out for its canonical path. -/
theorem Pace.hasSetOut {r : Nat} {q q' : Request} (h : Pace s d r q q') :
    q'.path = q.path ∧ (q'.stage.hasSetOut = true →
      q.stage.hasSetOut = true ∨ ∃ p, Path.canonical s.home q.path = some p) := by
  cases h with
  | marked => exact ⟨rfl, .inl⟩
  | called _ _ hp _ => exact ⟨rfl, fun _ => .inr ⟨_, hp⟩⟩
  | raced _ _ hp => exact ⟨rfl, fun _ => .inr ⟨_, hp⟩⟩
  | expired _ _ hp => exact ⟨rfl, fun _ => .inr ⟨_, hp⟩⟩
  | signalled _ hs => exact ⟨rfl, fun _ => .inl (by rw [hs]; rfl)⟩
  | withdrew _ hs => exact ⟨rfl, fun _ => .inl (by rw [hs]; rfl)⟩
  | stopped hs => exact ⟨rfl, fun _ => .inl (by rw [hs]; rfl)⟩
  | probed => exact ⟨rfl, .inl⟩
  | @ended v hv _ =>
    refine ⟨rfl, fun hout => ?_⟩
    cases v with
    | answered c applied => cases hv
    | _ => cases hout

theorem Placed.tellProbeEnded (h : Placed s d) (r : Nat) : Placed s (d.tellProbeEnded r) := by
  unfold Desk.tellProbeEnded
  split
  · rename_i hs
    refine h.modify rfl fun q hq => ⟨rfl, fun _ => .inl ?_⟩
    rw [hq] at hs
    rw [Option.some.inj hs]
    rfl
  · rename_i hs
    refine h.modify rfl fun q hq => ⟨rfl, fun _ => .inl ?_⟩
    rw [hq] at hs
    rw [Option.some.inj hs]
    rfl
  · exact h

/-- What is concluded has set out before, unless it is answered at once. -/
theorem Due.placed {r : Nat} {q : Request} {o : Except Failure Classification}
    (ho : Due s d r q o) :
    q.stage.hasSetOut = true ∨ ∃ p, Path.canonical s.home q.path = some p := by
  cases ho with
  | atOnce _ _ hp _ => exact .inr ⟨_, hp⟩
  | called hs _ => exact .inl (by rw [hs]; rfl)
  | found hs _ =>
    refine .inl ?_
    cases hstage : q.stage <;> simp_all [Stage.isTimed, Stage.hasSetOut]
  | late hs _ => exact .inl (by rw [hs]; rfl)

theorem Placed.conclude (h : Placed s d) {r : Nat} {q : Request}
    {o : Except Failure Classification} (hq : d.requests[r]? = some q) (ho : Due s d r q o) :
    Placed s (conclude s d r o) := by
  have hend (e : Desk σ) (he : e.requests = d.requests) (v : Verdict) :
      Placed s (e.endRequest r v) := by
    refine (h.congr he).modify rfl fun q' hq' => ⟨rfl, fun _ => ?_⟩
    obtain rfl := Option.some.inj (hq.symm.trans (he ▸ hq'))
    exact ho.placed
  unfold Desk.conclude
  split
  · exact h
  · exact hend d rfl _
  · exact hend _ rfl _

theorem Placed.change (hc : Change s d e) (h : Placed s d) : Placed s e := by
  cases hc with
  | around _ hr => exact h.congr hr
  | seat path => exact h
  | aside i _ => exact h
  | edit i path =>
    unfold Desk.edit
    split
    · exact h
    · exact h.ask i _ path
  | endTrust _ => exact h.ask _ _ _
  | call => exact h
  | endCall => exact h
  | pace hf => exact h.modify rfl fun q hq => (hf q hq).hasSetOut
  | endProbe => exact h.modify rfl fun q _ => ⟨rfl, .inl⟩
  | probeTold _ =>
    refine Placed.tellProbeEnded ?_ _
    exact h.congr rfl

theorem Reachable.placed (h : Reachable s d) : Placed s d :=
  h.invariant (fun _ _ _ _ hq => nomatch hq) (fun hc hp => hp.change hc)
    fun hq ho hp => hp.conclude hq ho

/-! ## Requests without canonical path -/

variable {r i k : Nat} {q : Request} {x : Dialog}

/-- A request that fails for want of a home directory has no canonical path. -/
theorem canonical_of_homeUnknown (hd : Orderly s (fun _ => True) d) (hq : d.requests[r]? = some q)
    (hv : q.verdict? = some (.failed .homeUnknown)) : Path.canonical s.home q.path = none := by
  have hstage := ((sound_iff_fits hq).mp (hd r)).stage
  simp only [Request.Placed, stage_of_verdict hv] at hstage
  rcases hstage with ⟨-, hnone⟩ | ⟨c, f, he, -⟩
  · exact hnone
  · cases he

/-- Without canonical path a request calls no classifier. -/
theorem Reachable.no_call (hd : Reachable s d) (hq : d.requests[r]? = some q)
    (hnone : Path.canonical s.home q.path = none) {c : Nat} {call : Call}
    (hc : d.calls[c]? = some call) : call.request ≠ r := by
  rintro rfl
  obtain ⟨q', hq', hp⟩ := hd.backed.calls hc
  obtain rfl := Option.some.inj (hq.symm.trans hq')
  cases hnone.symm.trans hp

/-- Without canonical path a request fails with its first run, unless it has been given up. -/
theorem pathless_request (world : σ) (paths : List String) (ms : List (Move σ))
    (hq : ((opening world paths).after s ms).requests[r]? = some q)
    (hnone : Path.canonical s.home q.path = none) :
    q.stage = .created ∨ q.verdict? = some (.failed .homeUnknown) ∨
      q.verdict? = some .cancelled ∧ GivenUp s (opening world paths) ms r := by
  have hd := (reachable_opening (s := s) world paths).after ms
  have hout : q.stage.hasSetOut ≠ true := by
    intro hout
    obtain ⟨p, hp⟩ := hd.placed hq hout
    cases hnone.symm.trans hp
  have hstage := ((sound_iff_fits hq).mp (orderly_after s world paths ms r)).stage
  unfold Request.Placed at hstage
  split at hstage
  · rename_i hs
    exact .inl hs
  · rename_i hs
    exact absurd (by rw [hs]; rfl) hout
  · rename_i hs
    exact absurd (by rw [hs]; rfl) hout
  · rename_i hs
    exact absurd (by rw [hs]; rfl) hout
  · rename_i v hs
    have hv : q.verdict? = some v := by rw [Request.verdict?, hs]
    cases v with
    | answered c applied => exact absurd (by rw [hs]; rfl) hout
    | cancelled => exact .inr (.inr ⟨hv, hstage⟩)
    | failed error =>
      rcases hstage with ⟨rfl, -⟩ | ⟨c, f, rfl, hc⟩
      · exact .inr (.inl hv)
      · obtain ⟨path, hcall⟩ := stateOf_eq_some_iff.mp hc
        exact absurd rfl (hd.no_call hq hnone hcall)

/-- What a dialog says of its path was found at the canonical one. -/
theorem Reachable.canonical_of_settled (hd : Reachable s d) (hx : d.dialogs[i]? = some x)
    {c : Classification} (hc : x.classification = .settled c) :
    x.path ≠ "" ∧ ∃ p, Path.canonical s.home x.path = some p := by
  obtain ⟨hp, r, q, hlast, hqx, -⟩ := hd.answer_of_settled hx hc
  obtain ⟨p, hp'⟩ := hd.placed hlast.request (by rw [stage_of_verdict hlast.answer]; rfl)
  exact ⟨hp, p, hqx ▸ hp'⟩

/-- A path without canonical one is never classified. -/
theorem Reachable.pending_of_pathless (hd : Reachable s d) (hx : d.dialogs[i]? = some x)
    (hp : x.path ≠ "") (hnone : Path.canonical s.home x.path = none) :
    x.classification = .pending := by
  cases hc : x.classification with
  | blank => exact absurd ((hd.booked.agrees hx).blank.mpr hc) hp
  | pending => rfl
  | settled c =>
    obtain ⟨-, p, hp'⟩ := hd.canonical_of_settled hx hc
    cases hnone.symm.trans hp'

/-- A submission does not fail for want of a home directory. -/
theorem SetsOut.not_homeUnknown {m : Move σ} (hd : Reachable s d) (h : SetsOut d m k i e)
    (ms : List (Move σ)) :
    (d.after s (m :: ms)).progress? k ≠ some (.ended (.failed .homeUnknown)) := by
  have hended {v : Ending} (hv : (d.move s m).progress? k = some (.ended v))
      (hne : v ≠ .failed .homeUnknown) :
      (d.after s (m :: ms)).progress? k ≠ some (.ended (.failed .homeUnknown)) := by
    intro hk
    have hafter : (d.after s (m :: ms)).progress? k = some (.ended v) :=
      progress?_after_of_ended hv ms
    rw [hafter] at hk
    exact hne (Progress.ended.inj (Option.some.inj hk))
  cases hx : d.dialogs[i]? with
  | none =>
    obtain ⟨op, hop, -⟩ := h.2
    refine hended (v := .failed .noDialog) ?_ (by simp)
    have hshown : e.snapshot? i = none := by simp [snapshot?, h.1.found.dialogs, hx]
    rw [h.move, beginSubmit, hshown]
    exact progress?_endErrand hop _
  | some x =>
    rcases h.spec (s := s) hx with ⟨-, -, hv⟩ | ⟨hcan, -, -, hnone⟩ | ⟨-, target, -, -, hr⟩
    · exact hended hv (by simp)
    · obtain ⟨target, htarget⟩ := hd.canonical_of_valid hx ((Snapshot.canSubmit_iff _).mp hcan).2
      cases hnone.symm.trans htarget
    · rcases hr.after ms with ⟨gate, a, hk⟩ | hk | ⟨before, n, later, -, -, hk⟩
      · simp [hk]
      · simp [hk]
      · rw [hk]
        cases (s.register [target] (d.after s before).world).1 <;> simp [Ending.registered]

/-- **A text without canonical path is never classified.** A text has none just if it starts with the
home shorthand and the text of the variable starts with a tilde; every other text has an absolute
one. On every run a request without canonical path makes no call, and unless it is given up it fails
with its first run because the home directory is unknown, which no other request does. A dialog at
such a path waits, whatever happens, until it comes to another one. A submission does not fail for
this, and where a missing path is shown there is a place at which it could be created. -/
theorem unknown_home_leaves_pending (s : Setting σ) :
    (∀ raw : String, (Path.canonical s.home raw = none ↔
        Path.NeedsHome raw ∧ s.home.toList.head? = some '~') ∧
      ∀ p, Path.canonical s.home raw = some p → Path.IsCanonical p) ∧
    ∀ (world : σ) (paths : List String) (ms : List (Move σ)) (d : Desk σ),
      d = (opening world paths).after s ms →
      (∀ (r : Nat) (q : Request), d.requests[r]? = some q →
        (q.verdict? = some (.failed .homeUnknown) → Path.canonical s.home q.path = none) ∧
        (Path.canonical s.home q.path = none →
          (∀ (c : Nat) (call : Call), d.calls[c]? = some call → call.request ≠ r) ∧
          (d.step s = none → q.stage ≠ .created) ∧
          (q.stage = .created ∨ q.verdict? = some (.failed .homeUnknown) ∨
            q.verdict? = some .cancelled ∧ GivenUp s (opening world paths) ms r))) ∧
      (∀ (i : Nat) (x : Dialog), d.dialogs[i]? = some x → x.path ≠ "" →
        (Path.canonical s.home x.path = none → x.classification = .pending) ∧
        (x.classification = .settled .missing →
          ∃ p, x.creationTarget? s.home = some p ∧ Path.IsCanonical p)) ∧
      ∀ (m : Move σ) (k i : Nat) (e : Desk σ), SetsOut d m k i e → ∀ later : List (Move σ),
        (d.after s (m :: later)).progress? k ≠ some (.ended (.failed .homeUnknown)) := by
  refine ⟨fun raw => ⟨Path.canonical_eq_none_iff, fun p => Path.isCanonical_of_canonical⟩, ?_⟩
  rintro world paths ms d rfl
  have hd := (reachable_opening (s := s) world paths).after ms
  refine ⟨fun r q hq => ⟨canonical_of_homeUnknown hd.orderly hq, fun hnone => ⟨fun c call hc => ?_,
    fun hrest => hd.not_created_of_rest hrest hq, pathless_request world paths ms hq hnone⟩⟩,
    fun i x hx hp => ⟨hd.pending_of_pathless hx hp, fun hc => ?_⟩,
    fun m k i e hout later => hout.not_homeUnknown hd later⟩
  · exact hd.no_call hq hnone hc
  · obtain ⟨-, p, htarget⟩ := hd.canonical_of_settled hx hc
    refine ⟨p, ?_, Path.isCanonical_of_canonical htarget⟩
    rw [Dialog.creationTarget?, if_pos ⟨hp, hc⟩, htarget]

/-- A path with the home shorthand is typed where the variable's text starts with a tilde. -/
def strayShorthand : List (Move Unit) := [.edit 0 (.setPath "~/a"), .step, .step, .step, .step]

/-- There is no absolute path for the text; the request has failed, nothing is left to do, and the
open dialog waits. -/
theorem shorthand_never_classified :
    Path.canonical "~x" "~/a" = none ∧
    ((opening () [""]).after (patient "~x") strayShorthand).step (patient "~x") = none ∧
    ∃ (x : Dialog) (q : Request),
      ((opening () [""]).after (patient "~x") strayShorthand).dialogs[0]? = some x ∧
      ((opening () [""]).after (patient "~x") strayShorthand).requests[0]? = some q ∧
      x.closed = false ∧ x.classification = .pending ∧
      q.verdict? = some (.failed .homeUnknown) :=
  ⟨by decide, rfl, _, _, rfl, rfl, rfl, rfl, rfl⟩

/-- The same dialog, by what is true of every run. -/
theorem unknown_home_leaves_pending_shorthand :
    ∃ x : Dialog, ((opening () [""]).after (patient "~x") strayShorthand).dialogs[0]? = some x ∧
      x.path = "~/a" ∧ Path.canonical "~x" x.path = none ∧ x.classification = .pending := by
  have hnone : Path.canonical "~x" "~/a" = none := by decide
  have h := (unknown_home_leaves_pending (patient "~x")).2 () [""] strayShorthand _ rfl
  exact ⟨_, rfl, rfl, hnone, (h.2.1 0 _ rfl (by decide)).1 hnone⟩

end Desk
end Admission
