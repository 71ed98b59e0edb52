import Admission.Proofs.Desk.Gates
import Admission.Proofs.Trust

/-!
# What comes of a call of the trust store

An errand that has called the trust store for a dialog is through with it after one job, whatever
became of the dialog meanwhile. Where trust is granted, the desk is as if the user had set the live
path once more; where the store fails, or the errand has been cancelled, the dialog is not being
trusted any more, and nothing else has changed. When the store answers is not said.
-/
namespace Admission

/-- How an errand goes on that has asked for trust. Where it is for the current dialog, it may be to
wait for the request `r`. -/
def Operation.trusted (op : Operation) (i : Nat) (granted : Bool) (r : Option Nat)
    (shown : Snapshot) : Progress :=
  match op, r with
  | .trustCurrent true _, some r => .watching i r .waiting
  | .trustCurrent _ _, _ => .ended (.gave (.trustShown granted shown))
  | _, _ => .ended (.gave (.trusted granted))

theorem modify_congr_at {α : Type} {l : List α} {i : Nat} {x : α} {f g : α → α}
    (hx : l[i]? = some x) (h : f x = g x) : l.modify i f = l.modify i g := by
  refine List.ext_getElem? fun j => ?_
  simp only [List.getElem?_modify]
  by_cases hj : i = j
  · subst hj
    simp [hx, h]
  · simp [hj]

theorem Dialog.endTrust_of_asks {x : Dialog} (hc : x.closed = false) (hp : x.path ≠ "") :
    x.endTrust = { x with
      classification := .pending
      issued := x.issued + 1
      requested := some x.path
      trusting := false
      revalidation := some (x.issued + 1) } := by
  simp [endTrust, edit, asks, hc, hp]

theorem Dialog.endTrust_of_blank {x : Dialog} (hc : x.closed = false) (hp : x.path = "") :
    x.endTrust = { x with
      classification := .blank
      warning := .blank
      trusting := false
      revalidation := none } := by
  simp [endTrust, edit, asks, hc, hp]

theorem Dialog.endTrust_of_closed {x : Dialog} (hc : x.closed = true) :
    x.endTrust = { x with trusting := false, revalidation := none } := by
  simp [endTrust, edit, asks, hc]

/-- What the dialog notes about trust, after the edit of its path. -/
theorem Dialog.endTrust_eq (x : Dialog) :
    x.endTrust = { x.edit x.path with
      trusting := false
      revalidation := if x.asks x.path then some (x.issued + 1) else none } := by
  have hissued := x.issued_edit x.path
  unfold endTrust
  split
  · rename_i ha
    rw [if_pos ha] at hissued
    simp [hissued]
  · rfl

namespace Desk

variable {σ : Type} {s : Setting σ} {d e : Desk σ} {b : Prop} {op : Operation} {i k : Nat}
  {owner : String} {m : Move σ} {x : Dialog} {y : Errand}

/-- Desk `e` is what desk `d` becomes when errand `k`, which runs `op`, learns that the trust store
has granted trust for dialog `i`, which was `x`. -/
structure Granted (s : Setting σ) (d : Desk σ) (k i : Nat) (owner : String) (x : Dialog)
    (op : Operation) (e : Desk σ) : Prop where
  /-- As if the user had set the live path, but for what the dialog notes about trust. -/
  edited : SaveFor k
    ((((d.alter fun world => (s.trust owner world).2).amend i (.setPath x.path)).1).onDialog i
      fun y => { y with
        trusting := false
        revalidation := if x.asks x.path then some (x.issued + 1) else none }) e
  told : ∃ shown, e.snapshot? i = some shown ∧
    e.progress? k = some (op.trusted i true (d.amend i (.setPath x.path)).2 shown)
  asked : x.closed = false → x.path ≠ "" →
    e.dialogs[i]? = some { x with
      classification := .pending
      issued := x.issued + 1
      requested := some x.path
      trusting := false
      revalidation := some (x.issued + 1) } ∧
    e.requests = d.requests ++ [{ dialog := i, number := x.issued + 1, path := x.path }] ∧
    e.agenda = { d.agenda with next := d.agenda.next ++ [.request d.requests.length] }
  cleared : x.closed = false → x.path = "" →
    e.dialogs[i]? = some { x with
      classification := .blank
      warning := .blank
      trusting := false
      revalidation := none } ∧
    e.requests = d.requests ∧ e.agenda = d.agenda
  closed : x.closed = true →
    e.dialogs[i]? = some { x with trusting := false, revalidation := none } ∧
    e.requests = d.requests ∧ e.agenda = d.agenda

/-- What desk `d` becomes when errand `k` goes on that has called the trust store for dialog `i`,
which is `x`; `b` says whether the errand has been cancelled. -/
inductive TrustEnds (s : Setting σ) (b : Prop) (d : Desk σ) (k i : Nat) (owner : String)
    (x : Dialog) (op : Operation) (e : Desk σ) : Prop
  | granted (hb : ¬b) (h : (s.trust owner d.world).1 = .ok ()) (he : Granted s d k i owner x op e)
  | failed {f : Failure} (hb : ¬b) (h : (s.trust owner d.world).1 = .error f)
      (he : SaveFor k ((d.alter fun world => (s.trust owner world).2).onDialog i
        fun y => { y with trusting := false }) e)
      (hk : ∃ shown, e.snapshot? i = some shown ∧
        e.progress? k = some (op.trusted i false none shown))
  | cancelled (hb : b) (he : SaveFor k (d.onDialog i fun y => { y with trusting := false }) e)
      (hk : e.progress? k = some (.ended .cancelled))

/-! ## What the errand changes -/

theorem afterTrust_spec (hx : d.dialogs[i]? = some x) (hy : d.errands[k]? = some y)
    (granted : Bool) (r : Option Nat) (hr : granted = false → r = none) :
    SaveFor k d (d.afterTrust k i granted r) ∧
      (d.afterTrust k i granted r).progress? k =
        some (y.operation.trusted i granted r x.snapshot) := by
  have hshown : d.snapshot? i = some x.snapshot := by simp [snapshot?, hx]
  have hend (v : Ending) : SaveFor k d (d.endErrand k v) ∧
      (d.endErrand k v).progress? k = some (.ended v) :=
    ⟨saveFor_onErrand d k _, progress?_endErrand hy v⟩
  unfold afterTrust
  rw [hy, Option.map_some]
  cases hop : y.operation with
  | trustCurrent wait strict =>
    cases granted with
    | false =>
      obtain rfl := hr rfl
      cases wait <;> simpa [hshown, Operation.trusted] using hend _
    | true =>
      have hreport : d.report i (.trustCurrent wait strict) =
          .gave (.trustShown true x.snapshot) := by simp [report, hshown]
      cases wait <;> cases r
      case true.some r =>
        exact ⟨saveFor_onErrand d k _, progress?_onErrand hy _⟩
      all_goals simpa [afterEdit, hreport, Operation.trusted] using hend _
  | _ => exact hend _

theorem amend_setPath (hx : d.dialogs[i]? = some x) (path : String) :
    d.amend i (.setPath path) =
      (((d.ask i x path).1.onDialog i (·.edit path)), (d.ask i x path).2) := by
  simp [amend, Dialog.target?, edit, hx]

/-- An edit of an open dialog, to a path that is not empty, issues one request, the next job. -/
theorem ask_of_asks {path : String} (h : x.asks path = true) :
    (d.ask i x path).1.requests =
        d.requests ++ [{ dialog := i, number := x.issued + 1, path := path }] ∧
      (d.ask i x path).1.agenda =
        { d.agenda with next := d.agenda.next ++ [.request d.requests.length] } := by
  simp [ask, h, enqueue]

theorem ask_of_not_asks {path : String} (h : x.asks path = false) :
    (d.ask i x path).1 = d := by
  simp [ask, h]

theorem ask_snd (d : Desk σ) (i : Nat) (x : Dialog) (path : String) :
    (d.ask i x path).2 = if x.asks path then some d.requests.length else none := by
  unfold ask
  split <;> rfl

/-- The errand's edit and what it notes about trust, in one. -/
theorem onDialog_endTrust (hx : d.dialogs[i]? = some x) :
    ((d.amend i (.setPath x.path)).1.onDialog i fun y => { y with
        trusting := false
        revalidation := if x.asks x.path then some (x.issued + 1) else none }) =
      (d.ask i x x.path).1.onDialog i Dialog.endTrust := by
  have hx' : (d.ask i x x.path).1.dialogs[i]? = some x := by rw [dialogs_ask, hx]
  rw [amend_setPath hx]
  simp only [onDialog, List.modify_modify_eq]
  rw [modify_congr_at hx' (x.endTrust_eq.symm : (_ ∘ (·.edit x.path)) x = _)]

/-- The store has granted trust: the errand edits the path, and frees the dialog. -/
theorem passTrust_granted (hx : d.dialogs[i]? = some x) (hy : d.errands[k]? = some y)
    (h : (s.trust owner d.world).1 = .ok ()) :
    Granted s d k i owner x y.operation (passTrust s d k i owner) := by
  obtain ⟨f, hf⟩ : ∃ f, f = d.alter fun world => (s.trust owner world).2 := ⟨_, rfl⟩
  have hxf : f.dialogs[i]? = some x := hf ▸ hx
  have hask := aloof_ask f i x x.path
  have hpass := passTrust_of_ok (k := k) hx h
  rw [← hf] at hpass
  have hx' : ((f.ask i x x.path).1.onDialog i Dialog.endTrust).dialogs[i]? = some x.endTrust := by
    simp [onDialog, hask.dialogs, hxf]
  have hy' : ((f.ask i x x.path).1.onDialog i Dialog.endTrust).errands[k]? = some y :=
    (congrArg (·[k]?) hask.errands).trans (hf ▸ hy)
  obtain ⟨hrest, hprogress⟩ := afterTrust_spec hx' hy' true (f.ask i x x.path).2 (by simp)
  rw [← hpass] at hrest hprogress
  have hdialog : (passTrust s d k i owner).dialogs[i]? = some x.endTrust := hrest.dialogs ▸ hx'
  have hrequests : (passTrust s d k i owner).requests = (f.ask i x x.path).1.requests :=
    hrest.requests
  have hagenda : (passTrust s d k i owner).agenda = (f.ask i x x.path).1.agenda := hrest.agenda
  have hsilent (ha : x.asks x.path = false) : (passTrust s d k i owner).requests = d.requests ∧
      (passTrust s d k i owner).agenda = d.agenda := by
    rw [hrequests, hagenda, ask_of_not_asks ha, hf]
    exact ⟨rfl, rfl⟩
  refine ⟨?_, ⟨x.endTrust.snapshot, by simp [snapshot?, hdialog], ?_⟩, fun hc hp => ?_,
    fun hc hp => ?_, fun hc => ?_⟩
  · rw [← hf, onDialog_endTrust hxf]
    exact hrest
  · rw [hprogress, amend_setPath hx, ask_snd, ask_snd, hf]
    rfl
  · have hasks : x.asks x.path = true := by simp [Dialog.asks, hc, hp]
    obtain ⟨hr, ha⟩ := ask_of_asks (d := f) (i := i) hasks
    rw [hrequests, hagenda, hr, ha, hdialog, Dialog.endTrust_of_asks hc hp, hf]
    exact ⟨rfl, rfl, rfl⟩
  · exact ⟨Dialog.endTrust_of_blank hc hp ▸ hdialog, hsilent (by simp [Dialog.asks, hp])⟩
  · exact ⟨Dialog.endTrust_of_closed hc ▸ hdialog, hsilent (by simp [Dialog.asks, hc])⟩

theorem passTrust_ends (hx : d.dialogs[i]? = some x) (hy : d.errands[k]? = some y) (hb : ¬b) :
    TrustEnds s b d k i owner x y.operation (passTrust s d k i owner) := by
  cases h : (s.trust owner d.world).1 with
  | ok _ => exact .granted hb h (passTrust_granted hx hy h)
  | error f =>
    obtain ⟨n, hn⟩ : ∃ n, n = (d.alter fun world => (s.trust owner world).2).onDialog i
      Dialog.stopTrust := ⟨_, rfl⟩
    have hpass := passTrust_of_error (k := k) (i := i) h
    rw [← hn] at hpass
    have hx' : n.dialogs[i]? = some x.stopTrust := by simp [hn, onDialog, alter, hx]
    have hy' : n.errands[k]? = some y := hn ▸ hy
    obtain ⟨hrest, hprogress⟩ := afterTrust_spec hx' hy' false none fun _ => rfl
    rw [← hpass] at hrest hprogress
    exact .failed hb h (hn ▸ hrest)
      ⟨x.stopTrust.snapshot, by simp [snapshot?, hrest.dialogs, hx'], hprogress⟩

/-! ## When its turn comes -/

theorem trusts?_iff_atGate :
    d.trusts? k = some i ↔ ∃ b owner op, AtGate .trustStore b d k i owner op := by
  constructor
  · intro h
    obtain ⟨p, hp, hi⟩ := Option.bind_eq_some_iff.mp h
    obtain ⟨⟨op, p, stopping⟩, hy, rfl⟩ := Option.map_eq_some_iff.mp hp
    cases p with
    | trusting j owner gate a =>
      obtain rfl := Option.some.inj hi
      exact ⟨_, owner, op, ⟨hy, Iff.rfl⟩⟩
    | _ => cases hi
  · rintro ⟨b, owner, op, ⟨found, -⟩⟩
    simp [trusts?, progress?, found, Gated.progress, Progress.trusts?]

/-- The errand has been cancelled, or it goes on with the store's answer. -/
theorem AtGate.trustEnds (h : AtGate .trustStore b d k i owner op) (hd : Reachable s d)
    (hruns : Runs d m k e) : ∃ x, d.dialogs[i]? = some x ∧ x.trusting = true ∧
      TrustEnds s b e k i owner x op (d.move s m) := by
  have hk : d.trusts? k = some i := trusts?_iff_atGate.mpr ⟨b, owner, op, h⟩
  obtain ⟨x, hx, ht⟩ := Option.map_eq_some_iff.mp (hd.held.flagged hk)
  refine ⟨x, hx, ht, ?_⟩
  obtain ⟨gate, a, stopping, hy, hb⟩ := h.turn hd hruns
  have hx' : e.dialogs[i]? = some x := hruns.found.dialogs ▸ hx
  rw [hruns.move]
  simp only [runErrand, hy, Gated.progress]
  split
  · rename_i hs
    exact .cancelled (hb.mpr hs) (saveFor_onErrand _ k _) (progress?_endErrand hy _)
  · rename_i hs
    exact passTrust_ends hx' hy fun hc => hs (hb.mp hc)

/-- An errand that finds trust possible comes to the store, or gets its answer at once. -/
theorem AsksTrust.goes (h : AsksTrust d m k i e) (hop : e.errands[k]? = some { operation := op })
    (hx : d.dialogs[i]? = some x) (ht : x.trustTarget? = some owner) :
    (∀ gate, s.trustGate d.world = some gate → AtGate .trustStore False (d.move s m) k i owner op) ∧
      (s.trustGate d.world = none →
        TrustEnds s False (e.storeCalled i owner) k i owner x.startTrust op (d.move s m)) := by
  have hfound := h.1.found
  have hx' : e.dialogs[i]? = some x := hfound.dialogs ▸ hx
  have hgate : s.trustGate (e.storeCalled i owner).world = s.trustGate d.world := by
    rw [← hfound.world]
    rfl
  have hmove : d.move s m = beginTrust s e k i := h.move hx ht
  have htarget : e.dialogs[i]?.bind Dialog.trustTarget? = some owner := by
    rw [hx', Option.bind_some, ht]
  constructor
  · intro gate hg
    have hbegin : d.move s m =
        (e.storeCalled i owner).await k (.trusting i owner gate .waiting) := by
      rw [hmove, beginTrust, htarget]
      simp only [Desk.storeCalled] at hgate ⊢
      rw [hgate, hg]
    rw [hbegin]
    exact atGate_await (d := e.storeCalled i owner) hop
  · intro hg
    have hbegin : d.move s m = passTrust s (e.storeCalled i owner) k i owner := by
      rw [hmove, beginTrust, htarget]
      simp only [Desk.storeCalled] at hgate ⊢
      rw [hgate, hg]
    rw [hbegin]
    exact passTrust_ends (y := { operation := op })
      (by simp [Desk.storeCalled, note, onDialog, hx']) hop not_false

theorem world_ask (d : Desk σ) (i : Nat) (x : Dialog) (path : String) :
    (d.ask i x path).1.world = d.world := by
  unfold ask
  split <;> rfl

theorem world_amend (d : Desk σ) (i : Nat) (x : Edit) : (d.amend i x).1.world = d.world := by
  unfold amend
  split
  · rfl
  · unfold edit
    split
    · rfl
    · exact world_ask d i _ _

/-- The store has been asked for the owner, and nobody else for anything. -/
theorem TrustEnds.world (h : TrustEnds s b d k i owner x op e) (hb : ¬b) :
    e.world = (s.trust owner d.world).2 := by
  cases h with
  | granted _ _ he => exact he.edited.world.trans (world_amend _ _ _)
  | failed _ _ he _ => exact he.world
  | cancelled hc _ _ => exact absurd hc hb

theorem AsksTrust.world (h : AsksTrust d m k i e) (hx : d.dialogs[i]? = some x)
    (ht : x.trustTarget? = some owner) (hg : s.trustGate d.world = none) :
    (d.move s m).world = (s.trust owner d.world).2 := by
  obtain ⟨op, hop, -⟩ := h.2
  rw [((h.goes hop hx ht).2 hg).world not_false, ← h.1.found.world]
  rfl

/-- On every run an errand that has called the trust store for a dialog stays where it is until its
turn comes, and ends then with one job. The dialog has been trusted all the while, and is not any
more. If the store grants trust, the desk is otherwise as if the user had set the live path at that
moment: an open dialog with a path has one more request, the one that its trust calls for, keeps its
warning and has no answer; with an empty path it shows nothing, and a closed dialog stays as it was.
If the store fails, in whatever way, or the errand has been cancelled, nothing else has changed but
the errand. It gives what the store has said and fails with nothing; if it has been cancelled, it
ends so. -/
theorem trust_outcomes (s : Setting σ) {d : Desk σ} (hd : Reachable s d) :
    (∀ k i, d.trusts? k = some i → ∃ b owner op, AtGate .trustStore b d k i owner op ∧
      ∀ ms : List (Move σ),
        AtGate .trustStore (b ∨ .cancelErrand k ∈ ms) (d.after s ms) k i owner op ∨
        ∃ before later e x, ms = before ++ .step :: later ∧ Runs (d.after s before) .step k e ∧
          (d.after s before).dialogs[i]? = some x ∧ x.trusting = true ∧
          TrustEnds s (b ∨ .cancelErrand k ∈ before) e k i owner x op
            ((d.after s before).move s .step)) ∧
    ∀ m k i e x owner op, AsksTrust d m k i e → e.errands[k]? = some { operation := op } →
      d.dialogs[i]? = some x → x.trustTarget? = some owner →
      (∀ gate, s.trustGate d.world = some gate →
        AtGate .trustStore False (d.move s m) k i owner op) ∧
      (s.trustGate d.world = none →
        TrustEnds s False (e.storeCalled i owner) k i owner x.startTrust op (d.move s m)) := by
  refine ⟨fun k i hk => ?_, fun m k i e x owner op h => h.goes⟩
  obtain ⟨b, owner, op, h⟩ := trusts?_iff_atGate.mp hk
  refine ⟨b, owner, op, h, fun ms => ?_⟩
  rcases h.after (s := s) ms with hstill | ⟨before, later, e, hms, hthere, hruns⟩
  · exact .inl hstill
  · obtain ⟨x, hx, ht, hends⟩ := hthere.trustEnds (hd.after before) hruns
    exact .inr ⟨before, later, e, x, hms, hruns, hx, ht, hends⟩

/-- While the store is asked, the path is edited. -/
def editedMeanwhile : List (Move Unit) :=
  [.edit 0 (.setPath "/b"), .openGate .trustStore 0, .step, .step, .step, .step]

/-- The request that the dialog notes is for the new path. -/
theorem trust_outcomes_edited :
    (∃ before later e f x, editedMeanwhile = before ++ .step :: later ∧
      Granted guarded e 0 0 "/o" x (.trust 0) f) ∧
    ∃ x, (((opening () [""]).after guarded trustAsked).after guarded editedMeanwhile).dialogs[0]? =
      some x ∧ x.requested = some "/b" ∧ x.revalidation = some 3 := by
  have hd : Reachable guarded ((opening () [""]).after guarded trustAsked) :=
    (reachable_opening () [""]).after trustAsked
  refine ⟨?_, _, rfl, rfl, rfl⟩
  obtain ⟨b, owner, op, ⟨found, hb⟩, hrun⟩ := (trust_outcomes guarded hd).1 0 0 rfl
  cases found
  rcases hrun editedMeanwhile with hstill | ⟨before, later, e, x, hms, -, -, -, hends⟩
  · cases trusts?_iff_atGate.mpr ⟨_, _, _, hstill⟩
  · cases hends with
    | granted _ _ he => exact ⟨before, later, e, _, x, hms, he⟩
    | failed _ h _ _ => cases h
    | cancelled hc _ _ =>
      rcases hc with hc | hc
      · simp [hb] at hc
      · have hmem : .cancelErrand 0 ∈ editedMeanwhile := by simp [hms, hc]
        simp [editedMeanwhile] at hmem

end Desk
end Admission
