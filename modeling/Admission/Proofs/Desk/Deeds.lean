import Admission.Proofs.Desk.Errands

/-!
# What an errand's job does

A job of an errand does one thing to the dialogs at most: an edit, a new dialog, a dismissal, the
end of a submission, or a part of a trust. Each is told with what the errand has to do with the
trust store before and after it. Which requests are cancelled with a dialog is not said.
-/
namespace Admission

/-- The dialog for which an errand waits in front of the trust store. -/
def Progress.trusts? : Progress → Option Nat
  | .trusting i _ _ _ => some i
  | _ => none

/-- The dialog for which an operation asks for trust. -/
def Operation.trusts? (current : Option Nat) : Operation → Option Nat
  | .trust i => some i
  | .trustCurrent _ _ => current
  | _ => none

/-- Whether an entry is a call of the trust store. -/
def Entry.isTrust : Entry → Bool
  | .trust _ _ => true
  | _ => false

theorem LogGrown.mono {p q : Entry → Bool} (h : ∀ x, p x = true → q x = true) {l l' : List Entry}
    (hl : LogGrown p l l') : LogGrown q l l' := by
  obtain ⟨more, rfl, hm⟩ := hl
  exact ⟨more, rfl, fun x hx => h x (hm x hx)⟩

namespace Desk

variable {σ : Type} {s : Setting σ} {d e f : Desk σ} {k : Nat}

/-- The dialog for which errand `k` has called the trust store and is not through with it. -/
def trusts? (d : Desk σ) (k : Nat) : Option Nat := (d.progress? k).bind Progress.trusts?

/-- Two desks with the same dialogs and the same work on requests. The trust store has not been
called in between. -/
structure Alike (d e : Desk σ) : Prop where
  dialogs : e.dialogs = d.dialogs
  current : e.current = d.current
  requests : e.requests = d.requests
  calls : e.calls = d.calls
  agenda : e.agenda = d.agenda
  log : LogGrown (!·.isTrust) d.log e.log

/-- Nothing else happens, and the errand is not or no longer in front of the trust store. -/
structure Leaves (k : Nat) (d e : Desk σ) : Prop extends Alike d e where
  free : e.trusts? k = none

/-- Errand `k` is at its first step, is to ask trust for dialog `i`, and can do so now: another
user owns `owner`. -/
structure CallsStore (d : Desk σ) (k i : Nat) (owner : String) : Prop where
  fresh : ∃ op, d.errands[k]? = some { operation := op } ∧ op.trusts? d.current = some i
  possible : ∃ x, d.dialogs[i]? = some x ∧ x.trustTarget? = some owner

/-- The desk with the trust store called for dialog `i`. -/
def storeCalled (d : Desk σ) (i : Nat) (owner : String) : Desk σ :=
  (d.onDialog i Dialog.startTrust).note (.trust i owner)

/-- The trust store has answered errand `k`: it has failed, or the live path of dialog `i` is under
review again. -/
inductive StoreAnswered (k i : Nat) (d : Desk σ) : Desk σ → Prop
  | refused {e : Desk σ} (h : Leaves k (d.onDialog i Dialog.stopTrust) e) : StoreAnswered k i d e
  | granted {e : Desk σ} {x : Dialog} (hx : d.dialogs[i]? = some x)
      (h : Leaves k ((d.ask i x x.path).1.onDialog i Dialog.endTrust) e) : StoreAnswered k i d e

/-- What a job of errand `k` may do. -/
inductive Deed (d : Desk σ) (k : Nat) : Desk σ → Prop
  | plain {e : Desk σ} (hk : d.trusts? k = none) (h : Leaves k d e) : Deed d k e
  | edited {e : Desk σ} {i : Nat} {path : String} (hk : d.trusts? k = none)
      (h : Leaves k (d.edit i path).1 e) : Deed d k e
  | opened {e : Desk σ} {path : String} (hk : d.trusts? k = none)
      (h : Leaves k ((d.closeCurrent.seat path).1.amend d.dialogs.length .openInitial).1 e) :
      Deed d k e
  | dismissed {e : Desk σ} (hk : d.trusts? k = none) (h : Leaves k d.dismiss.1 e) : Deed d k e
  | registered {m e : Desk σ} {i : Nat} (hk : d.trusts? k = none) (hm : Alike d m)
      (h : Leaves k (m.closeDialog i) e) : Deed d k e
  /-- The dialog that is shown goes with the one that was submitted, whichever it is. -/
  | putAway {m e : Desk σ} {i : Nat} (hk : d.trusts? k = none) (hm : Alike d m)
      (hop : d.errands[k]?.map Errand.operation = some .submitCurrent)
      (hi : d.current = some i ∨
        ∃ target gate a, d.progress? k = some (.registering i target gate a))
      (h : Leaves k { m.closeDialog i with current := none } e) : Deed d k e
  | storeCalled {e : Desk σ} {i : Nat} {owner : String} (hc : CallsStore d k i owner)
      (hk : e.trusts? k = some i) (h : Alike (d.storeCalled i owner) e) : Deed d k e
  | storeAnswered {m e : Desk σ} {i : Nat} (hk : d.trusts? k = some i) (hm : Alike d m)
      (h : StoreAnswered k i m e) : Deed d k e
  | answeredAtOnce {m e : Desk σ} {i : Nat} {owner : String} (hc : CallsStore d k i owner)
      (hm : Alike (d.storeCalled i owner) m) (h : StoreAnswered k i m e) : Deed d k e

theorem Alike.refl (d : Desk σ) : Alike d d := ⟨rfl, rfl, rfl, rfl, rfl, .refl _ _⟩

theorem Alike.trans (h : Alike d e) (h' : Alike e f) : Alike d f where
  dialogs := h'.dialogs.trans h.dialogs
  current := h'.current.trans h.current
  requests := h'.requests.trans h.requests
  calls := h'.calls.trans h.calls
  agenda := h'.agenda.trans h.agenda
  log := h.log.trans h'.log

theorem alike_world (d : Desk σ) (world : σ) : Alike d { d with world := world } :=
  ⟨rfl, rfl, rfl, rfl, rfl, .refl _ _⟩

theorem alike_onErrand (d : Desk σ) (k : Nat) (g : Errand → Errand) : Alike d (d.onErrand k g) :=
  ⟨rfl, rfl, rfl, rfl, rfl, .refl _ _⟩

theorem alike_note (d : Desk σ) {x : Entry} (hx : x.isTrust = false) : Alike d (d.note x) :=
  ⟨rfl, rfl, rfl, rfl, rfl, .concat _ (by simp [hx])⟩

theorem Alike.leaves (h : Alike d e) (h' : Leaves k e f) : Leaves k d f :=
  ⟨h.trans h'.toAlike, h'.free⟩

theorem trusts?_onErrand_self {g : Errand → Errand} (h : ∀ x, (g x).progress.trusts? = none) :
    (d.onErrand k g).trusts? k = none := by
  simp only [trusts?, progress?, onErrand, List.getElem?_modify_eq]
  cases d.errands[k]? with
  | none => rfl
  | some x => exact h x

theorem leaves_endErrand (d : Desk σ) (k : Nat) (x : Ending) : Leaves k d (d.endErrand k x) :=
  ⟨alike_onErrand d k _, trusts?_onErrand_self fun _ => rfl⟩

theorem leaves_await (d : Desk σ) (k : Nat) {p : Progress} (h : p.trusts? = none) :
    Leaves k d (d.await k p) :=
  ⟨alike_onErrand d k _, trusts?_onErrand_self fun _ => h⟩

theorem leaves_afterEdit (d : Desk σ) (k i : Nat) (op : Operation) (wait : Bool)
    (r : Option Nat) : Leaves k d (d.afterEdit k i op wait r) := by
  unfold afterEdit
  split
  · exact leaves_await d k rfl
  · exact leaves_endErrand d k _

theorem leaves_afterTrust (d : Desk σ) (k i : Nat) (granted : Bool) (r : Option Nat) :
    Leaves k d (d.afterTrust k i granted r) := by
  unfold afterTrust
  split
  · split
    · exact leaves_afterEdit d k i _ _ r
    · split <;> exact leaves_endErrand d k _
  · exact leaves_endErrand d k _

theorem passTrust_of_ok {i : Nat} {owner : String} {x : Dialog} (hx : d.dialogs[i]? = some x)
    (h : (s.trust owner d.world).1 = .ok ()) :
    passTrust s d k i owner =
      let d' := d.alter fun world => (s.trust owner world).2
      ((d'.ask i x x.path).1.onDialog i Dialog.endTrust).afterTrust k i true
        (d'.ask i x x.path).2 := by
  simp only [passTrust, h, hx]
  rfl

theorem passTrust_of_error {i : Nat} {owner : String} {f : Failure}
    (h : (s.trust owner d.world).1 = .error f) :
    passTrust s d k i owner =
      ((d.alter fun world => (s.trust owner world).2).onDialog i
        Dialog.stopTrust).afterTrust k i false none := by
  simp only [passTrust, h]
  rfl

theorem passTrust_storeAnswered (d : Desk σ) (k i : Nat) (owner : String) :
    ∃ m, Alike d m ∧ StoreAnswered k i m (passTrust s d k i owner) := by
  unfold passTrust
  refine ⟨{ d with world := (s.trust owner d.world).2 }, alike_world d _, ?_⟩
  dsimp only
  split
  · rename_i x _ hx
    exact .granted hx (leaves_afterTrust _ k i true _)
  · exact .refused (leaves_afterTrust _ k i false none)

theorem beginTrust_deed {op : Operation} {i : Nat} (hk : d.errands[k]? = some { operation := op })
    (hop : op.trusts? d.current = some i) : Deed d k (beginTrust s d k i) := by
  have hfree : d.trusts? k = none := by simp [trusts?, progress?, hk, Progress.trusts?]
  unfold beginTrust
  split
  · exact .plain hfree (leaves_afterTrust d k i false none)
  · rename_i owner ht
    obtain ⟨x, hx, ht⟩ := Option.bind_eq_some_iff.mp ht
    have hc : CallsStore d k i owner := ⟨⟨op, hk, hop⟩, x, hx, ht⟩
    dsimp only
    split
    · refine .storeCalled hc ?_ (alike_onErrand _ k _)
      simp [trusts?, progress?, await, onErrand, note, onDialog, hk, Progress.trusts?]
    · obtain ⟨m, hm, h⟩ := passTrust_storeAnswered (s := s) (d.storeCalled i owner) k i owner
      exact .answeredAtOnce hc hm h

/-- A registrar call that has passed its gate, of an errand that submits dialog `i`. -/
theorem passRegister_deed {m : Desk σ} {x : Errand} {i : Nat} (hx : d.errands[k]? = some x)
    (hfree : d.trusts? k = none) (hm : Alike d m) (herr : m.errands = d.errands)
    (hi : x.operation = .submitCurrent → d.current = some i ∨
      ∃ target gate a, d.progress? k = some (.registering i target gate a))
    (path : String) : Deed d k (passRegister s m k i path) := by
  have hworld := hm.trans (alike_world m (s.register [path] m.world).2)
  cases h : (s.register [path] m.world).1 with
  | error f =>
    rw [passRegister_of_error h]
    exact .plain hfree (hworld.leaves (leaves_endErrand _ k _))
  | ok handles =>
    have hx' : m.errands[k]? = some x := herr ▸ hx
    rw [passRegister_of_ok hx' h]
    cases hop : x.operation with
    | submitCurrent =>
      exact .putAway hfree hworld (by simp [hx, hop]) (hi hop) (leaves_endErrand _ k _)
    | _ => exact .registered hfree hworld (leaves_endErrand _ k _)

theorem beginSubmit_deed {op : Operation} {i : Nat}
    (hk : d.errands[k]? = some { operation := op }) (hop : op.submits? d.current = some i) :
    Deed d k (beginSubmit s d k i) := by
  have hfree : d.trusts? k = none := by simp [trusts?, progress?, hk, Progress.trusts?]
  have hnote (path : String) : Alike d (d.note (.register i [path])) := alike_note d rfl
  obtain ⟨x, hx⟩ | ⟨path, gate, hx⟩ | ⟨path, hx⟩ := beginSubmit_cases s d k i <;> rw [hx]
  · exact .plain hfree (leaves_endErrand d k _)
  · exact .plain hfree ((hnote path).leaves (leaves_await _ k rfl))
  · refine passRegister_deed hk hfree (hnote path) rfl (fun hs => Or.inl ?_) path
    simp only at hs
    subst hs
    exact hop

theorem closeCurrent_length (s : Setting σ) (d : Desk σ) :
    d.closeCurrent.dialogs.length = d.dialogs.length := by
  unfold closeCurrent
  split
  · rw [(still_closeDialog (s := s) _ _).aloof.dialogs]
    simp [onDialog]
  · rfl

theorem amend_deed {i : Nat} (hk : d.trusts? k = none) (x : Edit) (op : Operation) (wait : Bool) :
    Deed d k ((d.amend i x).1.afterEdit k i op wait (d.amend i x).2) := by
  unfold amend
  split
  · exact .plain hk (leaves_afterEdit d k i op wait none)
  · exact .edited hk (leaves_afterEdit _ k i op wait _)

theorem onCurrent_deed {go : Nat → Desk σ} (hk : d.trusts? k = none)
    (h : ∀ i, d.current = some i → Deed d k (go i)) : Deed d k (d.onCurrent k go) := by
  unfold onCurrent
  split
  · exact h _ ‹_›
  · exact .plain hk (leaves_endErrand d k _)

theorem beginErrand_deed {op : Operation} (hk : d.errands[k]? = some { operation := op }) :
    Deed d k (beginErrand s d k op) := by
  have hfree : d.trusts? k = none := by simp [trusts?, progress?, hk, Progress.trusts?]
  have hend (x : Ending) : Deed d k (d.endErrand k x) := .plain hfree (leaves_endErrand d k x)
  cases op with
  | trust i => exact beginTrust_deed hk rfl
  | submit i => exact beginSubmit_deed hk rfl
  | openDialog path wait =>
    have h : (d.closeCurrent.seat path).2 = d.dialogs.length := closeCurrent_length s d
    refine @Deed.opened σ d k _ path hfree ?_
    rw [← h]
    exact leaves_afterEdit _ k _ _ wait _
  | changePath path wait => exact onCurrent_deed hfree fun i _ => amend_deed hfree _ _ _
  | choosePath selected wait => exact onCurrent_deed hfree fun i _ => amend_deed hfree _ _ _
  | trustCurrent wait strict =>
    refine onCurrent_deed hfree fun i hi => ?_
    split
    · split
      · exact beginTrust_deed hk hi
      · exact hend _
    · exact beginTrust_deed hk hi
  | submitCurrent => exact onCurrent_deed hfree fun i hi => beginSubmit_deed hk hi
  | look => exact onCurrent_deed hfree fun i _ => hend _
  | dismiss => exact .dismissed hfree (leaves_endErrand _ k _)
  | repositories => exact hend _
  | nothing => exact hend _

/-- Every job of an errand is one of these deeds. -/
theorem runErrand_deed (d : Desk σ) (k : Nat) : Deed d k (runErrand s d k) := by
  have hstate {x : Errand} (hx : d.errands[k]? = some x) : d.trusts? k = x.progress.trusts? := by
    simp [trusts?, progress?, hx]
  have hrun := errandRun s d k
  generalize runErrand s d k = e at hrun ⊢
  cases hrun with
  | absent hx =>
    have hfree : d.trusts? k = none := by simp [trusts?, progress?, hx]
    exact .plain hfree ⟨.refl d, hfree⟩
  | begins hx => exact beginErrand_deed hx
  | refused hx hp =>
    have htrusts := (hstate hx).trans (congrArg Progress.trusts? hp)
    exact .storeAnswered htrusts (.refl d) (.refused (leaves_endErrand _ k _))
  | @trusts x i owner gate a hx hp =>
    have htrusts := (hstate hx).trans (congrArg Progress.trusts? hp)
    obtain ⟨m, hm, h⟩ := passTrust_storeAnswered (s := s) d k i owner
    exact .storeAnswered htrusts hm h
  | @registers x i path gate a hx hp =>
    have hfree := (hstate hx).trans (congrArg Progress.trusts? hp)
    refine passRegister_deed hx hfree (.refl d) rfl (fun _ => Or.inr ⟨path, gate, a, ?_⟩) path
    simp [progress?, hx, hp]
  | @ends x hx hp v =>
    have hfree : x.progress.trusts? = none := by
      cases h : x.progress with
      | trusting i owner gate a => exact absurd h (hp i owner gate a)
      | _ => rfl
    exact .plain ((hstate hx).trans hfree) (leaves_endErrand d k v)
  | ended hx hp =>
    have hfree := (hstate hx).trans (congrArg Progress.trusts? hp)
    exact .plain hfree ⟨.refl d, hfree⟩

end Desk
end Admission
