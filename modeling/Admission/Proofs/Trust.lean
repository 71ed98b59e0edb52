import Admission.Proofs.Submission
import Admission.Proofs.Desk.Turns

/-!
# Who asks for trust

A dialog says that it is being trusted just while an errand for it waits in front of the trust
store, and no second one does. The store is called when an errand starts that finds trust possible,
with the owner that the applied answer names for the live path. What the store does with it is not
said.
-/
namespace Admission

variable {σ : Type} {s : Setting σ}

/-- Whether dialog `i` says that it is being trusted. -/
def flag? (l : List Dialog) (i : Nat) : Option Bool := l[i]?.map Dialog.trusting

theorem flag?_modify (l : List Dialog) (i : Nat) {f : Dialog → Dialog}
    (h : ∀ x, (f x).trusting = x.trusting) : flag? (l.modify i f) = flag? l := by
  funext j
  simp only [flag?, List.getElem?_modify]
  by_cases hj : i = j
  · simp [hj, Function.comp_def, h]
  · simp [hj]

theorem flag?_modify_to (l : List Dialog) (i : Nat) (b : Bool) {f : Dialog → Dialog}
    (h : ∀ x, (f x).trusting = b) (j : Nat) :
    flag? (l.modify i f) j = if i = j then (flag? l j).map fun _ => b else flag? l j := by
  simp only [flag?, List.getElem?_modify]
  by_cases hj : i = j
  · simp [hj, Function.comp_def, h]
  · simp [hj]

@[simp] theorem Dialog.trusting_edit (x : Dialog) (path : String) :
    (x.edit path).trusting = x.trusting := by
  unfold edit
  split
  · rfl
  · split <;> rfl

@[simp] theorem Dialog.trusting_offer (x : Dialog) (path : String) (a : Assessment)
    (number : Option Int) : (x.offer path a number).trusting = x.trusting := by
  unfold offer
  split <;> rfl

/-- Trust is possible for the owner that a settled answer names, as long as nobody asks for it. -/
theorem Dialog.trustTarget?_eq_some_iff {x : Dialog} {owner : String} :
    x.trustTarget? = some owner ↔
      x.trusting = false ∧ x.classification = .settled (.dubious owner) := by
  have howner : x.classification.owner? = some owner ↔
      x.classification = .settled (.dubious owner) := Snapshot.owner?_eq_some_iff x.snapshot owner
  cases ht : x.trusting with
  | true => simp [trustTarget?, ht]
  | false => simpa [trustTarget?, ht] using howner

/-- Of the answers only `missing` may come from the limit. -/
theorem Came.told_of_ne_missing {calls : List Call} {r : Nat} {path : String} {probe : Probe}
    {c : Classification} (h : Came s calls r path probe c) (hc : c ≠ .missing) :
    ∃ (k : Nat) (target : String), Path.canonical s.home path = some target ∧
      calls[k]? = some ⟨r, target, .answered (.ok c)⟩ := by
  cases h with
  | told hp hk => exact ⟨_, _, hp, hk⟩
  | late => exact absurd rfl hc

/-- A log cannot have gone on both with a call of the trust store and without one. -/
theorem LogGrown.not_trust {l l' : List Entry} (h : LogGrown (!·.isTrust) l l') {i : Nat}
    {owner : String} : ¬ LogGrown (!·.isTrust) (l ++ [.trust i owner]) l' := by
  rintro ⟨more', hl', -⟩
  obtain ⟨more, rfl, hmore⟩ := h
  rw [List.append_assoc] at hl'
  have hmem : Entry.trust i owner ∈ more := by simp [List.append_cancel_left hl']
  have := hmore _ hmem
  simp [Entry.isTrust] at this

namespace Desk

variable {d e : Desk σ} {k i : Nat}

/-! ## The flag and who holds it -/

/-- A dialog says that it is being trusted just while an errand for it waits in front of the trust
store, and then it is one errand. -/
structure Held (d : Desk σ) : Prop where
  flagged : ∀ {k i : Nat}, d.trusts? k = some i → flag? d.dialogs i = some true
  holder : ∀ {i : Nat}, flag? d.dialogs i = some true → ∃ k, d.trusts? k = some i
  unique : ∀ {k k' i : Nat}, d.trusts? k = some i → d.trusts? k' = some i → k = k'

theorem Held.congr (h : Held d) (ht : ∀ k, e.trusts? k = d.trusts? k)
    (hf : ∀ i, flag? e.dialogs i = some true ↔ flag? d.dialogs i = some true) : Held e where
  flagged hk := (hf _).mpr (h.flagged (ht _ ▸ hk))
  holder hi := by
    obtain ⟨k, hk⟩ := h.holder ((hf _).mp hi)
    exact ⟨k, (ht k).trans hk⟩
  unique hk hk' := h.unique (ht _ ▸ hk) (ht _ ▸ hk')

/-- An errand takes a flag that nobody holds. -/
theorem Held.take (h : Held d) (hfree : flag? d.dialogs i ≠ some true) (hk : e.trusts? k = some i)
    (hd : d.trusts? k = none) (ht : ∀ j, j ≠ k → e.trusts? j = d.trusts? j)
    (hf : ∀ j, flag? e.dialogs j = some true ↔ j = i ∨ flag? d.dialogs j = some true) : Held e := by
  have hold {j j' : Nat} (hj : e.trusts? j = some j') :
      (j = k ∧ j' = i) ∨ (j ≠ k ∧ j' ≠ i ∧ d.trusts? j = some j') := by
    by_cases hjk : j = k
    · rw [hjk, hk] at hj
      exact Or.inl ⟨hjk, (Option.some.inj hj).symm⟩
    · rw [ht j hjk] at hj
      exact Or.inr ⟨hjk, fun he => hfree (he ▸ h.flagged hj), hj⟩
  constructor
  · intro j j' hj
    rcases hold hj with ⟨-, rfl⟩ | ⟨-, -, hj⟩
    · exact (hf _).mpr (Or.inl rfl)
    · exact (hf _).mpr (Or.inr (h.flagged hj))
  · intro j hj
    rcases (hf j).mp hj with rfl | hj
    · exact ⟨k, hk⟩
    · obtain ⟨k', hk'⟩ := h.holder hj
      refine ⟨k', (ht k' ?_).trans hk'⟩
      rintro rfl
      rw [hd] at hk'
      cases hk'
  · intro j j' i' hj hj'
    rcases hold hj with ⟨rfl, rfl⟩ | ⟨-, hi, hj⟩ <;> rcases hold hj' with ⟨rfl, hi'⟩ | ⟨-, hi', hj'⟩
    · rfl
    · exact absurd rfl hi'
    · exact absurd hi' hi
    · exact h.unique hj hj'

/-- The errand that holds a flag gives it up. -/
theorem Held.release (h : Held d) (hk : d.trusts? k = some i) (he : e.trusts? k = none)
    (ht : ∀ j, j ≠ k → e.trusts? j = d.trusts? j)
    (hf : ∀ j, flag? e.dialogs j = some true ↔ j ≠ i ∧ flag? d.dialogs j = some true) : Held e := by
  have hold {j j' : Nat} (hj : e.trusts? j = some j') : j ≠ k ∧ d.trusts? j = some j' := by
    have hjk : j ≠ k := by
      rintro rfl
      rw [he] at hj
      cases hj
    exact ⟨hjk, ht j hjk ▸ hj⟩
  constructor
  · intro j j' hj
    obtain ⟨hjk, hj⟩ := hold hj
    refine (hf j').mpr ⟨?_, h.flagged hj⟩
    rintro rfl
    exact hjk (h.unique hj hk)
  · intro j hj
    obtain ⟨hji, hj⟩ := (hf j).mp hj
    obtain ⟨k', hk'⟩ := h.holder hj
    refine ⟨k', (ht k' ?_).trans hk'⟩
    rintro rfl
    exact hji (Option.some.inj (hk'.symm.trans hk))
  · exact fun hj hj' => h.unique (hold hj).2 (hold hj').2

theorem StoreAnswered.flag? (h : StoreAnswered k i d e) (j : Nat) :
    flag? e.dialogs j = if i = j then (Admission.flag? d.dialogs j).map fun _ => false
      else Admission.flag? d.dialogs j := by
  cases h with
  | refused h =>
    rw [h.dialogs]
    exact flag?_modify_to _ i false (fun _ => rfl) j
  | granted _ h =>
    rw [h.dialogs]
    simp only [onDialog, dialogs_ask]
    exact flag?_modify_to _ i false (fun _ => rfl) j

theorem StoreAnswered.free (h : StoreAnswered k i d e) : e.trusts? k = none := by
  cases h with
  | refused h => exact h.free
  | granted _ h => exact h.free

theorem CallsStore.unheld {owner : String} (h : CallsStore d k i owner) :
    d.trusts? k = none ∧ flag? d.dialogs i = some false := by
  obtain ⟨⟨op, hop, -⟩, x, hx, ht⟩ := h
  refine ⟨by simp [trusts?, progress?, hop, Progress.trusts?], ?_⟩
  simp [flag?, hx, (Dialog.trustTarget?_eq_some_iff.mp ht).1]

theorem flag?_storeCalled (d : Desk σ) (i : Nat) (owner : String) (j : Nat) :
    flag? (d.storeCalled i owner).dialogs j =
      if i = j then (flag? d.dialogs j).map fun _ => true else flag? d.dialogs j :=
  flag?_modify_to _ i true (fun _ => rfl) j

theorem flag?_closeCurrent (s : Setting σ) (d : Desk σ) :
    flag? d.closeCurrent.dialogs = flag? d.dialogs := by
  rw [dialogs_closeCurrent s]
  split
  · exact flag?_modify _ _ fun _ => rfl
  · rfl

/-- A dialog that is opened is not being trusted. -/
theorem flag?_opened (s : Setting σ) (d : Desk σ) (path : String) (n : Nat) (x : Edit) (j : Nat) :
    flag? ((d.closeCurrent.seat path).1.amend n x).1.dialogs j = some true ↔
      flag? d.dialogs j = some true := by
  have hamend : flag? ((d.closeCurrent.seat path).1.amend n x).1.dialogs =
      flag? (d.closeCurrent.seat path).1.dialogs := by
    rcases backstage_amend (d.closeCurrent.seat path).1 n x with h | ⟨path', h⟩
    · rw [h]
    · rw [h.dialogs]
      exact flag?_modify _ n fun y => y.trusting_edit path'
  rw [hamend, ← flag?_closeCurrent s d]
  simp only [flag?, Option.map_eq_some_iff]
  constructor
  · rintro ⟨y, hy, ht⟩
    rcases getElem?_concat_eq_some_iff.mp hy with hy | ⟨-, rfl⟩
    · exact ⟨y, hy, ht⟩
    · cases ht
  · rintro ⟨y, hy, ht⟩
    exact ⟨y, getElem?_concat_eq_some_iff.mpr (Or.inl hy), ht⟩

/-- An errand takes the flag of a dialog with its call of the trust store, gives it up with the
answer, and touches no other flag. -/
theorem Held.deed (s : Setting σ) (h : Held d) (hd : Deed d k e)
    (ht : ∀ j, j ≠ k → e.trusts? j = d.trusts? j) : Held e := by
  have hfree (hk : d.trusts? k = none) (he : e.trusts? k = none)
      (hf : ∀ j, flag? e.dialogs j = some true ↔ flag? d.dialogs j = some true) : Held e := by
    refine h.congr (fun j => ?_) hf
    by_cases hj : j = k
    · rw [hj, hk, he]
    · exact ht j hj
  have hsame (hk : d.trusts? k = none) (he : e.trusts? k = none)
      (hf : flag? e.dialogs = flag? d.dialogs) : Held e := hfree hk he fun j => by rw [hf]
  have hclose (l : List Dialog) (j : Nat) : flag? (l.modify j Dialog.close) = flag? l :=
    flag?_modify l j fun _ => rfl
  cases hd with
  | plain hk hl => exact hsame hk hl.free (by rw [hl.dialogs])
  | edited hk hl =>
    refine hsame hk hl.free ?_
    rw [hl.dialogs, dialogs_edit]
    exact flag?_modify _ _ fun x => x.trusting_edit _
  | opened hk hl =>
    refine hfree hk hl.free fun j => ?_
    rw [hl.dialogs]
    exact flag?_opened s d _ _ _ j
  | dismissed hk hl =>
    refine hsame hk hl.free ?_
    rw [hl.dialogs]
    exact flag?_closeCurrent s d
  | @registered m e i hk hm hl =>
    refine hsame hk hl.free ?_
    rw [hl.dialogs, hm.dialogs_closeDialog s, hclose]
  | @putAway m e i hk hm _ _ hl =>
    have hdialogs := hl.dialogs.trans (hm.dialogs_closeDialog s i)
    refine hsame hk hl.free ?_
    rw [hdialogs, hclose]
  | @storeCalled e i owner hc hk hl =>
    obtain ⟨hfresh, hflag⟩ := hc.unheld
    refine h.take (by simp [hflag]) hk hfresh ht fun j => ?_
    rw [hl.dialogs, flag?_storeCalled]
    by_cases hj : i = j
    · subst hj
      simp [hflag]
    · simp [hj, Ne.symm hj]
  | @storeAnswered m e i hk hm hl =>
    refine h.release hk hl.free ht fun j => ?_
    rw [hl.flag?, hm.dialogs]
    by_cases hj : i = j
    · subst hj
      simp
    · simp [hj, Ne.symm hj]
  | @answeredAtOnce m e i owner hc hm hl =>
    obtain ⟨hfresh, hflag⟩ := hc.unheld
    refine hfree hfresh hl.free fun j => ?_
    rw [hl.flag?, hm.dialogs, flag?_storeCalled]
    by_cases hj : i = j
    · subst hj
      simp [hflag]
    · simp [hj]

theorem Runs.trusts? {m : Move σ} (h : Runs d m k e) (j : Nat) : e.trusts? j = d.trusts? j := by
  cases h with
  | inLine => rfl
  | atOnce op => exact trusts?_addErrand d op j

theorem trusts?_runErrand_of_ne {j : Nat} (h : j ≠ k) :
    (runErrand s d k).trusts? j = d.trusts? j := by
  rw [Desk.trusts?, progress?, errands_runErrand_of_ne h, Desk.trusts?, progress?]

theorem Held.move (h : Held d) (m : Move σ) : Held (d.move s m) := by
  rcases runs_or_touch (s := s) d m with ⟨k, e, hruns⟩ | htouch
  · have he : Held e := h.congr hruns.trusts? fun j => by rw [hruns.found.dialogs]
    rw [hruns.move]
    exact he.deed s (runErrand_deed e k) fun j hj => trusts?_runErrand_of_ne hj
  · have hof {d' : Desk σ} (hb : Backstage d' (d.move s m)) (ht : ∀ k, d'.trusts? k = d.trusts? k)
        (hf : flag? d'.dialogs = flag? d.dialogs) : Held (d.move s m) :=
      h.congr (fun k => (hb.trusts k).trans (ht k)) fun j => by rw [hb.dialogs, hf]
    cases htouch with
    | none hb => exact hof hb (fun _ => rfl) rfl
    | edited hb => exact hof hb (fun _ => rfl) (flag?_modify _ _ fun x => x.trusting_edit _)
    | answered _ hb =>
      exact hof hb (fun _ => rfl) (flag?_modify _ _ fun x => x.trusting_offer _ _ _)
    | closed hb => exact hof hb (fun _ => rfl) (flag?_modify _ _ fun _ => rfl)
    | dismissed _ hb => exact hof hb (fun _ => rfl) (flag?_modify _ _ fun _ => rfl)

theorem held_opening (world : σ) (paths : List String) : Held (opening world paths) := by
  have hnew (i : Nat) : flag? (opening world paths).dialogs i ≠ some true := by
    simp only [flag?, opening, List.getElem?_map]
    cases paths[i]? <;> simp
  have hnobody (k : Nat) : (opening world paths).trusts? k = none := rfl
  exact ⟨by simp [hnobody], fun hi => absurd hi (hnew _), by simp [hnobody]⟩

theorem Reachable.held (h : Reachable s d) : Held d := by
  obtain ⟨world, paths, ms, rfl⟩ := h
  induction ms using List.reverseRecOn with
  | nil => exact held_opening world paths
  | append_singleton ms m ih =>
    rw [after_concat]
    exact ih.move m

/-! ## Calls of the trust store -/

theorem log_closeCurrent (s : Setting σ) (d : Desk σ) :
    LogGrown (!·.isTrust) d.log d.closeCurrent.log := by
  unfold closeCurrent
  split
  · exact (backstage_closeDialog s d _).log
  · exact .refl _ _

theorem log_amend (d : Desk σ) (i : Nat) (x : Edit) :
    LogGrown (!·.isTrust) d.log (d.amend i x).1.log := by
  rcases backstage_amend d i x with h | ⟨path, h⟩
  · rw [h]
    exact .refl _ _
  · exact h.log

theorem StoreAnswered.log (h : StoreAnswered k i d e) : LogGrown (!·.isTrust) d.log e.log := by
  cases h with
  | refused h => exact h.log
  | @granted x _ h => exact (aloof_ask d i x x.path).backstage.log.trans h.log

/-- An errand's job that calls the trust store is the errand's first. Without such a call the errand
is not brought in front of the trust store either. -/
theorem Deed.calls (s : Setting σ) (h : Deed d k e) :
    (LogGrown (!·.isTrust) d.log e.log ∧ e.trusts? k = none) ∨
    ∃ i owner, CallsStore d k i owner ∧
      LogGrown (!·.isTrust) (d.log ++ [.trust i owner]) e.log ∧
      ∀ j, e.trusts? k = some j → j = i := by
  cases h with
  | plain _ hl => exact Or.inl ⟨hl.log, hl.free⟩
  | @edited e i path _ hl =>
    exact Or.inl ⟨(aloof_edit d i path).backstage.log.trans hl.log, hl.free⟩
  | @opened e path _ hl =>
    have hamend := log_amend (d.closeCurrent.seat path).1 d.dialogs.length .openInitial
    exact Or.inl ⟨(log_closeCurrent s d).trans (hamend.trans hl.log), hl.free⟩
  | dismissed _ hl => exact Or.inl ⟨(log_closeCurrent s d).trans hl.log, hl.free⟩
  | @registered m e i _ hm hl =>
    exact Or.inl ⟨(hm.log.trans (backstage_closeDialog s m i).log).trans hl.log, hl.free⟩
  | @putAway m e i _ hm _ _ hl =>
    exact Or.inl ⟨(hm.log.trans (backstage_closeDialog s m i).log).trans hl.log, hl.free⟩
  | @storeCalled e i owner hc hk hl =>
    exact Or.inr ⟨i, owner, hc, hl.log, fun j hj => Option.some.inj (hj.symm.trans hk)⟩
  | storeAnswered _ hm hl => exact Or.inl ⟨hm.log.trans hl.log, hl.free⟩
  | @answeredAtOnce m e i owner hc hm hl =>
    refine Or.inr ⟨i, owner, hc, hm.log.trans hl.log, fun j hj => ?_⟩
    rw [hl.free] at hj
    cases hj

/-- With move `m`, errand `k` starts, and it is to ask trust for dialog `i`. `e` is the desk that it
finds. -/
def AsksTrust (d : Desk σ) (m : Move σ) (k i : Nat) (e : Desk σ) : Prop :=
  Runs d m k e ∧ ∃ op : Operation,
    e.errands[k]? = some { operation := op } ∧ op.trusts? d.current = some i

theorem log_beginTrust {x : Dialog} {owner : String} (hx : d.dialogs[i]? = some x)
    (ht : x.trustTarget? = some owner) (k : Nat) :
    LogGrown (!·.isTrust) (d.log ++ [.trust i owner]) (beginTrust s d k i).log := by
  unfold beginTrust
  simp only [hx, Option.bind_some, ht]
  split
  · exact .refl _ _
  · obtain ⟨m, hm, h⟩ := passTrust_storeAnswered (s := s) (d.storeCalled i owner) k i owner
    exact hm.log.trans h.log

/-- Where trust is possible, an errand that is to ask for it comes to the trust store. -/
theorem AsksTrust.move {m : Move σ} {x : Dialog} {owner : String} (h : AsksTrust d m k i e)
    (hx : d.dialogs[i]? = some x) (ht : x.trustTarget? = some owner) :
    d.move s m = beginTrust s e k i := by
  obtain ⟨hruns, op, hop, hi⟩ := h
  have hcurrent := hruns.found.current
  rw [hruns.move]
  cases op with
  | trust j =>
    obtain rfl := Option.some.inj hi
    simp [runErrand, hop, beginErrand]
  | trustCurrent wait strict =>
    have hcurrent : e.current = some i := hcurrent.trans hi
    have hshown : e.snapshot? i = some x.snapshot := by simp [snapshot?, hruns.found.dialogs, hx]
    have howner := (Snapshot.owner?_eq_some_iff x.snapshot owner).mpr
      (Dialog.trustTarget?_eq_some_iff.mp ht).2
    simp only [runErrand, hop, beginErrand, onCurrent, hcurrent, Bool.false_eq_true, if_false]
    cases strict with
    | false => rfl
    | true => simp [hshown, howner]
  | _ => cases hi

/-- An errand that is to ask for trust calls the trust store when it starts, or not at all: it does
just if trust is possible then. -/
theorem AsksTrust.calls_iff {m : Move σ} {x : Dialog} (h : AsksTrust d m k i e)
    (hx : d.dialogs[i]? = some x) :
    ((∃ owner, LogGrown (!·.isTrust) (d.log ++ [.trust i owner]) (d.move s m).log) ↔
      x.canTrust = true) ∧
    (x.canTrust = false → LogGrown (!·.isTrust) d.log (d.move s m).log) := by
  have hruns := h.1
  have hcannot (hc : x.canTrust = false) : LogGrown (!·.isTrust) d.log (d.move s m).log := by
    rw [hruns.move, ← hruns.found.log]
    rcases Deed.calls s (runErrand_deed (s := s) e k) with ⟨hlog, -⟩ | ⟨j, owner, hcalls, -⟩
    · exact hlog
    · obtain ⟨⟨op, hop, hj⟩, y, hy, ht⟩ := hcalls
      obtain ⟨op', hop', hi⟩ := h.2
      obtain rfl : op = op' := by simpa using hop.symm.trans hop'
      rw [hruns.found.current] at hj
      obtain rfl : j = i := Option.some.inj (hj.symm.trans hi)
      rw [hruns.found.dialogs, hx] at hy
      obtain rfl := Option.some.inj hy
      rw [← Bool.not_eq_true, Dialog.canTrust_iff, ht] at hc
      exact absurd rfl hc
  refine ⟨⟨fun ⟨owner, hlog⟩ => ?_, fun hc => ?_⟩, hcannot⟩
  · by_contra hc
    exact (hcannot (Bool.not_eq_true _ ▸ hc)).not_trust hlog
  · obtain ⟨owner, ht⟩ := Option.isSome_iff_exists.mp (x.canTrust_iff.mp hc)
    refine ⟨owner, ?_⟩
    rw [h.move hx ht, ← hruns.found.log]
    exact log_beginTrust (hruns.found.dialogs ▸ hx) ht k

/-- What a move adds to the log calls the trust store at most once, for an errand that starts and
finds trust possible; no other errand comes to the store. -/
theorem calls_move (d : Desk σ) (m : Move σ) :
    (LogGrown (!·.isTrust) d.log (d.move s m).log ∧
      ∀ k i, (d.move s m).trusts? k = some i → d.trusts? k = some i) ∨
    ∃ k i owner e x, AsksTrust d m k i e ∧ d.dialogs[i]? = some x ∧
      x.trustTarget? = some owner ∧
      LogGrown (!·.isTrust) (d.log ++ [.trust i owner]) (d.move s m).log ∧
      ∀ k' j, (d.move s m).trusts? k' = some j → d.trusts? k' = some j ∨ (k' = k ∧ j = i) := by
  rcases runs_or_touch (s := s) d m with ⟨k, e, hruns⟩ | htouch
  · have hother {j j' : Nat} (hj : j ≠ k) (h : (d.move s m).trusts? j = some j') :
        d.trusts? j = some j' := by
      rwa [hruns.move, trusts?_runErrand_of_ne hj, hruns.trusts?] at h
    have hfound := hruns.found
    rcases Deed.calls s (runErrand_deed (s := s) e k) with
      ⟨hlog, hfree⟩ | ⟨i, owner, hcalls, hlog, hk⟩
    · rw [← hruns.move] at hlog hfree
      refine Or.inl ⟨hfound.log ▸ hlog, fun j j' hj => hother ?_ hj⟩
      rintro rfl
      rw [hfree] at hj
      cases hj
    · rw [← hruns.move] at hlog hk
      obtain ⟨⟨op, hop, hi⟩, x, hx, ht⟩ := hcalls
      refine Or.inr ⟨k, i, owner, e, x, ⟨hruns, op, hop, hfound.current ▸ hi⟩, hfound.dialogs ▸ hx,
        ht, hfound.log ▸ hlog, fun j j' hj => ?_⟩
      by_cases hjk : j = k
      · exact Or.inr ⟨hjk, hk j' (hjk ▸ hj)⟩
      · exact Or.inl (hother hjk hj)
  · refine Or.inl ?_
    have hof {d' : Desk σ} (hb : Backstage d' (d.move s m)) (ht : ∀ k, d'.trusts? k = d.trusts? k)
        (hl : d'.log = d.log) : LogGrown (!·.isTrust) d.log (d.move s m).log ∧
          ∀ k i, (d.move s m).trusts? k = some i → d.trusts? k = some i :=
      ⟨hl ▸ hb.log, fun k i hk => by rwa [hb.trusts, ht] at hk⟩
    cases htouch with
    | none hb => exact hof hb (fun _ => rfl) rfl
    | edited hb => exact hof hb (fun _ => rfl) rfl
    | answered _ hb => exact hof hb (fun _ => rfl) rfl
    | closed hb => exact hof hb (fun _ => rfl) rfl
    | dismissed _ hb => exact hof hb (fun _ => rfl) rfl

/-! ## Trust in a run -/

/-- With move `m`, errand `k` starts and finds trust possible for dialog `i`. The owner is the one
that the classifier named for the live path, in the answer that the dialog applied last. -/
structure Entitled (s : Setting σ) (d : Desk σ) (m : Move σ) (k i : Nat) (owner : String) :
    Prop where
  asks : ∃ e, AsksTrust d m k i e
  shown : ∃ (x : Dialog) (r c : Nat) (q : Request) (target : String), d.dialogs[i]? = some x ∧
    x.canTrust = true ∧ x.classification = .settled (.dubious owner) ∧
    LastApplied d i x (.dubious owner) r q ∧ q.path = x.path ∧
    Path.canonical s.home x.path = some target ∧
    d.calls[c]? = some ⟨r, target, .answered (.ok (.dubious owner))⟩

/-- Entry `n` of the log of the run `ms` from `d`, a call of the trust store for dialog `i` with
`owner`, was made by errand `k` when it started. -/
def TrustedBy (s : Setting σ) (d : Desk σ) (ms : List (Move σ)) (n k i : Nat) (owner : String) :
    Prop :=
  ∃ (before later : List (Move σ)) (m : Move σ), ms = before ++ m :: later ∧
    n = (d.after s before).log.length ∧ Entitled s (d.after s before) m k i owner

theorem TrustedBy.concat {ms : List (Move σ)} {n k i : Nat} {owner : String}
    (h : TrustedBy s d ms n k i owner) (m : Move σ) : TrustedBy s d (ms ++ [m]) n k i owner := by
  obtain ⟨before, later, m', rfl, hn, he⟩ := h
  refine ⟨before, later ++ [m], m', ?_, hn, he⟩
  rw [List.append_assoc, List.cons_append]

theorem AsksTrust.entitled {m : Move σ} {x : Dialog} {owner : String} (h : AsksTrust d m k i e)
    (hd : Reachable s d) (hx : d.dialogs[i]? = some x) (ht : x.trustTarget? = some owner) :
    Entitled s d m k i owner := by
  have hc := (Dialog.trustTarget?_eq_some_iff.mp ht).2
  obtain ⟨-, r, q, hlast, hq, hcame⟩ := hd.answer_of_settled hx hc
  obtain ⟨c, target, hp, hcall⟩ := hcame.told_of_ne_missing nofun
  exact ⟨⟨e, h⟩, x, r, c, q, target, hx, x.canTrust_iff.mpr (by rw [ht]; rfl), hc, hlast, hq, hp,
    hcall⟩

/-- The calls of the trust store that a run has made, and those that wait for an answer, were each
made by an errand that started in it. -/
theorem trustedBy_of_run (hd : Reachable s d) (hlog : d.log = []) (hfree : d.errands = [])
    (ms : List (Move σ)) :
    (∀ n i owner, (d.after s ms).log[n]? = some (.trust i owner) →
      ∃ k, TrustedBy s d ms n k i owner) ∧
    (∀ k i, (d.after s ms).trusts? k = some i → ∃ n owner, TrustedBy s d ms n k i owner) := by
  induction ms using List.reverseRecOn with
  | nil =>
    refine ⟨fun n i owner hn => ?_, fun k i hk => ?_⟩
    · simp [after, hlog] at hn
    · simp [after, trusts?, progress?, hfree] at hk
  | append_singleton ms m ih =>
    rw [after_concat]
    rcases calls_move (s := s) (d.after s ms) m with
      ⟨hgrown, hk⟩ | ⟨k, i, owner, e, x, hasks, hx, ht, hgrown, hk⟩
    · refine ⟨fun n i owner hn => ?_, fun k i hki => ?_⟩
      · obtain ⟨k, h⟩ := ih.1 n i owner (hgrown.of_getElem? rfl hn)
        exact ⟨k, h.concat m⟩
      · obtain ⟨n, owner, h⟩ := ih.2 k i (hk k i hki)
        exact ⟨n, owner, h.concat m⟩
    · have hnew : TrustedBy s d (ms ++ [m]) (d.after s ms).log.length k i owner :=
        ⟨ms, [], m, rfl, rfl, hasks.entitled (hd.after ms) hx ht⟩
      refine ⟨fun n j owner' hn => ?_, fun k' j hj => ?_⟩
      · rcases getElem?_concat_eq_some_iff.mp (hgrown.of_getElem? rfl hn) with hold | ⟨rfl, he⟩
        · obtain ⟨k', h⟩ := ih.1 n j owner' hold
          exact ⟨k', h.concat m⟩
        · obtain ⟨rfl, rfl⟩ := Entry.trust.inj he
          exact ⟨k, hnew⟩
      · rcases hk k' j hj with hold | ⟨rfl, rfl⟩
        · obtain ⟨n, owner', h⟩ := ih.2 k' j hold
          exact ⟨n, owner', h.concat m⟩
        · exact ⟨_, owner, hnew⟩

/-- On every run a dialog says that it is being trusted just while one errand, and no other, waits
for the trust store to answer its call for that dialog. An errand that is to ask for trust calls the
store when it starts, and just if trust is possible then. So every call is for the owner that the
applied answer for the live path names at that moment. -/
theorem trust_exclusive (s : Setting σ) (world : σ) (paths : List String) (ms : List (Move σ))
    {d : Desk σ} (hd : d = (opening world paths).after s ms) :
    (∀ i x, d.dialogs[i]? = some x → (x.trusting = true ↔ ∃ k, d.trusts? k = some i)) ∧
    (∀ i k k', d.trusts? k = some i → d.trusts? k' = some i → k = k') ∧
    (∀ k i, d.trusts? k = some i → ∃ n owner, TrustedBy s (opening world paths) ms n k i owner) ∧
    (∀ m k i e x, AsksTrust d m k i e → d.dialogs[i]? = some x →
      ((∃ owner, LogGrown (!·.isTrust) (d.log ++ [.trust i owner]) (d.move s m).log) ↔
        x.canTrust = true) ∧
      (x.canTrust = false → LogGrown (!·.isTrust) d.log (d.move s m).log)) ∧
    (∀ n i owner, d.log[n]? = some (.trust i owner) →
      ∃ k, TrustedBy s (opening world paths) ms n k i owner) := by
  subst hd
  have hopening := reachable_opening (s := s) world paths
  have hheld := (hopening.after ms).held
  have hrun := trustedBy_of_run hopening rfl rfl ms
  refine ⟨fun i x hx => ?_, fun i k k' => hheld.unique, hrun.2,
    fun m k i e x h hx => h.calls_iff hx, hrun.1⟩
  constructor
  · intro ht
    exact hheld.holder (by simp [flag?, hx, ht])
  · rintro ⟨k, hk⟩
    have := hheld.flagged hk
    simpa [flag?, hx] using this

/-- Services whose trust store is behind a gate. -/
def guarded : Setting Unit := { patient "/root" with trustGate := fun _ => some 0 }

/-- A dubious answer, and an errand that asks for trust. -/
def trustAsked : List (Move Unit) :=
  [.edit 0 (.setPath "/a"), .step, .step, .answer 0 (.ok (.dubious "/o")), .step, .step,
    .perform (.trust 0)]

/-- A second errand finds the first one in front of the store and calls nobody; the call that is
made is for the owner, not for the path. -/
theorem trust_exclusive_overlapping :
    (∃ k, ((opening () [""]).after guarded trustAsked).trusts? k = some 0) ∧
    LogGrown (!·.isTrust) ((opening () [""]).after guarded trustAsked).log
      ((opening () [""]).after guarded (trustAsked ++ [.perform (.trust 0)])).log ∧
    ∃ k, TrustedBy guarded (opening () [""]) trustAsked 1 k 0 "/o" := by
  have h := trust_exclusive guarded () [""] trustAsked rfl
  refine ⟨(h.1 0 _ rfl).mp rfl, ?_, h.2.2.2.2 1 0 "/o" rfl⟩
  exact (h.2.2.2.1 (.perform (.trust 0)) 1 0 _ _ ⟨.atOnce (.trust 0), .trust 0, rfl, rfl⟩ rfl).2 rfl

end Desk
end Admission
