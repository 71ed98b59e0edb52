import Admission.Proofs.Desk.Orderly
import Admission.Proofs.Desk.Slots

/-!
# Errands that wait for a dialog

An errand may have a dialog in hand while it waits: first for the trust store, then for a request of
the dialog. It keeps it until it ends, with what is shown then or with the failure of the request,
or because it has been cancelled itself. When the request has ended, the errand is in line or its
word is, so it does end. What happens to the dialog in between is left open.
-/
namespace Admission
namespace Desk

variable {σ : Type} {s : Setting σ} {d e : Desk σ} {b b' : Prop} {op : Operation} {i k r : Nat}
  {a : Signal} {p : Progress} {m : Move σ} {x : Errand} {v : Ending}

/-! ## What is shown -/

/-- The dialog that the desk shows, if it shows one, is there. -/
def Seated (d : Desk σ) : Prop := ∀ i, d.current = some i → i < d.dialogs.length

theorem length_le_move (d : Desk σ) (m : Move σ) :
    d.dialogs.length ≤ (d.move s m).dialogs.length := by
  by_contra hlt
  have hn : (d.move s m).dialogs.length < d.dialogs.length := by omega
  obtain ⟨y, hy, -⟩ := dialogsGrown_move (s := s) d m (List.getElem?_eq_getElem hn)
  exact absurd (List.getElem?_eq_some_iff.mp hy).1 (Nat.lt_irrefl _)

theorem current_deed (s : Setting σ) (h : Deed d k e) :
    e.current = d.current ∨ e.current = none ∨
      e.current = some d.dialogs.length ∧ d.dialogs.length < e.dialogs.length := by
  have hanswered {m e : Desk σ} {i : Nat} (h : StoreAnswered k i m e) : e.current = m.current := by
    cases h with
    | refused h => exact h.current
    | granted _ h => exact h.current.trans (aloof_ask m i _ _).current
  cases h with
  | plain _ h => exact Or.inl h.current
  | edited _ h => exact Or.inl (h.current.trans (aloof_edit d _ _).current)
  | @opened e path _ h =>
    refine Or.inr (Or.inr ?_)
    have hlen : (d.closeCurrent.seat path).1.dialogs.length = d.dialogs.length + 1 := by
      simp [seat, closeCurrent_length s]
    have hseat : (d.closeCurrent.seat path).1.current = some d.dialogs.length := by
      simp [seat, closeCurrent_length s]
    rw [h.current, h.dialogs]
    rcases backstage_amend (d.closeCurrent.seat path).1 d.dialogs.length .openInitial with
      h | ⟨path', h⟩
    · rw [h, hlen]
      exact ⟨hseat, Nat.lt_succ_self _⟩
    · rw [h.current, h.dialogs]
      refine ⟨hseat, ?_⟩
      simp only [onDialog, List.length_modify, hlen]
      exact Nat.lt_succ_self _
  | dismissed _ h => exact Or.inr (Or.inl h.current)
  | @registered m e i _ hm h =>
    have hclose := (backstage_closeDialog s m i).current
    exact Or.inl (h.current.trans (hclose.trans hm.current))
  | putAway _ _ _ _ h => exact Or.inr (Or.inl h.current)
  | storeCalled _ _ h => exact Or.inl h.current
  | storeAnswered _ hm h => exact Or.inl ((hanswered h).trans hm.current)
  | answeredAtOnce _ hm h => exact Or.inl ((hanswered h).trans hm.current)

/-- A move leaves the dialog shown that is shown, or shows none, or a new one. -/
theorem current_move (d : Desk σ) (m : Move σ) :
    (d.move s m).current = d.current ∨ (d.move s m).current = none ∨
      (d.move s m).current = some d.dialogs.length ∧
        d.dialogs.length < (d.move s m).dialogs.length := by
  rcases runs_or_touch (s := s) d m with ⟨k, e, h⟩ | h
  · rw [h.move, ← h.found.current, ← h.found.dialogs]
    exact current_deed s (runErrand_deed e k)
  · cases h with
    | none h => exact Or.inl h.current
    | edited h => exact Or.inl h.current
    | answered _ h => exact Or.inl h.current
    | closed h => exact Or.inl h.current
    | dismissed _ h => exact Or.inr (Or.inl h.current)

theorem Reachable.seated (h : Reachable s d) : Seated d := by
  obtain ⟨world, paths, ms, rfl⟩ := h
  induction ms using List.reverseRecOn with
  | nil => nofun
  | append_singleton ms m ih =>
    rw [after_concat]
    intro i hi
    rcases current_move (s := s) ((opening world paths).after s ms) m with hc | hc | ⟨hc, hlt⟩
    · exact Nat.lt_of_lt_of_le (ih i (hc.symm.trans hi)) (length_le_move _ m)
    · cases hc.symm.trans hi
    · exact Option.some.inj (hc.symm.trans hi) ▸ hlt

/-- What an errand that had dialog `i` in hand gives in the end: what that dialog shows. If it
opened the dialog, it gives what the dialog shows that is the current one then, and fails if there
is none. -/
def Reported (d : Desk σ) (i : Nat) : Operation → Ending → Prop
  | .openDialog _ _, v =>
    (∃ j g, d.current = some j ∧ d.snapshot? j = some g ∧ v = .gave (.shown g)) ∨
      (d.current = none ∧ v = .failed .dialogGone)
  | .trustCurrent _ _, v =>
    ∃ g granted, d.snapshot? i = some g ∧ v = .gave (.trustShown granted g)
  | _, v => ∃ g, d.snapshot? i = some g ∧ v = .gave (.shown g)

theorem snapshot?_of_lt (h : i < d.dialogs.length) : ∃ g, d.snapshot? i = some g :=
  ⟨_, congrArg (Option.map Dialog.snapshot) (List.getElem?_eq_getElem h)⟩

/-- What a run finds is what was there. -/
theorem Found.seated (h : Found d e) (hd : Seated d) : Seated e := by
  intro i hi
  rw [h.dialogs]
  exact hd i (h.current ▸ hi)

theorem Found.snapshot?_eq (h : Found d e) (i : Nat) : e.snapshot? i = d.snapshot? i := by
  rw [snapshot?, h.dialogs, snapshot?]

theorem reported_report (hd : Seated d) (hi : i < d.dialogs.length) (op : Operation) :
    Reported d i op (d.report i op) := by
  obtain ⟨g, hg⟩ := snapshot?_of_lt hi
  cases op with
  | openDialog path wait =>
    cases hc : d.current with
    | none => exact Or.inr ⟨hc, by simp [report, hc]⟩
    | some j =>
      obtain ⟨g, hg⟩ := snapshot?_of_lt (hd j hc)
      exact Or.inl ⟨j, g, hc, hg, by simp [report, hc, hg]⟩
  | trustCurrent wait strict => exact ⟨g, true, hg, by simp [report, hg]⟩
  | _ => exact ⟨g, hg, by simp [report, hg]⟩

/-! ## What is waited for -/

/-- How the word stands that request `r` has ended: it is in line if it is needed still, and errand
`k` is in line if it waits no longer. -/
inductive Signalled (b : Prop) (d : Desk σ) (k r : Nat) : Signal → Prop
  | waiting (h : Over d r → .requestEnded r ∈ d.agenda.jobs) : Signalled b d k r .waiting
  | given (h : Over d r) (hk : 0 < d.turns k) : Signalled b d k r .given
  | withdrawn (h : b) (hk : 0 < d.turns k) : Signalled b d k r .withdrawn

/-- What errand `k`, which runs `op`, waits for with dialog `i` in hand; `b` says that it may have
been cancelled. -/
inductive Awaits (b : Prop) (op : Operation) (i : Nat) (d : Desk σ) (k : Nat) : Progress → Prop
  | store {wait strict : Bool} {owner : String} {gate : Nat} {a : Signal}
      (hop : op = .trustCurrent wait strict) (h : a = .withdrawn → b) :
      Awaits b op i d k (.trusting i owner gate a)
  | request {r : Nat} {q : Request} {a : Signal} (hq : d.requests[r]? = some q) (hi : q.dialog = i)
      (h : Signalled b d k r a) : Awaits b op i d k (.watching i r a)

/-- Errand `k`, which is `x` and runs `op`, has dialog `i` in hand. -/
structure Waits (b : Prop) (op : Operation) (i : Nat) (d : Desk σ) (k : Nat) (x : Errand) :
    Prop where
  found : d.errands[k]? = some x
  operation : x.operation = op
  dialog : i < d.dialogs.length
  stopping : x.stopping = true → b
  awaits : Awaits b op i d k x.progress

theorem Signalled.mono (h : Signalled b d k r a) (hb : b → b') : Signalled b' d k r a := by
  cases h with
  | waiting h => exact .waiting h
  | given h hk => exact .given h hk
  | withdrawn h hk => exact .withdrawn (hb h) hk

theorem Awaits.mono (h : Awaits b op i d k p) (hb : b → b') : Awaits b' op i d k p := by
  cases h with
  | store hop h => exact .store hop fun ha => hb (h ha)
  | request hq hi h => exact .request hq hi (h.mono hb)

theorem Waits.mono (h : Waits b op i d k x) (hb : b → b') : Waits b' op i d k x :=
  ⟨h.found, h.operation, h.dialog, fun hx => hb (h.stopping hx), h.awaits.mono hb⟩

/-- While the errand stays in line as it is, a request that ends is spoken of, and the word stays in
line until it is told. -/
theorem Signalled.move (h : Signalled b d k r a) (ht : d.turns k ≤ (d.move s m).turns k)
    (htold : a = .waiting → ∀ rest, m = .step → d.agenda.now ≠ .requestEnded r :: rest) :
    Signalled b (d.move s m) k r a := by
  cases h with
  | waiting h =>
    refine .waiting fun ho => ?_
    rcases announced_move d m ho with ho | hj
    · exact (jobs_move d m (h ho)).resolve_right fun ⟨hm, rest, hnow⟩ => htold rfl rest hm hnow
    · exact hj
  | given h hk => exact .given (over_move m h) (Nat.lt_of_lt_of_le hk ht)
  | withdrawn h hk => exact .withdrawn h (Nat.lt_of_lt_of_le hk ht)

/-- What is told of another request is of no account. -/
theorem Awaits.move (h : Awaits b op i d k p) (ht : d.turns k ≤ (d.move s m).turns k)
    (htold : ∀ r rest, p = .watching i r .waiting → m = .step →
      d.agenda.now ≠ .requestEnded r :: rest) : Awaits b op i (d.move s m) k p := by
  cases h with
  | store hop h => exact .store hop h
  | request hq hi h =>
    obtain ⟨q', hq', hdialog, -⟩ := request_kept (linesKept_move d m) hq
    exact .request hq' (hdialog.trans hi) (h.move ht fun ha rest => htold _ rest (by rw [ha]))

/-! ## Moves that do not run the errand -/

theorem slot_eq_iff {l : Slot} :
    d.slot k = l ↔ d.errands[k]? = l.errand? ∧ d.turns k = l.turns := by
  cases l
  simp [slot]

/-- An errand that is woken goes on as is said, and is in line. -/
theorem slot_of_wake {f : Errand → Option Progress} (hx : d.errands[k]? = some x)
    (h : e.slot k = (d.slot k).wake f) {p : Progress} (hp : f x = some p) :
    e.errands[k]? = some { x with progress := p } ∧ e.turns k = d.turns k + 1 := by
  have hwake : (d.slot k).wake f = ⟨some { x with progress := p }, d.turns k + 1⟩ := by
    simp [Slot.wake, slot, hx, hp]
  exact slot_eq_iff.mp (h.trans hwake)

theorem slot_of_not_wake {f : Errand → Option Progress} (hx : d.errands[k]? = some x)
    (h : e.slot k = (d.slot k).wake f) (hp : f x = none) : e.slot k = d.slot k := by
  rw [h, Slot.wake]
  simp [slot, hx, hp]

theorem Waits.still (h : Waits b op i d k x) (hslot : (d.move s m).slot k = d.slot k)
    (htold : ∀ r rest, x.progress = .watching i r .waiting → m = .step →
      d.agenda.now ≠ .requestEnded r :: rest) : Waits b op i (d.move s m) k x := by
  obtain ⟨herrand, hturns⟩ := slot_eq_iff.mp hslot
  exact ⟨herrand.trans h.found, h.operation, Nat.lt_of_lt_of_le h.dialog (length_le_move d m),
    h.stopping, h.awaits.move (Nat.le_of_eq hturns.symm) htold⟩

/-- The end of the request that is waited for is told. -/
theorem Waits.told (h : Waits b op i d k x) (hd : Reachable s d) {rest : List Job}
    (hnow : d.agenda.now = .requestEnded r :: rest)
    (hslot : (d.move s .step).slot k = (d.slot k).wake (Errand.heard r)) :
    ∃ y, Waits b op i (d.move s .step) k y := by
  by_cases hp : x.progress = .watching i r .waiting
  · have hheard : x.heard r = some (.watching i r .given) := by simp [Errand.heard, hp]
    obtain ⟨herrand, hturns⟩ := slot_of_wake h.found hslot hheard
    have hover : Over d r := over_of_told hd (by simp [Agenda.jobs, hnow])
    refine ⟨_, herrand, h.operation, Nat.lt_of_lt_of_le h.dialog (length_le_move d _),
      h.stopping, ?_⟩
    have hawaits := h.awaits
    rw [hp] at hawaits
    cases hawaits with
    | request hq hi _ =>
      obtain ⟨q', hq', hdialog, -⟩ := request_kept (linesKept_move (s := s) d .step) hq
      exact .request hq' (hdialog.trans hi)
        (.given (over_move .step hover) (by rw [hturns]; exact Nat.succ_pos _))
  · have hnone : x.heard r = none := by
      unfold Errand.heard
      split
      · rename_i j q hw
        have hawaits := h.awaits
        rw [hw] at hawaits
        cases hawaits with
        | request =>
          rw [if_neg]
          rintro rfl
          exact hp hw
      · rfl
    refine ⟨x, h.still (slot_of_not_wake h.found hslot hnone) fun r' rest' hw _ hnow' => hp ?_⟩
    rw [hw, Job.requestEnded.inj (List.cons.inj (hnow'.symm.trans hnow)).1]

/-- A gate lets the errand pass. -/
theorem Waits.passed (h : Waits b op i d k x) {service : Gated} {gate : Nat}
    (hslot : (d.move s (.openGate service gate)).slot k =
      (d.slot k).wake fun x => passing service gate x.progress) :
    ∃ y, Waits b op i (d.move s (.openGate service gate)) k y := by
  cases hp : passing service gate x.progress with
  | none => exact ⟨x, h.still (slot_of_not_wake h.found hslot hp) nofun⟩
  | some p =>
    obtain ⟨herrand, -⟩ := slot_of_wake h.found hslot hp
    refine ⟨_, herrand, h.operation, Nat.lt_of_lt_of_le h.dialog (length_le_move d _),
      h.stopping, ?_⟩
    have hawaits := h.awaits
    generalize x.progress = w at hp hawaits
    cases hawaits with
    | store hop _ =>
      unfold passing at hp
      split at hp
      · rename_i hw
        cases hw
        split at hp
        · cases hp
          exact .store hop nofun
        · cases hp
      · rename_i hw
        cases hw
      · cases hp
    | request => cases hp

theorem slot_of_cancel (hx : d.errands[k]? = some x) (hp : ∀ v, x.progress ≠ .ended v)
    (h : e.slot k = (d.slot k).cancel) :
    (∃ p, x.progress.withdrawn? = some p ∧ e.errands[k]? = some { x with progress := p } ∧
      e.turns k = d.turns k + 1) ∨
    (x.progress.withdrawn? = none ∧ e.errands[k]? = some { x with stopping := true } ∧
      e.turns k = d.turns k) := by
  have hopen : x.isEnded = false := by
    unfold Errand.isEnded
    split
    · exact absurd ‹_› (hp _)
    · rfl
  cases hw : x.progress.withdrawn? with
  | none =>
    have hcancel : (d.slot k).cancel = ⟨some { x with stopping := true }, d.turns k⟩ := by
      simp [Slot.cancel, slot, hx, hopen, hw]
    exact Or.inr ⟨rfl, slot_eq_iff.mp (h.trans hcancel)⟩
  | some p =>
    have hcancel : (d.slot k).cancel = ⟨some { x with progress := p }, d.turns k + 1⟩ := by
      simp [Slot.cancel, slot, hx, hopen, hw]
    exact Or.inl ⟨p, rfl, slot_eq_iff.mp (h.trans hcancel)⟩

/-- The errand is cancelled: it is to be stopped, or what it waits for is given up. -/
theorem Waits.cancelled (h : Waits b op i d k x) (hb : b)
    (hslot : (d.move s (.cancelErrand k)).slot k = (d.slot k).cancel) :
    ∃ y, Waits b op i (d.move s (.cancelErrand k)) k y := by
  have hlt := Nat.lt_of_lt_of_le h.dialog (length_le_move (s := s) d (.cancelErrand k))
  have hawaits := h.awaits
  have hopen (v : Ending) : x.progress ≠ .ended v := by
    intro hv
    rw [hv] at hawaits
    cases hawaits
  rcases slot_of_cancel h.found hopen hslot with ⟨p, hp, herrand, hturns⟩ | ⟨-, herrand, hturns⟩
  · refine ⟨_, herrand, h.operation, hlt, fun _ => hb, ?_⟩
    generalize x.progress = w at hp hawaits
    cases hawaits with
    | @store wait strict owner gate a hop _ =>
      cases a <;> cases hp
      exact .store hop fun _ => hb
    | @request r q a hq hi _ =>
      obtain ⟨q', hq', hdialog, -⟩ := request_kept (linesKept_move (s := s) d (.cancelErrand k)) hq
      cases a <;> cases hp
      exact .request hq' (hdialog.trans hi) (.withdrawn hb (by rw [hturns]; exact Nat.succ_pos _))
  · exact ⟨_, herrand, h.operation, hlt, fun _ => hb,
      hawaits.move (Nat.le_of_eq hturns.symm) nofun⟩

/-- A move that does not run the errand leaves the dialog in its hand. -/
theorem Waits.move (h : Waits b op i d k x) (hd : Reachable s d) (hb : m = .cancelErrand k → b)
    (hruns : ∀ e, ¬ Runs d m k e) : ∃ y, Waits b op i (d.move s m) k y := by
  cases slot_move (s := s) d k m with
  | runs hr => exact absurd hr (hruns _)
  | told hnow hslot => exact h.told hd hnow hslot
  | passed hslot => exact h.passed hslot
  | cancelled hslot => exact h.cancelled (hb rfl) hslot
  | spawned hk _ =>
    have hlt := (List.getElem?_eq_some_iff.mp h.found).1
    omega
  | still hm hslot => exact ⟨x, h.still hslot fun r rest _ => hm r rest⟩

/-! ## Moves that run the errand -/

/-- How an errand stands that has run with dialog `i` in hand and goes on by itself. -/
inductive Goes (b : Prop) (op : Operation) (i : Nat) (d : Desk σ) (k : Nat) : Prop
  | waits {x : Errand} (h : Waits b op i d k x)
  | ended {v : Ending} (h : d.progress? k = some (.ended v)) (hv : Reported d i op v)

/-- `r` is a request of dialog `i` that has not ended. -/
def Outstanding (d : Desk σ) (i r : Nat) : Prop :=
  ∃ q : Request, d.requests[r]? = some q ∧ q.dialog = i ∧ q.verdict? = none

theorem Outstanding.not_over (h : Outstanding d i r) : ¬ Over d r := by
  rintro ⟨q, v, hq, hv⟩
  obtain ⟨q', hq', -, hn⟩ := h
  obtain rfl := Option.some.inj (hq.symm.trans hq')
  cases hn.symm.trans hv

theorem outstanding_ask {y : Dialog} {path : String} (h : (d.ask i y path).2 = some r) :
    Outstanding (d.ask i y path).1 i r := by
  unfold ask at h ⊢
  split
  · rename_i ha
    rw [if_pos ha] at h
    obtain rfl := Option.some.inj h
    exact ⟨_, List.getElem?_concat_length, rfl, rfl⟩
  · rename_i ha
    rw [if_neg ha] at h
    cases h

theorem outstanding_amend {y : Edit} (h : (d.amend i y).2 = some r) :
    Outstanding (d.amend i y).1 i r := by
  unfold amend edit at h ⊢
  split
  · rename_i hnone
    simp only [hnone] at h
    cases h
  · rename_i path hpath
    simp only [hpath] at h
    split
    · rename_i hnone
      simp only [hnone] at h
      cases h
    · rename_i dialog hdialog
      simp only [hdialog] at h
      exact outstanding_ask h

/-- An errand after an edit of its dialog: it waits for the request, or ends with what is shown. -/
theorem afterEdit_goes (hx : d.errands[k]? = some x) (hop : x.operation = op)
    (hs : x.stopping = false) (hd : Seated d) (hi : i < d.dialogs.length) (wait : Bool)
    {request : Option Nat} (hr : ∀ r, request = some r → Outstanding d i r) :
    Goes b op i (d.afterEdit k i op wait request) k := by
  unfold afterEdit
  split
  · rename_i r
    obtain ⟨q, hq, hdialog, hn⟩ := hr r rfl
    have hover : ¬ Over d r := (hr r rfl).not_over
    have herrand : (d.await k (.watching i r .waiting)).errands[k]? =
        some { x with progress := .watching i r .waiting } := by
      simp [await, onErrand, hx]
    refine .waits ⟨herrand, hop, hi, fun hstop => ?_, .request hq hdialog (.waiting ?_)⟩
    · rw [hs] at hstop
      cases hstop
    · exact fun ho => absurd ho hover
  · exact .ended (progress?_endErrand hx _) (reported_report hd hi op)

/-- An errand for the current dialog after the trust store has answered it. -/
theorem afterTrust_goes {wait strict : Bool} (hx : d.errands[k]? = some x)
    (hop : x.operation = .trustCurrent wait strict) (hs : x.stopping = false) (hd : Seated d)
    (hi : i < d.dialogs.length) (granted : Bool) {request : Option Nat}
    (hr : ∀ r, request = some r → Outstanding d i r) :
    Goes b (.trustCurrent wait strict) i (d.afterTrust k i granted request) k := by
  unfold afterTrust
  simp only [hx, Option.map_some, hop]
  split
  · exact afterEdit_goes hx hop hs hd hi wait hr
  · obtain ⟨g, hg⟩ := snapshot?_of_lt hi
    rw [hg]
    exact .ended (progress?_endErrand hx _) ⟨g, false, hg, rfl⟩

theorem passTrust_goes {wait strict : Bool} (hx : d.errands[k]? = some x)
    (hop : x.operation = .trustCurrent wait strict) (hs : x.stopping = false) (hd : Seated d)
    (hi : i < d.dialogs.length) (owner : String) :
    Goes b (.trustCurrent wait strict) i (passTrust s d k i owner) k := by
  have hlen {d : Desk σ} (hi : i < d.dialogs.length) (f : Dialog → Dialog) :
      i < (d.onDialog i f).dialogs.length := by simpa [onDialog] using hi
  have hseated {d : Desk σ} (hd : Seated d) (f : Dialog → Dialog) : Seated (d.onDialog i f) := by
    intro j hj
    simpa [onDialog] using hd j hj
  unfold passTrust
  dsimp only
  split
  · rename_i dialog _ _
    have hask := aloof_ask { d with world := (s.trust owner d.world).2 } i dialog dialog.path
    refine afterTrust_goes (x := x) ?_ hop hs (hseated ?_ _) (hlen ?_ _) true fun r hr => ?_
    · exact (congrArg (·[k]?) hask.errands).trans hx
    · intro j hj
      rw [hask.dialogs]
      exact hd j (hask.current ▸ hj)
    · rw [hask.dialogs]
      exact hi
    · exact outstanding_ask hr
  · refine afterTrust_goes (x := x) ?_ hop hs (hseated ?_ _) (hlen ?_ _) false fun r hr => ?_
    · exact hx
    · exact hd
    · exact hi
    · cases hr

theorem beginTrust_goes {wait strict : Bool} (hx : d.errands[k]? = some x)
    (hop : x.operation = .trustCurrent wait strict) (hs : x.stopping = false) (hd : Seated d)
    (hi : i < d.dialogs.length) : Goes b (.trustCurrent wait strict) i (beginTrust s d k i) k := by
  unfold beginTrust
  split
  · exact afterTrust_goes hx hop hs hd hi false (by simp)
  · rename_i owner _
    have hi' : i < (d.storeCalled i owner).dialogs.length := by
      simpa [Desk.storeCalled, onDialog, note] using hi
    have hd' : Seated (d.storeCalled i owner) := by
      intro j hj
      simpa [Desk.storeCalled, onDialog, note] using hd j hj
    dsimp only
    split
    · rename_i gate _
      have herrand : ((d.storeCalled i owner).await k
          (.trusting i owner gate .waiting)).errands[k]? =
            some { x with progress := .trusting i owner gate .waiting } := by
        simp [await, onErrand, Desk.storeCalled, onDialog, note, hx]
      refine .waits ⟨herrand, hop, hi', fun hstop => ?_, .store rfl (by simp)⟩
      rw [hs] at hstop
      cases hstop
    · exact passTrust_goes (d := d.storeCalled i owner) hx hop hs hd' hi' owner

/-- An errand that waits runs only when it waits no longer. -/
theorem Runs.mayRun (h : Runs d m k e) (hx : d.errands[k]? = some x) (hq : (d.slot k).Queued) :
    x.progress.mayRun = true := by
  cases h with
  | inLine hnow =>
    have hturns : 0 < d.turns k := by simp [Desk.turns, Agenda.jobs, hnow]
    simp only [Slot.Queued, slot, hx, Option.any_some] at hq
    by_contra hp
    rw [if_neg hp] at hq
    omega
  | atOnce op => exact absurd (List.getElem?_eq_some_iff.mp hx).1 (Nat.lt_irrefl _)

/-- It is stopped at its turn only if it may have been cancelled. -/
theorem Waits.stopped (h : Waits b op i d k x) (ha : a ≠ .waiting) (hgone : a = .withdrawn → b)
    (hs : (x.stopping || a != .given) = true) : b := by
  cases a with
  | waiting => exact absurd rfl ha
  | given => exact h.stopping (by simpa using hs)
  | withdrawn => exact hgone rfl

/-- An errand that waited for the trust store goes on with its dialog, or it has been cancelled. -/
theorem Waits.run_trusting (h : Waits b op i d k x) (hx : e.errands[k]? = some x)
    (he : Seated e) (hi : i < e.dialogs.length) {j gate : Nat} {owner : String}
    (hp : x.progress = .trusting j owner gate a) (ha : a ≠ .waiting) :
    Goes b op i (runErrand s e k) k ∨
      b ∧ (runErrand s e k).progress? k = some (.ended .cancelled) := by
  have hawaits := h.awaits
  rw [hp] at hawaits
  cases hawaits with
  | store hop hgone =>
    subst hop
    simp only [runErrand, hx, hp]
    split
    · rename_i hs
      exact Or.inr ⟨h.stopped ha hgone hs, progress?_endErrand hx _⟩
    · rename_i hs
      have hcalm : x.stopping = false := by
        simp only [Bool.or_eq_true, not_or, Bool.not_eq_true] at hs
        exact hs.1
      exact Or.inl (passTrust_goes hx h.operation hcalm he hi owner)

/-- An errand that waited for a request goes on with its dialog when that has ended, or it has been
cancelled, or it ends with the failure of the request. -/
theorem Waits.run_watching (h : Waits b op i d k x) (hx : e.errands[k]? = some x)
    (he : Seated e) (hi : i < e.dialogs.length) (hrequests : e.requests = d.requests) {j : Nat}
    (hp : x.progress = .watching j r a) (ha : a ≠ .waiting) :
    (Goes b op i (runErrand s e k) k ∧ Over d r) ∨
      (b ∧ (runErrand s e k).progress? k = some (.ended .cancelled)) ∨
      ∃ (q : Request) (error : Error), j = i ∧ d.requests[r]? = some q ∧
        q.verdict? = some (.failed error) ∧
        (runErrand s e k).progress? k = some (.ended (.failed error)) := by
  have hawaits := h.awaits
  rw [hp] at hawaits
  cases hawaits with
  | @request r q a hq hdialog hsignal =>
    simp only [runErrand, hx, hp]
    split
    · rename_i hs
      have hgone : a = .withdrawn → b := by
        rintro rfl
        cases hsignal with
        | withdrawn hb _ => exact hb
      exact Or.inr (Or.inl ⟨h.stopped ha hgone hs, progress?_endErrand hx _⟩)
    · rename_i hs
      split
      · rename_i error hstage
        refine Or.inr (Or.inr ⟨q, error, trivial, hq, ?_, progress?_endErrand hx _⟩)
        rw [hrequests, hq] at hstage
        rw [Request.verdict?, Option.some.inj hstage]
      · refine Or.inl ⟨.ended (progress?_endErrand hx _) ?_, ?_⟩
        · rw [h.operation]
          exact reported_report he hi op
        · cases hsignal with
          | waiting _ => exact absurd rfl ha
          | given ho _ => exact ho
          | withdrawn _ _ => exact absurd hs (by simp)

/-- An errand that waits and runs then goes on with its dialog, the request having ended if it was
for one, or it has been cancelled, or it ends with the failure of the request. -/
theorem Waits.run (h : Waits b op i d k x) (hd : Reachable s d) (hruns : Runs d m k e) :
    (Goes b op i (d.move s m) k ∧
      ∀ r a, d.progress? k = some (.watching i r a) → Over d r) ∨
      (b ∧ (d.move s m).progress? k = some (.ended .cancelled)) ∨
      ∃ (r : Nat) (a : Signal) (q : Request) (error : Error),
        d.progress? k = some (.watching i r a) ∧ d.requests[r]? = some q ∧
        q.verdict? = some (.failed error) ∧
        (d.move s m).progress? k = some (.ended (.failed error)) := by
  have hmay := hruns.mayRun h.found (hd.queued k)
  have hx : e.errands[k]? = some x := hruns.errand h.found
  have hseated : Seated e := hruns.found.seated hd.seated
  have hi : i < e.dialogs.length := hruns.found.dialogs ▸ h.dialog
  have hprogress : d.progress? k = some x.progress := by rw [progress?, h.found, Option.map_some]
  rw [hruns.move]
  cases hp : x.progress with
  | trusting j owner gate a =>
    rw [hp] at hmay hprogress
    rcases h.run_trusting hx hseated hi hp (by simpa [Progress.mayRun] using hmay) with hgoes | hstop
    · refine Or.inl ⟨hgoes, fun r a hw => ?_⟩
      cases hprogress.symm.trans hw
    · exact Or.inr (Or.inl hstop)
  | watching j r a =>
    rw [hp] at hmay hprogress
    rcases h.run_watching (s := s) hx hseated hi hruns.requests hp
        (by simpa [Progress.mayRun] using hmay) with
      ⟨hgoes, ho⟩ | hstop | ⟨q, error, rfl, hq, hverdict, hends⟩
    · refine Or.inl ⟨hgoes, fun r' a' hw => ?_⟩
      cases hprogress.symm.trans hw
      exact ho
    · exact Or.inr (Or.inl hstop)
    · exact Or.inr (Or.inr ⟨r, a, q, error, hprogress, hq, hverdict, hends⟩)
  | _ =>
    have hawaits := h.awaits
    rw [hp] at hawaits
    cases hawaits

end Desk
end Admission
