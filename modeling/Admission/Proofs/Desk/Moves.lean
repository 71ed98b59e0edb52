import Admission.Proofs.Desk.Change
import Mathlib.Data.List.Induction

/-!
# What a move changes

An errand's job is made of changes too, leaves the other errands alone, and calls the registrar only
where a submission sets out. A move concludes at most one request. An invariant is shown once for
each kind of change and for a conclusion, and then holds after every list of moves.
-/
namespace Admission
namespace Desk

variable {σ : Type} {s : Setting σ} {d e f : Desk σ} {k : Nat}

/-- Changes that leave errands other than `k` alone and call the registrar not at all. -/
structure Work (s : Setting σ) (k : Nat) (d e : Desk σ) : Prop where
  quiet : Quiet s d e
  sparing : Sparing k d e

theorem Work.refl (d : Desk σ) : Work s k d d := ⟨.refl, .of rfl rfl⟩

theorem Work.trans (h : Work s k d e) (h' : Work s k e f) : Work s k d f :=
  ⟨h.quiet.trans h'.quiet, h.sparing.trans h'.sparing⟩

theorem Still.work (h : Still s d e) : Work s k d e := ⟨h.quiet, h.aloof.sparing k⟩

theorem quiet_foldl {α : Type} {f : Desk σ → α → Desk σ} (h : ∀ d a, Quiet s d (f d a))
    (l : List α) (d : Desk σ) : Quiet s d (l.foldl f d) := by
  induction l generalizing d with
  | nil => exact .refl
  | cons a l ih => exact (h d a).trans (ih (f d a))

theorem still_foldl {α : Type} {f : Desk σ → α → Desk σ} (h : ∀ d a, Still s d (f d a))
    (l : List α) (d : Desk σ) : Still s d (l.foldl f d) := by
  induction l generalizing d with
  | nil => exact .refl d
  | cons a l ih => exact (h d a).trans (ih (f d a))

/-! ## Errands -/

theorem work_onErrand (d : Desk σ) (g : Errand → Errand) : Work s k d (d.onErrand k g) :=
  ⟨Quiet.of (.around rfl rfl rfl fun _ h => h), sparing_onErrand d k g⟩

theorem work_aside (d : Desk σ) (i : Nat) {g : Dialog → Dialog}
    (hg : g = Dialog.startTrust ∨ g = Dialog.stopTrust ∨ g = Dialog.close) :
    Work s k d (d.onDialog i g) :=
  ⟨Quiet.of (.aside i hg), .of rfl rfl⟩

theorem work_world (d : Desk σ) (world : σ) : Work s k d { d with world := world } :=
  ⟨Quiet.of (.around rfl rfl rfl fun _ h => h), .of rfl rfl⟩

theorem work_current (d : Desk σ) (current : Option Nat) :
    Work s k d { d with current := current } :=
  ⟨Quiet.of (.around rfl rfl rfl fun _ h => h), .of rfl rfl⟩

theorem quiet_note (d : Desk σ) (x : Entry) : Quiet s d (d.note x) :=
  Quiet.of (.around rfl rfl rfl fun _ h => h)

/-- A dialog is closed, and then its requests are cancelled. -/
theorem still_closeDialog (d : Desk σ) (i : Nat) :
    Still s (d.onDialog i Dialog.close) (d.closeDialog i) := by
  refine still_foldl (fun d r => ?_) _ _
  split
  · exact still_cancelRequest d r
  · exact .refl d

theorem errands_closeDialog (s : Setting σ) (d : Desk σ) (i : Nat) :
    (d.closeDialog i).errands = d.errands :=
  (still_closeDialog (s := s) d i).aloof.errands

theorem work_closeDialog (d : Desk σ) (i : Nat) : Work s k d (d.closeDialog i) :=
  (work_aside d i (Or.inr (Or.inr rfl))).trans (still_closeDialog d i).work

theorem work_closeCurrent (d : Desk σ) : Work s k d d.closeCurrent := by
  unfold closeCurrent
  split
  · exact work_closeDialog d _
  · exact .refl d

theorem work_dismiss (d : Desk σ) : Work s k d d.dismiss.1 :=
  (work_closeCurrent d).trans (work_current _ none)

theorem errands_closeCurrent (s : Setting σ) (d : Desk σ) :
    d.closeCurrent.errands = d.errands := by
  unfold closeCurrent
  split
  · exact errands_closeDialog s d _
  · rfl

theorem errands_dismiss (s : Setting σ) (d : Desk σ) : d.dismiss.1.errands = d.errands :=
  errands_closeCurrent s d

theorem work_edit (d : Desk σ) (i : Nat) (path : String) : Work s k d (d.edit i path).1 :=
  ⟨Quiet.of (.edit i path), (sparing_onDialog d k i _).trans ((aloof_edit d i path).sparing k)⟩

theorem work_amend (d : Desk σ) (i : Nat) (e : Edit) : Work s k d (d.amend i e).1 := by
  unfold amend
  split
  · exact .refl d
  · exact work_edit d i _

theorem work_afterEdit (d : Desk σ) (i : Nat) (op : Operation) (wait : Bool) (r : Option Nat) :
    Work s k d (d.afterEdit k i op wait r) := by
  unfold afterEdit
  split <;> exact work_onErrand d _

theorem work_afterTrust (d : Desk σ) (i : Nat) (granted : Bool) (r : Option Nat) :
    Work s k d (d.afterTrust k i granted r) := by
  unfold afterTrust
  split
  · split
    · exact work_afterEdit d i _ _ r
    · split <;> exact work_onErrand d _
  · exact work_onErrand d _

theorem work_passTrust (d : Desk σ) (i : Nat) (owner : String) :
    Work s k d (passTrust s d k i owner) := by
  have hend (d : Desk σ) {x : Dialog} (hx : d.dialogs[i]? = some x) :
      Work s k d (((d.ask i x x.path).1.onDialog i Dialog.endTrust).afterTrust k i true
        (d.ask i x x.path).2) :=
    .trans ⟨Quiet.of (.endTrust hx),
      ((aloof_ask d i x x.path).sparing k).trans (sparing_onDialog _ k i _)⟩
      (work_afterTrust _ i true _)
  unfold passTrust
  refine (work_world d (s.trust owner d.world).2).trans ?_
  dsimp only
  split
  · rename_i hx
    exact hend { d with world := _ } hx
  · exact (work_aside _ i (Or.inr (Or.inl rfl))).trans (work_afterTrust _ i false none)

theorem work_beginTrust (d : Desk σ) (i : Nat) : Work s k d (beginTrust s d k i) := by
  unfold beginTrust
  split
  · exact work_afterTrust d i false none
  · rename_i owner _
    have hnote (d : Desk σ) : Work s k d (d.note (.trust i owner)) :=
      ⟨quiet_note d _, fun _ _ => rfl, .concat _ rfl⟩
    refine ((work_aside d i (Or.inl rfl)).trans (hnote _)).trans ?_
    dsimp only
    split
    · exact work_onErrand _ _
    · exact work_passTrust _ i owner

theorem passRegister_of_error {i : Nat} {path : String} {x : Failure}
    (h : (s.register [path] d.world).1 = .error x) :
    passRegister s d k i path =
      (d.alter fun world => (s.register [path] world).2).endErrand k (.failed (.failure x)) := by
  simp only [passRegister, h]
  rfl

/-- The desk with dialog `i` closed, for which the registrar has added what an errand that runs `op`
has submitted. -/
def submitted (d : Desk σ) (i : Nat) (op : Operation) : Desk σ :=
  match op with
  | .submitCurrent => { d.closeDialog i with current := none }
  | _ => d.closeDialog i

theorem errands_submitted (s : Setting σ) (d : Desk σ) (i : Nat) (op : Operation) :
    (d.submitted i op).errands = d.errands := by
  unfold submitted
  split <;> exact errands_closeDialog s d i

theorem passRegister_of_ok {i : Nat} {path : String} {handles : List String} {x : Errand}
    (hx : d.errands[k]? = some x) (h : (s.register [path] d.world).1 = .ok handles) :
    passRegister s d k i path =
      ((d.alter fun world => (s.register [path] world).2).submitted i x.operation).endErrand k
        (.gave (.added handles.head?)) := by
  have hop : (({ d with world := (s.register [path] d.world).2 } : Desk σ).closeDialog
      i).errands[k]? = some x := by
    rw [errands_closeDialog s]
    exact hx
  simp only [passRegister, h, hop, Option.map_some, submitted, alter]
  cases x.operation <;> rfl

/-- A submission that has called the registrar calls nobody else. -/
theorem work_passRegister (d : Desk σ) (i : Nat) (path : String) :
    Work s k d (passRegister s d k i path) := by
  unfold passRegister
  refine (work_world d (s.register [path] d.world).2).trans ?_
  dsimp only
  split
  · exact work_onErrand _ _
  · refine (work_closeDialog _ i).trans (.trans ?_ (work_onErrand _ _))
    split
    · exact work_current _ none
    · exact .refl _

/-- A submission that sets out fails at once, or calls the registrar and then waits at its gate or
passes it. -/
theorem beginSubmit_cases (s : Setting σ) (d : Desk σ) (k i : Nat) :
    (∃ x, beginSubmit s d k i = d.endErrand k (.failed x)) ∨
    (∃ path gate, beginSubmit s d k i =
      (d.note (.register i [path])).await k (.registering i path gate .waiting)) ∨
    ∃ path, beginSubmit s d k i = passRegister s (d.note (.register i [path])) k i path := by
  unfold beginSubmit
  split
  · exact .inl ⟨_, rfl⟩
  · split
    · split
      · exact .inl ⟨_, rfl⟩
      · dsimp only
        split
        · exact .inr (.inl ⟨_, _, rfl⟩)
        · exact .inr (.inr ⟨_, rfl⟩)
    · exact .inl ⟨_, rfl⟩

theorem quiet_beginSubmit (d : Desk σ) (k i : Nat) : Quiet s d (beginSubmit s d k i) := by
  obtain ⟨x, h⟩ | ⟨path, gate, h⟩ | ⟨path, h⟩ := beginSubmit_cases s d k i <;> rw [h]
  · exact (work_onErrand d _).quiet
  · exact (quiet_note d (.register i [path])).trans (work_onErrand _ _).quiet
  · exact (quiet_note d (.register i [path])).trans (work_passRegister _ i path).quiet

theorem work_onCurrent (d : Desk σ) {go : Nat → Desk σ} (h : ∀ i, Work s k d (go i)) :
    Work s k d (d.onCurrent k go) := by
  unfold onCurrent
  split
  · exact h _
  · exact work_onErrand d _

/-- The first run of an errand, unless it is a submission. -/
theorem beginErrand_changes (d : Desk σ) (k : Nat) (op : Operation) :
    Work s k d (beginErrand s d k op) ∨ ∃ i, op.submits? d.current = some i ∧
      beginErrand s d k op = beginSubmit s d k i := by
  have hend (x : Ending) : Work s k d (d.endErrand k x) := work_onErrand d _
  have hamend (d : Desk σ) (i : Nat) (e : Edit) (op : Operation) (wait : Bool) :
      Work s k d ((d.amend i e).1.afterEdit k i op wait (d.amend i e).2) :=
    (work_amend d i e).trans (work_afterEdit _ i op wait _)
  cases op with
  | trust i => exact Or.inl (work_beginTrust d i)
  | submit i => exact Or.inr ⟨i, rfl, rfl⟩
  | openDialog path wait =>
    have hseat (d : Desk σ) : Work s k d (d.seat path).1 := ⟨Quiet.of (.seat path), .of rfl rfl⟩
    exact Or.inl (((work_closeCurrent d).trans (hseat _)).trans (hamend _ _ _ _ _))
  | changePath path wait => exact Or.inl (work_onCurrent d fun i => hamend d i _ _ _)
  | choosePath selected wait => exact Or.inl (work_onCurrent d fun i => hamend d i _ _ _)
  | trustCurrent wait strict =>
    refine Or.inl (work_onCurrent d fun i => ?_)
    split
    · split
      · exact work_beginTrust d i
      · exact hend _
    · exact work_beginTrust d i
  | submitCurrent =>
    cases hc : d.current with
    | none =>
      refine Or.inl ?_
      simp only [beginErrand, onCurrent, hc]
      exact hend _
    | some i => exact Or.inr ⟨i, rfl, by simp only [beginErrand, onCurrent, hc]⟩
  | look => exact Or.inl (work_onCurrent d fun i => hend _)
  | dismiss => exact Or.inl ((work_dismiss d).trans (work_onErrand _ _))
  | repositories => exact Or.inl (hend _)
  | nothing => exact Or.inl (hend _)

/-- What the run of errand `k` comes to, by how far the errand is. -/
inductive ErrandRun (s : Setting σ) (d : Desk σ) (k : Nat) : Desk σ → Prop
  | absent (hx : d.errands[k]? = none) : ErrandRun s d k d
  | begins {op : Operation} (hx : d.errands[k]? = some { operation := op }) :
      ErrandRun s d k (beginErrand s d k op)
  | refused {x : Errand} {i : Nat} {owner : String} {gate : Nat} {a : Signal}
      (hx : d.errands[k]? = some x) (hp : x.progress = .trusting i owner gate a) :
      ErrandRun s d k ((d.onDialog i Dialog.stopTrust).endErrand k .cancelled)
  | trusts {x : Errand} {i : Nat} {owner : String} {gate : Nat} {a : Signal}
      (hx : d.errands[k]? = some x) (hp : x.progress = .trusting i owner gate a) :
      ErrandRun s d k (passTrust s d k i owner)
  | registers {x : Errand} {i : Nat} {path : String} {gate : Nat} {a : Signal}
      (hx : d.errands[k]? = some x) (hp : x.progress = .registering i path gate a) :
      ErrandRun s d k (passRegister s d k i path)
  | ends {x : Errand} (hx : d.errands[k]? = some x)
      (hp : ∀ i owner gate a, x.progress ≠ .trusting i owner gate a) (v : Ending) :
      ErrandRun s d k (d.endErrand k v)
  | ended {x : Errand} {v : Ending} (hx : d.errands[k]? = some x) (hp : x.progress = .ended v) :
      ErrandRun s d k d

theorem errandRun (s : Setting σ) (d : Desk σ) (k : Nat) : ErrandRun s d k (runErrand s d k) := by
  unfold runErrand
  cases hx : d.errands[k]? with
  | none => exact .absent hx
  | some x =>
    obtain ⟨op, p, stopping⟩ := x
    cases p with
    | created =>
      cases stopping with
      | true => exact .ends hx nofun _
      | false => exact .begins hx
    | trusting i owner gate a =>
      dsimp only
      split
      · exact .refused hx rfl
      · exact .trusts hx rfl
    | registering i path gate a =>
      dsimp only
      split
      · exact .ends hx nofun _
      · exact .registers hx rfl
    | watching i r a =>
      dsimp only
      split
      · exact .ends hx nofun _
      · split <;> exact .ends hx nofun _
    | ended v => exact .ended hx rfl

/-- A job of an errand, unless a submission sets out in it. -/
theorem runErrand_changes (d : Desk σ) (k : Nat) :
    Work s k d (runErrand s d k) ∨ ∃ (op : Operation) (i : Nat),
      d.errands[k]? = some { operation := op } ∧ op.submits? d.current = some i ∧
      runErrand s d k = beginSubmit s d k i := by
  have hrun := errandRun s d k
  generalize runErrand s d k = e at hrun ⊢
  cases hrun with
  | absent hx => exact Or.inl (.refl d)
  | @begins op hx =>
    rcases beginErrand_changes (s := s) d k op with h | ⟨i, hop, h⟩
    · exact Or.inl h
    · exact Or.inr ⟨op, i, hx, hop, h⟩
  | refused hx hp =>
    exact Or.inl ((work_aside d _ (Or.inr (Or.inl rfl))).trans (work_onErrand _ _))
  | trusts hx hp => exact Or.inl (work_passTrust d _ _)
  | registers hx hp => exact Or.inl (work_passRegister d _ _)
  | ends hx hp v => exact Or.inl (work_onErrand d _)
  | ended hx hp => exact Or.inl (.refl d)

theorem quiet_runErrand (d : Desk σ) (k : Nat) : Quiet s d (runErrand s d k) := by
  rcases runErrand_changes (s := s) d k with h | ⟨op, i, -, -, he⟩
  · exact h.quiet
  · rw [he]
    exact quiet_beginSubmit d k i

/-! ## What reaches errands from outside -/

theorem quiet_onErrand_enqueue (d : Desk σ) (k : Nat) (f : Errand → Errand) :
    Quiet s d ((d.onErrand k f).enqueue (.errand k)) :=
  (work_onErrand d f).quiet.trans (still_enqueue _ (by simp)).quiet

theorem quiet_tellRequestEnded (d : Desk σ) (r : Nat) : Quiet s d (d.tellRequestEnded r) := by
  refine (still_pace fun _ _ => .marked _ _ _ id).quiet.trans (quiet_foldl (fun d e => ?_) _ _)
  split
  · split
    · exact quiet_onErrand_enqueue d e _
    · exact .refl
  · exact .refl

/-- What an errand waits for, and the same given up. -/
inductive Withdraws : Progress → Progress → Prop
  | trusting (i : Nat) (owner : String) (gate : Nat) :
      Withdraws (.trusting i owner gate .waiting) (.trusting i owner gate .withdrawn)
  | registering (i : Nat) (path : String) (gate : Nat) :
      Withdraws (.registering i path gate .waiting) (.registering i path gate .withdrawn)
  | watching (i r : Nat) : Withdraws (.watching i r .waiting) (.watching i r .withdrawn)

/-- An errand that is cancelled is left alone, gives up what it waits for, or is to stop at its next
run. -/
theorem cancelErrand_cases (d : Desk σ) (k : Nat) :
    (d.cancelErrand k).1 = d ∨
    (∃ x p, d.errands[k]? = some x ∧ Withdraws x.progress p ∧
      (d.cancelErrand k).1 = (d.await k p).enqueue (.errand k)) ∨
    (d.cancelErrand k).1 = d.onErrand k fun x => { x with stopping := true } := by
  unfold cancelErrand
  cases d.errands[k]? with
  | none => exact .inl rfl
  | some x =>
    obtain ⟨op, p, stopping⟩ := x
    cases p with
    | created => exact .inr (.inr rfl)
    | trusting i owner gate a =>
      cases a with
      | waiting => exact .inr (.inl ⟨_, _, rfl, .trusting i owner gate, rfl⟩)
      | _ => exact .inr (.inr rfl)
    | registering i path gate a =>
      cases a with
      | waiting => exact .inr (.inl ⟨_, _, rfl, .registering i path gate, rfl⟩)
      | _ => exact .inr (.inr rfl)
    | watching i r a =>
      cases a with
      | waiting => exact .inr (.inl ⟨_, _, rfl, .watching i r, rfl⟩)
      | _ => exact .inr (.inr rfl)
    | ended v => exact .inl rfl

theorem quiet_cancelErrand (d : Desk σ) (k : Nat) : Quiet s d (d.cancelErrand k).1 := by
  obtain h | ⟨x, p, -, -, h⟩ | h := cancelErrand_cases d k
  · rw [h]
  · rw [h]
    exact quiet_onErrand_enqueue d k _
  · rw [h]
    exact (work_onErrand d _).quiet

theorem quiet_openGate (d : Desk σ) (service : Gated) (gate : Nat) :
    Quiet s d (d.openGate service gate) := by
  refine quiet_foldl (fun d e => ?_) _ _
  split
  · exact quiet_onErrand_enqueue d e _
  · exact .refl

theorem quiet_addErrand (d : Desk σ) (x : Errand) :
    Quiet s d { d with errands := d.errands ++ [x] } :=
  Quiet.of (.around rfl rfl rfl fun _ h => h)

theorem quiet_spawn (d : Desk σ) (op : Operation) : Quiet s d (d.spawn op).1 :=
  (quiet_addErrand d { operation := op }).trans (still_enqueue _ (by simp)).quiet

theorem quiet_perform (d : Desk σ) (op : Operation) : Quiet s d (d.perform s op).1 :=
  (quiet_addErrand d { operation := op }).trans (quiet_runErrand _ d.errands.length)

/-! ## Moves -/

theorem still_answer (d : Desk σ) (c : Nat) (o : Except Failure Classification) :
    Still s d (d.answer c o).1 := by
  have hwaiter {j : Job} (h : d.waiter c = some j) (r : Nat) : j ≠ .probeEnded r := by
    intro hj
    subst hj
    simp only [waiter, Option.map_eq_some_iff] at h
    obtain ⟨call, -, h⟩ := h
    split at h <;> simp at h
  unfold answer
  split
  · rename_i hc
    have hend : Still s d (d.onCall c fun call => { call with state := .answered o }) :=
      ⟨Quiet.of (.endCall hc), .of rfl rfl rfl rfl⟩
    dsimp only
    split
    · rename_i j hj
      exact hend.trans (still_enqueue _ (hwaiter hj))
    · exact hend
  · exact .refl d

/-- The next pass starts with jobs that wait already, and with limits that are due. -/
theorem nextPass_of_eq_some (h : d.nextPass = some e) :
    e = { d with
      agenda := ⟨d.agenda.next ++
        (d.liveTimers.takeDue d.clock).1.map fun t => .limit t.request, []⟩
      timers := (d.liveTimers.takeDue d.clock).2 } := by
  unfold nextPass at h
  dsimp only at h
  split at h
  · cases h
  · exact (Option.some.inj h).symm

theorem nextPass_eq_none_iff :
    d.nextPass = none ↔ d.agenda.next = [] ∧ (d.liveTimers.takeDue d.clock).1 = [] := by
  unfold nextPass
  dsimp only
  split
  · simp_all
  · rename_i hjobs
    refine iff_of_false nofun fun hboth => hjobs ?_
    rw [hboth.1, hboth.2]
    rfl

/-- A desk is at rest if nobody is in line and no limit is due. -/
theorem step_eq_none_iff :
    d.step s = none ↔ d.agenda.now = [] ∧ d.agenda.next = [] ∧
      (d.liveTimers.takeDue d.clock).1 = [] := by
  unfold step
  split
  · simp_all
  · rename_i hnow
    rw [nextPass_eq_none_iff, and_iff_right hnow]

theorem still_nextPass {d e : Desk σ} (h : d.nextPass = some e) : Still s d e := by
  obtain rfl := nextPass_of_eq_some h
  refine ⟨Quiet.of (.around rfl rfl rfl fun r hr => ?_), .of rfl rfl rfl rfl⟩
  simp only [Agenda.jobs, List.append_nil] at hr
  rcases List.mem_append.mp hr with hr | hr
  · exact List.mem_append_right _ hr
  · simp at hr

/-- The next job taken from the line, and not run yet. -/
theorem still_pop {d : Desk σ} {j : Job} {rest : List Job} (h : d.agenda.now = j :: rest) :
    Still s d { d with agenda := { d.agenda with now := rest } } := by
  refine ⟨Quiet.of (.around rfl rfl rfl fun r hr => ?_), .of rfl rfl rfl rfl⟩
  rcases List.mem_append.mp hr with hr | hr
  · exact List.mem_append_left _ (h ▸ List.mem_cons_of_mem j hr)
  · exact List.mem_append_right _ hr

theorem step_changes {d e : Desk σ} (h : d.step s = some e) :
    Quiet s d e ∨ ∃ r, Concludes s d r e := by
  unfold step at h
  split at h
  · rename_i j rest hnow
    obtain rfl := Option.some.inj h
    have hpop := still_pop (s := s) hnow
    cases j with
    | request r =>
      rcases runRequest_changes (s := s) { d with agenda := { d.agenda with now := rest } } r
        with hr | ⟨m, q, o, hm, hrest⟩
      · exact Or.inl (hpop.trans hr).quiet
      · exact Or.inr ⟨r, m, q, o, hpop.trans hm, hrest⟩
    | probe r => exact Or.inl (hpop.trans (still_runProbe _ r)).quiet
    | probeEnded r => exact Or.inl (Quiet.of (.probeTold hnow))
    | requestEnded r => exact Or.inl (hpop.quiet.trans (quiet_tellRequestEnded _ r))
    | limit r => exact Or.inl (hpop.trans (still_tellLimit _ r)).quiet
    | errand e => exact Or.inl (hpop.quiet.trans (quiet_runErrand _ e))
  · exact Or.inl (still_nextPass h).quiet

/-- A move concludes at most one request, and only a job of that request does. -/
theorem move_changes (d : Desk σ) (m : Move σ) :
    Quiet s d (d.move s m) ∨ ∃ r, Concludes s d r (d.move s m) := by
  cases m with
  | step =>
    cases h : d.step s with
    | some e =>
      simp only [move, h, Option.getD_some]
      exact step_changes h
    | none =>
      simp only [move, h, Option.getD_none]
      exact Or.inl .refl
  | edit i e => exact Or.inl (work_amend d i e (k := 0)).quiet
  | spawn op => exact Or.inl (quiet_spawn d op)
  | perform op => exact Or.inl (quiet_perform d op)
  | close i => exact Or.inl (work_closeDialog d i (k := 0)).quiet
  | dismiss => exact Or.inl (work_dismiss d (k := 0)).quiet
  | answer c o => exact Or.inl (still_answer d c o).quiet
  | openGate service gate => exact Or.inl (quiet_openGate d service gate)
  | cancelRequest r => exact Or.inl (still_cancelRequest d r).quiet
  | cancelErrand e => exact Or.inl (quiet_cancelErrand d e)
  | advance seconds => exact Or.inl (Quiet.of (.around rfl rfl rfl fun _ h => h))
  | alter f => exact Or.inl (work_world d (f d.world) (k := 0)).quiet

/-- An invariant of every change and of every conclusion is one of every move. -/
theorem invariant_move {P : Desk σ → Prop}
    (hc : ∀ {d e : Desk σ}, Change s d e → P d → P e)
    (hv : ∀ {d : Desk σ} {r : Nat} {q : Request} {o : Except Failure Classification},
      d.requests[r]? = some q → Due s d r q o → P d → P (conclude s d r o))
    {d : Desk σ} (h : P d) (m : Move σ) : P (d.move s m) := by
  have hquiet {d e : Desk σ} (hde : Quiet s d e) (h : P d) : P e := by
    induction hde with
    | refl => exact h
    | tail _ hstep ih => exact hc hstep ih
  rcases move_changes d m with hq | ⟨r, e, q, o, hq, -, hr, ho, he⟩
  · exact hquiet hq h
  · rw [he]
    exact hv hr ho (hquiet hq.quiet h)

/-- An invariant of changes and conclusions that new dialogs satisfy holds on every run. -/
theorem Reachable.invariant {P : Desk σ → Prop}
    (h0 : ∀ (world : σ) (paths : List String), P (opening world paths))
    (hc : ∀ {d e : Desk σ}, Change s d e → P d → P e)
    (hv : ∀ {d : Desk σ} {r : Nat} {q : Request} {o : Except Failure Classification},
      d.requests[r]? = some q → Due s d r q o → P d → P (conclude s d r o))
    {d : Desk σ} (h : Reachable s d) : P d := by
  obtain ⟨world, paths, ms, rfl⟩ := h
  induction ms using List.reverseRecOn with
  | nil => exact h0 world paths
  | append_singleton ms m ih =>
    rw [after_concat]
    exact invariant_move hc hv ih m

end Desk
end Admission
