import Admission.Proofs.Desk.Turns

/-!
# The line of jobs

Jobs are taken from the front of the line and put at its end, so every job that is in line has its
turn after finitely many steps, whatever the jobs before it do. A request that ends puts a word of
it in line, and no other words of that kind are there. What the jobs do otherwise is not looked at.
-/
namespace Admission

/-- Whether a job is that of an errand. -/
def Job.isErrand : Job → Bool
  | .errand _ => true
  | _ => false

namespace Desk

variable {σ : Type} {s : Setting σ} {d e f : Desk σ} {i k r : Nat} {j : Job}

/-- Request `r` has ended. -/
def Over (d : Desk σ) (r : Nat) : Prop :=
  ∃ (q : Request) (v : Verdict), d.requests[r]? = some q ∧ q.verdict? = some v

/-- Work goes on: jobs that satisfy `p` are put at the end of the line, and requests that end are
spoken of there, and no others. -/
structure GoingBy (p : Job → Bool) (d e : Desk σ) : Prop where
  now : e.agenda.now = d.agenda.now
  next : ∃ more, e.agenda.next = d.agenda.next ++ more ∧ ∀ j ∈ more, p j = true
  ended : ∀ {r : Nat}, Over d r → Over e r
  announced : ∀ {r : Nat}, Over e r → Over d r ∨ .requestEnded r ∈ e.agenda.jobs
  told : ∀ {r : Nat}, .requestEnded r ∈ e.agenda.jobs →
    .requestEnded r ∈ d.agenda.jobs ∨ Over e r

/-- Work goes on that puts no errand in line. -/
abbrev Going (d e : Desk σ) : Prop := GoingBy (!·.isErrand) d e

variable {p : Job → Bool}

theorem GoingBy.next_subset (h : GoingBy p d e) : d.agenda.next ⊆ e.agenda.next := by
  obtain ⟨more, hmore, -⟩ := h.next
  rw [hmore]
  exact List.subset_append_left _ _

theorem GoingBy.jobs (h : GoingBy p d e) (hj : j ∈ d.agenda.jobs) : j ∈ e.agenda.jobs := by
  rcases List.mem_append.mp hj with hj | hj
  · exact List.mem_append_left _ (h.now ▸ hj)
  · exact List.mem_append_right _ (h.next_subset hj)

theorem GoingBy.trans (h : GoingBy p d e) (h' : GoingBy p e f) : GoingBy p d f where
  now := h'.now.trans h.now
  next := by
    obtain ⟨more, hmore, hp⟩ := h.next
    obtain ⟨more', hmore', hp'⟩ := h'.next
    refine ⟨more ++ more', by rw [hmore', hmore, List.append_assoc], fun j hj => ?_⟩
    exact (List.mem_append.mp hj).elim (hp j) (hp' j)
  ended hr := h'.ended (h.ended hr)
  announced hr := by
    rcases h'.announced hr with hr | hr
    · exact (h.announced hr).imp_right h'.jobs
    · exact Or.inr hr
  told hr := by
    rcases h'.told hr with hr | hr
    · exact (h.told hr).imp_right h'.ended
    · exact Or.inr hr

theorem GoingBy.any (h : GoingBy p d e) : GoingBy (fun _ => true) d e := by
  obtain ⟨more, hmore, -⟩ := h.next
  exact ⟨h.now, ⟨more, hmore, fun _ _ => rfl⟩, h.ended, h.announced, h.told⟩

theorem over_congr (hr : e.requests = d.requests) : Over e r ↔ Over d r := by
  unfold Over
  rw [hr]

/-- What concerns neither requests nor the line. -/
theorem going_of (hr : e.requests = d.requests) (ha : e.agenda = d.agenda) : GoingBy p d e where
  now := by rw [ha]
  next := ⟨[], by rw [ha, List.append_nil], nofun⟩
  ended := (over_congr hr).mpr
  announced ho := Or.inl ((over_congr hr).mp ho)
  told hj := Or.inl (ha ▸ hj)

theorem GoingBy.refl (d : Desk σ) : GoingBy p d d := going_of rfl rfl

theorem Alike.going (h : Alike d e) : GoingBy p d e := going_of h.requests h.agenda

theorem going_enqueue (d : Desk σ) (hp : p j = true) (hj : ∀ r, j ≠ .requestEnded r) :
    GoingBy p d (d.enqueue j) where
  now := rfl
  next := ⟨[j], rfl, fun _ h => by rw [List.mem_singleton.mp h, hp]⟩
  ended := id
  announced := Or.inl
  told hr := Or.inl ((mem_jobs_enqueue.mp hr).resolve_right fun he => hj _ he.symm)

/-- A request goes on, and does not end. -/
theorem going_onRequest {g : Request → Request}
    (h : ∀ q, d.requests[r]? = some q → (g q).verdict? = q.verdict?) :
    GoingBy p d (d.onRequest r g) where
  now := rfl
  next := ⟨[], (List.append_nil _).symm, nofun⟩
  ended := by
    rintro r' ⟨q, v, hq, hv⟩
    refine ⟨_, v, getElem?_modify_eq_some_iff.mpr ⟨q, hq, rfl⟩, ?_⟩
    split
    · rename_i hr
      subst hr
      rw [h q hq, hv]
    · exact hv
  announced := by
    rintro r' ⟨q', v, hq', hv⟩
    obtain ⟨q, hq, rfl⟩ := getElem?_modify_eq_some_iff.mp hq'
    refine Or.inl ⟨q, v, hq, ?_⟩
    split at hv
    · rename_i hr
      subst hr
      rw [← h q hq, hv]
    · exact hv
  told := Or.inl

theorem going_endRequest {q : Request} (hq : d.requests[r]? = some q) (v : Verdict) :
    Going d (d.endRequest r v) := by
  have hends : Over (d.endRequest r v) r :=
    ⟨{ q with stage := .ended v, stopping := false }, v,
      getElem?_modify_eq_some_iff.mpr ⟨q, hq, by simp⟩, rfl⟩
  have hnext : ∃ more, (d.endRequest r v).agenda.next = d.agenda.next ++ more ∧
      ∀ j ∈ more, (!j.isErrand) = true :=
    ⟨[.requestEnded r], rfl, fun _ h => by rw [List.mem_singleton.mp h]; rfl⟩
  refine ⟨rfl, hnext, fun {r'} ho => ?_, fun {r'} ho => ?_, fun {r'} hj => ?_⟩
  · by_cases hr : r = r'
    · exact hr ▸ hends
    · obtain ⟨q', v', hq', hv'⟩ := ho
      exact ⟨q', v', getElem?_modify_eq_some_iff.mpr ⟨q', hq', by rw [if_neg hr]⟩, hv'⟩
  · by_cases hr : r = r'
    · subst hr
      exact Or.inr (mem_jobs_enqueue.mpr (Or.inr rfl))
    · obtain ⟨q', v', hq', hv'⟩ := ho
      obtain ⟨q'', hq'', rfl⟩ := getElem?_modify_eq_some_iff.mp hq'
      rw [if_neg hr] at hv'
      exact Or.inl ⟨q'', v', hq'', hv'⟩
  · rcases mem_jobs_enqueue.mp hj with hj | hj
    · exact Or.inl hj
    · obtain rfl := Job.requestEnded.inj hj
      exact Or.inr hends

theorem going_foldl {α : Type} {g : Desk σ → α → Desk σ} (h : ∀ d a, GoingBy p d (g d a))
    (l : List α) (d : Desk σ) : GoingBy p d (l.foldl g d) := by
  induction l generalizing d with
  | nil => exact .refl d
  | cons a l ih => exact (h d a).trans (ih (g d a))

/-! ## Requests -/

theorem going_withdrawCall (d : Desk σ) (c : Nat) (he : j.isErrand = false)
    (hj : ∀ r, j ≠ .requestEnded r) : Going d (d.withdrawCall c j).1 := by
  unfold withdrawCall
  split
  · exact (going_of rfl rfl : Going d (d.onCall c _)).trans (going_enqueue _ (by simp [he]) hj)
  · exact .refl d

theorem going_mark (d : Desk σ) (r : Nat) {g : Request → Request}
    (h : ∀ q, (g q).verdict? = q.verdict?) : Going d (d.onRequest r g) :=
  going_onRequest fun q _ => h q

theorem going_haltProbe (d : Desk σ) (r : Nat) : Going d (d.haltProbe r) := by
  unfold haltProbe
  split
  · exact going_mark d r fun _ => rfl
  · rename_i c _
    have hw := going_withdrawCall d c (j := .probe r) rfl (by simp)
    split
    · rename_i he
      rw [he] at hw
      exact hw
    · rename_i he
      rw [he] at hw
      exact hw.trans (going_mark _ r fun _ => rfl)
  · exact .refl d

/-- A request that has not ended moves to another stage. -/
theorem going_stage {stage : Stage} {g : Request → Request}
    (h : d.requests[r]?.map Request.stage = some stage) (hs : ∀ v, stage ≠ .ended v)
    (hg : ∀ q, (g q).verdict? = none) : Going d (d.onRequest r g) := by
  refine going_onRequest fun q hq => ?_
  rw [hq] at h
  obtain rfl := Option.some.inj h
  rw [hg, Request.verdict?]
  split
  · exact absurd ‹_› (hs _)
  · rfl

theorem going_cancelRequest (d : Desk σ) (r : Nat) : Going d (d.cancelRequest r).1 := by
  have hstop (d : Desk σ) : Going d (d.onRequest r fun q => { q with stopping := true }) :=
    going_mark d r fun _ => rfl
  unfold cancelRequest
  dsimp only
  split
  · exact .refl d
  · exact .refl d
  · rename_i c _
    have hw := going_withdrawCall d c (j := .request r) rfl (by simp)
    split
    · rename_i he
      rw [he] at hw
      exact hw
    · rename_i he
      rw [he] at hw
      exact hw.trans (hstop _)
  · exact (going_stage ‹_› (by simp) fun _ => rfl).trans (going_enqueue _ rfl (by simp))
  · exact (going_stage ‹_› (by simp) fun _ => rfl).trans (going_enqueue _ rfl (by simp))
  · exact hstop d

theorem going_closeDialog (d : Desk σ) (i : Nat) : Going d (d.closeDialog i) := by
  have hclose : Going d (d.onDialog i Dialog.close) := going_of rfl rfl
  refine hclose.trans (going_foldl (fun d r => ?_) _ _)
  split
  · exact going_cancelRequest d r
  · exact .refl d

theorem going_call (d : Desk σ) (r : Nat) (path : String) : Going d (call s d r path).1 :=
  going_of rfl rfl

theorem going_conclude (d : Desk σ) (r : Nat) (o : Except Failure Classification) :
    Going d (conclude s d r o) := by
  unfold conclude
  split
  · exact .refl d
  · exact going_endRequest ‹_› _
  · rename_i q c hq _
    have hoffer : Going d (d.onDialog q.dialog (·.offer q.path (.settled c) (some q.number))) :=
      going_of rfl rfl
    have hq : (d.onDialog q.dialog (·.offer q.path (.settled c) (some q.number))).requests[r]? =
        some q := hq
    exact hoffer.trans (going_endRequest hq _)

theorem going_beginRequest {q : Request} (hq : d.requests[r]? = some q) (hs : q.stage = .created) :
    Going d (beginRequest s d r q) := by
  have hstage : d.requests[r]?.map Request.stage = some .created := by rw [hq, ← hs]; rfl
  unfold beginRequest
  split
  · exact going_endRequest hq _
  · split
    · exact going_endRequest hq _
    · rename_i path _ _
      have hcall : Going d (call s d r path).1 := going_call d r path
      rcases he : call s d r path with ⟨e, c, o⟩
      rw [he] at hcall
      cases o with
      | some o => exact hcall.trans (going_conclude e r o)
      | none =>
        have hstage : e.requests[r]?.map Request.stage = some .created := by
          rw [(call_spec he).1, hstage]
        exact hcall.trans (going_stage hstage (by simp) fun _ => rfl)
    · dsimp only
      split
      · exact (going_stage hstage (by simp) fun _ => rfl).trans (going_enqueue _ rfl (by simp))
      · rename_i limit _ _ _
        have htimer : Going d { d with timers := d.timers.push ⟨d.clock + limit, r⟩ } :=
          going_of rfl rfl
        exact (htimer.trans (going_stage hstage (by simp) fun _ => rfl)).trans
          (going_enqueue _ rfl (by simp))

theorem going_runRequest (d : Desk σ) (r : Nat) : Going d (runRequest s d r) := by
  unfold runRequest
  split
  · exact .refl d
  · rename_i q hq
    split
    · exact going_beginRequest hq ‹_›
    · split
      · exact going_conclude d r _
      · exact going_endRequest hq _
    · rename_i hs
      have hstage : d.requests[r]?.map Request.stage = some q.stage := by rw [hq]; rfl
      split
      · exact going_conclude d r _
      · exact going_endRequest hq _
      · exact (going_stage hstage (by simp [hs]) fun _ => rfl).trans (going_haltProbe _ r)
    · split
      · split
        · exact going_conclude d r _
        · exact going_conclude d r _
      · exact going_endRequest hq _
    · exact .refl d

theorem going_endProbe (d : Desk σ) (r : Nat) (probe : Probe) : Going d (d.endProbe r probe) := by
  have hmark : Going d (d.onRequest r fun q => { q with probe := probe, halting := false }) :=
    going_mark d r fun _ => rfl
  exact hmark.trans (going_enqueue _ rfl (by simp))

theorem going_runProbe (d : Desk σ) (r : Nat) : Going d (runProbe s d r) := by
  unfold runProbe
  split
  · exact .refl d
  · split
    · rename_i path _
      split
      · exact going_endProbe d r _
      · have hcall : Going d (call s d r path).1 := going_call d r path
        rcases he : call s d r path with ⟨e, c, o⟩
        rw [he] at hcall
        cases o with
        | some o => exact hcall.trans (going_endProbe e r _)
        | none => exact hcall.trans (going_mark e r fun _ => rfl)
    · split <;> exact going_endProbe d r _
    · exact .refl d

theorem going_tellProbeEnded (d : Desk σ) (r : Nat) : Going d (d.tellProbeEnded r) := by
  unfold tellProbeEnded
  split
  · exact (going_stage ‹_› (by simp) fun _ => rfl).trans (going_enqueue _ rfl (by simp))
  · exact (going_stage ‹_› (by simp) fun _ => rfl).trans (going_enqueue _ rfl (by simp))
  · exact .refl d

theorem going_tellLimit (d : Desk σ) (r : Nat) : Going d (d.tellLimit r) := by
  unfold tellLimit
  split
  · exact (going_stage ‹_› (by simp) fun _ => rfl).trans (going_enqueue _ rfl (by simp))
  · exact .refl d

theorem going_answer (d : Desk σ) (c : Nat) (o : Except Failure Classification) :
    Going d (d.answer c o).1 := by
  have hwaiter {j : Job} (h : d.waiter c = some j) :
      (!j.isErrand) = true ∧ ∀ r, j ≠ .requestEnded r := by
    simp only [waiter, Option.map_eq_some_iff] at h
    obtain ⟨call, -, h⟩ := h
    split at h
    · subst h
      exact ⟨rfl, by simp⟩
    · subst h
      exact ⟨rfl, by simp⟩
  unfold answer
  split
  · have hend : Going d (d.onCall c fun call => { call with state := .answered o }) :=
      going_of rfl rfl
    dsimp only
    split
    · exact hend.trans (going_enqueue _ (hwaiter ‹_›).1 (hwaiter ‹_›).2)
    · exact hend
  · exact .refl d

/-! ## Edits -/

/-- A request that is issued has not ended. -/
theorem going_ask (d : Desk σ) (i : Nat) (x : Dialog) (path : String) :
    Going d (d.ask i x path).1 := by
  have hadd {q : Request} (hn : q.verdict? = none) :
      Going d { d with requests := d.requests ++ [q] } := by
    refine ⟨rfl, ⟨[], (List.append_nil _).symm, nofun⟩, ?_, ?_, Or.inl⟩
    · rintro r ⟨q', v, hq, hv⟩
      exact ⟨q', v, getElem?_concat_eq_some_iff.mpr (Or.inl hq), hv⟩
    · rintro r ⟨q', v, hq, hv⟩
      rcases getElem?_concat_eq_some_iff.mp hq with hq | ⟨-, rfl⟩
      · exact Or.inl ⟨q', v, hq, hv⟩
      · rw [hn] at hv
        cases hv
  unfold ask
  split
  · exact (hadd rfl).trans (going_enqueue _ rfl (by simp))
  · exact .refl d

theorem going_edit (d : Desk σ) (i : Nat) (path : String) : Going d (d.edit i path).1 := by
  unfold edit
  split
  · exact .refl d
  · exact (going_ask d i _ path).trans (going_of rfl rfl)

theorem going_amend (d : Desk σ) (i : Nat) (x : Edit) : Going d (d.amend i x).1 := by
  unfold amend
  split
  · exact .refl d
  · exact going_edit d i _

theorem going_closeCurrent (d : Desk σ) : Going d d.closeCurrent := by
  unfold closeCurrent
  split
  · exact going_closeDialog d _
  · exact .refl d

theorem going_dismiss (d : Desk σ) : Going d d.dismiss.1 :=
  (going_closeCurrent d).trans (going_of rfl rfl)

/-! ## Errands -/

theorem going_storeAnswered (h : StoreAnswered k i d e) : Going d e := by
  cases h with
  | refused h => exact (going_of rfl rfl : Going d (d.onDialog i _)).trans h.going
  | granted hx h =>
    rename_i x
    have hask : Going d ((d.ask i x x.path).1.onDialog i Dialog.endTrust) :=
      (going_ask d i x x.path).trans (going_of rfl rfl)
    exact hask.trans h.going

theorem going_deed (h : Deed d k e) : Going d e := by
  cases h with
  | plain _ h => exact h.going
  | edited _ h => exact (going_edit d _ _).trans h.going
  | @opened e path _ h =>
    have hseat : Going d.closeCurrent (d.closeCurrent.seat path).1 := going_of rfl rfl
    exact (((going_closeCurrent d).trans hseat).trans (going_amend _ _ _)).trans h.going
  | dismissed _ h => exact (going_dismiss d).trans h.going
  | registered _ hm h => exact (hm.going.trans (going_closeDialog _ _)).trans h.going
  | @putAway m e i _ hm _ _ h =>
    have hclose : Going m { m.closeDialog i with current := none } :=
      (going_closeDialog m i).trans (going_of rfl rfl)
    exact (hm.going.trans hclose).trans h.going
  | storeCalled _ _ h => exact (going_of rfl rfl : Going d (d.storeCalled _ _)).trans h.going
  | storeAnswered _ hm h => exact hm.going.trans (going_storeAnswered h)
  | @answeredAtOnce m e i owner _ hm h =>
    have hcalled : Going d (d.storeCalled i owner) := going_of rfl rfl
    exact (hcalled.trans hm.going).trans (going_storeAnswered h)

theorem going_runErrand (d : Desk σ) (k : Nat) : Going d (runErrand s d k) :=
  going_deed (runErrand_deed d k)

/-- What puts an errand in line. -/
theorem going_onErrand_enqueue (d : Desk σ) (k : Nat) (g : Errand → Errand) :
    GoingBy (fun _ => true) d ((d.onErrand k g).enqueue (.errand k)) :=
  (going_of rfl rfl : GoingBy _ d (d.onErrand k g)).trans (going_enqueue _ rfl (by simp))

theorem going_tellRequestEnded (d : Desk σ) (r : Nat) :
    GoingBy (fun _ => true) d (d.tellRequestEnded r) := by
  have hmark : GoingBy (fun _ => true) d (d.onRequest r fun q => { q with tracked := false }) :=
    going_onRequest fun _ _ => rfl
  refine hmark.trans (going_foldl (fun d k => ?_) _ _)
  split
  · split
    · exact going_onErrand_enqueue d k _
    · exact .refl d
  · exact .refl d

theorem going_openGate (d : Desk σ) (service : Gated) (gate : Nat) :
    GoingBy (fun _ => true) d (d.openGate service gate) := by
  refine going_foldl (fun d k => ?_) _ _
  split
  · exact going_onErrand_enqueue d k _
  · exact .refl d

theorem going_cancelErrand (d : Desk σ) (k : Nat) :
    GoingBy (fun _ => true) d (d.cancelErrand k).1 := by
  obtain h | ⟨x, p, -, -, h⟩ | h := cancelErrand_cases d k <;> rw [h]
  · exact .refl d
  · exact going_onErrand_enqueue d k _
  · exact going_of rfl rfl

theorem going_addErrand (d : Desk σ) (x : Errand) :
    GoingBy p d { d with errands := d.errands ++ [x] } := going_of rfl rfl

/-- A job puts errands in line only if it is the word of a request that has ended. -/
theorem going_run (d : Desk σ) (hj : ∀ r, j ≠ .requestEnded r) : Going d (run s d j) := by
  cases j with
  | request r => exact going_runRequest d r
  | probe r => exact going_runProbe d r
  | probeEnded r => exact going_tellProbeEnded d r
  | requestEnded r => exact absurd rfl (hj r)
  | limit r => exact going_tellLimit d r
  | errand k => exact going_runErrand d k

theorem goingBy_run (d : Desk σ) (j : Job) : GoingBy (fun _ => true) d (run s d j) := by
  by_cases hj : ∃ r, j = .requestEnded r
  · obtain ⟨r, rfl⟩ := hj
    exact going_tellRequestEnded d r
  · exact (going_run d fun r hr => hj ⟨r, hr⟩).any

/-! ## Moves -/

theorem move_step_of_now {rest : List Job} (h : d.agenda.now = j :: rest) :
    d.move s .step = run s { d with agenda := { d.agenda with now := rest } } j := by
  simp only [move, step, h, Option.getD_some]

/-- A move that takes no job from the line only adds to it. -/
theorem goingBy_move (d : Desk σ) {m : Move σ} (h : m ≠ .step) :
    GoingBy (fun _ => true) d (d.move s m) := by
  cases m with
  | step => exact absurd rfl h
  | edit i x => exact (going_amend d i x).any
  | spawn op => exact (going_addErrand d _).trans (going_enqueue _ rfl (by simp))
  | perform op => exact (going_addErrand d _).trans (going_runErrand _ _).any
  | close i => exact (going_closeDialog d i).any
  | dismiss => exact (going_dismiss d).any
  | answer c o => exact (going_answer d c o).any
  | openGate service gate => exact going_openGate d service gate
  | cancelRequest r => exact (going_cancelRequest d r).any
  | cancelErrand k => exact going_cancelErrand d k
  | advance seconds => exact going_of rfl rfl
  | alter g => exact going_of rfl rfl

/-- The next pass takes over all jobs that wait; the limits that are due join them. -/
theorem nextPass_spec (h : d.nextPass = some e) :
    e.requests = d.requests ∧ e.errands = d.errands ∧ ∃ due : List Timer,
      e.agenda = ⟨d.agenda.next ++ due.map fun t => .limit t.request, []⟩ := by
  obtain rfl := nextPass_of_eq_some h
  exact ⟨rfl, rfl, _, rfl⟩

/-- `e` is the desk from which the work of a move goes on: the job to be run is taken from the line,
or the next pass takes over the jobs that wait. -/
structure Taken (d : Desk σ) (m : Move σ) (e : Desk σ) : Prop where
  requests : e.requests = d.requests
  jobs : ∀ {j : Job}, j ∈ d.agenda.jobs →
    j ∈ e.agenda.jobs ∨ m = .step ∧ ∃ rest, d.agenda.now = j :: rest
  told : ∀ {r : Nat}, .requestEnded r ∈ e.agenda.jobs → .requestEnded r ∈ d.agenda.jobs

theorem taken_going (d : Desk σ) (m : Move σ) :
    ∃ e, Taken d m e ∧ GoingBy (fun _ => true) e (d.move s m) := by
  have hself : Taken d m d := ⟨rfl, Or.inl, id⟩
  by_cases hm : m = .step
  · subst hm
    cases hnow : d.agenda.now with
    | nil =>
      simp only [move, step, hnow]
      cases hpass : d.nextPass with
      | none => exact ⟨d, hself, .refl d⟩
      | some e =>
        obtain ⟨hr, -, due, ha⟩ := nextPass_spec hpass
        refine ⟨e, ⟨hr, fun {j} hj => Or.inl ?_, fun {r} hr => ?_⟩, .refl e⟩
        · simp only [Agenda.jobs, hnow, List.nil_append] at hj
          rw [ha]
          exact List.mem_append_left _ (List.mem_append_left _ hj)
        · rw [ha] at hr
          simpa [Agenda.jobs, hnow] using hr
    | cons j rest =>
      refine ⟨{ d with agenda := { d.agenda with now := rest } },
        ⟨rfl, fun {j'} hj' => ?_, fun h => ?_⟩, move_step_of_now hnow ▸ goingBy_run _ j⟩
      · simp only [Agenda.jobs, hnow, List.cons_append, List.mem_cons] at hj'
        rcases hj' with rfl | hj'
        · exact Or.inr ⟨rfl, rest, hnow⟩
        · exact Or.inl hj'
      · simp only [Agenda.jobs, hnow, List.cons_append]
        exact List.mem_cons_of_mem j h
  · exact ⟨d, hself, goingBy_move d hm⟩

/-- A job stays in line, unless its turn has come. -/
theorem jobs_move (d : Desk σ) (m : Move σ) (hj : j ∈ d.agenda.jobs) :
    j ∈ (d.move s m).agenda.jobs ∨ m = .step ∧ ∃ rest, d.agenda.now = j :: rest := by
  obtain ⟨e, he, hgoing⟩ := taken_going (s := s) d m
  exact (he.jobs hj).imp_left hgoing.jobs

/-- The word of a request that ends is put in line with the move that ends it. -/
theorem announced_move (d : Desk σ) (m : Move σ) (h : Over (d.move s m) r) :
    Over d r ∨ .requestEnded r ∈ (d.move s m).agenda.jobs := by
  obtain ⟨e, he, hgoing⟩ := taken_going (s := s) d m
  exact (hgoing.announced h).imp_left (over_congr he.requests).mp

theorem over_move (m : Move σ) (h : Over d r) : Over (d.move s m) r := by
  obtain ⟨e, he, hgoing⟩ := taken_going (s := s) d m
  exact hgoing.ended ((over_congr he.requests).mpr h)

/-- Only requests that have ended are spoken of as ended. -/
theorem over_of_told (hd : Reachable s d) (h : .requestEnded r ∈ d.agenda.jobs) : Over d r := by
  obtain ⟨world, paths, ms, rfl⟩ := hd
  induction ms using List.reverseRecOn with
  | nil => cases h
  | append_singleton ms m ih =>
    rw [after_concat] at h ⊢
    obtain ⟨e, he, hgoing⟩ := taken_going (s := s) ((opening world paths).after s ms) m
    rcases hgoing.told h with h | h
    · exact over_move m (ih (he.told h))
    · exact h

/-! ## Turns -/

/-- A job of the pass under way has its turn in this pass. -/
theorem turn_comes_now (front : List Job) :
    ∀ {d : Desk σ} {rest : List Job}, d.agenda.now = front ++ j :: rest →
      ∃ n rest, (d.after s (List.replicate n .step)).agenda.now = j :: rest := by
  induction front with
  | nil => exact fun {d rest} h => ⟨0, rest, h⟩
  | cons j' front ih =>
    intro d rest h
    have hmove := move_step_of_now (s := s) h
    have hnow : (d.move s .step).agenda.now = front ++ j :: rest := by
      rw [hmove]
      exact (goingBy_run _ j').now
    obtain ⟨n, rest, hn⟩ := ih hnow
    exact ⟨n + 1, rest, hn⟩

/-- The pass under way comes to its end, and the next one takes over the jobs that wait. -/
theorem next_comes (now : List Job) :
    ∀ {d : Desk σ}, d.agenda.now = now → j ∈ d.agenda.next →
      ∃ n, j ∈ (d.after s (List.replicate n .step)).agenda.now := by
  induction now with
  | nil =>
    intro d hnow hj
    refine ⟨1, ?_⟩
    change j ∈ (d.move s .step).agenda.now
    simp only [move, step, hnow]
    cases hpass : d.nextPass with
    | none =>
      rw [(nextPass_eq_none_iff.mp hpass).1] at hj
      cases hj
    | some e =>
      obtain ⟨-, -, due, ha⟩ := nextPass_spec hpass
      rw [Option.getD_some, ha]
      exact List.mem_append_left _ hj
  | cons j' now ih =>
    intro d hnow hj
    have hmove := move_step_of_now (s := s) hnow
    obtain ⟨n, hn⟩ := ih (d := d.move s .step) (by rw [hmove]; exact (goingBy_run _ j').now)
      (by rw [hmove]; exact (goingBy_run _ j').next_subset hj)
    exact ⟨n + 1, hn⟩

/-- **Every job that is in line has its turn**, if nothing but steps is done. -/
theorem turn_comes (h : j ∈ d.agenda.jobs) :
    ∃ n rest, (d.after s (List.replicate n .step)).agenda.now = j :: rest := by
  have hnow {d : Desk σ} (h : j ∈ d.agenda.now) :
      ∃ n rest, (d.after s (List.replicate n .step)).agenda.now = j :: rest := by
    obtain ⟨front, rest, h⟩ := List.append_of_mem h
    exact turn_comes_now front h
  rcases List.mem_append.mp h with h | h
  · exact hnow h
  · obtain ⟨n, hn⟩ := next_comes (s := s) d.agenda.now rfl h
    obtain ⟨n', rest, hn'⟩ := hnow hn
    refine ⟨n + n', rest, ?_⟩
    rwa [← List.replicate_append_replicate, after_append]

end Desk
end Admission
