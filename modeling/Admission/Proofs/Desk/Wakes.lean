import Admission.Proofs.Desk.Line
import Admission.Proofs.Desk.Orderly

/-!
# Requests that have their turn

A request that is under way is in line, or something that it waits for is: the probe that it has
halted, or the word that this probe has ended. Only the classifier and the clock are waited for
without anybody in line. Here a single request is looked at, and the work that is done on it.
-/
namespace Admission

/-- A probe that has been halted is in line, and has to stop when it runs; or its end is told. -/
def Probe.Halts (halting : Bool) (state : Nat → Option CallState) (runs : Nat) (told : Prop) :
    Probe → Prop
  | .idle => False
  | .ready _ => halting = true ∧ 0 < runs
  | .calling c => state c ≠ some .waiting ∧ 0 < runs
  | .found _ | .stopped => told

/-- A probe is in line as long as its request races with it, unless it waits for its call. -/
def Probe.Wakes (state : Nat → Option CallState) (runs : Nat) : Probe → Prop
  | .idle => False
  | .ready _ => 0 < runs
  | .calling c => 0 < runs ∨ state c = some .waiting
  | .found _ | .stopped => True

/-- A request that has not ended is in line, or whoever it waits for is. `mayWait` says whether it
may wait for the classifier and for the clock. -/
def Request.Wakes (mayWait : Prop) (state : Nat → Option CallState) (runs probeRuns : Nat)
    (told : Prop) (q : Request) : Prop :=
  match q.stage with
  | .created => 0 < runs ∧ (q.stopping = true ∨ mayWait)
  | .calling c => 0 < runs ∨ mayWait ∧ state c = some .waiting
  | .racing a => (0 < runs ∨ mayWait ∧ a = .waiting) ∧ q.probe.Wakes state probeRuns
  | .withdrawing _ a =>
    (a = .waiting → q.probe.Halts q.halting state probeRuns told) ∧ (a ≠ .waiting → 0 < runs)
  | .ended _ => True

theorem Request.Wakes.mono {w w' told told' : Prop} {state : Nat → Option CallState}
    {runs probeRuns : Nat} {q : Request} (hw : w → w') (ht : told → told')
    (h : q.Wakes w state runs probeRuns told) : q.Wakes w' state runs probeRuns told' := by
  unfold Request.Wakes at h ⊢
  split at h
  · exact ⟨h.1, h.2.imp_right hw⟩
  · exact h.imp_right (And.imp_left hw)
  · exact ⟨h.1.imp_right (And.imp_left hw), h.2⟩
  · refine ⟨fun ha => ?_, h.2⟩
    have hp := h.1 ha
    unfold Probe.Halts at hp ⊢
    split <;> simp_all
  · trivial

/-- Whatever is done about its probe in the end, a request keeps its turn. -/
theorem Request.Wakes.probeEnded {w told : Prop} {state state' : Nat → Option CallState}
    {runs n m : Nat} {q : Request} {p : Probe} (h : q.Wakes w state runs n told)
    (hstate : ∀ c, state c = some .waiting → state' c = some .waiting) (hp : p.isEnded = true) :
    ({ q with probe := p, halting := false } : Request).Wakes w state' runs m True := by
  unfold Request.Wakes at h ⊢
  dsimp only
  split at h
  · exact h
  · exact h.imp_right (And.imp_right (hstate _))
  · refine ⟨h.1, ?_⟩
    cases p with
    | found _ | stopped => trivial
    | _ => cases hp
  · refine ⟨fun _ => ?_, h.2⟩
    cases p with
    | found _ | stopped => trivial
    | _ => cases hp
  · trivial

/-- A probe that is idle or has ended needs no turn. -/
theorem Request.Wakes.idle {w told : Prop} {state : Nat → Option CallState} {runs n m : Nat}
    {q : Request} (h : q.Wakes w state runs n told) (hready : ∀ path, q.probe ≠ .ready path)
    (hcalling : ∀ c, q.probe ≠ .calling c) : q.Wakes w state runs m told := by
  unfold Request.Wakes at h ⊢
  split at h
  · exact h
  · exact h
  · refine ⟨h.1, ?_⟩
    have hprobe := h.2
    cases hp : q.probe <;> simp_all [Probe.Wakes]
  · refine ⟨fun ha => ?_, h.2⟩
    have hprobe := h.1 ha
    cases hp : q.probe <;> simp_all [Probe.Halts]
  · trivial

/-- Only a request that waits for its probe has to be told of its end. -/
theorem Request.Wakes.untold {w told told' : Prop} {state : Nat → Option CallState} {runs n : Nat}
    {q : Request} (h : q.Wakes w state runs n told)
    (hs : ∀ late, q.stage ≠ .withdrawing late .waiting) : q.Wakes w state runs n told' := by
  unfold Request.Wakes at h ⊢
  split at h
  · exact h
  · exact h
  · exact h
  · rename_i late a hstage
    refine ⟨fun ha => ?_, h.2⟩
    exact absurd (ha ▸ hstage) (hs late)
  · trivial

/-- A call of a probe ends, and the probe is in line. -/
theorem Request.Wakes.answered {w told : Prop} {state : Nat → Option CallState} {runs n c : Nat}
    {a : CallState} {q : Request} (h : q.Wakes w state runs n told) (ha : a ≠ .waiting)
    (hs : ∀ c, q.stage ≠ .calling c) :
    q.Wakes w (fun c' => if c = c' then some a else state c') runs (n + 1) told := by
  unfold Request.Wakes at h ⊢
  split at h
  · exact h
  · rename_i c' hstage
    exact absurd hstage (hs c')
  · refine ⟨h.1, ?_⟩
    have hprobe := h.2
    cases hp : q.probe <;> simp_all [Probe.Wakes]
  · refine ⟨fun hwait => ?_, h.2⟩
    have hprobe := h.1 hwait
    cases hp : q.probe with
    | calling c' =>
      rw [hp] at hprobe
      refine ⟨?_, Nat.succ_pos _⟩
      by_cases hc : c = c'
      · simp [hc, ha]
      · simp [hc, hprobe.1]
    | _ => simp_all [Probe.Halts]
  · trivial

/-- A probe that has not been halted may wait for its call. -/
theorem Request.Wakes.probed {w told : Prop} {state state' : Nat → Option CallState}
    {runs n m c : Nat} {q : Request} {path : String} (h : q.Wakes w state runs n told)
    (hstate : ∀ c, state c = some .waiting → state' c = some .waiting) (hp : q.probe = .ready path)
    (hhalt : q.halting = false) (hc : state' c = some .waiting) :
    ({ q with probe := .calling c } : Request).Wakes w state' runs m told := by
  unfold Request.Wakes at h ⊢
  dsimp only
  split at h
  · exact h
  · exact h.imp_right (And.imp_right (hstate _))
  · exact ⟨h.1, Or.inr hc⟩
  · refine ⟨fun ha => ?_, h.2⟩
    have hhalts := h.1 ha
    rw [hp] at hhalts
    exact absurd hhalts.1 (by simp [hhalt])
  · trivial

namespace Desk

variable {σ : Type} {s : Setting σ} {d e : Desk σ} {w w' : Prop} {r : Nat}

/-- Request `r`, if it is there, has its turn. -/
def Wakes (w : Prop) (d : Desk σ) (r : Nat) : Prop :=
  ∀ q, d.requests[r]? = some q → q.Wakes w (d.post r).state (d.post r).runs (d.post r).probeRuns
    (.probeEnded r ∈ d.agenda.jobs)

theorem Wakes.mono (hw : w → w') (h : Wakes w d r) : Wakes w' d r :=
  fun q hq => (h q hq).mono hw id

/-- A request that is left at its post goes on to have its turn. -/
theorem Wakes.congr (h : Wakes w d r) (hp : e.post r = d.post r)
    (hj : .probeEnded r ∈ d.agenda.jobs → .probeEnded r ∈ e.agenda.jobs) : Wakes w e r := by
  intro q hq
  rw [hp]
  exact (h q ((congrArg Post.request hp).symm.trans hq)).mono id hj

theorem wakes_of_none (h : d.requests[r]? = none) : Wakes w d r := by
  intro q hq
  cases h.symm.trans hq

theorem wakes_of_over (h : Over d r) : Wakes w d r := by
  obtain ⟨q, v, hq, hv⟩ := h
  intro q' hq'
  obtain rfl := Option.some.inj (hq.symm.trans hq')
  simp only [Request.Wakes, stage_of_verdict hv]

/-- A request is changed, and jobs are put in line. -/
theorem wakes_onRequest {q : Request} {g : Request → Request} (hq : d.requests[r]? = some q)
    (h : (g q).Wakes w (d.post r).state (d.post r).runs (d.post r).probeRuns
      (.probeEnded r ∈ d.agenda.jobs)) : Wakes w (d.onRequest r g) r := by
  intro q' hq'
  obtain rfl := Option.some.inj ((getElem?_onRequest hq g).symm.trans hq')
  rw [post_onRequest, if_pos rfl]
  exact h

theorem wakes_enqueue {q : Request} {j : Job} (hq : d.requests[r]? = some q)
    (h : q.Wakes w (d.post r).state ((d.post r).runs + if j = .request r then 1 else 0)
      ((d.post r).probeRuns + if j = .probe r then 1 else 0)
      (.probeEnded r ∈ d.agenda.jobs ∨ .probeEnded r = j)) : Wakes w (d.enqueue j) r := by
  intro q' hq'
  obtain rfl := Option.some.inj (hq.symm.trans hq')
  rw [post_enqueue]
  exact h.mono id mem_jobs_enqueue.mpr

/-! ## Work on one request -/

theorem over_endRequest {q : Request} (hq : d.requests[r]? = some q) (v : Verdict) :
    Over (d.endRequest r v) r :=
  ⟨_, v, getElem?_onRequest hq _, rfl⟩

theorem over_conclude {q : Request} (hq : d.requests[r]? = some q)
    (o : Except Failure Classification) : Over (conclude s d r o) r := by
  unfold conclude
  rw [hq]
  split
  · contradiction
  · exact over_endRequest hq _
  · exact over_endRequest (d := d.onDialog _ _) hq _

/-- A request that is not stopped at its start may wait for the classifier, or makes a probe. -/
theorem wakes_beginRequest {q : Request} (hq : d.requests[r]? = some q)
    (h : q.stopping = true ∨ w) : Wakes w (beginRequest s d r q) r := by
  unfold beginRequest
  split
  · exact wakes_of_over (over_endRequest hq _)
  · rename_i hstop
    have hw : w := h.resolve_left hstop
    split
    · exact wakes_of_over (over_endRequest hq _)
    · rename_i path _ _
      rcases he : call s d r path with ⟨e, c, o⟩
      obtain ⟨-, hr, -, hpost⟩ := call_post he
      have hq' : e.requests[r]? = some q := hr ▸ hq
      cases o with
      | some o => exact wakes_of_over (over_conclude hq' o)
      | none =>
        refine wakes_onRequest hq' (Or.inr ⟨hw, ?_⟩)
        simp [hpost]
    · rename_i path limit _ _
      dsimp only
      split
      · refine wakes_enqueue (getElem?_onRequest hq _) ⟨fun _ => ⟨rfl, ?_⟩, by simp⟩
        simp
      · refine wakes_enqueue (getElem?_onRequest (d := { d with timers := _ }) hq _)
          ⟨Or.inr ⟨hw, rfl⟩, ?_⟩
        change 0 < _
        simp

/-- A call of request `r` ends, and what waited for it has its turn. -/
theorem wakes_endCall {q : Request} {c : Nat} {path : String} {a : CallState} {j : Job}
    (hq : d.requests[r]? = some q) (hc : d.calls[c]? = some ⟨r, path, .waiting⟩)
    (h : q.Wakes w (fun c' => if c = c' then some a else (d.post r).state c')
      ((d.post r).runs + if j = .request r then 1 else 0)
      ((d.post r).probeRuns + if j = .probe r then 1 else 0) (.probeEnded r ∈ d.agenda.jobs)) :
    Wakes w ((d.onCall c fun k => { k with state := a }).enqueue j) r := by
  refine wakes_enqueue (d := d.onCall c _) hq ?_
  rw [post_onCall d hc r]
  simp only [true_and]
  exact h.mono id Or.inl

/-- A probe that its request gives up is halted. -/
theorem wakes_haltProbe {q : Request} {late : Bool} (hq : d.requests[r]? = some q)
    (hs : q.stage = .withdrawing late .waiting)
    (hplaced : q.probe.Placed (d.post r).state (d.post r).probeRuns)
    (hp : q.probe.Wakes (d.post r).state (d.post r).probeRuns) (hv : q.probe.isEnded = false) :
    Wakes w (d.haltProbe r) r := by
  unfold haltProbe
  rw [hq, Option.map_some]
  split
  · rename_i path hready
    have hready : q.probe = .ready path := Option.some.inj hready
    refine wakes_onRequest hq ?_
    rw [hready] at hp
    simp only [Request.Wakes, hs, hready]
    exact ⟨fun _ => ⟨rfl, hp⟩, by simp⟩
  · rename_i c hcalling
    have hcalling : q.probe = .calling c := Option.some.inj hcalling
    rw [hcalling] at hplaced hp
    obtain ⟨a, ha, -⟩ := hplaced
    by_cases hw : a = .waiting
    · subst hw
      obtain ⟨path, hc, he⟩ := withdrawCall_of_waiting ha (.probe r)
      simp only [he]
      refine wakes_endCall hq hc ?_
      simp [Request.Wakes, hs, hcalling, Probe.Halts]
    · simp only [withdrawCall_of_ne_waiting ha hw]
      have hawake : (d.post r).state c ≠ some .waiting := fun h =>
        hw (Option.some.inj (ha.symm.trans h))
      refine wakes_onRequest hq ?_
      simp only [Request.Wakes, hs, hcalling]
      exact ⟨fun _ => ⟨hawake, hp.resolve_right hawake⟩, by simp⟩
  · rename_i hready hcalling
    cases hprobe : q.probe with
    | idle => rw [hprobe] at hp; exact hp.elim
    | ready path => exact absurd (congrArg some hprobe) (hready path)
    | calling c => exact absurd (congrArg some hprobe) (hcalling c)
    | found o => rw [hprobe] at hv; cases hv
    | stopped => rw [hprobe] at hv; cases hv

/-- A request has its turn. The job is out of the line already. -/
theorem wakes_runRequest
    (hd : ({ d.post r with runs := (d.post r).runs + 1 } : Post).Sound s True)
    (h : ∀ q, d.requests[r]? = some q → q.Wakes w (d.post r).state ((d.post r).runs + 1)
      (d.post r).probeRuns (.probeEnded r ∈ d.agenda.jobs)) : Wakes w (runRequest s d r) r := by
  unfold runRequest
  split
  · exact wakes_of_none ‹_›
  · rename_i q hq
    have hwakes := h q hq
    split
    · rename_i hs
      simp only [Request.Wakes, hs] at hwakes
      exact wakes_beginRequest hq hwakes.2
    · split
      · exact wakes_of_over (over_conclude hq _)
      · exact wakes_of_over (over_endRequest hq _)
    · rename_i a hs
      simp only [Request.Wakes, hs] at hwakes
      split
      · exact wakes_of_over (over_conclude hq _)
      · exact wakes_of_over (over_endRequest hq _)
      · rename_i hfound hstopped
        have hfits : q.Fits s True (d.post r).state ((d.post r).runs + 1) (d.post r).probeRuns := by
          simpa only [Post.Sound, post, hq] using hd
        have hv : q.probe.isEnded = false := by
          cases hp : q.probe with
          | found o => exact absurd hp (hfound o)
          | stopped => exact absurd hp hstopped
          | _ => rfl
        refine wakes_haltProbe (getElem?_onRequest hq _) rfl ?_ ?_ hv
        · simpa only [post_onRequest, if_true] using hfits.probe
        · simpa only [post_onRequest, if_true] using hwakes.2
    · split
      · split
        · exact wakes_of_over (over_conclude hq _)
        · exact wakes_of_over (over_conclude hq _)
      · exact wakes_of_over (over_endRequest hq _)
    · rename_i v hs
      exact wakes_of_over ⟨q, v, hq, by simp [Request.verdict?, hs]⟩

/-- A probe has its turn. The job is out of the line already. -/
theorem wakes_runProbe
    (h : ∀ q, d.requests[r]? = some q → q.Wakes w (d.post r).state (d.post r).runs
      ((d.post r).probeRuns + 1) (.probeEnded r ∈ d.agenda.jobs)) :
    Wakes w (runProbe s d r) r := by
  unfold runProbe
  split
  · exact wakes_of_none ‹_›
  · rename_i q hq
    have hwakes := h q hq
    have hend {e : Desk σ} {probe : Probe} (hq : e.requests[r]? = some q)
        (hv : probe.isEnded = true)
        (hstate : ∀ c, (d.post r).state c = some .waiting → (e.post r).state c = some .waiting)
        (hruns : (e.post r).runs = (d.post r).runs) : Wakes w (e.endProbe r probe) r := by
      refine wakes_enqueue (getElem?_onRequest hq _) ?_
      rw [post_onRequest, if_pos rfl]
      simp only [hruns, reduceCtorEq, if_false, Nat.add_zero, or_true]
      exact hwakes.probeEnded hstate hv
    split
    · rename_i path hp
      split
      · exact hend hq rfl (fun _ h => h) rfl
      · rename_i hhalt
        rcases he : call s d r path with ⟨e, c, o⟩
        obtain ⟨-, hr, hnew, hpost⟩ := call_post he
        have hq' : e.requests[r]? = some q := hr ▸ hq
        have hstate (c' : Nat) (hc : (d.post r).state c' = some .waiting) :
            (e.post r).state c' = some .waiting := by
          have hne : c ≠ c' := by
            rintro rfl
            cases hnew.symm.trans hc
          simp [hpost, hne, hc]
        cases o with
        | some o => exact hend hq' rfl hstate (by simp [hpost])
        | none =>
          refine wakes_onRequest hq' ?_
          have hjobs : (call s d r path).1.agenda = d.agenda := rfl
          rw [he] at hjobs
          have hruns : (e.post r).runs = (d.post r).runs := by simp [hpost]
          rw [hruns, show e.agenda = d.agenda from hjobs]
          exact hwakes.probed hstate hp (by simpa using hhalt) (by simp [hpost])
    · split
      · exact hend hq rfl (fun _ h => h) rfl
      · exact hend hq rfl (fun _ h => h) rfl
    · rename_i hready hcalling
      intro q' hq'
      obtain rfl := Option.some.inj (hq.symm.trans hq')
      exact hwakes.idle hready hcalling

/-! ## What a request is told -/

/-- A request that races with its probe goes on. -/
theorem wakes_signalled {q : Request} {a b : Signal} (hq : d.requests[r]? = some q)
    (hs : q.stage = .racing a) (h : q.Wakes w (d.post r).state (d.post r).runs (d.post r).probeRuns
      True) :
    Wakes w' ((d.onRequest r fun q => { q with stage := .racing b }).enqueue (.request r)) r := by
  simp only [Request.Wakes, hs] at h
  refine wakes_enqueue (getElem?_onRequest hq _) ?_
  simp only [post_onRequest, if_true, Request.Wakes]
  exact ⟨Or.inl (Nat.succ_pos _), by simpa using h.2⟩

/-- A request that has withdrawn goes on. -/
theorem wakes_withdrawn {q : Request} {late : Bool} {b : Signal} (hq : d.requests[r]? = some q)
    (hb : b ≠ .waiting) :
    Wakes w ((d.onRequest r fun q => { q with stage := .withdrawing late b }).enqueue
      (.request r)) r := by
  refine wakes_enqueue (getElem?_onRequest hq _) ?_
  simp [Request.Wakes, hb]

/-- A request is told that its probe has ended. The job is out of the line already. -/
theorem wakes_tellProbeEnded
    (h : ∀ q, d.requests[r]? = some q → q.Wakes w (d.post r).state (d.post r).runs
      (d.post r).probeRuns True) : Wakes w (d.tellProbeEnded r) r := by
  cases hq : d.requests[r]? with
  | none => simpa [tellProbeEnded, hq] using wakes_of_none hq
  | some q =>
    have hwakes := h q hq
    unfold tellProbeEnded
    rw [hq, Option.map_some]
    split
    · rename_i hs
      exact wakes_signalled hq (Option.some.inj hs) hwakes
    · exact wakes_withdrawn hq (by simp)
    · rename_i hno
      intro q' hq'
      obtain rfl := Option.some.inj (hq.symm.trans hq')
      exact hwakes.untold fun late hs => hno late (congrArg some hs)

theorem wakes_tellLimit (h : Wakes w d r) : Wakes w (d.tellLimit r) r := by
  cases hq : d.requests[r]? with
  | none => simpa [tellLimit, hq] using wakes_of_none hq
  | some q =>
    unfold tellLimit
    rw [hq, Option.map_some]
    split
    · rename_i hs
      exact wakes_signalled hq (Option.some.inj hs) ((h q hq).mono id fun _ => trivial)
    · exact h

/-- A request that is cancelled waits for nobody outside. -/
theorem wakes_cancelRequest (hd : (d.post r).Sound s True) (h : Wakes w d r) :
    Wakes False (d.cancelRequest r).1 r := by
  cases hq : d.requests[r]? with
  | none => simpa [cancelRequest, hq] using wakes_of_none hq
  | some q =>
    have hwakes := h q hq
    have hstop (hs : ({ q with stopping := true } : Request).Wakes False (d.post r).state
        (d.post r).runs (d.post r).probeRuns (.probeEnded r ∈ d.agenda.jobs)) :
        Wakes False (d.onRequest r fun q => { q with stopping := true }) r := wakes_onRequest hq hs
    unfold cancelRequest
    rw [hq, Option.map_some]
    dsimp only
    split
    · contradiction
    · rename_i v hs
      exact wakes_of_over ⟨q, v, hq, by simp [Request.verdict?, Option.some.inj hs]⟩
    · rename_i c hs
      have hs : q.stage = .calling c := Option.some.inj hs
      have hstage := ((sound_iff_fits hq).mp hd).stage
      simp only [Request.Placed, Request.Wakes, hs] at hstage hwakes
      obtain ⟨a, ha, -⟩ := hstage
      by_cases hw : a = .waiting
      · subst hw
        obtain ⟨path, hc, he⟩ := withdrawCall_of_waiting ha (.request r)
        simp only [he]
        refine wakes_endCall hq hc ?_
        simp [Request.Wakes, hs]
      · simp only [withdrawCall_of_ne_waiting ha hw]
        have hawake : (d.post r).state c ≠ some .waiting := fun h =>
          hw (Option.some.inj (ha.symm.trans h))
        refine hstop ?_
        simp only [Request.Wakes, hs]
        exact Or.inl (hwakes.resolve_right fun h => hawake h.2)
    · rename_i hs
      exact wakes_signalled hq (Option.some.inj hs) (hwakes.mono id fun _ => trivial)
    · exact wakes_withdrawn hq (by simp)
    · rename_i stage hended hcalling hracing hwithdrawing hstage
      obtain rfl := Option.some.inj hstage
      refine hstop ?_
      unfold Request.Wakes at hwakes ⊢
      dsimp only
      split at hwakes
      · exact ⟨hwakes.1, Or.inl rfl⟩
      · rename_i c hs
        exact absurd hs (hcalling c)
      · rename_i a hs
        have ha : a ≠ .waiting := fun ha => hracing (ha ▸ hs)
        exact ⟨Or.inl (hwakes.1.resolve_right fun h => ha h.2), hwakes.2⟩
      · exact hwakes
      · trivial

/-- What waits for a call that is answered has its turn. -/
theorem wakes_answer {c : Nat} {path : String} (hc : d.calls[c]? = some ⟨r, path, .waiting⟩)
    (h : Wakes w d r) (o : Except Failure Classification) : Wakes w (d.answer c o).1 r := by
  cases hq : d.requests[r]? with
  | none =>
    refine wakes_of_none ?_
    simp [answer, hc, waiter, hq, onCall, enqueue]
  | some q =>
    have hwakes := h q hq
    unfold answer
    simp only [hc, waiter, Option.map_some, hq]
    split
    · rename_i c' hs
      refine wakes_endCall hq hc ?_
      simp [Request.Wakes, Option.some.inj hs]
    · rename_i hno
      refine wakes_endCall hq hc ?_
      simpa using hwakes.answered (a := .answered o) (by simp) fun c hs => hno c (congrArg some hs)

/-! ## The line -/

/-- The turn of a request when a job is taken from the line. -/
theorem Wakes.popped {j : Job} {rest : List Job} (h : Wakes w d r) (hnow : d.agenda.now = j :: rest)
    (he : e = { d with agenda := { d.agenda with now := rest } }) {q : Request}
    (hq : e.requests[r]? = some q) :
    q.Wakes w (e.post r).state ((e.post r).runs + if j = .request r then 1 else 0)
      ((e.post r).probeRuns + if j = .probe r then 1 else 0)
      (.probeEnded r ∈ e.agenda.jobs ∨ j = .probeEnded r) := by
  subst he
  have hwakes := h q hq
  rw [post_pop hnow r] at hwakes
  refine hwakes.mono id fun hjob => ?_
  simp only [Agenda.jobs, hnow, List.cons_append, List.mem_cons] at hjob
  exact hjob.symm.imp_right Eq.symm

/-- A request keeps its turn when another job is taken from the line. -/
theorem Wakes.pop {j : Job} {rest : List Job} (h : Wakes w d r) (hnow : d.agenda.now = j :: rest)
    (he : e = { d with agenda := { d.agenda with now := rest } }) (hr : j ≠ .request r)
    (hp : j ≠ .probe r) (ht : j ≠ .probeEnded r) : Wakes w e r := by
  intro q hq
  have hwakes := h.popped hnow he hq
  rw [if_neg hr, if_neg hp] at hwakes
  exact hwakes.mono id fun hjob => hjob.resolve_right ht

end Desk
end Admission
