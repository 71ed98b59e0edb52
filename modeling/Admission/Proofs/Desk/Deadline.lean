import Admission.Proofs.Desk.Rest
import Admission.Proofs.Desk.Sequence
import Admission.Proofs.Timers

/-!
# Requests end in time

The phase of a request changes only with its own turn. Its timer is set with its first run and stays
until the request has ended or is told that its time is over. So no request is under way at a desk
at rest whose clock has reached the request's deadline. How such a request ends is not said.
-/
namespace Admission
namespace Desk

variable {σ : Type} {s : Setting σ} {d e : Desk σ} {r : Nat}

/-- The phase of request `r`, if it is there. -/
def phase? (d : Desk σ) (r : Nat) : Option Stage := d.outlines[r]?.map Outline.phase

theorem phase?_of_request {q : Request} (hq : d.requests[r]? = some q) :
    d.phase? r = some q.stage.phase := by
  rw [phase?, outlines_getElem?, hq]
  rfl

theorem request_of_phase? {stage : Stage} (h : d.phase? r = some stage) :
    ∃ q, d.requests[r]? = some q ∧ q.stage.phase = stage := by
  rw [phase?, outlines_getElem?, Option.map_map] at h
  exact Option.map_eq_some_iff.mp h

theorem phase?_of_modify {q : Request} {g : Outline → Outline} (hq : d.requests[r]? = some q)
    (h : e.outlines = d.outlines.modify r g) : e.phase? r = some (g q.outline).phase := by
  rw [phase?, outline_of_modify hq h, Option.map_some]

/-! ## The phase of a request -/

/-- Request `r` stays in its phase, or is new. -/
def PhaseKept (r : Nat) (d e : Desk σ) : Prop :=
  e.phase? r = d.phase? r ∨ d.phase? r = none ∧ e.phase? r = some .created

theorem Issuing.phaseKept {rs : List (Nat × String)} (h : Issuing rs d e) (r : Nat) :
    PhaseKept r d e := by
  unfold PhaseKept phase?
  rw [h.outlines]
  by_cases hr : r < d.outlines.length
  · rw [List.getElem?_append_left hr]
    exact Or.inl rfl
  · rw [List.getElem?_append_right (Nat.le_of_not_lt hr),
      List.getElem?_eq_none (Nat.le_of_not_lt hr), List.getElem?_map]
    cases rs[r - d.outlines.length]? with
    | none => exact Or.inl rfl
    | some subject => exact Or.inr ⟨rfl, rfl⟩

theorem phaseKept_modify {r' : Nat} {g : Outline → Outline}
    (h : e.outlines = d.outlines.modify r' g) (hg : r' = r → ∀ o, (g o).phase = o.phase) :
    PhaseKept r d e := by
  refine Or.inl ?_
  rw [phase?, phase?, h, List.getElem?_modify]
  cases d.outlines[r]? with
  | none => rfl
  | some o =>
    by_cases hr : r' = r
    · simp [hr, hg hr]
    · simp [hr]

/-- **The phase of a request changes only with its own turn.** -/
theorem phaseKept_move (d : Desk σ) (m : Move σ)
    (h : m = .step → ∀ rest, d.agenda.now ≠ .request r :: rest) : PhaseKept r d (d.move s m) := by
  by_cases hm : m = .step
  · subst hm
    cases hnow : d.agenda.now with
    | nil =>
      simp only [move, step, hnow]
      cases hpass : d.nextPass with
      | none => exact Or.inl rfl
      | some e =>
        refine Or.inl ?_
        rw [phase?, Option.getD_some, (nextPass_outlines hpass).1, phase?]
    | cons j now =>
      rw [move_step_of_now hnow]
      cases j with
      | request r' =>
        obtain ⟨g, ho, -⟩ := worksOn_runRequest (s := s)
          ({ d with agenda := { d.agenda with now := now } } : Desk σ) r'
        refine phaseKept_modify (d := d) ho fun hr => ?_
        rw [hr] at hnow
        exact absurd hnow (h rfl now)
      | probe r' =>
        cases hq : d.requests[r']? with
        | none => simp only [run, runProbe, hq]; exact Or.inl rfl
        | some q =>
          cases probeRun_runProbe (s := s)
            (d := { d with agenda := { d.agenda with now := now } }) hq with
          | called _ _ _ ho => exact phaseKept_modify (d := d) ho fun _ _ => rfl
          | silent _ _ ho => exact phaseKept_modify (d := d) ho fun _ _ => rfl
      | probeEnded r' => exact (steady_tellProbeEnded _ r').phaseKept r
      | requestEnded r' =>
        exact phaseKept_modify (d := d) (outlines_tellRequestEnded _ r').1 fun _ _ => rfl
      | limit r' => exact (steady_tellLimit _ r').phaseKept r
      | errand k => exact (issuing_runErrand _ k).phaseKept r
  · exact (issuing_move d hm).phaseKept r

/-- A request that is not new had its phase before the move, unless the move was its turn. -/
theorem phase?_before {m : Move σ} {stage : Stage} (h : (d.move s m).phase? r = some stage)
    (hs : stage ≠ .created) :
    d.phase? r = some stage ∨ m = .step ∧ ∃ rest, d.agenda.now = .request r :: rest := by
  by_cases hown : m = .step ∧ ∃ rest, d.agenda.now = .request r :: rest
  · exact Or.inr hown
  · refine Or.inl ?_
    have hkept : PhaseKept r d (d.move s m) :=
      phaseKept_move d m fun hm rest hnow => hown ⟨hm, rest, hnow⟩
    rcases hkept with hsame | ⟨-, hnew⟩
    · exact hsame ▸ h
    · exact absurd (Option.some.inj (h.symm.trans hnew)) hs

/-! ## Timers -/

theorem Issuing.mem_timers {rs : List (Nat × String)} (h : Issuing rs d e) {t : Timer}
    (ht : t ∈ d.timers) : t ∈ e.timers := h.timers ▸ ht

/-- No job gives up a timer. -/
theorem mem_timers_run (d : Desk σ) (j : Job) {t : Timer} (ht : t ∈ d.timers) :
    t ∈ (run s d j).timers := by
  cases j with
  | request r =>
    cases hq : d.requests[r]? with
    | none => simpa only [run, runRequest, hq] using ht
    | some q =>
      by_cases hs : q.stage = .created
      · have hbegin : run s d (.request r) = beginRequest s d r q := by
          simp only [run, runRequest, hq, hs]
        rw [hbegin]
        cases firstRun_beginRequest (s := s) hq with
        | refused _ h => rwa [h.timers]
        | called _ _ _ _ _ htimers => rwa [htimers]
        | raced _ _ _ _ _ _ htimers =>
          rw [htimers]
          exact Timers.mem_push.mpr (Or.inr ht)
        | expired _ _ _ _ _ _ htimers => rwa [htimers]
      · obtain ⟨phase, -, h⟩ := advances_runRequest (s := s) hq hs
        rwa [run, h.timers]
  | probe r =>
    cases hq : d.requests[r]? with
    | none => simpa only [run, runProbe, hq] using ht
    | some q =>
      cases probeRun_runProbe (s := s) hq with
      | called _ _ _ _ _ htimers => rwa [run, htimers]
      | silent _ _ _ _ htimers => rwa [run, htimers]
  | probeEnded r => exact (steady_tellProbeEnded d r).mem_timers ht
  | requestEnded r => rwa [run, (outlines_tellRequestEnded d r).2.2]
  | limit r => exact (steady_tellLimit d r).mem_timers ht
  | errand k => exact (issuing_runErrand d k).mem_timers ht

/-- A timer is live, or its request has ended. -/
theorem over_or_mem_liveTimers {t : Timer} (ht : t ∈ d.timers)
    (hr : d.requests[t.request]?.isSome = true) : Over d t.request ∨ t ∈ d.liveTimers := by
  rcases Timers.mem_popWhile (p := d.isIdle) ht with hidle | hlive
  · refine Or.inl ?_
    obtain ⟨q, hq⟩ := Option.isSome_iff_exists.mp hr
    rw [isIdle, hq, Option.all_some, Request.isEnded] at hidle
    cases hs : q.stage with
    | ended v => exact ⟨q, v, hq, by rw [Request.verdict?, hs]⟩
    | _ => simp [hs] at hidle
  · exact Or.inr hlive

/-- A timer is taken when its request has ended, or the request is told next. -/
theorem mem_timers_nextPass {t : Timer} (ht : t ∈ d.timers)
    (hr : d.requests[t.request]?.isSome = true) (h : d.nextPass = some e) :
    Over d t.request ∨ t ∈ e.timers ∨ .limit t.request ∈ e.agenda.jobs := by
  obtain rfl := nextPass_of_eq_some h
  rcases over_or_mem_liveTimers ht hr with hover | hlive
  · exact Or.inl hover
  · rcases @Timers.mem_takeDue _ _ d.clock hlive with hdue | hleft
    · refine Or.inr (Or.inr (List.mem_append_left _ (List.mem_append_right _ ?_)))
      exact List.mem_map.mpr ⟨t, hdue, rfl⟩
    · exact Or.inr (Or.inl hleft)

/-- A timer stays until its request has ended, or is told next. -/
theorem mem_timers_move {t : Timer} (ht : t ∈ d.timers)
    (hr : d.requests[t.request]?.isSome = true) (m : Move σ) :
    Over d t.request ∨ t ∈ (d.move s m).timers ∨
      .limit t.request ∈ (d.move s m).agenda.jobs := by
  by_cases hm : m = .step
  · subst hm
    cases hnow : d.agenda.now with
    | nil =>
      simp only [move, step, hnow]
      cases hpass : d.nextPass with
      | none => exact Or.inr (Or.inl ht)
      | some e => exact mem_timers_nextPass ht hr hpass
    | cons j now =>
      rw [move_step_of_now hnow]
      exact Or.inr (Or.inl (mem_timers_run _ j ht))
  · exact Or.inr (Or.inl ((issuing_move d hm).mem_timers ht))

/-- At rest no timer is due, but for those of requests that have ended. -/
theorem over_of_due (h : d.step s = none) {t : Timer} (ht : t ∈ d.timers)
    (hr : d.requests[t.request]?.isSome = true) (hdue : t.due ≤ d.clock) : Over d t.request := by
  have hnone : (d.liveTimers.takeDue d.clock).1 = [] := (step_eq_none_iff.mp h).2.2
  rcases over_or_mem_liveTimers ht hr with hover | hlive
  · exact hover
  · rcases @Timers.mem_takeDue _ _ d.clock hlive with hout | hleft
    · rw [hnone] at hout
      cases hout
    · exact absurd hdue (Timers.not_due_of_mem_takeDue hleft)

/-! ## Deadlines -/

/-- Request `r` has had its first run. As long as it races with its probe, a timer is set for it
that is due at `due`, or the request is about to be told that its time is over, or about to run. -/
structure Timed (due : Float) (r : Nat) (d : Desk σ) : Prop where
  started : ∃ stage, d.phase? r = some stage ∧ stage ≠ .created
  awaited : d.phase? r = some (.racing .waiting) →
    ⟨due, r⟩ ∈ d.timers ∨ .limit r ∈ d.agenda.jobs ∨ .request r ∈ d.agenda.jobs

/-- When a racing request is told that its time is over, it is about to run. -/
theorem request_mem_of_limit (hd : Reachable s d) {now : List Job}
    (hnow : d.agenda.now = .limit r :: now) (h : d.phase? r = some (.racing .waiting)) :
    .request r ∈ (d.move s .step).agenda.jobs := by
  obtain ⟨q, hq, hphase⟩ := request_of_phase? h
  have hwakes := hd.wakeful r q hq
  obtain ⟨a, hs⟩ : ∃ a, q.stage = .racing a := by
    cases hs : q.stage with
    | racing a => exact ⟨a, rfl⟩
    | _ => simp [hs, Stage.phase] at hphase
  simp only [Request.Wakes, hs] at hwakes
  rcases hwakes.1 with hruns | ⟨-, rfl⟩
  · have hmem : .request r ∈ d.agenda.jobs := List.count_pos_iff.mp hruns
    rcases jobs_move (s := s) d .step hmem with hjobs | ⟨-, rest, hother⟩
    · exact hjobs
    · rw [hnow] at hother
      cases hother
  · rw [move_step_of_now hnow]
    simp only [run, tellLimit, hq, Option.map_some, hs]
    exact mem_jobs_enqueue.mpr (Or.inr rfl)

theorem phase?_of_over (h : Over d r) : ∃ v, d.phase? r = some (.ended v) := by
  obtain ⟨q, v, hq, hv⟩ := h
  exact ⟨v, by rw [phase?_of_request hq, stage_of_verdict hv]; rfl⟩

/-- With its own turn a request that has had its first run ends, or withdraws from its probe. -/
theorem phase?_of_turn {stage stage' : Stage} {now : List Job}
    (hnow : d.agenda.now = .request r :: now) (h : d.phase? r = some stage)
    (hs : stage ≠ .created) (h' : (d.move s .step).phase? r = some stage') :
    (∃ v, stage' = .ended v) ∨ ∃ late, stage' = .withdrawing late .waiting := by
  obtain ⟨q, hq, rfl⟩ := request_of_phase? h
  have hs : q.stage ≠ .created := fun hnew => hs (Stage.phase_eq_created.mpr hnew)
  obtain ⟨phase, hleads, ha⟩ :=
    advances_runRequest (s := s) (d := { d with agenda := { d.agenda with now := now } }) hq hs
  have hphase : stage' = phase := by
    rw [move_step_of_now hnow, run, phase?_of_modify hq ha.outlines] at h'
    exact (Option.some.inj h').symm
  rw [hphase]
  cases hstage : q.stage with
  | created => exact absurd hstage hs
  | ended v => exact Or.inl ⟨v, by simpa [hstage, Stage.LeadsTo] using hleads⟩
  | racing a => simpa [hstage, Stage.LeadsTo] using hleads
  | calling c => exact Or.inl (by simpa [hstage, Stage.LeadsTo] using hleads)
  | withdrawing late a => exact Or.inl (by simpa [hstage, Stage.LeadsTo] using hleads)

theorem phase?_isSome_move (d : Desk σ) (m : Move σ) (h : (d.phase? r).isSome = true) :
    ((d.move s m).phase? r).isSome = true := by
  obtain ⟨stage, hstage⟩ := Option.isSome_iff_exists.mp h
  obtain ⟨q, hq, -⟩ := request_of_phase? hstage
  obtain ⟨q', hq', -⟩ := request_kept (linesKept_move (s := s) d m) hq
  rw [phase?_of_request hq']
  rfl

theorem Timed.move {due : Float} (h : Timed due r d) (hd : Reachable s d) (m : Move σ) :
    Timed due r (d.move s m) := by
  obtain ⟨stage, hstage, hs⟩ := h.started
  obtain ⟨stage', hstage'⟩ : ∃ stage', (d.move s m).phase? r = some stage' := by
    refine Option.isSome_iff_exists.mp (phase?_isSome_move d m ?_)
    rw [hstage]
    rfl
  by_cases hown : m = .step ∧ ∃ now, d.agenda.now = .request r :: now
  · obtain ⟨rfl, now, hnow⟩ := hown
    rcases phase?_of_turn hnow hstage hs hstage' with ⟨v, rfl⟩ | ⟨late, rfl⟩
    · exact ⟨⟨_, hstage', by simp⟩, fun hrace => by simp [hstage'] at hrace⟩
    · exact ⟨⟨_, hstage', by simp⟩, fun hrace => by simp [hstage'] at hrace⟩
  · have hkept : PhaseKept r d (d.move s m) :=
      phaseKept_move d m fun hm now hnow => hown ⟨hm, now, hnow⟩
    have hsame : (d.move s m).phase? r = d.phase? r := by
      refine hkept.resolve_right fun hnew => ?_
      rw [hstage] at hnew
      cases hnew.1
    refine ⟨⟨stage, hsame.trans hstage, hs⟩, fun hrace => ?_⟩
    have hraced := hsame ▸ hrace
    rcases h.awaited hraced with ht | hj | hj
    · have hthere : d.requests[r]?.isSome = true := by
        obtain ⟨q, hq, -⟩ := request_of_phase? hstage
        rw [hq]
        rfl
      rcases mem_timers_move ht hthere m with hover | htimer | hlimit
      · obtain ⟨v, hv⟩ := phase?_of_over hover
        rw [hraced] at hv
        cases hv
      · exact Or.inl htimer
      · exact Or.inr (Or.inl hlimit)
    · rcases jobs_move (s := s) d m hj with hj | ⟨rfl, now, hnow⟩
      · exact Or.inr (Or.inl hj)
      · exact Or.inr (Or.inr (request_mem_of_limit hd hnow hraced))
    · rcases jobs_move (s := s) d m hj with hj | ⟨rfl, now, hnow⟩
      · exact Or.inr (Or.inr hj)
      · exact absurd ⟨rfl, now, hnow⟩ hown

theorem Timed.after {due : Float} (h : Timed due r d) (hd : Reachable s d) (ms : List (Move σ)) :
    Timed due r (d.after s ms) := by
  induction ms generalizing d with
  | nil => exact h
  | cons m ms ih => exact ih (h.move hd m) (hd.move m)

/-- Request `r` is at its first run. -/
def Starts (d : Desk σ) (r : Nat) : Prop :=
  (∃ now, d.agenda.now = .request r :: now) ∧ d.isNew r = true

theorem firstRun_of_new {now : List Job} (hnow : d.agenda.now = .request r :: now)
    (hnew : d.isNew r = true) : ∃ q, d.requests[r]? = some q ∧
      FirstRun s { d with agenda := { d.agenda with now := now } } r q (d.move s .step) := by
  obtain ⟨q, hq, hs⟩ := isNew_iff.mp hnew
  have hbegin : d.move s .step =
      beginRequest s { d with agenda := { d.agenda with now := now } } r q := by
    rw [move_step_of_now hnow]
    simp only [run, runRequest, hq, hs]
  rw [hbegin]
  exact ⟨q, hq, firstRun_beginRequest hq⟩

/-- With the first run of a request its timer is set. -/
theorem Starts.timed (h : Starts d r) {limit : Float} (hl : s.limit = some limit) :
    Timed (d.clock + limit) r (d.move s .step) := by
  obtain ⟨⟨now, hnow⟩, hnew⟩ := h
  obtain ⟨q, hq, hrun⟩ := firstRun_of_new (s := s) hnow hnew
  cases hrun with
  | refused _ h =>
    have hended := phase?_of_modify hq h.outlines
    exact ⟨⟨_, hended, by simp⟩, fun hrace => by simp [hended] at hrace⟩
  | called hnone =>
    rw [hl] at hnone
    cases hnone
  | raced hl' _ _ ho _ _ ht =>
    obtain rfl := Option.some.inj (hl.symm.trans hl')
    refine ⟨⟨_, phase?_of_modify hq ho, by simp⟩, fun _ => Or.inl ?_⟩
    rw [ht]
    exact Timers.mem_push.mpr (Or.inl rfl)
  | expired _ _ _ ho =>
    have hexpired := phase?_of_modify hq ho
    exact ⟨⟨_, hexpired, by simp⟩, fun hrace => by simp [hexpired] at hrace⟩

/-- At rest, a request that has had its first run and does not race with its probe has ended. -/
theorem over_of_rest (hd : Reachable s d) (hrest : d.step s = none) (hl : s.limit.isSome = true)
    {q : Request} (hq : d.requests[r]? = some q) (hrace : ∀ a, q.stage ≠ .racing a) :
    Over d r := by
  have hwakes := hd.wakeful r q hq
  have hjobs := jobs_of_rest hrest
  have hnone (j : Job) : ¬ 0 < d.agenda.jobs.count j := by
    rw [hjobs]
    exact Nat.lt_irrefl 0
  have hbacked := hd.backed.stages hq
  unfold Request.Wakes at hwakes
  split at hwakes
  · exact absurd hwakes.1 (hnone _)
  · rename_i c hs
    rw [hs] at hbacked
    rw [hbacked.1] at hl
    cases hl
  · rename_i a hs
    exact absurd hs (hrace a)
  · rename_i late a hs
    by_cases ha : a = .waiting
    · have hhalts := hwakes.1 ha
      cases hp : q.probe with
      | idle => simp [hp, Probe.Halts] at hhalts
      | ready path =>
        rw [hp] at hhalts
        exact absurd hhalts.2 (hnone _)
      | calling c =>
        rw [hp] at hhalts
        exact absurd hhalts.2 (hnone _)
      | found o => simp [hp, Probe.Halts, hjobs] at hhalts
      | stopped => simp [hp, Probe.Halts, hjobs] at hhalts
    · exact absurd (hwakes.2 ha) (hnone _)
  · rename_i v hs
    exact ⟨q, v, hq, by rw [Request.verdict?, hs]⟩

/-- **At rest, no request is under way whose deadline is past.** -/
theorem Timed.over {due : Float} (h : Timed due r d) (hd : Reachable s d)
    (hrest : d.step s = none) (hl : s.limit.isSome = true) (hdue : due ≤ d.clock) : Over d r := by
  obtain ⟨stage, hstage, -⟩ := h.started
  obtain ⟨q, hq, hphase⟩ := request_of_phase? hstage
  by_cases hrace : ∃ a, q.stage = .racing a
  · obtain ⟨a, hs⟩ := hrace
    have hraced : d.phase? r = some (.racing .waiting) := by
      rw [phase?_of_request hq, hs]
      rfl
    rcases h.awaited hraced with ht | hj | hj
    · exact over_of_due hrest ht (by rw [hq]; rfl) hdue
    · rw [jobs_of_rest hrest] at hj
      cases hj
    · rw [jobs_of_rest hrest] at hj
      cases hj
  · exact over_of_rest hd hrest hl hq fun a hs => hrace ⟨a, hs⟩

end Desk
end Admission
