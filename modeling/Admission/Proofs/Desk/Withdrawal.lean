import Admission.Proofs.Desk.Deadline

/-!
# Requests that have left their probe

A request that waits for its probe no longer lets it find nothing: the probe has stopped, or it has
to when it runs, and its call has ended. What a probe has found stays found. So a request takes what
its probe has found, or it counts its path as missing or is cancelled, and which of these is decided
when it leaves its probe.
-/
namespace Admission

/-- A probe that will find nothing: it was not made, it has stopped, or it has to when it runs. -/
def Probe.Shut (halting : Bool) (calls : List Call) : Probe → Prop
  | .idle | .stopped => True
  | .ready _ => halting = true
  | .calling c => ∃ k, calls[c]? = some k ∧ k.state ≠ .waiting ∧
      (halting = true ∨ k.state = .withdrawn)
  | .found _ => False

/-- Calls that have ended stay as they are. -/
def EndedKept (calls later : List Call) : Prop :=
  ∀ ⦃c : Nat⦄ ⦃k : Call⦄, calls[c]? = some k → k.state ≠ .waiting → later[c]? = some k

theorem EndedKept.refl (calls : List Call) : EndedKept calls calls := fun _ _ hk _ => hk

theorem Probe.Shut.mono {halting halting' : Bool} {calls later : List Call} {probe : Probe}
    (h : probe.Shut halting calls) (hh : halting = true → halting' = true)
    (hk : EndedKept calls later) : probe.Shut halting' later := by
  cases probe with
  | idle => trivial
  | stopped => trivial
  | ready path => exact hh h
  | calling c =>
    obtain ⟨k, hc, hended, hor⟩ := h
    exact ⟨k, hk hc hended, hended, hor.imp_left hh⟩
  | found o => exact h

/-- Whether a request waits for no answer any more. -/
def Stage.isDone : Stage → Bool
  | .withdrawing _ _ | .ended _ => true
  | _ => false

theorem Stage.isDone_phase (a : Stage) : a.phase.isDone = a.isDone := by cases a <;> rfl

theorem Stage.phase_eq_ended {a : Stage} {v : Verdict} : a.phase = .ended v ↔ a = .ended v := by
  cases a <;> simp [Stage.phase]

theorem Stage.phase_eq_withdrawing {a : Stage} {late : Bool} :
    a.phase = .withdrawing late .waiting ↔ ∃ b, a = .withdrawing late b := by
  cases a <;> simp [Stage.phase]

/-- A verdict that passes an outcome on. -/
def Verdict.Gives (outcome : Except Failure Classification) : Verdict → Prop
  | .answered c _ => outcome = .ok c
  | .failed e => ∃ f, outcome = .error f ∧ e = .failure f
  | .cancelled => False

/-- The verdicts by which request `q` may end without an outcome. -/
def Request.EndsWithout {σ : Type} (s : Setting σ) (q : Request) : Verdict → Prop
  | .cancelled => True
  | .failed e => e = .homeUnknown ∧ Path.canonical s.home q.path = none
  | .answered c _ => c = .missing ∧ q.stage = .withdrawing true .given

namespace Desk

variable {σ : Type} {s : Setting σ} {d e : Desk σ} {r : Nat} {q q' : Request}
  {o : Except Failure Classification}

/-! ## Changes of one request -/

/-- What a change makes of request `r`, which is `q`. -/
inductive Became (s : Setting σ) (d : Desk σ) (r : Nat) (q : Request) : Request → Prop
  | same : Became s d r q q
  | paced {q' : Request} (h : Pace s d r q q') : Became s d r q q'
  | halted {probe : Probe} (h : Halt d r q probe) :
      Became s d r q { q with probe := probe, halting := false }
  | told {late : Bool} (hs : q.stage = .withdrawing late .waiting) :
      Became s d r q { q with stage := .withdrawing late .given }

theorem became_onRequest {r' : Nat} {f : Request → Request} (hq : d.requests[r]? = some q)
    (he : e.requests = d.requests) (h : r' = r → Became s d r q (f q)) :
    ∃ q', (e.onRequest r' f).requests[r]? = some q' ∧ Became s d r q q' := by
  refine ⟨_, getElem?_modify_eq_some_iff.mpr ⟨q, he ▸ hq, rfl⟩, ?_⟩
  split
  · rename_i hr
    exact h hr
  · exact .same

theorem became_tellProbeEnded (r' : Nat) (hq : d.requests[r]? = some q)
    (he : e.requests = d.requests) :
    ∃ q', (e.tellProbeEnded r').requests[r]? = some q' ∧ Became s d r q q' := by
  unfold tellProbeEnded
  split
  · rename_i hs
    refine became_onRequest hq he fun hr => .paced ?_
    rw [hr, he, hq] at hs
    exact .signalled _ (Option.some.inj hs)
  · rename_i late hs
    refine became_onRequest hq he fun hr => ?_
    rw [hr, he, hq] at hs
    exact .told (Option.some.inj hs)
  · exact ⟨q, he ▸ hq, .same⟩

theorem request_ask (i : Nat) (x : Dialog) (path : String) (hq : d.requests[r]? = some q) :
    (d.ask i x path).1.requests[r]? = some q := by
  unfold ask
  split
  · exact getElem?_concat_eq_some_iff.mpr (Or.inl hq)
  · exact hq

theorem Change.became (h : Change s d e) (hq : d.requests[r]? = some q) :
    ∃ q', e.requests[r]? = some q' ∧ Became s d r q q' := by
  cases h with
  | around _ hr => exact ⟨q, hr ▸ hq, .same⟩
  | seat path => exact ⟨q, hq, .same⟩
  | aside i _ => exact ⟨q, hq, .same⟩
  | edit i path =>
    unfold Desk.edit
    split
    · exact ⟨q, hq, .same⟩
    · exact ⟨q, request_ask i _ path hq, .same⟩
  | endTrust hx => exact ⟨q, request_ask _ _ _ hq, .same⟩
  | call _ _ => exact ⟨q, hq, .same⟩
  | endCall _ => exact ⟨q, hq, .same⟩
  | @pace r' f h =>
    refine became_onRequest hq rfl fun hr => .paced ?_
    subst hr
    exact h q hq
  | @endProbe r' q' probe hq' h =>
    refine became_onRequest hq rfl fun hr => ?_
    subst hr
    obtain rfl := Option.some.inj (hq.symm.trans hq')
    exact .halted h
  | @probeTold r' rest _ => exact became_tellProbeEnded r' hq rfl

theorem Change.endedKept (h : Change s d e) : EndedKept d.calls e.calls := by
  cases h with
  | around _ _ hc => rw [hc]; exact .refl _
  | seat path => exact .refl _
  | aside i _ => exact .refl _
  | edit i path =>
    unfold Desk.edit
    split
    · exact .refl _
    · exact fun c k hk _ => (calls_ask d i _ path).symm ▸ hk
  | endTrust hx => exact fun c k hk _ => (calls_ask d _ _ _).symm ▸ hk
  | call _ _ => exact fun c k hk _ => getElem?_concat_eq_some_iff.mpr (Or.inl hk)
  | @endCall c r' path state hc =>
    intro c' k hk hended
    refine getElem?_modify_eq_some_iff.mpr ⟨k, hk, ?_⟩
    have hne : c ≠ c' := by
      rintro rfl
      rw [Option.some.inj (hk.symm.trans hc)] at hended
      exact hended rfl
    rw [if_neg hne]
  | pace _ => exact .refl _
  | endProbe _ _ => exact .refl _
  | @probeTold r' rest _ =>
    rw [calls_tellProbeEnded]
    exact .refl _

/-- With its conclusion a request ends, and passes its outcome on. -/
theorem conclude_request {r' : Nat} {p : Request} (hp : d.requests[r']? = some p)
    (hq : d.requests[r]? = some q) :
    (conclude s d r' o).calls = d.calls ∧ ∃ v, v.Gives (taken s.limit o) ∧
      (conclude s d r' o).requests[r]? =
        some (if r' = r then { q with stage := .ended v, stopping := false } else q) := by
  have hend {f : Desk σ} (hf : f.requests = d.requests) (v : Verdict) :
      (f.endRequest r' v).requests[r]? =
        some (if r' = r then { q with stage := .ended v, stopping := false } else q) :=
    getElem?_modify_eq_some_iff.mpr ⟨q, hf ▸ hq, rfl⟩
  unfold conclude
  rw [hp]
  cases taken s.limit o with
  | error f => exact ⟨rfl, .failed (.failure f), ⟨f, rfl, rfl⟩, hend rfl _⟩
  | ok c => exact ⟨rfl, .answered c _, rfl, hend rfl _⟩

/-! ## What stays -/

/-- Request `r` waits for no answer any more, and its probe will find none. -/
def ShutOff (d : Desk σ) (r : Nat) : Prop :=
  ∃ q, d.requests[r]? = some q ∧ q.stage.isDone = true ∧ q.probe.Shut q.halting d.calls

/-- The probe of request `r` has found `o`. -/
def HasFound (d : Desk σ) (r : Nat) (o : Except Failure Classification) : Prop :=
  ∃ q, d.requests[r]? = some q ∧ q.stage ≠ .created ∧ q.probe = .found o

theorem Became.shut (h : Became s d r q q') {calls : List Call} (hk : EndedKept d.calls calls)
    (hs : q.stage.isDone = true) (hp : q.probe.Shut q.halting d.calls) :
    q'.stage.isDone = true ∧ q'.probe.Shut q'.halting calls := by
  cases h with
  | same => exact ⟨hs, hp.mono id hk⟩
  | told hs' => exact ⟨rfl, hp.mono id hk⟩
  | paced h =>
    cases h with
    | marked _ _ _ hh => exact ⟨hs, hp.mono hh hk⟩
    | stopped _ => exact ⟨rfl, hp.mono id hk⟩
    | ended _ _ => exact ⟨rfl, hp.mono id hk⟩
    | probed hready _ hh =>
      rw [hready] at hp
      exact absurd (hp.symm.trans hh) (by simp)
    | called hs' => simp [hs', Stage.isDone] at hs
    | raced hs' => simp [hs', Stage.isDone] at hs
    | expired hs' => simp [hs', Stage.isDone] at hs
    | signalled _ hs' => simp [hs', Stage.isDone] at hs
    | withdrew _ hs' => simp [hs', Stage.isDone] at hs
  | halted h =>
    cases h with
    | stopped _ => exact ⟨hs, trivial⟩
    | foundAtOnce hready _ hh =>
      rw [hready] at hp
      exact absurd (hp.symm.trans hh) (by simp)
    | found hcalling hc hh =>
      rw [hcalling] at hp
      obtain ⟨k, hk', -, hor⟩ := hp
      rw [hk'] at hc
      simp [hh, Option.some.inj hc] at hor

theorem Became.found (h : Became s d r q q') (hs : q.stage ≠ .created)
    (hp : q.probe = .found o) : q'.stage ≠ .created ∧ q'.probe = .found o := by
  cases h with
  | same => exact ⟨hs, hp⟩
  | told _ => exact ⟨by simp, hp⟩
  | paced h =>
    cases h with
    | marked _ _ _ _ => exact ⟨hs, hp⟩
    | probed hready _ _ => rw [hp] at hready; cases hready
    | called hs' => exact absurd hs' hs
    | raced hs' => exact absurd hs' hs
    | expired hs' => exact absurd hs' hs
    | signalled _ _ => exact ⟨by simp, hp⟩
    | withdrew _ _ => exact ⟨by simp, hp⟩
    | stopped _ => exact ⟨by simp, hp⟩
    | ended _ _ => exact ⟨by simp, hp⟩
  | halted h =>
    cases h with
    | stopped hr => simp [hp, Probe.isRunning] at hr
    | foundAtOnce hready _ _ => rw [hp] at hready; cases hready
    | found hcalling _ _ => rw [hp] at hcalling; cases hcalling

theorem ShutOff.move (h : ShutOff d r) (m : Move σ) : ShutOff (d.move s m) r := by
  refine invariant_move (P := fun d => ShutOff d r) (fun hc hd => ?_) (fun hp _ hd => ?_) h m
  · obtain ⟨q, hq, hs, hshut⟩ := hd
    obtain ⟨q', hq', hb⟩ := hc.became hq
    exact ⟨q', hq', hb.shut hc.endedKept hs hshut⟩
  · obtain ⟨q, hq, hs, hshut⟩ := hd
    obtain ⟨hcalls, v, -, hq'⟩ := conclude_request (s := s) hp hq
    refine ⟨_, hq', ?_⟩
    rw [hcalls]
    split
    · exact ⟨rfl, hshut⟩
    · exact ⟨hs, hshut⟩

theorem HasFound.move (h : HasFound d r o) (m : Move σ) : HasFound (d.move s m) r o := by
  refine invariant_move (P := fun d => HasFound d r o) (fun hc hd => ?_) (fun hp _ hd => ?_) h m
  · obtain ⟨q, hq, hs, hfound⟩ := hd
    obtain ⟨q', hq', hb⟩ := hc.became hq
    exact ⟨q', hq', hb.found hs hfound⟩
  · obtain ⟨q, hq, hs, hfound⟩ := hd
    obtain ⟨-, v, -, hq'⟩ := conclude_request (s := s) hp hq
    refine ⟨_, hq', ?_⟩
    split
    · exact ⟨by simp, hfound⟩
    · exact ⟨hs, hfound⟩

theorem ShutOff.after (h : ShutOff d r) (ms : List (Move σ)) : ShutOff (d.after s ms) r := by
  induction ms generalizing d with
  | nil => exact h
  | cons m ms ih => exact ih (h.move m)

theorem HasFound.after (h : HasFound d r o) (ms : List (Move σ)) :
    HasFound (d.after s ms) r o := by
  induction ms generalizing d with
  | nil => exact h
  | cons m ms ih => exact ih (h.move m)

/-- What a shut probe will find is nothing. -/
theorem ShutOff.not_found (h : ShutOff d r) : ¬ HasFound d r o := by
  rintro ⟨q', hq', -, hfound⟩
  obtain ⟨q, hq, -, hshut⟩ := h
  obtain rfl := Option.some.inj (hq.symm.trans hq')
  rw [hfound] at hshut
  exact hshut

/-! ## Turns -/

/-- With the halt of its probe a request shuts it off. -/
theorem shut_haltProbe (hq : d.requests[r]? = some q) (hfound : ∀ o, q.probe ≠ .found o)
    (hcall : ∀ c, q.probe = .calling c → ∃ k, d.calls[c]? = some k) :
    ∃ q', (d.haltProbe r).requests[r]? = some q' ∧ q'.stage = q.stage ∧
      q'.probe.Shut q'.halting (d.haltProbe r).calls := by
  unfold haltProbe
  rw [hq, Option.map_some]
  cases hp : q.probe with
  | idle => exact ⟨q, hq, rfl, by rw [hp]; trivial⟩
  | stopped => exact ⟨q, hq, rfl, by rw [hp]; trivial⟩
  | found o => exact absurd hp (hfound o)
  | ready path =>
    refine ⟨_, getElem?_onRequest hq _, rfl, ?_⟩
    dsimp only
    rw [hp]
    rfl
  | calling c =>
    obtain ⟨⟨owner, path, state⟩, hk⟩ := hcall c hp
    by_cases hwait : state = .waiting
    · subst hwait
      simp only [withdrawCall, hk]
      refine ⟨q, hq, rfl, ?_⟩
      rw [hp]
      have hcalls := (getElem?_modify_eq_some_iff (f := fun k : Call =>
        { k with state := .withdrawn }) (i := c)).mpr ⟨_, hk, rfl⟩
      rw [if_pos rfl] at hcalls
      exact ⟨_, hcalls, by simp, Or.inr rfl⟩
    · have hsame : d.withdrawCall c (.probe r) = (d, false) := by
        unfold withdrawCall
        rw [hk]
        cases state with
        | waiting => exact absurd rfl hwait
        | _ => rfl
      simp only [hsame]
      refine ⟨_, getElem?_onRequest hq _, rfl, ?_⟩
      dsimp only
      rw [hp]
      exact ⟨_, hk, hwait, Or.inl rfl⟩

/-- What becomes of request `q` with its turn: it races with its probe, or leaves it, or takes what
it has found, or ends without. -/
inductive TurnTaken (s : Setting σ) (q q' : Request) (calls : List Call) : Prop
  | raced (hs : q'.stage = .racing .waiting)
  | withdrew {late : Bool} {a : Signal} (hs : q'.stage = .withdrawing late a)
      (hp : q'.probe.Shut q'.halting calls)
  | took {o : Except Failure Classification} {v : Verdict} (hs : ∃ a, q.stage = .racing a)
      (hp : q.probe = .found o) (hs' : q'.stage = .ended v) (hv : v.Gives (taken s.limit o))
      (hp' : q'.probe = .found o)
  | ended {v : Verdict} (hs : q'.stage = .ended v) (hv : q.EndsWithout s v)
      (hp : q'.probe.Shut q'.halting calls)

theorem turned_beginRequest (hd : Reachable s d) (hq : d.requests[r]? = some q)
    (hs : q.stage = .created) (hl : s.limit.isSome = true) {f : Desk σ}
    (hf : f.requests = d.requests) :
    ∃ q', (beginRequest s f r q).requests[r]? = some q' ∧
      TurnTaken s q q' (beginRequest s f r q).calls := by
  have hidle : q.probe = .idle := by
    have hbacked := hd.backed.stages hq
    rwa [hs] at hbacked
  have hqf : f.requests[r]? = some q := hf ▸ hq
  have hthere {g : Outline → Outline}
      (h : (beginRequest s f r q).outlines = f.outlines.modify r g) :
      ∃ q', (beginRequest s f r q).requests[r]? = some q' ∧ q'.outline = g q.outline := by
    have ho := outline_of_modify hqf h
    rw [outlines_getElem?] at ho
    exact Option.map_eq_some_iff.mp ho
  cases firstRun_beginRequest (s := s) hqf with
  | @refused v hv h =>
    obtain ⟨q', hq', ho⟩ := hthere h.outlines
    have hstage : q'.stage = .ended v := Stage.phase_eq_ended.mp (congrArg Outline.phase ho)
    have hprobe : q'.probe = q.probe := congrArg Outline.probe ho
    refine ⟨q', hq', .ended hstage ?_ (by rw [hprobe, hidle]; trivial)⟩
    rcases hv with ⟨rfl, -⟩ | ⟨rfl, hnone⟩
    · trivial
    · exact ⟨rfl, hnone⟩
  | called hnone => rw [hnone] at hl; cases hl
  | raced _ _ _ ho hrace =>
    obtain ⟨q', hq', -⟩ := hthere ho
    rw [hq'] at hrace
    exact ⟨q', hq', .raced (Option.some.inj hrace)⟩
  | @expired path limit _ _ _ ho hh =>
    obtain ⟨q', hq', ho⟩ := hthere ho
    rw [hq'] at hh
    obtain ⟨a, hstage⟩ := Stage.phase_eq_withdrawing.mp (congrArg Outline.phase ho)
    have hprobe : q'.probe = .ready path := congrArg Outline.probe ho
    refine ⟨q', hq', .withdrew hstage ?_⟩
    rw [hprobe]
    exact Option.some.inj hh

/-- A request that leaves its probe shuts it off. -/
theorem turned_leave (hd : Reachable s d) (hq : d.requests[r]? = some q)
    (hfound : ∀ o, q.probe ≠ .found o) (late : Bool) {f : Desk σ} (hf : f.requests = d.requests)
    (hc : f.calls = d.calls) {e : Desk σ}
    (he : e = f.onRequest r fun p =>
      { p with stage := .withdrawing late .waiting, stopping := false }) :
    ∃ q', (e.haltProbe r).requests[r]? = some q' ∧ TurnTaken s q q' (e.haltProbe r).calls := by
  subst he
  have hqf : f.requests[r]? = some q := hf ▸ hq
  have hcall (c : Nat) (hp : q.probe = .calling c) : ∃ k, f.calls[c]? = some k := by
    have hprobe := hd.backed.probes hq
    rw [hp] at hprobe
    obtain ⟨target, state, hk⟩ := hprobe
    exact ⟨_, hc.symm ▸ hk⟩
  have hleft := getElem?_onRequest hqf fun p =>
    { p with stage := .withdrawing late .waiting, stopping := false }
  obtain ⟨q', hq', hs', hp'⟩ := shut_haltProbe hleft hfound hcall
  exact ⟨q', hq', .withdrew hs' hp'⟩

/-- A request whose time is over ends as missing, its probe being shut. -/
theorem turned_late (hq : d.requests[r]? = some q) (hs : q.stage = .withdrawing true .given)
    (hp : q.probe.Shut q.halting d.calls) :
    ∃ q', (conclude s d r (.ok .missing)).requests[r]? = some q' ∧
      TurnTaken s q q' (conclude s d r (.ok .missing)).calls := by
  obtain ⟨hcalls, v, hgives, hq'⟩ := conclude_request (s := s) (o := .ok .missing) hq hq
  rw [if_pos rfl] at hq'
  refine ⟨_, hq', .ended rfl ?_ (by rw [hcalls]; exact hp)⟩
  cases v with
  | answered c applied => exact ⟨(Except.ok.inj hgives).symm, hs⟩
  | failed e =>
    obtain ⟨f, hf, -⟩ := hgives
    cases hf
  | cancelled => trivial

/-- **With its turn a request without verdict races, or has shut its probe off, or takes what the
probe has found.** -/
theorem turned_runRequest (hd : Reachable s d) (hq : d.requests[r]? = some q)
    (hv : q.verdict? = none) (hl : s.limit.isSome = true)
    (hshut : q.stage.isDone = true → q.probe.Shut q.halting d.calls) {f : Desk σ}
    (hf : f.requests = d.requests) (hc : f.calls = d.calls) :
    ∃ q', (runRequest s f r).requests[r]? = some q' ∧
      TurnTaken s q q' (runRequest s f r).calls := by
  have hqf : f.requests[r]? = some q := hf ▸ hq
  have hcancel (hp : q.probe.Shut q.halting d.calls) :
      ∃ q', (f.endRequest r .cancelled).requests[r]? = some q' ∧
        TurnTaken s q q' (f.endRequest r .cancelled).calls :=
    ⟨_, getElem?_onRequest hqf _, .ended rfl trivial (hc.symm ▸ hp)⟩
  have hbacked := hd.backed.stages hq
  unfold runRequest
  rw [hqf]
  dsimp only
  split
  · rename_i hs
    exact turned_beginRequest hd hq hs hl hf
  · rename_i c hs
    rw [hs] at hbacked
    rw [hbacked.1] at hl
    cases hl
  · rename_i a hs
    split
    · rename_i o hp
      obtain ⟨-, v, hgives, hq'⟩ := conclude_request (s := s) (o := o) hqf hqf
      rw [if_pos rfl] at hq'
      exact ⟨_, hq', .took ⟨a, hs⟩ hp rfl hgives hp⟩
    · rename_i hp
      exact hcancel (by rw [hp]; trivial)
    · rename_i hfound _
      exact turned_leave hd hq hfound _ hf hc rfl
  · rename_i late a hs
    have hp := hshut (by rw [hs]; rfl)
    split
    · rename_i hlate
      simp only [Bool.and_eq_true, beq_iff_eq] at hlate
      obtain ⟨⟨rfl, -⟩, rfl⟩ := hlate
      split
      · rename_i o hfound
        rw [hfound] at hp
        exact hp.elim
      · exact turned_late hqf hs (hc.symm ▸ hp)
    · exact hcancel hp
  · rename_i v hs
    simp [Request.verdict?, hs] at hv

end Desk
end Admission
