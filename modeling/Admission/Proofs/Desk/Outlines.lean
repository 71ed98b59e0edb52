import Admission.Proofs.Desk.Deeds
import Admission.Proofs.Desk.Line

/-!
# The outline of a request

What a request is for, how far it has come, and what its probe does is changed by its own turns, by
those of its probe, and by the word of its end. What else is done to requests leaves the outlines
alone: it calls no classifier and sets no timer. What a turn does is said as far as the outline
goes, and with it whether the classifier is called. Which job comes next is not said.
-/
namespace Admission

/-- A stage, whatever has become of the signal that is waited for. -/
def Stage.phase : Stage → Stage
  | .racing _ => .racing .waiting
  | .withdrawing late _ => .withdrawing late .waiting
  | stage => stage

/-- What of a request others leave alone. -/
structure Outline where
  dialog : Nat
  path : String
  phase : Stage
  probe : Probe
  tracked : Bool

def Request.outline (q : Request) : Outline := ⟨q.dialog, q.path, q.stage.phase, q.probe, q.tracked⟩

def Stage.isNew : Stage → Bool
  | .created => true
  | _ => false

def Probe.isReady : Probe → Bool
  | .ready _ => true
  | _ => false

/-- Where a later run may bring a request that stands at `stage`: it ends, or it waits for its
probe to stop. -/
def Stage.LeadsTo : Stage → Stage → Prop
  | .created, _ => False
  | .ended v, phase => phase = .ended v
  | .racing _, phase => (∃ v, phase = .ended v) ∨ ∃ late, phase = .withdrawing late .waiting
  | _, phase => ∃ v, phase = .ended v

/-- What a request is for: its dialog, and the path. -/
def Outline.subject (o : Outline) : Nat × String := (o.dialog, o.path)

/-- The outline of a new request. -/
def Outline.fresh (subject : Nat × String) : Outline :=
  ⟨subject.1, subject.2, .created, .idle, true⟩

/-- The request that calls the classifier, and the path that it is called for. -/
def Entry.caller? : Entry → Option (Nat × String)
  | .classify r path => some (r, path)
  | _ => none

namespace Desk

variable {σ : Type} {s : Setting σ} {d e f : Desk σ} {i k r : Nat}
  {rs rs' : List (Nat × String)}

def outlines (d : Desk σ) : List Outline := d.requests.map Request.outline

/-- The calls of the classifier so far. -/
def callers (d : Desk σ) : List (Nat × String) := d.log.filterMap Entry.caller?

/-- Work by which requests are issued for `rs`, and by which no request goes on. -/
structure Issuing (rs : List (Nat × String)) (d e : Desk σ) : Prop where
  outlines : e.outlines = d.outlines ++ rs.map Outline.fresh
  callers : e.callers = d.callers
  timers : e.timers = d.timers

/-- Work by which no request is issued either. -/
abbrev Steady (d e : Desk σ) : Prop := Issuing [] d e

theorem Issuing.trans (h : Issuing rs d e) (h' : Issuing rs' e f) : Issuing (rs ++ rs') d f where
  outlines := by rw [h'.outlines, h.outlines, List.map_append, List.append_assoc]
  callers := h'.callers.trans h.callers
  timers := h'.timers.trans h.timers

theorem Steady.issuing (h : Steady d e) (h' : Issuing rs e f) : Issuing rs d f := h.trans h'

theorem Issuing.steady (h : Issuing rs d e) (h' : Steady e f) : Issuing rs d f := by
  have hboth := h.trans h'
  rwa [List.append_nil] at hboth

theorem Steady.trans (h : Steady d e) (h' : Steady e f) : Steady d f := h.issuing h'

/-- What concerns no request, is no call of the classifier and sets no timer. -/
theorem steady_of (hr : e.requests = d.requests) (hl : e.callers = d.callers)
    (ht : e.timers = d.timers) : Steady d e :=
  ⟨by rw [outlines, hr, List.map_nil, List.append_nil, outlines], hl, ht⟩

theorem Issuing.refl (d : Desk σ) : Issuing [] d d := steady_of rfl rfl rfl

theorem steady_note (d : Desk σ) {x : Entry} (h : x.caller? = none) : Steady d (d.note x) := by
  refine steady_of rfl ?_ rfl
  simp [callers, note, h]

theorem outlines_onRequest {f : Request → Request} {g : Outline → Outline}
    (h : ∀ q, d.requests[r]? = some q → (f q).outline = g q.outline) :
    (d.onRequest r f).outlines = d.outlines.modify r g := by
  refine List.ext_getElem? fun r' => ?_
  simp only [outlines, onRequest, List.getElem?_map, List.getElem?_modify]
  cases hq : d.requests[r']? with
  | none => rfl
  | some q =>
    by_cases hr : r = r'
    · subst hr
      simp [h q hq]
    · simp [hr]

theorem steady_onRequest {f : Request → Request}
    (h : ∀ q, d.requests[r]? = some q → (f q).outline = q.outline) :
    Steady d (d.onRequest r f) := by
  refine ⟨?_, rfl, rfl⟩
  rw [outlines_onRequest (g := id) h, List.modify_id, List.map_nil, List.append_nil]

theorem steady_foldl {α : Type} {g : Desk σ → α → Desk σ} (h : ∀ d a, Steady d (g d a))
    (l : List α) (d : Desk σ) : Steady d (l.foldl g d) := by
  induction l generalizing d with
  | nil => exact .refl d
  | cons a l ih => exact (h d a).trans (ih (g d a))

/-! ## Requests that are cancelled or told -/

theorem steady_withdrawCall (d : Desk σ) (c : Nat) (j : Job) : Steady d (d.withdrawCall c j).1 := by
  unfold withdrawCall
  split
  · exact steady_of rfl rfl rfl
  · exact .refl d

theorem steady_haltProbe (d : Desk σ) (r : Nat) : Steady d (d.haltProbe r) := by
  have hhalt (d : Desk σ) : Steady d (d.onRequest r fun q => { q with halting := true }) :=
    steady_onRequest fun _ _ => rfl
  unfold haltProbe
  split
  · exact hhalt d
  · rename_i c _
    have hw := steady_withdrawCall d c (.probe r)
    split
    · rename_i he
      rw [he] at hw
      exact hw
    · rename_i he
      rw [he] at hw
      exact hw.trans (hhalt _)
  · exact .refl d

/-- Only the signal of a stage changes. -/
theorem steady_signal {a : Stage} (f : Request → Request)
    (h : d.requests[r]?.map Request.stage = some a)
    (hf : ∀ q, q.stage = a → (f q).outline = q.outline) (j : Job) :
    Steady d ((d.onRequest r f).enqueue j) := by
  have hsteady : Steady d (d.onRequest r f) := by
    refine steady_onRequest fun q hq => hf q ?_
    rw [hq] at h
    exact Option.some.inj h
  exact hsteady.trans (steady_of rfl rfl rfl)

theorem steady_cancelRequest (d : Desk σ) (r : Nat) : Steady d (d.cancelRequest r).1 := by
  have hstop (d : Desk σ) : Steady d (d.onRequest r fun q => { q with stopping := true }) :=
    steady_onRequest fun _ _ => rfl
  unfold cancelRequest
  dsimp only
  split
  · exact .refl d
  · exact .refl d
  · rename_i c _
    have hw := steady_withdrawCall d c (.request r)
    split
    · rename_i he
      rw [he] at hw
      exact hw
    · rename_i he
      rw [he] at hw
      exact hw.trans (hstop _)
  · exact steady_signal _ ‹_› (fun q hs => by simp [Request.outline, Stage.phase, hs]) _
  · exact steady_signal _ ‹_› (fun q hs => by simp [Request.outline, Stage.phase, hs]) _
  · exact hstop d

theorem steady_closeDialog (d : Desk σ) (i : Nat) : Steady d (d.closeDialog i) := by
  have hclose : Steady d (d.onDialog i Dialog.close) := steady_of rfl rfl rfl
  refine hclose.trans (steady_foldl (fun d r => ?_) _ _)
  split
  · exact steady_cancelRequest d r
  · exact .refl d

theorem steady_closeCurrent (d : Desk σ) : Steady d d.closeCurrent := by
  unfold closeCurrent
  split
  · exact steady_closeDialog d _
  · exact .refl d

theorem steady_dismiss (d : Desk σ) : Steady d d.dismiss.1 :=
  (steady_closeCurrent d).trans (steady_of rfl rfl rfl)

theorem steady_tellProbeEnded (d : Desk σ) (r : Nat) : Steady d (d.tellProbeEnded r) := by
  unfold tellProbeEnded
  split
  · exact steady_signal _ ‹_› (fun q hs => by simp [Request.outline, Stage.phase, hs]) _
  · exact steady_signal _ ‹_› (fun q hs => by simp [Request.outline, Stage.phase, hs]) _
  · exact .refl d

theorem steady_tellLimit (d : Desk σ) (r : Nat) : Steady d (d.tellLimit r) := by
  unfold tellLimit
  split
  · exact steady_signal _ ‹_› (fun q hs => by simp [Request.outline, Stage.phase, hs]) _
  · exact .refl d

theorem steady_answer (d : Desk σ) (c : Nat) (o : Except Failure Classification) :
    Steady d (d.answer c o).1 := by
  unfold answer
  split
  · dsimp only
    split <;> exact steady_of rfl rfl rfl
  · exact .refl d

theorem steady_openGate (d : Desk σ) (service : Gated) (gate : Nat) :
    Steady d (d.openGate service gate) := by
  refine steady_foldl (fun d k => ?_) _ _
  split
  · exact steady_of rfl rfl rfl
  · exact .refl d

theorem steady_cancelErrand (d : Desk σ) (k : Nat) : Steady d (d.cancelErrand k).1 := by
  unfold cancelErrand
  dsimp only
  split <;> exact steady_of rfl rfl rfl

/-! ## The turns of a request -/

theorem modify_outlines {q : Request} {g : Outline → Outline} (hq : d.requests[r]? = some q)
    (h : g q.outline = q.outline) : d.outlines.modify r g = d.outlines := by
  refine List.ext_getElem? fun r' => ?_
  rw [List.getElem?_modify]
  by_cases hr : r = r'
  · subst hr
    simp [outlines, hq, h]
  · simp [hr]

theorem outlines_endRequest (d : Desk σ) (r : Nat) (v : Verdict) :
    (d.endRequest r v).outlines = d.outlines.modify r ({ · with phase := .ended v }) :=
  outlines_onRequest fun _ _ => rfl

/-- Work that brings request `r` into another phase: it calls nobody and sets no timer. -/
structure Advances (r : Nat) (phase : Stage) (d e : Desk σ) : Prop where
  outlines : e.outlines = d.outlines.modify r ({ · with phase := phase })
  callers : e.callers = d.callers
  timers : e.timers = d.timers

theorem advances_endRequest (d : Desk σ) (r : Nat) (v : Verdict) :
    Advances r (.ended v) d (d.endRequest r v) := ⟨outlines_endRequest d r v, rfl, rfl⟩

theorem advances_conclude {q : Request} (hq : d.requests[r]? = some q)
    (o : Except Failure Classification) :
    ∃ v, Advances r (.ended v) d (conclude s d r o) := by
  unfold conclude
  rw [hq]
  cases taken s.limit o with
  | error f => exact ⟨_, advances_endRequest d r _⟩
  | ok c =>
    refine ⟨_, outlines_endRequest (d.onDialog q.dialog _) r _, rfl, rfl⟩

/-- What the first run of request `r`, which is `q`, does: it is refused, or it calls the
classifier, or it makes a probe that is to. -/
inductive FirstRun (s : Setting σ) (d : Desk σ) (r : Nat) (q : Request) (e : Desk σ) : Prop
  | refused {v : Verdict}
      (hv : v = .cancelled ∧ q.stopping = true ∨
        v = .failed .homeUnknown ∧ Path.canonical s.home q.path = none)
      (h : Advances r (.ended v) d e)
  | called {path : String} {phase : Stage} (hl : s.limit = none)
      (hp : Path.canonical s.home q.path = some path) (hn : phase.isNew = false)
      (ho : e.outlines = d.outlines.modify r ({ · with phase := phase }))
      (hc : e.callers = d.callers ++ [(r, path)]) (ht : e.timers = d.timers)
  | raced {path : String} {limit : Float} (hl : s.limit = some limit) (hpos : ¬ limit ≤ 0.0)
      (hp : Path.canonical s.home q.path = some path)
      (ho : e.outlines = d.outlines.modify r
        ({ · with phase := .racing .waiting, probe := .ready path }))
      (hs : e.requests[r]?.map Request.stage = some (.racing .waiting))
      (hc : e.callers = d.callers) (ht : e.timers = d.timers.push ⟨d.clock + limit, r⟩)
  | expired {path : String} {limit : Float} (hl : s.limit = some limit) (hpos : limit ≤ 0.0)
      (hp : Path.canonical s.home q.path = some path)
      (ho : e.outlines = d.outlines.modify r
        ({ · with phase := .withdrawing true .waiting, probe := .ready path }))
      (hh : e.requests[r]?.map Request.halting = some true)
      (hc : e.callers = d.callers) (ht : e.timers = d.timers)

theorem firstRun_beginRequest {q : Request} (hq : d.requests[r]? = some q) :
    FirstRun s d r q (beginRequest s d r q) := by
  unfold beginRequest
  split
  · exact .refused (.inl ⟨rfl, ‹_›⟩) (advances_endRequest d r _)
  · split
    · exact .refused (.inr ⟨rfl, ‹_›⟩) (advances_endRequest d r _)
    · rename_i path hp hl
      have hcalled : (call s d r path).1.outlines = d.outlines ∧
          (call s d r path).1.callers = d.callers ++ [(r, path)] ∧
          (call s d r path).1.timers = d.timers := by
        refine ⟨rfl, ?_, rfl⟩
        simp [callers, call, note, Entry.caller?]
      rcases he : call s d r path with ⟨e, c, o⟩
      have hr : e.requests = d.requests := (call_spec he).1
      rw [he] at hcalled
      obtain ⟨houtlines, hcallers, htimers⟩ := hcalled
      cases o with
      | some o =>
        obtain ⟨v, h⟩ := advances_conclude (s := s) (hr ▸ hq) o
        refine @FirstRun.called _ _ _ _ _ _ path (.ended v) hl hp rfl ?_ ?_ ?_
        · rw [← houtlines]
          exact h.outlines
        · exact h.callers.trans hcallers
        · exact h.timers.trans htimers
      | none =>
        refine @FirstRun.called _ _ _ _ _ _ path (.calling c) hl hp rfl ?_ hcallers htimers
        rw [← houtlines]
        exact outlines_onRequest fun _ _ => rfl
    · rename_i path limit hp hl
      dsimp only
      split
      · rename_i hpos
        refine .expired hl hpos hp (outlines_onRequest fun _ _ => rfl) ?_ rfl rfl
        simp [enqueue, onRequest, hq]
      · rename_i hpos
        refine .raced hl hpos hp ?_ ?_ rfl rfl
        · exact outlines_onRequest (d := { d with timers := _ }) fun _ _ => rfl
        · simp [enqueue, onRequest, hq]

theorem advances_runRequest {q : Request} (hq : d.requests[r]? = some q)
    (hs : q.stage ≠ .created) :
    ∃ phase, q.stage.LeadsTo phase ∧ Advances r phase d (runRequest s d r) := by
  have hconclude (o : Except Failure Classification) := advances_conclude (s := s) hq o
  unfold runRequest
  rw [hq]
  dsimp only
  split
  · rename_i hs'
    exact absurd hs' hs
  · rename_i c hs
    rw [hs]
    split
    · obtain ⟨v, h⟩ := hconclude _
      exact ⟨_, ⟨v, rfl⟩, h⟩
    · exact ⟨_, ⟨_, rfl⟩, advances_endRequest d r _⟩
  · rename_i a hs
    rw [hs]
    split
    · obtain ⟨v, h⟩ := hconclude _
      exact ⟨_, .inl ⟨v, rfl⟩, h⟩
    · exact ⟨_, .inl ⟨_, rfl⟩, advances_endRequest d r _⟩
    · refine ⟨.withdrawing (!q.stopping && a == .given) .waiting, .inr ⟨_, rfl⟩, ?_⟩
      have hhalt := steady_haltProbe (d.onRequest r fun p => { p with
        stage := .withdrawing (!q.stopping && a == .given) .waiting, stopping := false }) r
      refine ⟨?_, hhalt.callers, hhalt.timers⟩
      rw [hhalt.outlines, List.map_nil, List.append_nil]
      exact outlines_onRequest fun _ _ => rfl
  · rename_i late a hs
    rw [hs]
    split
    · split
      · obtain ⟨v, h⟩ := hconclude _
        exact ⟨_, ⟨v, rfl⟩, h⟩
      · obtain ⟨v, h⟩ := hconclude _
        exact ⟨_, ⟨v, rfl⟩, h⟩
    · exact ⟨_, ⟨_, rfl⟩, advances_endRequest d r _⟩
  · rename_i v hs
    rw [hs]
    refine ⟨_, rfl, ?_, rfl, rfl⟩
    refine (modify_outlines hq ?_).symm
    simp [Request.outline, hs, Stage.phase]

/-- What a run of the probe of request `r`, which is `q`, does: it calls the classifier, or it calls
nobody. -/
inductive ProbeRun (d : Desk σ) (r : Nat) (q : Request) (e : Desk σ) : Prop
  | called {path : String} {probe : Probe} (hp : q.probe = .ready path) (hh : q.halting = false)
      (hn : probe.isReady = false)
      (ho : e.outlines = d.outlines.modify r ({ · with probe := probe }))
      (hc : e.callers = d.callers ++ [(r, path)]) (ht : e.timers = d.timers)
  | silent {probe : Probe} (hp : q.probe.isReady = true → q.halting = true)
      (hn : probe.isReady = false)
      (ho : e.outlines = d.outlines.modify r ({ · with probe := probe }))
      (hc : e.callers = d.callers) (ht : e.timers = d.timers)

theorem probeRun_runProbe {q : Request} (hq : d.requests[r]? = some q) :
    ProbeRun d r q (runProbe s d r) := by
  have hend (d : Desk σ) (probe : Probe) : (d.endProbe r probe).outlines =
      d.outlines.modify r ({ · with probe := probe }) :=
    outlines_onRequest fun _ _ => rfl
  unfold runProbe
  rw [hq]
  dsimp only
  split
  · rename_i path hp
    split
    · rename_i hh
      exact .silent (fun _ => hh) rfl (hend d _) rfl rfl
    · rename_i hh
      have hcallers : (call s d r path).1.callers = d.callers ++ [(r, path)] := by
        simp [callers, call, note, Entry.caller?]
      have houtlines : (call s d r path).1.outlines = d.outlines := rfl
      have htimers : (call s d r path).1.timers = d.timers := rfl
      rcases he : call s d r path with ⟨e, c, o⟩
      rw [he] at hcallers houtlines htimers
      cases o with
      | some o =>
        exact .called hp (by simpa using hh) rfl (houtlines ▸ hend e (.found o)) hcallers htimers
      | none =>
        refine @ProbeRun.called _ _ _ _ _ path (.calling c) hp (by simpa using hh) rfl ?_ hcallers
          htimers
        rw [← houtlines]
        exact outlines_onRequest fun _ _ => rfl
  · rename_i c hp
    have hidle : q.probe.isReady = true → q.halting = true := by
      rw [hp]
      simp [Probe.isReady]
    split
    · exact .silent hidle rfl (hend d _) rfl rfl
    · exact .silent hidle rfl (hend d _) rfl rfl
  · rename_i hready _
    have hidle : q.probe.isReady = false := by
      cases hp : q.probe with
      | ready path => exact absurd hp (hready path)
      | _ => rfl
    refine @ProbeRun.silent _ _ _ _ _ q.probe (by simp [hidle]) hidle ?_ rfl rfl
    exact (modify_outlines hq rfl).symm

/-- Work on request `r` alone, which stays what it is for and counts as before. -/
def WorksOn (r : Nat) (d e : Desk σ) : Prop :=
  ∃ g : Outline → Outline, e.outlines = d.outlines.modify r g ∧
    ∀ o, (g o).subject = o.subject ∧ (g o).tracked = o.tracked

theorem worksOn_runRequest (d : Desk σ) (r : Nat) : WorksOn r d (runRequest s d r) := by
  cases hq : d.requests[r]? with
  | none =>
    simp only [runRequest, hq]
    exact ⟨id, (List.modify_id ..).symm, fun _ => ⟨rfl, rfl⟩⟩
  | some q =>
    by_cases hs : q.stage = .created
    · have hbegin : runRequest s d r = beginRequest s d r q := by simp only [runRequest, hq, hs]
      rw [hbegin]
      cases firstRun_beginRequest (s := s) hq with
      | refused _ h => exact ⟨_, h.outlines, fun _ => ⟨rfl, rfl⟩⟩
      | called _ _ _ ho => exact ⟨_, ho, fun _ => ⟨rfl, rfl⟩⟩
      | raced _ _ _ ho => exact ⟨_, ho, fun _ => ⟨rfl, rfl⟩⟩
      | expired _ _ _ ho => exact ⟨_, ho, fun _ => ⟨rfl, rfl⟩⟩
    · obtain ⟨phase, -, h⟩ := advances_runRequest (s := s) hq hs
      exact ⟨_, h.outlines, fun _ => ⟨rfl, rfl⟩⟩

theorem worksOn_runProbe (d : Desk σ) (r : Nat) : WorksOn r d (runProbe s d r) := by
  cases hq : d.requests[r]? with
  | none =>
    simp only [runProbe, hq]
    exact ⟨id, (List.modify_id ..).symm, fun _ => ⟨rfl, rfl⟩⟩
  | some q =>
    cases probeRun_runProbe (s := s) hq with
    | called _ _ _ ho => exact ⟨_, ho, fun _ => ⟨rfl, rfl⟩⟩
    | silent _ _ ho => exact ⟨_, ho, fun _ => ⟨rfl, rfl⟩⟩

/-- The word of its end is of account for the request alone, and for who watches it. -/
theorem outlines_tellRequestEnded (d : Desk σ) (r : Nat) :
    (d.tellRequestEnded r).outlines = d.outlines.modify r ({ · with tracked := false }) ∧
      (d.tellRequestEnded r).callers = d.callers ∧ (d.tellRequestEnded r).timers = d.timers := by
  have hwake : Steady (d.onRequest r fun q => { q with tracked := false })
      (d.tellRequestEnded r) := by
    refine steady_foldl (fun d k => ?_) _ _
    split
    · split
      · exact steady_of rfl rfl rfl
      · exact .refl d
    · exact .refl d
  refine ⟨?_, hwake.callers, hwake.timers⟩
  rw [hwake.outlines, List.map_nil, List.append_nil]
  exact outlines_onRequest fun _ _ => rfl

end Desk
end Admission
