import Admission.Proofs.Desk.Moves

/-!
# Where answers come from

A request that ended with an answer has it from a call of the classifier for its canonical path, or
from its time limit. The invariant ties the stage and the probe of each request to the calls; the
line of jobs comes in where a job says that a probe has ended. When a limit is over is not said.
-/
namespace Admission

variable {σ : Type} {s : Setting σ}

/-- Whether a probe ended without an answer: it was stopped, or what it called ran out of time. -/
def Probe.TimedOut : Probe → Prop
  | .stopped => True
  | .found (.error f) => f.kind = .timeout
  | _ => False

/-- How request `r` for `path` came by an answer: the classifier gave it to a call for the
canonical path, or there is a limit and the request's probe timed out. -/
inductive Came (s : Setting σ) (calls : List Call) (r : Nat) (path : String)
    (probe : Probe) : Classification → Prop
  | told {k : Nat} {target : String} {c : Classification}
      (hp : Path.canonical s.home path = some target)
      (hc : calls[k]? = some ⟨r, target, .answered (.ok c)⟩) : Came s calls r path probe c
  | late (hl : s.limit.isSome) (ht : probe.TimedOut) : Came s calls r path probe .missing

/-- What the stage of request `r` says of its limit, its probe and its call. -/
def Stage.Backed (s : Setting σ) (calls : List Call) (r : Nat) (path : String)
    (probe : Probe) : Stage → Prop
  | .created => probe = .idle
  | .calling c =>
    s.limit = none ∧ ∃ (target : String) (state : CallState), calls[c]? = some ⟨r, target, state⟩
  | .racing _ => s.limit.isSome
  | .withdrawing _ a => s.limit.isSome ∧ (a = .given → probe.isEnded)
  | .ended (.answered c _) => Came s calls r path probe c
  | .ended _ => True

/-- What the probe of request `r` says of its call. -/
def Probe.Backed (s : Setting σ) (calls : List Call) (r : Nat) (path : String) :
    Probe → Prop
  | .ready target => Path.canonical s.home path = some target
  | .calling c => ∃ (target : String) (state : CallState), calls[c]? = some ⟨r, target, state⟩
  | .found o => ∃ (c : Nat) (target : String), calls[c]? = some ⟨r, target, .answered o⟩
  | .idle | .stopped => True

/-- Later calls keep what earlier ones are for, and the answers they have. -/
def CallsKept (calls later : List Call) : Prop :=
  ∀ {c r : Nat} {path : String} {state : CallState}, calls[c]? = some ⟨r, path, state⟩ →
    ∃ state', later[c]? = some ⟨r, path, state'⟩ ∧ ∀ o, state = .answered o → state' = .answered o

theorem CallsKept.answered {calls later : List Call} (h : CallsKept calls later) {c r : Nat}
    {path : String} {o : Except Failure Classification}
    (hc : calls[c]? = some ⟨r, path, .answered o⟩) : later[c]? = some ⟨r, path, .answered o⟩ := by
  obtain ⟨state, hl, ho⟩ := h hc
  rw [hl, ho o rfl]

theorem Came.mono {calls later : List Call} (h : CallsKept calls later) {r : Nat} {path : String}
    {probe : Probe} {c : Classification} (hc : Came s calls r path probe c) :
    Came s later r path probe c := by
  cases hc with
  | told hp hk => exact .told hp (h.answered hk)
  | late hl ht => exact .late hl ht

/-- A limit makes no path valid: that answer is the classifier's. -/
theorem Came.told_of_valid {calls : List Call} {r : Nat} {path target : String} {probe : Probe}
    (h : Came s calls r path probe .valid) (hp : Path.canonical s.home path = some target) :
    ∃ k : Nat, calls[k]? = some ⟨r, target, .answered (.ok .valid)⟩ := by
  cases h with
  | told hp' hk =>
    obtain rfl := Option.some.inj (hp'.symm.trans hp)
    exact ⟨_, hk⟩

theorem Stage.Backed.mono {calls later : List Call} (h : CallsKept calls later) {r : Nat}
    {path : String} {probe : Probe} {stage : Stage} (hs : stage.Backed s calls r path probe) :
    stage.Backed s later r path probe := by
  cases stage with
  | calling c =>
    obtain ⟨hl, target, state, hc⟩ := hs
    obtain ⟨state', hc', -⟩ := h hc
    exact ⟨hl, target, state', hc'⟩
  | ended v =>
    cases v with
    | answered c applied => exact Came.mono h hs
    | _ => exact hs
  | _ => exact hs

theorem Probe.Backed.mono {calls later : List Call} (h : CallsKept calls later) {r : Nat}
    {path : String} {probe : Probe} (hp : probe.Backed s calls r path) :
    probe.Backed s later r path := by
  cases probe with
  | calling c =>
    obtain ⟨target, state, hc⟩ := hp
    obtain ⟨state', hc', -⟩ := h hc
    exact ⟨target, state', hc'⟩
  | found o =>
    obtain ⟨c, target, hc⟩ := hp
    exact ⟨c, target, h.answered hc⟩
  | ready target => exact hp
  | idle => trivial
  | stopped => trivial

/-- A stage that has a running probe says nothing that its probe's end would undo. -/
theorem Stage.Backed.of_isRunning {calls : List Call} {r : Nat} {path : String}
    {probe probe' : Probe} {stage : Stage} (hp : probe.isRunning = true)
    (hs : stage.Backed s calls r path probe) : stage.Backed s calls r path probe' := by
  cases stage with
  | created =>
    subst hs
    cases hp
  | withdrawing late a =>
    refine ⟨hs.1, fun ha => ?_⟩
    have := hs.2 ha
    cases probe <;> simp [Probe.isRunning, Probe.isEnded] at hp this
  | ended v =>
    cases v with
    | answered c applied =>
      cases hs with
      | told hc hk => exact .told hc hk
      | late hl ht => cases probe <;> simp [Probe.isRunning, Probe.TimedOut] at hp ht
    | _ => trivial
  | _ => exact hs

namespace Desk

variable {d e : Desk σ}

/-- Requests, probes, calls and the line of jobs agree. -/
structure Backed (s : Setting σ) (d : Desk σ) : Prop where
  calls : ∀ {c : Nat} {k : Call}, d.calls[c]? = some k →
    ∃ q, d.requests[k.request]? = some q ∧ Path.canonical s.home q.path = some k.path
  stages : ∀ {r : Nat} {q : Request}, d.requests[r]? = some q →
    q.stage.Backed s d.calls r q.path q.probe
  probes : ∀ {r : Nat} {q : Request}, d.requests[r]? = some q →
    q.probe.Backed s d.calls r q.path
  told : ∀ {r : Nat}, .probeEnded r ∈ d.agenda.jobs →
    ∃ q, d.requests[r]? = some q ∧ q.probe.isEnded

/-- What a change of a request has to keep. -/
structure Kept (s : Setting σ) (calls : List Call) (r : Nat) (q q' : Request) : Prop where
  path : q'.path = q.path
  stage : q'.stage.Backed s calls r q'.path q'.probe
  probe : q'.probe.Backed s calls r q'.path
  ended : q.probe.isEnded = true → q'.probe.isEnded = true

theorem Pace.kept {r : Nat} {q q' : Request} (h : Pace s d r q q')
    (hs : q.stage.Backed s d.calls r q.path q.probe) (hp : q.probe.Backed s d.calls r q.path) :
    Kept s d.calls r q q' := by
  cases h with
  | marked => exact ⟨rfl, hs, hp, id⟩
  | called _ hl _ hc => exact ⟨rfl, ⟨hl, _, _, hc⟩, hp, id⟩
  | raced hc hl htarget =>
    rw [hc] at hs
    exact ⟨rfl, hl, htarget, fun he => by rw [hs] at he; cases he⟩
  | expired hc hl htarget =>
    rw [hc] at hs
    exact ⟨rfl, ⟨hl, nofun⟩, htarget, fun he => by rw [hs] at he; cases he⟩
  | signalled b hr =>
    rw [hr] at hs
    exact ⟨rfl, hs, hp, id⟩
  | withdrew late hr =>
    rw [hr] at hs
    exact ⟨rfl, ⟨hs, nofun⟩, hp, id⟩
  | stopped hw =>
    rw [hw] at hs
    exact ⟨rfl, ⟨hs.1, nofun⟩, hp, id⟩
  | probed hr hc =>
    rw [hr] at hs
    exact ⟨rfl, hs.of_isRunning rfl, ⟨_, _, hc⟩, fun he => by rw [hr] at he; cases he⟩
  | @ended v hv _ =>
    refine ⟨rfl, ?_, hp, id⟩
    cases v with
    | answered c applied => cases hv
    | _ => trivial

theorem Halt.kept {r : Nat} {q : Request} {probe : Probe} (h : Halt d r q probe)
    (hs : q.stage.Backed s d.calls r q.path q.probe) (hp : q.probe.Backed s d.calls r q.path) :
    Kept s d.calls r q { q with probe := probe, halting := false } ∧ probe.isEnded = true := by
  cases h with
  | stopped hr => exact ⟨⟨rfl, hs.of_isRunning hr, trivial, fun _ => rfl⟩, rfl⟩
  | foundAtOnce hr hc =>
    rw [hr] at hs
    exact ⟨⟨rfl, hs.of_isRunning rfl, ⟨_, _, hc⟩, fun _ => rfl⟩, rfl⟩
  | @found c o hr hc =>
    rw [hr] at hs hp
    obtain ⟨target, state, hk⟩ := hp
    rw [hk] at hc
    obtain rfl : state = .answered o := Option.some.inj hc
    exact ⟨⟨rfl, hs.of_isRunning rfl, ⟨c, target, hk⟩, fun _ => rfl⟩, rfl⟩

/-! ## The invariant -/

/-- Only requests, calls and the ends of probes that jobs tell of count. -/
theorem Backed.congr (h : Backed s d) (hr : e.requests = d.requests) (hc : e.calls = d.calls)
    (ha : ∀ r, .probeEnded r ∈ e.agenda.jobs → .probeEnded r ∈ d.agenda.jobs) :
    Backed s e where
  calls hk := by rw [hc] at hk; rw [hr]; exact h.calls hk
  stages hq := by rw [hr] at hq; rw [hc]; exact h.stages hq
  probes hq := by rw [hr] at hq; rw [hc]; exact h.probes hq
  told hj := by rw [hr]; exact h.told (ha _ hj)

theorem Backed.enqueue (h : Backed s d) {j : Job} (hj : ∀ r, j ≠ .probeEnded r) :
    Backed s (d.enqueue j) := by
  refine h.congr rfl rfl fun r hr => ?_
  rcases mem_jobs_enqueue.mp hr with h | h
  · exact h
  · exact absurd h.symm (hj r)

theorem Backed.onRequest (h : Backed s d) {r : Nat} {f : Request → Request}
    (hf : ∀ q, d.requests[r]? = some q → Kept s d.calls r q (f q)) :
    Backed s (d.onRequest r f) := by
  have hlook {r' : Nat} {q : Request} (hq : d.requests[r']? = some q) :
      ∃ q', (d.onRequest r f).requests[r']? = some q' ∧ q'.path = q.path ∧
        (q.probe.isEnded = true → q'.probe.isEnded = true) := by
    refine ⟨_, getElem?_modify_eq_some_iff.mpr ⟨q, hq, rfl⟩, ?_⟩
    split
    · rename_i he
      subst he
      exact ⟨(hf q hq).path, (hf q hq).ended⟩
    · exact ⟨rfl, id⟩
  constructor
  · intro c k hk
    obtain ⟨q, hq, hp⟩ := h.calls hk
    obtain ⟨q', hq', hpath, -⟩ := hlook hq
    exact ⟨q', hq', hpath ▸ hp⟩
  · intro r' q' hq'
    obtain ⟨q, hq, rfl⟩ := getElem?_modify_eq_some_iff.mp hq'
    split
    · rename_i he
      subst he
      exact (hf q hq).stage
    · exact h.stages hq
  · intro r' q' hq'
    obtain ⟨q, hq, rfl⟩ := getElem?_modify_eq_some_iff.mp hq'
    split
    · rename_i he
      subst he
      exact (hf q hq).probe
    · exact h.probes hq
  · intro r' hj
    obtain ⟨q, hq, he⟩ := h.told hj
    obtain ⟨q', hq', -, hended⟩ := hlook hq
    exact ⟨q', hq', hended he⟩

/-- Calls may be added and may end, for requests that are there. -/
theorem Backed.onCalls (h : Backed s d) (hr : e.requests = d.requests)
    (hc : CallsKept d.calls e.calls) (ha : e.agenda = d.agenda)
    (hk : ∀ {c : Nat} {k : Call}, e.calls[c]? = some k →
      ∃ q, d.requests[k.request]? = some q ∧ Path.canonical s.home q.path = some k.path) :
    Backed s e where
  calls hc' := by rw [hr]; exact hk hc'
  stages hq := by rw [hr] at hq; exact (h.stages hq).mono hc
  probes hq := by rw [hr] at hq; exact (h.probes hq).mono hc
  told hj := by rw [ha] at hj; rw [hr]; exact h.told hj

theorem Backed.call (h : Backed s d) {r : Nat} {q : Request} {path : String}
    (hq : d.requests[r]? = some q)
    (hp : Path.canonical s.home q.path = some path ∨ q.probe = .ready path) :
    Backed s (call s d r path).1 := by
  have hp : Path.canonical s.home q.path = some path := by
    rcases hp with hp | hp
    · exact hp
    · have := h.probes hq
      rwa [hp] at this
  refine h.onCalls rfl ?_ rfl ?_
  · intro c r' path' state hc
    exact ⟨state, getElem?_concat_eq_some_iff.mpr (Or.inl hc), fun _ => id⟩
  · intro c k hk
    rcases getElem?_concat_eq_some_iff.mp hk with hk | ⟨-, rfl⟩
    · exact h.calls hk
    · exact ⟨q, hq, hp⟩

theorem Backed.endCall (h : Backed s d) {c r : Nat} {path : String} {state : CallState}
    (hc : d.calls[c]? = some ⟨r, path, .waiting⟩) :
    Backed s (d.onCall c fun call => { call with state := state }) := by
  refine h.onCalls rfl ?_ rfl ?_
  · intro c' r' path' state' hc'
    by_cases he : c = c'
    · subst he
      obtain ⟨rfl, rfl, rfl⟩ : r = r' ∧ path = path' ∧ CallState.waiting = state' := by
        simpa using hc.symm.trans hc'
      exact ⟨state, getElem?_modify_eq_some_iff.mpr ⟨_, hc', by simp⟩, nofun⟩
    · exact ⟨state', getElem?_modify_eq_some_iff.mpr ⟨_, hc', by simp [he]⟩, fun _ => id⟩
  · intro c' k hk
    obtain ⟨k', hk', rfl⟩ := getElem?_modify_eq_some_iff.mp hk
    obtain ⟨q, hq, hp⟩ := h.calls hk'
    split
    · exact ⟨q, hq, hp⟩
    · exact ⟨q, hq, hp⟩

/-- A new request has neither a call nor a probe. -/
theorem Backed.ask (h : Backed s d) (i : Nat) (x : Dialog) (path : String) :
    Backed s (d.ask i x path).1 := by
  unfold Desk.ask
  split
  · refine Backed.enqueue ?_ (by simp)
    have hold {r : Nat} {q q' : Request} (hq : d.requests[r]? = some q) :
        (d.requests ++ [q'])[r]? = some q := getElem?_concat_eq_some_iff.mpr (Or.inl hq)
    constructor
    · intro c k hk
      obtain ⟨q, hq, hp⟩ := h.calls hk
      exact ⟨q, hold hq, hp⟩
    · intro r q hq
      rcases getElem?_concat_eq_some_iff.mp hq with hq | ⟨-, rfl⟩
      · exact h.stages hq
      · rfl
    · intro r q hq
      rcases getElem?_concat_eq_some_iff.mp hq with hq | ⟨-, rfl⟩
      · exact h.probes hq
      · trivial
    · intro r hj
      obtain ⟨q, hq, he⟩ := h.told hj
      exact ⟨q, hold hq, he⟩
  · exact h

theorem Backed.endProbe (h : Backed s d) {r : Nat} {q : Request} {probe : Probe}
    (hq : d.requests[r]? = some q) (hp : Halt d r q probe) : Backed s (d.endProbe r probe) := by
  have hkept := hp.kept (s := s) (h.stages hq) (h.probes hq)
  have hb : Backed s (d.onRequest r fun q => { q with probe := probe, halting := false }) := by
    refine h.onRequest fun q' hq' => ?_
    obtain rfl := Option.some.inj (hq.symm.trans hq')
    exact hkept.1
  refine ⟨hb.calls, hb.stages, hb.probes, fun {r'} hj => ?_⟩
  rcases mem_jobs_enqueue.mp hj with hj | hj
  · exact hb.told hj
  · obtain rfl : r' = r := by simpa using hj
    exact ⟨_, getElem?_modify_eq_some_iff.mpr ⟨q, hq, rfl⟩, by simpa using hkept.2⟩

/-- The end of a probe, which the job tells of, is what a request may count on from here. -/
theorem Backed.probeTold (h : Backed s d) {r : Nat} {rest : List Job}
    (hj : d.agenda.now = .probeEnded r :: rest) :
    Backed s (({ d with agenda := { d.agenda with now := rest } } : Desk σ).tellProbeEnded r) := by
  obtain ⟨q, hq, hended⟩ := h.told (r := r) (by simp [Agenda.jobs, hj])
  have hb : Backed s { d with agenda := { d.agenda with now := rest } } := by
    refine h.congr rfl rfl fun r' hr' => ?_
    rcases List.mem_append.mp hr' with hr' | hr'
    · exact List.mem_append_left _ (hj ▸ List.mem_cons_of_mem _ hr')
    · exact List.mem_append_right _ hr'
  have hstage := h.stages hq
  have hprobe := h.probes hq
  unfold tellProbeEnded
  split
  · rename_i hs
    refine (hb.onRequest fun q' hq' => ?_).enqueue (by simp)
    obtain rfl := Option.some.inj (hq.symm.trans hq')
    rw [hq] at hs
    rw [Option.some.inj hs] at hstage
    exact ⟨rfl, hstage, hprobe, id⟩
  · rename_i late hs
    refine (hb.onRequest fun q' hq' => ?_).enqueue (by simp)
    obtain rfl := Option.some.inj (hq.symm.trans hq')
    rw [hq] at hs
    rw [Option.some.inj hs] at hstage
    exact ⟨rfl, ⟨hstage.1, fun _ => hended⟩, hprobe, id⟩
  · exact hb

/-- A call that a request has made was for the canonical path of that request. -/
theorem Backed.canonical (h : Backed s d) {r : Nat} {q : Request} (hq : d.requests[r]? = some q)
    {c : Nat} {target : String} {state : CallState} (hc : d.calls[c]? = some ⟨r, target, state⟩) :
    Path.canonical s.home q.path = some target := by
  obtain ⟨q', hq', hp⟩ := h.calls hc
  obtain rfl := Option.some.inj (hq.symm.trans hq')
  exact hp

/-- What a request is concluded with came from its call or from its limit. -/
theorem Due.came {r : Nat} {q : Request} {o : Except Failure Classification} {c : Classification}
    (h : Backed s d) (hq : d.requests[r]? = some q) (ho : Due s d r q o)
    (ht : taken s.limit o = .ok c) : Came s d.calls r q.path q.probe c := by
  have hstage := h.stages hq
  cases ho with
  | atOnce _ hl hp hc =>
    rw [hl] at ht
    cases o with
    | ok c' => cases ht; exact .told hp hc
    | error f => simp [taken] at ht
  | called hs hc =>
    rw [hs] at hstage
    obtain ⟨hl, target, state, hk⟩ := hstage
    rw [hk] at hc
    obtain rfl : state = .answered o := Option.some.inj hc
    rw [hl] at ht
    cases o with
    | ok c' => cases ht; exact .told (h.canonical hq hk) hk
    | error f => simp [taken] at ht
  | found hs hp =>
    have hprobe := h.probes hq
    rw [hp] at hprobe
    obtain ⟨k, target, hk⟩ := hprobe
    cases o with
    | ok c' => cases ht; exact .told (h.canonical hq hk) hk
    | error f =>
      simp only [taken] at ht
      split at ht
      · rename_i hf
        cases ht
        exact .late hf.1 (by rw [hp]; exact hf.2)
      · cases ht
  | late hs hp =>
    rw [hs] at hstage
    cases ht
    refine .late hstage.1 ?_
    have hended := hstage.2 rfl
    cases hprobe : q.probe with
    | found o => exact absurd hprobe (hp o)
    | stopped => trivial
    | _ => simp [hprobe, Probe.isEnded] at hended

theorem Backed.endRequest (h : Backed s d) {r : Nat} {q : Request} {v : Verdict}
    (hq : d.requests[r]? = some q)
    (hv : (Stage.ended v).Backed s d.calls r q.path q.probe) : Backed s (d.endRequest r v) := by
  have hprobe := h.probes hq
  refine (h.onRequest fun q' hq' => ?_).enqueue (by simp)
  obtain rfl := Option.some.inj (hq.symm.trans hq')
  exact ⟨rfl, hv, hprobe, id⟩

theorem Backed.conclude (h : Backed s d) {r : Nat} {q : Request}
    {o : Except Failure Classification} (hq : d.requests[r]? = some q) (ho : Due s d r q o) :
    Backed s (conclude s d r o) := by
  unfold Desk.conclude
  rw [hq]
  split
  · exact h
  · exact h.endRequest hq trivial
  · rename_i q' c hq' ht
    obtain rfl := Option.some.inj hq'
    have hd : Backed s (d.onDialog q.dialog (·.offer q.path (.settled c) (some q.number))) :=
      h.congr rfl rfl fun _ hj => hj
    have hcame := ho.came h hq ht
    exact hd.endRequest hq hcame

theorem Backed.change (hc : Change s d e) (h : Backed s d) : Backed s e := by
  cases hc with
  | around _ hr hc ha => exact h.congr hr hc ha
  | seat path => exact h.congr rfl rfl fun _ hj => hj
  | aside i _ => exact h.congr rfl rfl fun _ hj => hj
  | edit i path =>
    unfold Desk.edit
    split
    · exact h
    · rename_i x _
      exact (h.ask i x path).congr rfl rfl fun _ hj => hj
  | endTrust _ => exact (h.ask _ _ _).congr rfl rfl fun _ hj => hj
  | call hq hp => exact h.call hq hp
  | endCall hc => exact h.endCall hc
  | pace hf => exact h.onRequest fun q hq => (hf q hq).kept (h.stages hq) (h.probes hq)
  | endProbe hq hp => exact h.endProbe hq hp
  | probeTold hj => exact h.probeTold hj

/-- On every run, requests, probes, calls and jobs agree. -/
theorem Reachable.backed (h : Reachable s d) : Backed s d :=
  h.invariant (fun _ _ => ⟨nofun, nofun, nofun, nofun⟩) (fun hc hb => hb.change hc)
    fun hq ho hb => hb.conclude hq ho

end Desk
end Admission
