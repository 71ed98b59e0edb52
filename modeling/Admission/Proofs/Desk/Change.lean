import Admission.Proofs.Desk.Frame
import Mathlib.Logic.Relation

/-!
# What a request changes

Whatever happens on a desk is made of changes of a few kinds, each with what it needs. Jobs of
requests are made of those that leave dialogs and errands alone, and at most one request is
concluded by a job. Which job causes which change is not kept.
-/
namespace Admission

/-- How a request ended, if it has. -/
def Request.verdict? (q : Request) : Option Verdict :=
  match q.stage with
  | .ended v => some v
  | _ => none

/-- The answer that a verdict carries, and whether it was applied. -/
def Verdict.answer? : Verdict → Option (Classification × Bool)
  | .answered c applied => some (c, applied)
  | _ => none

/-- Whether a probe has come to its end. -/
def Probe.isEnded : Probe → Bool
  | .found _ | .stopped => true
  | _ => false

/-- Whether a probe has neither to be made nor come to its end. -/
def Probe.isRunning : Probe → Bool
  | .ready _ | .calling _ => true
  | _ => false

/-- Whether a request runs under a time limit. -/
def Stage.isTimed : Stage → Bool
  | .racing _ | .withdrawing _ _ => true
  | _ => false

/-- All jobs that wait. -/
def Agenda.jobs (a : Agenda) : List Job := a.now ++ a.next

/-! ## Lookups after an update -/

theorem getElem?_concat_eq_some_iff {α : Type} {l : List α} {a b : α} {i : Nat} :
    (l ++ [a])[i]? = some b ↔ l[i]? = some b ∨ (i = l.length ∧ b = a) := by
  rcases Nat.lt_trichotomy i l.length with h | rfl | h
  · rw [List.getElem?_append_left h]
    simp [Nat.ne_of_lt h]
  · simp [eq_comm]
  · have hl : l[i]? = none := List.getElem?_eq_none (Nat.le_of_lt h)
    have hc : (l ++ [a])[i]? = none := List.getElem?_eq_none (by simp; omega)
    simp [hl, hc, Nat.ne_of_gt h]

theorem getElem?_modify_eq_some_iff {α : Type} {l : List α} {f : α → α} {i j : Nat} {b : α} :
    (l.modify i f)[j]? = some b ↔ ∃ a, l[j]? = some a ∧ b = if i = j then f a else a := by
  simp [List.getElem?_modify, Option.map_eq_some_iff, eq_comm (a := b)]

namespace Desk

variable {σ : Type}

/-- One change of request `r`, which is `q` before it, other than its end with an answer. -/
inductive Pace (s : Setting σ) (d : Desk σ) (r : Nat) (q : Request) : Request → Prop
  | marked (stopping halting tracked : Bool) (hh : q.halting = true → halting = true) :
      Pace s d r q { q with stopping := stopping, halting := halting, tracked := tracked }
  | called {c : Nat} {path : String} (hs : q.stage = .created) (hl : s.limit = none)
      (hp : Path.canonical s.home q.path = some path)
      (hc : d.calls[c]? = some ⟨r, path, .waiting⟩) : Pace s d r q { q with stage := .calling c }
  | raced {path : String} (hs : q.stage = .created) (hl : s.limit.isSome)
      (hp : Path.canonical s.home q.path = some path) :
      Pace s d r q { q with stage := .racing .waiting, probe := .ready path }
  | expired {path : String} (hs : q.stage = .created) (hl : s.limit.isSome)
      (hp : Path.canonical s.home q.path = some path) :
      Pace s d r q
        { q with stage := .withdrawing true .waiting, probe := .ready path, halting := true }
  | signalled {a : Signal} (b : Signal) (hs : q.stage = .racing a) :
      Pace s d r q { q with stage := .racing b }
  | withdrew {a : Signal} (late : Bool) (hs : q.stage = .racing a) :
      Pace s d r q { q with stage := .withdrawing late .waiting, stopping := false }
  | stopped {late : Bool} (hs : q.stage = .withdrawing late .waiting) :
      Pace s d r q { q with stage := .withdrawing late .withdrawn }
  | probed {c : Nat} {path : String} (hp : q.probe = .ready path)
      (hc : d.calls[c]? = some ⟨r, path, .waiting⟩) (hh : q.halting = false) :
      Pace s d r q { q with probe := .calling c }
  | ended {v : Verdict} (hv : v.answer? = none) (hs : q.verdict? = none) :
      Pace s d r q { q with stage := .ended v, stopping := false }

/-- What the probe of request `r`, which is `q`, may end with now. -/
inductive Halt (d : Desk σ) (r : Nat) (q : Request) : Probe → Prop
  | stopped (hp : q.probe.isRunning = true) : Halt d r q .stopped
  | foundAtOnce {c : Nat} {path : String} {o : Except Failure Classification}
      (hp : q.probe = .ready path) (hc : d.calls[c]? = some ⟨r, path, .answered o⟩)
      (hh : q.halting = false) : Halt d r q (.found o)
  | found {c : Nat} {o : Except Failure Classification} (hp : q.probe = .calling c)
      (hc : d.calls[c]?.map Call.state = some (.answered o)) (hh : q.halting = false) :
      Halt d r q (.found o)

/-- What request `r`, which is `q`, may be concluded with now. -/
inductive Due (s : Setting σ) (d : Desk σ) (r : Nat) (q : Request) :
    Except Failure Classification → Prop
  | atOnce {c : Nat} {path : String} {o : Except Failure Classification}
      (hs : q.stage = .created) (hl : s.limit = none)
      (hp : Path.canonical s.home q.path = some path)
      (hc : d.calls[c]? = some ⟨r, path, .answered o⟩) : Due s d r q o
  | called {c : Nat} {o : Except Failure Classification} (hs : q.stage = .calling c)
      (hc : d.calls[c]?.map Call.state = some (.answered o)) : Due s d r q o
  | found {o : Except Failure Classification} (hs : q.stage.isTimed = true)
      (hp : q.probe = .found o) : Due s d r q o
  | late (hs : q.stage = .withdrawing true .given) (hp : ∀ o, q.probe ≠ .found o) :
      Due s d r q (.ok .missing)

/-- One change of a desk, other than the conclusion of a request. -/
inductive Change (s : Setting σ) (d : Desk σ) : Desk σ → Prop
  /-- Dialogs, requests and calls stay. A probe's end is not made up. -/
  | around {e : Desk σ} (hd : e.dialogs = d.dialogs) (hr : e.requests = d.requests)
      (hc : e.calls = d.calls)
      (ha : ∀ r, .probeEnded r ∈ e.agenda.jobs → .probeEnded r ∈ d.agenda.jobs) : Change s d e
  | seat (path : String) : Change s d (d.seat path).1
  | aside (i : Nat) {f : Dialog → Dialog}
      (hf : f = Dialog.startTrust ∨ f = Dialog.stopTrust ∨ f = Dialog.close) :
      Change s d (d.onDialog i f)
  | edit (i : Nat) (path : String) : Change s d (d.edit i path).1
  | endTrust {i : Nat} {x : Dialog} (hx : d.dialogs[i]? = some x) :
      Change s d ((d.ask i x x.path).1.onDialog i Dialog.endTrust)
  | call {r : Nat} {q : Request} {path : String} (hq : d.requests[r]? = some q)
      (hp : Path.canonical s.home q.path = some path ∨ q.probe = .ready path) :
      Change s d (call s d r path).1
  | endCall {c r : Nat} {path : String} {state : CallState}
      (hc : d.calls[c]? = some ⟨r, path, .waiting⟩) :
      Change s d (d.onCall c fun call => { call with state := state })
  | pace {r : Nat} {f : Request → Request}
      (h : ∀ q, d.requests[r]? = some q → Pace s d r q (f q)) : Change s d (d.onRequest r f)
  | endProbe {r : Nat} {q : Request} {probe : Probe} (hq : d.requests[r]? = some q)
      (h : Halt d r q probe) : Change s d (d.endProbe r probe)
  /-- The job is taken from the line in the same change, for it says that the probe has ended. -/
  | probeTold {r : Nat} {rest : List Job} (h : d.agenda.now = .probeEnded r :: rest) :
      Change s d
        (({ d with agenda := { d.agenda with now := rest } } : Desk σ).tellProbeEnded r)

/-- Any number of changes, none of which concludes a request. -/
abbrev Quiet (s : Setting σ) : Desk σ → Desk σ → Prop := Relation.ReflTransGen (Change s)

/-- Changes of requests and calls, which leave dialogs and errands alone. -/
structure Still (s : Setting σ) (d e : Desk σ) : Prop where
  quiet : Quiet s d e
  aloof : Aloof d e

/-- The conclusion of request `r`, with changes before it that leave all requests alone too. -/
def Concludes (s : Setting σ) (d : Desk σ) (r : Nat) (e : Desk σ) : Prop :=
  ∃ (m : Desk σ) (q : Request) (o : Except Failure Classification),
    Still s d m ∧ m.requests = d.requests ∧ m.requests[r]? = some q ∧ Due s m r q o ∧
      e = conclude s m r o

variable {s : Setting σ} {d e f : Desk σ}

theorem Quiet.of (h : Change s d e) : Quiet s d e := Relation.ReflTransGen.single h

theorem Still.refl (d : Desk σ) : Still s d d := ⟨.refl, .refl d⟩

theorem Still.trans (h : Still s d e) (h' : Still s e f) : Still s d f :=
  ⟨h.quiet.trans h'.quiet, h.aloof.trans h'.aloof⟩

theorem mem_jobs_enqueue {d : Desk σ} {j k : Job} :
    k ∈ (d.enqueue j).agenda.jobs ↔ k ∈ d.agenda.jobs ∨ k = j := by
  simp [enqueue, Agenda.jobs, or_assoc]

theorem still_enqueue (d : Desk σ) {j : Job} (hj : ∀ r, j ≠ .probeEnded r) :
    Still s d (d.enqueue j) := by
  refine ⟨Quiet.of (.around rfl rfl rfl fun r hr => ?_), aloof_enqueue d j⟩
  rcases mem_jobs_enqueue.mp hr with h | h
  · exact h
  · exact absurd h.symm (hj r)

theorem still_pace {r : Nat} {g : Request → Request}
    (h : ∀ q, d.requests[r]? = some q → Pace s d r q (g q)) : Still s d (d.onRequest r g) :=
  ⟨Quiet.of (.pace h), aloof_onRequest d r g⟩

theorem still_call {r : Nat} {q : Request} {path : String} (hq : d.requests[r]? = some q)
    (hp : Path.canonical s.home q.path = some path ∨ q.probe = .ready path) :
    Still s d (call s d r path).1 :=
  ⟨Quiet.of (.call hq hp), aloof_call d r path⟩

theorem still_endProbe {r : Nat} {q : Request} {probe : Probe} (hq : d.requests[r]? = some q)
    (h : Halt d r q probe) : Still s d (d.endProbe r probe) :=
  ⟨Quiet.of (.endProbe hq h), .of rfl rfl rfl rfl⟩

theorem still_withdrawCall (d : Desk σ) (c : Nat) {j : Job} (hj : ∀ r, j ≠ .probeEnded r) :
    Still s d (d.withdrawCall c j).1 := by
  unfold withdrawCall
  split
  · rename_i hc
    exact .trans ⟨Quiet.of (.endCall hc), .of rfl rfl rfl rfl⟩ (still_enqueue _ hj)
  · exact .refl d

theorem still_haltProbe (d : Desk σ) (r : Nat) : Still s d (d.haltProbe r) := by
  unfold haltProbe
  split
  · exact still_pace fun _ _ => .marked _ _ _ fun _ => rfl
  · rename_i c _
    have hw := still_withdrawCall (s := s) d c (j := .probe r) (by simp)
    split
    · rename_i he
      rw [he] at hw
      exact hw
    · rename_i he
      rw [he] at hw
      exact hw.trans (still_pace fun _ _ => .marked _ _ _ fun _ => rfl)
  · exact .refl d

theorem still_cancelRequest (d : Desk σ) (r : Nat) : Still s d (d.cancelRequest r).1 := by
  have hstop (d : Desk σ) : Still s d (d.onRequest r fun q => { q with stopping := true }) :=
    still_pace fun _ _ => .marked _ _ _ id
  unfold cancelRequest
  dsimp only
  split
  · exact .refl d
  · exact .refl d
  · rename_i c _
    have hw := still_withdrawCall (s := s) d c (j := .request r) (by simp)
    split
    · rename_i he
      rw [he] at hw
      exact hw
    · rename_i he
      rw [he] at hw
      exact hw.trans (hstop _)
  · rename_i hs
    refine (still_pace fun q hq => ?_).trans (still_enqueue _ (by simp))
    rw [hq] at hs
    exact .signalled _ (Option.some.inj hs)
  · rename_i hs
    refine (still_pace fun q hq => ?_).trans (still_enqueue _ (by simp))
    rw [hq] at hs
    exact .stopped (Option.some.inj hs)
  · exact hstop d

/-- A call leaves requests alone, and is the last of the calls. -/
theorem call_spec {d e : Desk σ} {r c : Nat} {path : String}
    {o : Option (Except Failure Classification)} (h : call s d r path = (e, c, o)) :
    e.requests = d.requests ∧
      (∀ x, o = some x → e.calls[c]? = some ⟨r, path, .answered x⟩) ∧
      (o = none → e.calls[c]? = some ⟨r, path, .waiting⟩) := by
  simp only [call, Prod.mk.injEq] at h
  obtain ⟨rfl, rfl, rfl⟩ := h
  refine ⟨rfl, fun x hx => ?_, fun hx => ?_⟩
  · simp [note, hx]
  · simp [note, hx]

/-- The end of a request without an answer. -/
theorem still_endRequest (d : Desk σ) {r : Nat} {q : Request} {v : Verdict}
    (hq : d.requests[r]? = some q) (hv : v.answer? = none) (hs : q.verdict? = none) :
    Still s d (d.endRequest r v) := by
  refine (still_pace fun q' hq' => ?_).trans (still_enqueue _ (by simp))
  obtain rfl := Option.some.inj (hq.symm.trans hq')
  exact .ended hv hs

/-- The first run of a request sets it on its way, or concludes it. -/
theorem beginRequest_changes {r : Nat} {q : Request} (hq : d.requests[r]? = some q)
    (hs : q.stage = .created) :
    Still s d (beginRequest s d r q) ∨ Concludes s d r (beginRequest s d r q) := by
  have hv : q.verdict? = none := by simp [Request.verdict?, hs]
  unfold beginRequest
  split
  · exact Or.inl (still_endRequest d hq rfl hv)
  · split
    · exact Or.inl (still_endRequest d hq rfl hv)
    · rename_i path hp hl
      have hcall : Still s d (call s d r path).1 := still_call hq (Or.inl hp)
      rcases he : call s d r path with ⟨e, c, o⟩
      rw [he] at hcall
      obtain ⟨hr, hsome, hnone⟩ := call_spec he
      cases o with
      | some o =>
        have hdue : Due s e r q o := .atOnce hs hl hp (hsome o rfl)
        exact Or.inr ⟨e, q, o, hcall, hr, hr ▸ hq, hdue, rfl⟩
      | none =>
        refine Or.inl (hcall.trans (still_pace fun q' hq' => ?_))
        obtain rfl := Option.some.inj ((hr ▸ hq).symm.trans hq')
        exact .called hs hl hp (hnone rfl)
    · rename_i path limit hp hl
      have hl : s.limit.isSome := by rw [hl]; rfl
      split
      · refine Or.inl ((still_pace fun q' hq' => ?_).trans (still_enqueue _ (by simp)))
        obtain rfl := Option.some.inj (hq.symm.trans hq')
        exact .expired hs hl hp
      · have htimer : Still s d { d with timers := d.timers.push ⟨d.clock + limit, r⟩ } :=
          ⟨Quiet.of (.around rfl rfl rfl fun _ h => h), .of rfl rfl rfl rfl⟩
        refine Or.inl ((htimer.trans (still_pace fun q' hq' => ?_)).trans
          (still_enqueue _ (by simp)))
        obtain rfl := Option.some.inj (hq.symm.trans hq')
        exact .raced hs hl hp

theorem runRequest_changes (d : Desk σ) (r : Nat) :
    Still s d (runRequest s d r) ∨ Concludes s d r (runRequest s d r) := by
  unfold runRequest
  split
  · exact Or.inl (.refl d)
  · rename_i q hq
    have hcancel (hs : q.verdict? = none) : Still s d (d.endRequest r .cancelled) :=
      still_endRequest d hq rfl hs
    have hdue {o : Except Failure Classification} (h : Due s d r q o) :
        Concludes s d r (conclude s d r o) := ⟨d, q, o, .refl d, rfl, hq, h, rfl⟩
    split
    · rename_i hs
      exact beginRequest_changes hq hs
    · rename_i c hs
      split
      · rename_i hc
        exact Or.inr (hdue (.called hs hc))
      · exact Or.inl (hcancel (by simp [Request.verdict?, hs]))
    · rename_i a hs
      split
      · rename_i o hp
        exact Or.inr (hdue (.found (by simp [Stage.isTimed, hs]) hp))
      · exact Or.inl (hcancel (by simp [Request.verdict?, hs]))
      · refine Or.inl ((still_pace fun q' hq' => ?_).trans (still_haltProbe _ _))
        obtain rfl := Option.some.inj (hq.symm.trans hq')
        exact .withdrew _ hs
    · rename_i late a hs
      split
      · rename_i hlate
        simp only [Bool.and_eq_true, beq_iff_eq] at hlate
        obtain ⟨⟨rfl, -⟩, rfl⟩ := hlate
        split
        · rename_i o hp
          exact Or.inr (hdue (.found (by simp [Stage.isTimed, hs]) hp))
        · rename_i hp
          exact Or.inr (hdue (.late hs hp))
      · exact Or.inl (hcancel (by simp [Request.verdict?, hs]))
    · exact Or.inl (.refl d)

theorem still_runProbe (d : Desk σ) (r : Nat) : Still s d (runProbe s d r) := by
  unfold runProbe
  split
  · exact .refl d
  · rename_i q hq
    split
    · rename_i path hp
      split
      · exact still_endProbe hq (.stopped (by rw [hp]; rfl))
      · rename_i hh
        have hh : q.halting = false := by simpa using hh
        have hcall : Still s d (call s d r path).1 := still_call hq (Or.inr hp)
        rcases he : call s d r path with ⟨e, c, o⟩
        rw [he] at hcall
        obtain ⟨hr, hsome, hnone⟩ := call_spec he
        cases o with
        | some o =>
          have hhalt : Halt e r q (.found o) := .foundAtOnce hp (hsome o rfl) hh
          exact hcall.trans (still_endProbe (hr ▸ hq) hhalt)
        | none =>
          refine hcall.trans (still_pace fun q' hq' => ?_)
          obtain rfl := Option.some.inj ((hr ▸ hq).symm.trans hq')
          exact .probed hp (hnone rfl) hh
    · rename_i c hp
      split
      · rename_i o hh hc
        exact still_endProbe hq (.found hp hc hh)
      · exact still_endProbe hq (.stopped (by rw [hp]; rfl))
    · exact .refl d

theorem still_tellLimit (d : Desk σ) (r : Nat) : Still s d (d.tellLimit r) := by
  unfold tellLimit
  split
  · rename_i hs
    refine (still_pace fun q hq => ?_).trans (still_enqueue _ (by simp))
    rw [hq] at hs
    exact .signalled _ (Option.some.inj hs)
  · exact .refl d

/-- A job of a request leaves errands alone, and of the dialogs it changes at most the one that is
offered an answer. -/
theorem aloof_runRequest (d : Desk σ) (r : Nat) : AloofOrOffered d (runRequest s d r) := by
  rcases runRequest_changes (s := s) d r with h | ⟨m, q, o, h, -, -, -, he⟩
  · exact Or.inl h.aloof
  · rw [he]
    exact h.aloof.orOffered (aloof_conclude m r o)

end Desk
end Admission
