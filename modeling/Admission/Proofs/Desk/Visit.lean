import Admission.Proofs.Desk.Slots
import Admission.Proofs.Desk.Turns

/-!
# A desk with one visitor

A visitor opens a dialog and asks for one thing after the other, each when the one before has been
done. The desk then is at rest between two errands, and at work it has one errand and one request at
most that are not over. So each job that it runs is known, and what an errand comes to is found by
running them.
-/
namespace Admission

/-- The error that a request ended in. -/
def Verdict.error? : Verdict → Option Error
  | .failed e => some e
  | _ => none

/-- Services that answer every call at once. -/
structure Setting.Prompt {σ : Type} (s : Setting σ) : Prop where
  classify : ∀ path w, ∃ outcome, (s.classify path w).1 = some outcome
  trustGate : ∀ w, s.trustGate w = none
  registerGate : ∀ w, s.registerGate w = none

/-! ## Timers that are given up -/

namespace Timers

@[simp] theorem length_exchange (ts : Timers) (i j : Nat) :
    (ts.exchange i j).length = ts.length := by
  unfold exchange
  split <;> simp

@[simp] theorem length_raise (ts : Timers) (i : Nat) : (ts.raise i).length = ts.length := by
  fun_induction raise ts i with
  | case1 => rfl
  | case2 ts i hi hbefore ih => simpa using ih
  | case3 => rfl

@[simp] theorem length_sink (fuel : Nat) (ts : Timers) (i : Nat) :
    (sink fuel ts i).1.length = ts.length := by
  induction fuel generalizing ts i with
  | zero => rfl
  | succ fuel ih =>
    unfold sink
    dsimp only
    split
    · rw [ih, length_exchange]
    · rfl

theorem length_pop (t : Timer) (ts : Timers) : (pop (t :: ts)).length = ts.length := by
  unfold pop
  dsimp only
  split
  · rename_i hlast
    simp [List.getLast?_eq_none_iff.mp hlast]
  · rename_i last hlast
    obtain ⟨rest, rfl⟩ := List.getLast?_eq_some_iff.mp hlast
    simp

/-- No timer is left if all are given up. -/
theorem popWhile_of_forall {p : Timer → Bool} (hp : ∀ t, p t = true) (fuel : Nat) (ts : Timers)
    (h : ts.length ≤ fuel) : (popWhile p fuel ts).2 = [] := by
  induction fuel generalizing ts with
  | zero => exact List.length_eq_zero_iff.mp (Nat.le_zero.mp h)
  | succ fuel ih =>
    cases ts with
    | nil => rfl
    | cons t rest =>
      unfold popWhile
      simp only [hp, if_true]
      exact ih _ (by rw [length_pop]; exact Nat.le_of_succ_le_succ h)

end Timers

namespace Desk

variable {σ : Type} {s : Setting σ}

/-! ## Steps -/

theorem steps_add (s : Setting σ) (m n : Nat) (d : Desk σ) :
    steps s (m + n) d = steps s n (steps s m d) := by
  induction m generalizing d with
  | zero => simp [steps]
  | succ m ih =>
    rw [Nat.succ_add]
    simp only [steps]
    cases hstep : d.step s with
    | some e => exact ih e
    | none =>
      cases n with
      | zero => rfl
      | succ n => simp [steps, hstep]

theorem steps_of_rest {d : Desk σ} (h : d.step s = none) (n : Nat) : steps s n d = d := by
  cases n with
  | zero => rfl
  | succ n => simp [steps, h]

/-- A desk that comes to rest has settled there. -/
theorem settle_of_steps {d e : Desk σ} {n : Nat} (h : steps s n d = e) (hrest : e.step s = none)
    (hn : n ≤ 64) : d.settle s = e := by
  have hbound : n ≤ d.stepBound := by unfold stepBound; omega
  obtain ⟨m, hm⟩ := Nat.exists_eq_add_of_le hbound
  rw [settle, hm, steps_add, h, steps_of_rest hrest]

/-- The next pass when no timer is left to look at. -/
theorem step_of_no_timer {d : Desk σ} (hnow : d.agenda.now = []) (hlive : d.liveTimers = []) :
    d.step s =
      match d.agenda.next with
      | [] => none
      | jobs => some { d with agenda := ⟨jobs, []⟩, timers := [] } := by
  simp only [step, hnow, nextPass, hlive]
  cases d.agenda.next <;> simp [Timers.takeDue, Timers.popWhile]

/-! ## The desk of a visit -/

/-- What a visit has come to: its dialog, the requests and errands that are over, and the rest of
the desk. -/
structure Visit (σ : Type) where
  world : σ
  dialog : Dialog
  past : List Request
  done : List Errand
  calls : List Call
  clock : Float
  log : List Entry
  past_ended : ∀ q ∈ past, q.isEnded = true
  done_ended : ∀ x ∈ done, x.isEnded = true

namespace Visit

/-- The desk of a visit that is at work on some requests and errands. -/
def desk (v : Visit σ) (qs : List Request) (xs : List Errand) (agenda : Agenda)
    (timers : Timers) : Desk σ where
  world := v.world
  dialogs := [v.dialog]
  current := some 0
  requests := v.past ++ qs
  errands := v.done ++ xs
  calls := v.calls
  agenda := agenda
  timers := timers
  clock := v.clock
  log := v.log

variable (v : Visit σ) (qs : List Request) (xs : List Errand) {q : Request} {x : Errand}
  {agenda : Agenda} {now next : List Job} {timers : Timers}

theorem liveTimers_idle (agenda : Agenda) (timers : Timers) :
    (v.desk [] xs agenda timers).liveTimers = [] := by
  refine Timers.popWhile_of_forall (fun t => ?_) _ _ (Nat.le_refl _)
  unfold isIdle
  cases h : (v.desk [] xs agenda timers).requests[t.request]? with
  | none => rfl
  | some q => exact v.past_ended q (by simpa [desk] using List.mem_of_getElem? h)

/-- The next pass when no request is under way: the timers are given up. -/
theorem step_idle (j : Job) (next : List Job) (timers : Timers) :
    (v.desk [] xs ⟨[], j :: next⟩ timers).step s = some (v.desk [] xs ⟨j :: next, []⟩ []) :=
  step_of_no_timer rfl (v.liveTimers_idle xs _ timers)

theorem step_rest (timers : Timers) : (v.desk [] xs {} timers).step s = none :=
  step_of_no_timer rfl (v.liveTimers_idle xs _ timers)

theorem step_untimed (j : Job) (next : List Job) :
    (v.desk qs xs ⟨[], j :: next⟩ []).step s = some (v.desk qs xs ⟨j :: next, []⟩ []) :=
  step_of_no_timer rfl rfl

/-- The next pass while a request runs under its time limit: the limit is over, or it is not. -/
theorem step_timed {t : Timer} (ht : t.request = v.past.length) (hq : q.isEnded = false)
    (j : Job) (next : List Job) :
    (v.desk [q] xs ⟨[], j :: next⟩ [t]).step s =
      some (if t.due ≤ v.clock then
        v.desk [q] xs ⟨j :: next ++ [.limit v.past.length], []⟩ []
      else v.desk [q] xs ⟨j :: next, []⟩ [t]) := by
  have hidle : (v.desk [q] xs ⟨[], j :: next⟩ [t]).isIdle t = false := by
    simp [isIdle, desk, ht, hq]
  unfold desk at hidle ⊢
  by_cases hdue : t.due ≤ v.clock <;>
    simp [step, nextPass, liveTimers, Timers.takeDue, Timers.popWhile, Timers.pop, hidle, hdue, ht]

/-! ## Jobs -/

theorem step_run (j : Job) (now next : List Job) (timers : Timers) :
    (v.desk qs xs ⟨j :: now, next⟩ timers).step s =
      some (run s (v.desk qs xs ⟨now, next⟩ timers) j) := rfl

@[simp] theorem requests_desk (agenda : Agenda) (timers : Timers) (q : Request) :
    (v.desk [q] xs agenda timers).requests[v.past.length]? = some q := by simp [desk]

@[simp] theorem errands_desk (agenda : Agenda) (timers : Timers) (x : Errand) :
    (v.desk qs [x] agenda timers).errands[v.done.length]? = some x := by simp [desk]

@[simp] theorem onRequest_desk (agenda : Agenda) (timers : Timers) (q : Request)
    (f : Request → Request) : (v.desk [q] xs agenda timers).onRequest v.past.length f =
      v.desk [f q] xs agenda timers := by
  simp only [desk, onRequest, modify_concat_length]

@[simp] theorem onErrand_desk (agenda : Agenda) (timers : Timers) (x : Errand)
    (f : Errand → Errand) : (v.desk qs [x] agenda timers).onErrand v.done.length f =
      v.desk qs [f x] agenda timers := by
  simp only [desk, onErrand, modify_concat_length]

/-- The visit with its dialog changed. -/
def onDialog (f : Dialog → Dialog) : Visit σ := { v with dialog := f v.dialog }

@[simp] theorem onDialog_desk (agenda : Agenda) (timers : Timers) (f : Dialog → Dialog) :
    (v.desk qs xs agenda timers).onDialog 0 f = (v.onDialog f).desk qs xs agenda timers := rfl

@[simp] theorem enqueue_desk (agenda : Agenda) (timers : Timers) (j : Job) :
    (v.desk qs xs agenda timers).enqueue j =
      v.desk qs xs { agenda with next := agenda.next ++ [j] } timers := rfl

theorem endRequest_desk (q : Request) (verdict : Verdict) (now next : List Job)
    (timers : Timers) :
    (v.desk [q] xs ⟨now, next⟩ timers).endRequest v.past.length verdict =
      v.desk [{ q with stage := .ended verdict, stopping := false }] xs
        ⟨now, next ++ [.requestEnded v.past.length]⟩ timers := by
  simp only [endRequest, onRequest_desk, enqueue_desk]

/-- The visit after a call of the classifier that is answered. -/
def classified (s : Setting σ) (path : String) (outcome : Except Failure Classification) :
    Visit σ :=
  { v with
    world := (s.classify path v.world).2
    calls := v.calls ++ [⟨v.past.length, path, .answered outcome⟩]
    log := v.log ++ [.classify v.past.length path] }

theorem call_desk {path : String} {outcome : Except Failure Classification}
    (h : (s.classify path v.world).1 = some outcome) (agenda : Agenda) (timers : Timers) :
    call s (v.desk qs xs agenda timers) v.past.length path =
      ((v.classified s path outcome).desk qs xs agenda timers, v.calls.length, some outcome) := by
  have hworld : (v.desk qs xs agenda timers).world = v.world := rfl
  simp only [call, hworld, h]
  rfl

/-- One pass with a single job, while no timer runs. -/
theorem steps_pass (j : Job) (timers : Timers) (ht : timers = [] ∨ qs = []) :
    steps s 2 (v.desk qs xs ⟨[], [j]⟩ timers) = run s (v.desk qs xs {} []) j := by
  have hstep : (v.desk qs xs ⟨[], [j]⟩ timers).step s = some (v.desk qs xs ⟨[j], []⟩ []) := by
    rcases ht with rfl | rfl
    · exact v.step_untimed qs xs j []
    · exact v.step_idle xs j [] timers
  simp only [steps, hstep, step_run]

/-! ## Inquiries -/

/-- The visit with an answer offered to its dialog for the live path. -/
def answered (c : Classification) : Visit σ :=
  v.onDialog fun x => x.offer x.path (.settled c) (some x.issued)

/-- The visit after its request has taken an outcome, and the error that the request ends in. -/
def concluded : Except Failure Classification → Visit σ × Option Error
  | .ok c => (v.answered c, none)
  | .error f => (v, some (.failure f))

/-- What an inquiry about the live path comes to, if it is answered. -/
def inquire (s : Setting σ) : Visit σ × Option Error :=
  match Path.canonical s.home v.dialog.path with
  | none => (v, some .homeUnknown)
  | some path =>
    if s.limit.any (· ≤ 0.0) then v.concluded (.ok .missing)
    else
      match (s.classify path v.world).1 with
      | none => (v, none)
      | some outcome => (v.classified s path outcome).concluded (taken s.limit outcome)

/-- The request is for the live path. -/
structure Asks (q : Request) : Prop where
  dialog : q.dialog = 0
  path : q.path = v.dialog.path
  number : q.number = v.dialog.issued

theorem conclude_desk (hq : v.Asks q) (outcome : Except Failure Classification)
    (now next : List Job) (timers : Timers) :
    ∃ q' verdict, conclude s (v.desk [q] xs ⟨now, next⟩ timers) v.past.length outcome =
        (v.concluded (taken s.limit outcome)).1.desk [q'] xs
          ⟨now, next ++ [.requestEnded v.past.length]⟩ timers ∧
      q'.stage = .ended verdict ∧
        verdict.error? = (v.concluded (taken s.limit outcome)).2 := by
  unfold conclude
  simp only [requests_desk]
  cases taken s.limit outcome with
  | error f =>
    exact ⟨_, _, v.endRequest_desk xs q (.failed (.failure f)) now next timers, rfl, rfl⟩
  | ok c =>
    simp only [hq.dialog, hq.path, hq.number, onDialog_desk]
    exact ⟨_, _, (v.answered c).endRequest_desk xs q _ now next timers, rfl, rfl⟩

/-- A new request for the live path. -/
def request : Request where
  dialog := 0
  number := v.dialog.issued
  path := v.dialog.path

/-- The request at its turn, under no time limit. -/
theorem steps_unlimited (hlimit : s.limit = none) {path : String}
    (hpath : Path.canonical s.home v.dialog.path = some path)
    {outcome : Except Failure Classification} (hc : (s.classify path v.world).1 = some outcome) :
    steps s 2 (v.desk [v.request] xs ⟨[], [.request v.past.length]⟩ []) =
      conclude s ((v.classified s path outcome).desk [v.request] xs {} []) v.past.length
        outcome := by
  have hcall (qs : List Request) := v.call_desk qs xs hc
  rw [steps_pass _ _ _ _ _ (.inl rfl)]
  simp [run, runRequest, beginRequest, request, hpath, hlimit, hcall]

/-- The request at its turn, when its time limit is over from the start: its probe is stopped
before it calls the classifier. -/
theorem steps_overdue {limit : Float} (hlimit : s.limit = some limit) (hover : limit ≤ 0.0)
    {path : String} (hpath : Path.canonical s.home v.dialog.path = some path) :
    ∃ q, v.Asks q ∧ steps s 8 (v.desk [v.request] xs ⟨[], [.request v.past.length]⟩ []) =
      conclude s (v.desk [q] xs {} []) v.past.length (.ok .missing) := by
  have hpass (q : Request) (j : Job) := v.steps_pass (s := s) [q] xs j [] (.inl rfl)
  have hbegin : run s (v.desk [v.request] xs {} []) (.request v.past.length) =
      v.desk [{ v.request with
        stage := .withdrawing true .waiting, probe := .ready path, halting := true }]
        xs ⟨[], [.probe v.past.length]⟩ [] := by
    simp [run, runRequest, beginRequest, request, hpath, hlimit, hover]
  refine ⟨{ v.request with stage := .withdrawing true .given, probe := .stopped },
    ⟨rfl, rfl, rfl⟩, ?_⟩
  rw [steps_add s 2 6, hpass, hbegin, steps_add s 2 4, hpass, steps_add s 2 2]
  simp [run, runProbe, endProbe, hpass, tellProbeEnded, runRequest, request]

/-! ### Under a time limit

The request sends its probe off and waits; the probe calls the classifier; whichever comes first, the
end of the probe or that of the limit, the request goes on with what the probe has found. -/

/-- The request while its probe is on its way. -/
def racing (path : String) : Request :=
  { v.request with stage := .racing .waiting, probe := .ready path }

/-- The request when its probe has found what it was sent for. -/
def found (path : String) (outcome : Except Failure Classification) : Request :=
  { v.racing path with probe := .found outcome }

/-- The request when it has been told so, or that its time is up. -/
def heard (outcome : Except Failure Classification) : Request :=
  { v.request with stage := .racing .given, probe := .found outcome }

section

variable {path : String} {outcome : Except Failure Classification}

theorem run_request_limited {limit : Float} (hlimit : s.limit = some limit)
    (hover : ¬limit ≤ 0.0) (hpath : Path.canonical s.home v.dialog.path = some path) :
    run s (v.desk [v.request] xs {} []) (.request v.past.length) =
      v.desk [v.racing path] xs ⟨[], [.probe v.past.length]⟩
        [⟨v.clock + limit, v.past.length⟩] := by
  have hpush : (v.desk [v.request] xs {} []).timers.push ⟨v.clock + limit, v.past.length⟩ =
      [⟨v.clock + limit, v.past.length⟩] := by
    simp [desk, Timers.push, Timers.raise]
  simp only [run, runRequest, requests_desk, beginRequest]
  simp only [request, hpath, hlimit, hover, Bool.false_eq_true, if_false]
  show ((v.desk [v.request] xs {} ((v.desk [v.request] xs {} []).timers.push
    ⟨v.clock + limit, v.past.length⟩)).onRequest v.past.length _).enqueue _ = _
  rw [hpush, onRequest_desk, enqueue_desk]
  rfl

theorem run_probe_racing (hc : (s.classify path v.world).1 = some outcome) (now : List Job)
    (timers : Timers) :
    run s (v.desk [v.racing path] xs ⟨now, []⟩ timers) (.probe v.past.length) =
      (v.classified s path outcome).desk [v.found path outcome] xs
        ⟨now, [.probeEnded v.past.length]⟩ timers := by
  have hcall (qs : List Request) := v.call_desk qs xs hc
  simp only [run, runProbe, requests_desk, racing, request, hcall, endProbe, Bool.false_eq_true,
    if_false]
  rw [show v.past.length = (v.classified s path outcome).past.length from rfl, onRequest_desk,
    enqueue_desk]
  rfl

theorem run_limit_found (now next : List Job) (timers : Timers) :
    run s (v.desk [v.found path outcome] xs ⟨now, next⟩ timers) (.limit v.past.length) =
      v.desk [v.heard outcome] xs ⟨now, next ++ [.request v.past.length]⟩ timers := by
  simp [run, tellLimit, found, racing, heard, request]

theorem run_probeEnded_found (now next : List Job) (timers : Timers) :
    run s (v.desk [v.found path outcome] xs ⟨now, next⟩ timers) (.probeEnded v.past.length) =
      v.desk [v.heard outcome] xs ⟨now, next ++ [.request v.past.length]⟩ timers := by
  simp [run, tellProbeEnded, found, racing, heard, request]

theorem run_probeEnded_heard (agenda : Agenda) (timers : Timers) :
    run s (v.desk [v.heard outcome] xs agenda timers) (.probeEnded v.past.length) =
      v.desk [v.heard outcome] xs agenda timers := by
  simp [run, tellProbeEnded, heard]

theorem run_request_heard (agenda : Agenda) (timers : Timers) :
    run s (v.desk [v.heard outcome] xs agenda timers) (.request v.past.length) =
      conclude s (v.desk [v.heard outcome] xs agenda timers) v.past.length outcome := by
  simp only [run, runRequest, requests_desk, heard]

/-- The request at its turn, under a time limit: its probe calls the classifier. The limit may be
over before the probe has been heard, but the request looks at what the probe has found. -/
theorem steps_limited {limit : Float} (hlimit : s.limit = some limit) (hover : ¬limit ≤ 0.0)
    (hpath : Path.canonical s.home v.dialog.path = some path)
    (hc : (s.classify path v.world).1 = some outcome) :
    ∃ n q timers, n ≤ 8 ∧ v.Asks q ∧
      steps s n (v.desk [v.request] xs ⟨[], [.request v.past.length]⟩ []) =
        conclude s ((v.classified s path outcome).desk [q] xs {} timers) v.past.length outcome := by
  let t : Timer := ⟨v.clock + limit, v.past.length⟩
  let w := v.classified s path outcome
  let found := w.found path outcome
  let heard := w.heard outcome
  have hbegin : run s (v.desk [v.request] xs {} []) (.request v.past.length) =
      v.desk [v.racing path] xs ⟨[], [.probe v.past.length]⟩ [t] :=
    v.run_request_limited xs hlimit hover hpath
  have hprobe (now : List Job) (timers : Timers) :
      run s (v.desk [v.racing path] xs ⟨now, []⟩ timers) (.probe v.past.length) =
        w.desk [found] xs ⟨now, [.probeEnded v.past.length]⟩ timers :=
    v.run_probe_racing xs hc now timers
  have hresume (timers : Timers) : run s (w.desk [heard] xs {} timers) (.request v.past.length) =
      conclude s (w.desk [heard] xs {} timers) v.past.length outcome :=
    w.run_request_heard xs {} timers
  have hwait := v.step_timed (s := s) xs (t := t) rfl (q := v.racing path) rfl
  refine ⟨8, heard, if t.due ≤ v.clock then [] else [t], Nat.le_refl 8, ⟨rfl, rfl, rfl⟩, ?_⟩
  rw [steps_add s 2 6, v.steps_pass _ _ _ _ (.inl rfl), hbegin]
  by_cases hdue : t.due ≤ v.clock
  · -- The limit is told right behind the probe, before the request hears that the probe has ended.
    have hpass := w.step_untimed (s := s) [heard] xs
    have hlate (now next : List Job) : run s (w.desk [found] xs ⟨now, next⟩ [])
        (.limit v.past.length) = w.desk [heard] xs ⟨now, next ++ [.request v.past.length]⟩ [] :=
      w.run_limit_found xs now next []
    have htwice (agenda : Agenda) : run s (w.desk [heard] xs agenda [])
        (.probeEnded v.past.length) = w.desk [heard] xs agenda [] :=
      w.run_probeEnded_heard xs agenda []
    simp only [steps, hwait, hdue, if_true, List.cons_append, List.nil_append, step_run, hprobe,
      hlate, hpass, htwice, hresume]
    rfl
  · have hdue' : ¬t.due ≤ w.clock := hdue
    have hfound := w.step_timed (s := s) xs (t := t) rfl (q := found) rfl
    have hheard := w.step_timed (s := s) xs (t := t) rfl (q := heard) rfl
    have htold (now next : List Job) : run s (w.desk [found] xs ⟨now, next⟩ [t])
        (.probeEnded v.past.length) =
          w.desk [heard] xs ⟨now, next ++ [.request v.past.length]⟩ [t] :=
      w.run_probeEnded_found xs now next [t]
    simp only [steps, hwait, hdue, hdue', if_false, step_run, hprobe, hfound, hheard, htold,
      List.nil_append, hresume]
    rfl

end

theorem concluded_frame (outcome : Except Failure Classification) :
    (v.concluded outcome).1.past = v.past ∧ (v.concluded outcome).1.done = v.done := by
  cases outcome <;> exact ⟨rfl, rfl⟩

/-- An inquiry is about the dialog; what is over stays as it is. -/
theorem inquire_frame (s : Setting σ) :
    (v.inquire s).1.past = v.past ∧ (v.inquire s).1.done = v.done := by
  unfold inquire
  split
  · exact ⟨rfl, rfl⟩
  · split
    · exact v.concluded_frame _
    · split
      · exact ⟨rfl, rfl⟩
      · exact (v.classified s _ _).concluded_frame _

/-- A request that is made for the live path comes to what an inquiry does, with a time limit or
without. -/
theorem steps_inquire (hs : s.Prompt) :
    ∃ n q verdict timers, n ≤ 8 ∧
      steps s n (v.desk [v.request] xs ⟨[], [.request v.past.length]⟩ []) =
        (v.inquire s).1.desk [q] xs ⟨[], [.requestEnded v.past.length]⟩ timers ∧
      q.stage = .ended verdict ∧ verdict.error? = (v.inquire s).2 := by
  unfold inquire
  cases hpath : Path.canonical s.home v.dialog.path with
  | none =>
    refine ⟨2, { v.request with stage := .ended (.failed .homeUnknown) }, .failed .homeUnknown, [],
      by decide, ?_, rfl, rfl⟩
    rw [v.steps_pass _ _ _ _ (.inl rfl)]
    simp only [run, runRequest, requests_desk, beginRequest, request, hpath]
    exact v.endRequest_desk xs _ (.failed .homeUnknown) [] [] []
  | some path =>
    obtain ⟨outcome, hc⟩ := hs.classify path v.world
    have hconclude (q : Request) (hq : v.Asks q) :=
      (v.classified s path outcome).conclude_desk (s := s) xs ⟨hq.dialog, hq.path, hq.number⟩
        outcome [] []
    simp only [hc]
    cases hlimit : s.limit with
    | none =>
      obtain ⟨q, verdict, hsteps, hended⟩ := hconclude v.request ⟨rfl, rfl, rfl⟩ []
      simp only [hlimit] at hsteps hended
      exact ⟨2, q, verdict, [], by decide,
        (v.steps_unlimited xs hlimit hpath hc).trans hsteps, hended⟩
    | some limit =>
      by_cases hover : limit ≤ 0.0
      · obtain ⟨q, hq, hsteps⟩ := v.steps_overdue xs hlimit hover hpath
        obtain ⟨q', verdict, hsteps', hended⟩ :=
          v.conclude_desk (s := s) xs hq (.ok .missing) [] [] []
        simp only [Option.any_some, hover, decide_true, if_true]
        exact ⟨8, q', verdict, [], by decide, hsteps.trans hsteps', hended⟩
      · obtain ⟨n, q, timers, hn, hq, hsteps⟩ := v.steps_limited xs hlimit hover hpath hc
        obtain ⟨q', verdict, hsteps', hended⟩ := hconclude q hq timers
        simp only [hlimit] at hsteps' hended
        simp only [Option.any_some, hover, decide_false, Bool.false_eq_true, if_false]
        exact ⟨n, q', verdict, timers, hn, hsteps.trans hsteps', hended⟩

/-! ## Errands -/

/-- The visit with one more request that is over. -/
def filed (q : Request) (hq : q.isEnded = true) : Visit σ :=
  { v with
    past := v.past ++ [q]
    past_ended := by simpa [or_imp, forall_and, hq] using v.past_ended }

/-- The visit with one more errand that is over. -/
def served (x : Errand) (hx : x.isEnded = true) : Visit σ :=
  { v with
    done := v.done ++ [x]
    done_ended := by simpa [or_imp, forall_and, hx] using v.done_ended }

theorem desk_filed (q : Request) (hq : q.isEnded = true) (agenda : Agenda) (timers : Timers) :
    v.desk [q] xs agenda timers = (v.filed q hq).desk [] xs agenda timers := by
  simp [desk, filed]

theorem desk_served (x : Errand) (hx : x.isEnded = true) (agenda : Agenda) (timers : Timers) :
    v.desk qs [x] agenda timers = (v.served x hx).desk qs [] agenda timers := by
  simp [desk, served]

/-- Errands that are over hear nothing, so only the last one goes on. -/
theorem awaken_desk {f : Errand → Option Progress} (hf : ∀ x ∈ v.done, f x = none) {x : Errand}
    {p : Progress} (hx : f x = some p) (now next : List Job) (timers : Timers) :
    (v.desk qs [x] ⟨now, next⟩ timers).awaken f =
      v.desk qs [{ x with progress := p }] ⟨now, next ++ [.errand v.done.length]⟩ timers := by
  have hdeaf (n : Nat) (hn : n ≤ v.done.length) :
      (List.range n).foldl (wake f) (v.desk qs [x] ⟨now, next⟩ timers) =
        v.desk qs [x] ⟨now, next⟩ timers := by
    induction n with
    | zero => rfl
    | succ n ih =>
      rw [List.range_succ, List.foldl_append, ih (Nat.le_of_succ_le hn)]
      have hn' : (v.desk qs [x] ⟨now, next⟩ timers).errands[n]? = some v.done[n] := by
        simp [desk, List.getElem?_append_left hn]
      simp [wake, hn', hf v.done[n] (List.getElem_mem hn)]
  have hlength : (v.desk qs [x] ⟨now, next⟩ timers).errands.length = v.done.length + 1 := by
    simp [desk]
  rw [awaken, hlength, List.range_succ, List.foldl_append, hdeaf _ (Nat.le_refl _)]
  simp [wake, hx, await]

/-- What an errand for the visit's dialog reports. -/
def report : Operation → Ending
  | .trustCurrent _ _ => .gave (.trustShown true v.dialog.snapshot)
  | _ => .gave (.shown v.dialog.snapshot)

theorem report_desk (agenda : Agenda) (timers : Timers) (op : Operation) :
    (v.desk qs xs agenda timers).report 0 op = v.report op := by
  cases op <;> rfl

/-- An errand that ends without a wait leaves the desk at rest. -/
theorem settle_ended {u : Visit σ} {op : Operation} {ending : Ending}
    (h : beginErrand s (v.desk [] [{ operation := op }] {} []) v.done.length op =
      u.desk [] [{ operation := op, progress := .ended ending }] {} []) :
    (v.desk [] [{ operation := op }] ⟨[], [.errand v.done.length]⟩ []).settle s =
      (u.served { operation := op, progress := .ended ending } rfl).desk [] [] {} [] := by
  refine settle_of_steps (n := 2) ?_ (step_rest _ _ _) (by decide)
  rw [v.steps_pass _ _ _ _ (.inr rfl)]
  simp only [run, runErrand, errands_desk, Bool.false_eq_true, if_false]
  exact h.trans (u.desk_served [] _ rfl {} [])

/-- A request that has ended is told to the errand that watches for it. -/
theorem steps_told {q : Request} {x : Errand} (hq : q.isEnded = true)
    (hx : x.progress = .watching 0 v.past.length .waiting) (timers : Timers) :
    steps s 2 (v.desk [q] [x] ⟨[], [.requestEnded v.past.length]⟩ timers) =
      v.desk [{ q with tracked := false }]
        [{ x with progress := .watching 0 v.past.length .given }]
        ⟨[], [.errand v.done.length]⟩ [] := by
  have hdeaf (y : Errand) (hy : y ∈ v.done) : y.heard v.past.length = none := by
    have hended := v.done_ended y hy
    unfold Errand.isEnded at hended
    unfold Errand.heard
    split at hended
    · rename_i hp
      rw [hp]
    · cases hended
  have hheard : x.heard v.past.length = some (.watching 0 v.past.length .given) := by
    simp [Errand.heard, hx]
  rw [v.desk_filed _ q hq, steps_pass _ _ _ _ _ (.inr rfl), ← v.desk_filed _ q hq, run,
    tellRequestEnded_eq_awaken, onRequest_desk, v.awaken_desk _ hdeaf hheard, List.nil_append]

/-- An errand that has heard of its request's end ends too. -/
theorem steps_resumed {q : Request} {x : Errand} {verdict : Verdict}
    (hq : q.stage = .ended verdict) (hx : x.progress = .watching 0 v.past.length .given)
    (hstop : x.stopping = false) :
    steps s 2 (v.desk [q] [x] ⟨[], [.errand v.done.length]⟩ []) =
      v.desk [q]
        [{ x with progress := .ended ((verdict.error?.map .failed).getD (v.report x.operation)) }]
        {} [] := by
  rw [steps_pass _ _ _ _ _ (.inl rfl)]
  simp only [run, runErrand, errands_desk, hx, hstop, requests_desk, Option.map_some, hq]
  cases verdict <;> simp [endErrand, Verdict.error?, report_desk]

/-- An errand that waits for an inquiry reports when that has been made, and the desk is at rest
then. -/
theorem settle_inquiry (hs : s.Prompt) {u : Visit σ} {op : Operation}
    (h : beginErrand s (v.desk [] [{ operation := op }] {} []) v.done.length op =
      u.desk [u.request]
        [{ operation := op, progress := .watching 0 u.past.length .waiting }]
        ⟨[], [.request u.past.length]⟩ []) :
    ∃ q hq x hx, (v.desk [] [{ operation := op }] ⟨[], [.errand v.done.length]⟩
        []).settle s = (((u.inquire s).1.filed q hq).served x hx).desk [] [] {} [] ∧
      x.progress =
        .ended (((u.inquire s).2.map .failed).getD ((u.inquire s).1.report op)) := by
  obtain ⟨n, q, verdict, timers', hn, hsteps, hstage, herror⟩ := u.steps_inquire
    [{ operation := op, progress := .watching 0 u.past.length .waiting }] hs
  have hpast := (u.inquire_frame s).1
  generalize u.inquire s = found at hsteps herror hpast ⊢
  obtain ⟨w, error⟩ := found
  dsimp only at hsteps herror hpast ⊢
  have hq : q.isEnded = true := by simp [Request.isEnded, hstage]
  let told : Request := { q with tracked := false }
  have htold : told.isEnded = true := hq
  have hresumed := w.steps_resumed (s := s) (q := told)
    (x := { operation := op, progress := .watching 0 w.past.length .given }) hstage rfl rfl
  rw [herror] at hresumed
  refine ⟨told, htold, { operation := op, progress := .ended _ }, rfl, ?_, rfl⟩
  refine settle_of_steps (n := 2 + (n + (2 + 2))) ?_ (step_rest _ _ _) (by omega)
  rw [steps_add, v.steps_pass _ _ _ _ (.inr rfl)]
  simp only [run, runErrand, errands_desk, Bool.false_eq_true, if_false]
  rw [h, steps_add, hsteps, steps_add, ← hpast, w.steps_told hq rfl]
  refine hresumed.trans ?_
  exact (w.desk_served [told] _ rfl {} []).trans
    ((w.served _ rfl).desk_filed [] told htold {} [])

end Visit
end Desk
end Admission
