import Admission.Desk.Basic

/-!
# How a request stands

A request agrees with its calls and with the line of jobs: it is in line at most once, and not while
it waits for its call, its probe or its limit; and so is its probe. The lemmas say this of all that
may become of a request. When a request is given up is left open.
-/
namespace Admission

variable {σ : Type} {s : Setting σ}

/-- How call `c` stands, if request `r` has made it. -/
def stateOf (calls : List Call) (r c : Nat) : Option CallState :=
  calls[c]?.bind fun k => if k.request = r then some k.state else none

/-- A request, how its calls stand, and how often it and its probe are in line. -/
structure Post where
  request : Option Request
  state : Nat → Option CallState
  runs : Nat
  probeRuns : Nat

/-- In line at most once, and not at all as long as something is waited for. -/
def Lined (waits : Prop) (n : Nat) : Prop := n ≤ 1 ∧ (waits → n = 0)

/-- A request for `path` failed because there is no canonical path, or because a call of it did. -/
def Error.Raised (s : Setting σ) (path : String) (state : Nat → Option CallState) (e : Error) :
    Prop :=
  (e = .homeUnknown ∧ Path.canonical s.home path = none) ∨
    ∃ (c : Nat) (f : Failure), e = .failure f ∧ state c = some (.answered (.error f))

/-- Whether an error says that an operation is not admitted. -/
def Error.refuses : Error → Bool
  | .noDialog | .notDubious _ | .notAdmissible _ => true
  | _ => false

/-- A request was cancelled because it had been given up. -/
def Verdict.Accounted (s : Setting σ) (givenUp : Prop) (path : String)
    (state : Nat → Option CallState) : Verdict → Prop
  | .answered _ _ => True
  | .failed e => e.Raised s path state
  | .cancelled => givenUp

/-- Nothing has been done about a probe but answer its call. -/
def Probe.Undisturbed (state : Nat → Option CallState) : Probe → Prop
  | .calling c => state c ≠ some .withdrawn
  | .stopped => False
  | _ => True

def Request.Placed (s : Setting σ) (givenUp : Prop) (state : Nat → Option CallState) (runs : Nat)
    (q : Request) : Prop :=
  match q.stage with
  | .created => runs ≤ 1
  | .calling c => ∃ a, state c = some a ∧ Lined (a = .waiting) runs ∧ (a = .withdrawn → givenUp)
  | .racing a => Lined (a = .waiting) runs ∧ (a = .withdrawn → givenUp) ∧ q.halting = false ∧
      q.probe.Undisturbed state
  | .withdrawing late a => Lined (a = .waiting) runs ∧ (late = false ∨ a = .withdrawn → givenUp)
  | .ended v => v.Accounted s givenUp q.path state

def Probe.Placed (state : Nat → Option CallState) (runs : Nat) : Probe → Prop
  | .idle => runs = 0
  | .ready _ => runs ≤ 1
  | .calling c => ∃ a, state c = some a ∧ Lined (a = .waiting) runs
  | .found o => ∃ c, state c = some (.answered o)
  | .stopped => True

/-- A request agrees with its calls and with the line of jobs. -/
structure Request.Fits (s : Setting σ) (givenUp : Prop) (state : Nat → Option CallState)
    (runs probeRuns : Nat) (q : Request) : Prop where
  stage : q.Placed s givenUp state runs
  probe : q.probe.Placed state probeRuns
  awaited : ∀ c, state c = some .waiting → q.stage = .calling c ∨ q.probe = .calling c
  untimed : q.stage = .created ∨ (∃ c, q.stage = .calling c) →
    q.probe = .idle ∧ q.halting = false
  stopping : q.stopping = true → givenUp

/-- A request fits; one that is not there has no call and is not in line. -/
def Post.Sound (s : Setting σ) (givenUp : Prop) (p : Post) : Prop :=
  match p.request with
  | none => p.runs = 0 ∧ p.probeRuns = 0 ∧ ∀ c, p.state c = none
  | some q => q.Fits s givenUp p.state p.runs p.probeRuns

theorem Error.Raised.not_refuses {path : String} {state : Nat → Option CallState} {e : Error}
    (h : e.Raised s path state) : e.refuses = false := by
  obtain ⟨rfl, -⟩ | ⟨c, f, rfl, -⟩ := h
  · rfl
  · rfl

/-! ## One request -/

section Fits

variable {g g' : Prop} {state state' : Nat → Option CallState} {n m : Nat} {q : Request}

theorem lined_zero (waits : Prop) : Lined waits 0 := ⟨Nat.zero_le _, fun _ => rfl⟩

theorem lined_one {waits : Prop} (h : ¬ waits) : Lined waits 1 :=
  ⟨Nat.le_refl _, fun hw => absurd hw h⟩

/-- What is about to run waits for nothing, and is not in line once more. -/
theorem Lined.succ {waits : Prop} (h : Lined waits (n + 1)) : ¬ waits ∧ n = 0 := by
  obtain ⟨hle, hw⟩ := h
  exact ⟨fun hwaits => absurd (hw hwaits) (Nat.succ_ne_zero n), by omega⟩

theorem Request.Fits.mono (hg : g → g') (h : q.Fits s g state n m) : q.Fits s g' state n m := by
  refine ⟨?_, h.probe, h.awaited, h.untimed, fun hs => hg (h.stopping hs)⟩
  have hstage := h.stage
  unfold Request.Placed at hstage ⊢
  split
  · simpa [*] using hstage
  · rename_i c hc
    rw [hc] at hstage
    obtain ⟨a, ha, hl, hw⟩ := hstage
    exact ⟨a, ha, hl, fun h => hg (hw h)⟩
  · rename_i a hc
    rw [hc] at hstage
    exact ⟨hstage.1, fun h => hg (hstage.2.1 h), hstage.2.2⟩
  · rename_i late a hc
    rw [hc] at hstage
    exact ⟨hstage.1, fun h => hg (hstage.2 h)⟩
  · rename_i v hc
    rw [hc] at hstage
    cases v with
    | cancelled => exact hg hstage
    | answered c a => trivial
    | failed e => exact hstage

theorem Post.Sound.mono {p : Post} (hg : g → g') (h : p.Sound s g) : p.Sound s g' := by
  unfold Post.Sound at h ⊢
  split
  · simpa [*] using h
  · rename_i q hq
    rw [hq] at h
    exact Request.Fits.mono hg h

/-- Calls that are made or answered are of no account to a request that does not wait for them. -/
theorem Verdict.Accounted.later {v : Verdict} {path : String} (h : v.Accounted s g path state)
    (hs : ∀ c o, state c = some (.answered o) → state' c = some (.answered o)) :
    v.Accounted s g path state' := by
  cases v with
  | answered c a => trivial
  | cancelled => exact h
  | failed e =>
    rcases h with h | ⟨c, f, he, hc⟩
    · exact Or.inl h
    · exact Or.inr ⟨c, f, he, hs c _ hc⟩

/-- A request goes on as it was when calls are made or answered for which it does not wait. -/
theorem Request.Fits.later (h : q.Fits s g state n m)
    (hs : ∀ c a, state c = some a → state' c = some a)
    (hw : ∀ c, state' c = some .waiting → state c = some .waiting) : q.Fits s g state' n m := by
  have hprobe : q.probe.Placed state' m := by
    have hprobe := h.probe
    unfold Probe.Placed at hprobe ⊢
    split at hprobe
    · exact hprobe
    · exact hprobe
    · obtain ⟨a, ha, hl⟩ := hprobe
      exact ⟨a, hs _ a ha, hl⟩
    · obtain ⟨c, hc⟩ := hprobe
      exact ⟨c, hs c _ hc⟩
    · trivial
  have hcall (c : Nat) (hc : q.probe = .calling c) (hwd : state' c = some .withdrawn) :
      state c = some .withdrawn := by
    have hprobe := h.probe
    rw [hc] at hprobe
    obtain ⟨a, ha, -⟩ := hprobe
    rw [ha, ← hs c a ha, hwd]
  refine ⟨?_, hprobe, fun c hc => h.awaited c (hw c hc), h.untimed, h.stopping⟩
  have hstage := h.stage
  unfold Request.Placed at hstage ⊢
  split
  · simpa [*] using hstage
  · rename_i c hc
    rw [hc] at hstage
    obtain ⟨a, ha, hrest⟩ := hstage
    exact ⟨a, hs c a ha, hrest⟩
  · rename_i a hc
    rw [hc] at hstage
    obtain ⟨hl, hg, hh, hu⟩ := hstage
    refine ⟨hl, hg, hh, ?_⟩
    unfold Probe.Undisturbed at hu ⊢
    split at hu
    · rename_i c hp
      exact fun hwd => hu (hcall c hp hwd)
    · exact hu
    · trivial
  · rename_i late a hc
    rw [hc] at hstage
    exact hstage
  · rename_i v hc
    rw [hc] at hstage
    exact hstage.later fun c o => hs c _

/-- A call that is answered at once. -/
theorem Request.Fits.answeredAtOnce {c : Nat} (h : q.Fits s g state n m) (hc : state c = none)
    (o : Except Failure Classification) :
    q.Fits s g (fun c' => if c = c' then some (.answered o) else state c') n m := by
  refine h.later (fun c' a ha => ?_) fun c' hw => ?_
  · by_cases hcc : c = c'
    · rw [← hcc, hc] at ha
      cases ha
    · simpa [hcc] using ha
  · by_cases hcc : c = c'
    · simp [hcc] at hw
    · simpa [hcc] using hw

/-- A request that has its turn does not wait for its call. -/
theorem Request.Fits.awake (h : q.Fits s g state (n + 1) m) {c : Nat} (hs : q.stage = .calling c) :
    state c ≠ some .waiting := by
  have hstage := h.stage
  simp only [Request.Placed, hs] at hstage
  obtain ⟨a, ha, hlined, -⟩ := hstage
  rw [ha]
  exact fun hw => hlined.succ.1 (Option.some.inj hw)

/-- A signal that is no longer waited for has come, or there is nothing to wait for any more. -/
theorem Lined.signal {a : Signal} (h : Lined (a = .waiting) (n + 1)) :
    a = .given ∨ a = .withdrawn := by
  cases a with
  | waiting => exact absurd rfl h.succ.1
  | given => exact Or.inl rfl
  | withdrawn => exact Or.inr rfl

/-- A request that has its turn and does not get an answer from its call has been given up. -/
theorem Request.Fits.givenUp_of_calling {c : Nat} (h : q.Fits s g state (n + 1) m)
    (hs : q.stage = .calling c)
    (hno : ∀ o, q.stopping = false → state c ≠ some (.answered o)) : g := by
  have hstage := h.stage
  simp only [Request.Placed, hs] at hstage
  obtain ⟨a, ha, hlined, hg⟩ := hstage
  cases hstop : q.stopping with
  | true => exact h.stopping hstop
  | false =>
    cases a with
    | waiting => exact absurd rfl hlined.succ.1
    | answered o => exact absurd ha (hno o hstop)
    | withdrawn => exact hg rfl

/-- A request that has its turn before its probe is through, and not because its time is over, has
been given up. -/
theorem Request.Fits.givenUp_of_racing {a : Signal} (h : q.Fits s g state (n + 1) m)
    (hs : q.stage = .racing a) (hno : (!q.stopping && a == .given) = false) : g := by
  have hstage := h.stage
  simp only [Request.Placed, hs] at hstage
  obtain ⟨hlined, hg, -⟩ := hstage
  cases hstop : q.stopping with
  | true => exact h.stopping hstop
  | false =>
    rcases hlined.signal with rfl | ha
    · simp [hstop] at hno
    · exact hg ha

/-- A request that has its turn after its probe has stopped, and does not end with an answer, has
been given up. -/
theorem Request.Fits.givenUp_of_withdrawing {late : Bool} {a : Signal}
    (h : q.Fits s g state (n + 1) m) (hs : q.stage = .withdrawing late a)
    (hno : (late && !q.stopping && a == .given) = false) : g := by
  have hstage := h.stage
  simp only [Request.Placed, hs] at hstage
  obtain ⟨hlined, hg⟩ := hstage
  cases hstop : q.stopping with
  | true => exact h.stopping hstop
  | false =>
    rcases hlined.signal with rfl | ha
    · exact hg (Or.inl (by simpa [hstop] using hno))
    · exact hg (Or.inr ha)

/-- What a probe has found was answered to a call of its request. -/
theorem Request.Fits.answer_of_found {o : Except Failure Classification}
    (h : q.Fits s g state n m) (hp : q.probe = .found o) : ∃ c, state c = some (.answered o) := by
  have hprobe := h.probe
  rw [hp] at hprobe
  exact hprobe

/-- A request that has its turn ends, for a reason that there is. -/
theorem Request.Fits.ended {v : Verdict} (h : q.Fits s g state (n + 1) m)
    (hv : v.Accounted s g q.path state) (n' : Nat) :
    Request.Fits s g state n' m { q with stage := .ended v, stopping := false } where
  stage := hv
  probe := h.probe
  awaited c hw := by
    rcases h.awaited c hw with hs | hp
    · exact absurd hw (h.awake hs)
    · exact Or.inr hp
  untimed := by simp
  stopping := by simp

/-- The call that a request waits for ends, and the request has its turn. -/
theorem Request.Fits.callEnded {c : Nat} {a : CallState} (h : q.Fits s g state n m)
    (hs : q.stage = .calling c) (hc : state c = some .waiting) (ha : a ≠ .waiting)
    (hg : a = .withdrawn → g) :
    q.Fits s g (fun c' => if c = c' then some a else state c') (n + 1) m := by
  have hstage := h.stage
  have hidle := (h.untimed (Or.inr ⟨c, hs⟩)).1
  have hprobe := h.probe
  simp only [Request.Placed, hs] at hstage
  rw [hidle] at hprobe
  obtain ⟨b, hb, hl, -⟩ := hstage
  obtain rfl : b = .waiting := Option.some.inj (hb.symm.trans hc)
  refine ⟨?_, by rw [hidle]; exact hprobe, fun c' hc' => ?_, h.untimed, h.stopping⟩
  · simp only [Request.Placed, hs, hl.2 rfl]
    exact ⟨a, by simp, lined_one ha, hg⟩
  · by_cases hcc : c = c'
    · exact Or.inl (hcc ▸ hs)
    · simp only [hcc, if_false] at hc'
      exact h.awaited c' hc'

/-- A request that has a probe is not concerned by what happens to it, unless it races with it. -/
theorem Request.Placed.probe {q' : Request} (h : q.Placed s g state n)
    (ht : ¬ (q.stage = .created ∨ ∃ c, q.stage = .calling c)) (hstage : q'.stage = q.stage)
    (hpath : q'.path = q.path)
    (hs : ∀ c o, state c = some (.answered o) → state' c = some (.answered o))
    (hr : ∀ b, q.stage = .racing b → q.halting = false →
      q'.halting = false ∧ q'.probe.Undisturbed state') : q'.Placed s g state' n := by
  unfold Request.Placed at h ⊢
  rw [hstage]
  split
  · rename_i hq
    exact absurd (Or.inl hq) ht
  · rename_i c hq
    exact absurd (Or.inr ⟨c, hq⟩) ht
  · rename_i b hq
    rw [hq] at h
    exact ⟨h.1, h.2.1, hr b hq h.2.2.1⟩
  · rename_i late b hq
    rw [hq] at h
    exact h
  · rename_i v hq
    rw [hq] at h
    rw [hpath]
    exact h.later hs

/-- An answered call is not the one that ends or is new. -/
theorem answered_of_ne {c : Nat} {a : CallState} (hc : ∀ o, state c ≠ some (.answered o)) (c' : Nat)
    (o : Except Failure Classification) (h : state c' = some (.answered o)) :
    (if c = c' then some a else state c') = some (.answered o) := by
  by_cases hcc : c = c'
  · exact absurd h (hcc ▸ hc o)
  · simpa [hcc] using h

/-- The call that a probe waits for ends, and the probe has its turn. -/
theorem Request.Fits.probeCallEnded {c : Nat} {a : CallState} (h : q.Fits s g state n m)
    (hp : q.probe = .calling c) (hc : state c = some .waiting) (ha : a ≠ .waiting)
    (hr : ∀ b, q.stage = .racing b → a ≠ .withdrawn) :
    q.Fits s g (fun c' => if c = c' then some a else state c') n (m + 1) := by
  have htimed : ¬ (q.stage = .created ∨ ∃ c, q.stage = .calling c) := by
    intro hu
    rw [(h.untimed hu).1] at hp
    cases hp
  have hprobe := h.probe
  rw [hp] at hprobe
  obtain ⟨b, hb, hl⟩ := hprobe
  obtain rfl : b = .waiting := Option.some.inj (hb.symm.trans hc)
  refine ⟨?_, ?_, fun c' hc' => ?_, h.untimed, h.stopping⟩
  · refine h.stage.probe htimed rfl rfl (answered_of_ne (by simp [hc])) fun b hs hh => ⟨hh, ?_⟩
    rw [hp]
    simpa [Probe.Undisturbed] using hr b hs
  · rw [hp, hl.2 rfl]
    exact ⟨a, by simp, lined_one ha⟩
  · by_cases hcc : c = c'
    · exact Or.inr (hcc ▸ hp)
    · simp only [hcc, if_false] at hc'
      exact h.awaited c' hc'

/-- A request that is stopped at its next run has been given up. -/
theorem Request.Fits.stopped (h : q.Fits s g state n m) (hg : g) :
    Request.Fits s g state n m { q with stopping := true } :=
  ⟨h.stage, h.probe, h.awaited, h.untimed, fun _ => hg⟩

/-- What a request waits for beside its probe comes, or is given up, and the request has its
turn. -/
theorem Request.Fits.signalled {b : Signal} (h : q.Fits s g state n m)
    (hs : q.stage = .racing .waiting) (hb : b ≠ .waiting) (hg : b = .withdrawn → g) :
    Request.Fits s g state (n + 1) m { q with stage := .racing b } := by
  have hstage := h.stage
  simp only [Request.Placed, hs] at hstage
  obtain ⟨hl, -, hrest⟩ := hstage
  refine ⟨?_, h.probe, fun c hc => ?_, by simp, h.stopping⟩
  · simp only [Request.Placed, hl.2 trivial]
    exact ⟨lined_one hb, hg, hrest⟩
  · have := h.awaited c hc
    simpa [hs] using this

theorem Request.Fits.withdrawn {late : Bool} {b : Signal} (h : q.Fits s g state n m)
    (hs : q.stage = .withdrawing late .waiting) (hb : b ≠ .waiting) (hg : b = .withdrawn → g) :
    Request.Fits s g state (n + 1) m { q with stage := .withdrawing late b } := by
  have hstage := h.stage
  simp only [Request.Placed, hs] at hstage
  obtain ⟨hl, hlate⟩ := hstage
  refine ⟨?_, h.probe, fun c hc => ?_, by simp, h.stopping⟩
  · simp only [Request.Placed, hl.2 trivial]
    exact ⟨lined_one hb, fun hor => hor.elim (fun hf => hlate (Or.inl hf)) hg⟩
  · have := h.awaited c hc
    simpa [hs] using this

/-- A request whose time is over, or which is given up, waits for its probe to stop. -/
theorem Request.Fits.withdrew {a : Signal} {late : Bool} (h : q.Fits s g state (n + 1) m)
    (hs : q.stage = .racing a) (hg : late = false → g) :
    Request.Fits s g state n m
      { q with stage := .withdrawing late .waiting, stopping := false } := by
  have hstage := h.stage
  simp only [Request.Placed, hs] at hstage
  obtain ⟨hl, -⟩ := hstage
  refine ⟨?_, h.probe, fun c hc => ?_, by simp, by simp⟩
  · simp only [Request.Placed, hl.succ.2]
    exact ⟨lined_zero _, fun hor => hor.elim hg nofun⟩
  · have := h.awaited c hc
    simpa [hs] using this

/-- The first run of a request under a time limit. -/
theorem Request.Fits.raced (h : q.Fits s g state (n + 1) m) (hs : q.stage = .created)
    (path : String) :
    Request.Fits s g state n (m + 1)
      { q with stage := .racing .waiting, probe := .ready path } := by
  obtain ⟨hidle, hhalt⟩ := h.untimed (Or.inl hs)
  have hstage := h.stage
  have hprobe := h.probe
  simp only [Request.Placed, hs] at hstage
  rw [hidle] at hprobe
  obtain rfl : n = 0 := by omega
  obtain rfl : m = 0 := hprobe
  refine ⟨⟨lined_zero _, nofun, hhalt, trivial⟩, Nat.le_refl _, fun c hc => ?_, by simp, h.stopping⟩
  have := h.awaited c hc
  simp [hs, hidle] at this

/-- The first run of a request whose time is over before it starts. -/
theorem Request.Fits.expired (h : q.Fits s g state (n + 1) m) (hs : q.stage = .created)
    (path : String) :
    Request.Fits s g state n (m + 1)
      { q with stage := .withdrawing true .waiting, probe := .ready path, halting := true } := by
  obtain ⟨hidle, -⟩ := h.untimed (Or.inl hs)
  have hstage := h.stage
  have hprobe := h.probe
  simp only [Request.Placed, hs] at hstage
  rw [hidle] at hprobe
  obtain rfl : n = 0 := by omega
  obtain rfl : m = 0 := hprobe
  refine ⟨⟨lined_zero _, by simp⟩, Nat.le_refl _, fun c hc => ?_, by simp, h.stopping⟩
  have := h.awaited c hc
  simp [hs, hidle] at this

/-- The first run of a request that waits for the classifier itself. -/
theorem Request.Fits.called {c : Nat} (h : q.Fits s g state (n + 1) m) (hs : q.stage = .created) :
    Request.Fits s g (fun c' => if c = c' then some .waiting else state c') n m
      { q with stage := .calling c } := by
  have huntimed := h.untimed (Or.inl hs)
  have hstage := h.stage
  have hprobe := h.probe
  simp only [Request.Placed, hs] at hstage
  rw [huntimed.1] at hprobe
  obtain rfl : n = 0 := by omega
  refine ⟨⟨.waiting, by simp, lined_zero _, nofun⟩, ?_, fun c' hc' => ?_, fun _ => huntimed,
    h.stopping⟩
  · change q.probe.Placed _ m
    rw [huntimed.1]
    exact hprobe
  · by_cases hcc : c = c'
    · exact Or.inl (by rw [hcc])
    · simp only [hcc, if_false] at hc'
      have := h.awaited c' hc'
      simp [hs, huntimed.1] at this

/-- A probe calls the classifier. -/
theorem Request.Fits.probed {c : Nat} {path : String} (h : q.Fits s g state n (m + 1))
    (hp : q.probe = .ready path) (hc : state c = none) :
    Request.Fits s g (fun c' => if c = c' then some .waiting else state c') n m
      { q with probe := .calling c } := by
  have hprobe := h.probe
  rw [hp] at hprobe
  have hm : m = 0 := by
    simp only [Probe.Placed] at hprobe
    omega
  have htimed : ¬ (q.stage = .created ∨ ∃ c, q.stage = .calling c) := by
    intro hu
    rw [(h.untimed hu).1] at hp
    cases hp
  refine ⟨?_, ⟨.waiting, by simp, hm ▸ lined_zero _⟩, fun c' hc' => ?_,
    fun hu => absurd hu htimed, h.stopping⟩
  · refine h.stage.probe htimed rfl rfl (answered_of_ne (by simp [hc])) fun b _ hh => ⟨hh, ?_⟩
    simp [Probe.Undisturbed]
  · by_cases hcc : c = c'
    · exact Or.inr (by rw [hcc])
    · simp only [hcc, if_false] at hc'
      have := h.awaited c' hc'
      simp only [hp, reduceCtorEq, or_false] at this
      exact absurd (Or.inr ⟨c', this⟩) htimed

/-- A probe comes to its end, with an outcome or stopped, but not stopped as long as its request
races with it. -/
theorem Request.Fits.probeEnded {p : Probe} {m' : Nat} (h : q.Fits s g state n m)
    (hp : q.probe ≠ .idle) (hc : ∀ c, q.probe = .calling c → state c ≠ some .waiting)
    (hplaced : p.Placed state m') (hr : ∀ b, q.stage = .racing b → p.Undisturbed state) :
    Request.Fits s g state n m' { q with probe := p, halting := false } := by
  have htimed : ¬ (q.stage = .created ∨ ∃ c, q.stage = .calling c) :=
    fun hu => hp (h.untimed hu).1
  refine ⟨?_, hplaced, fun c hw => ?_, fun hu => absurd hu htimed, h.stopping⟩
  · exact h.stage.probe htimed rfl rfl (fun _ _ => id) fun b hs _ => ⟨rfl, hr b hs⟩
  · rcases h.awaited c hw with hs | hs
    · exact absurd (Or.inr ⟨c, hs⟩) htimed
    · exact absurd hw (hc c hs)

theorem Lined.mono {waits : Prop} {k : Nat} (h : Lined waits n) (hk : k ≤ n) : Lined waits k :=
  ⟨Nat.le_trans hk h.1, fun hw => Nat.le_zero.mp (h.2 hw ▸ hk)⟩

/-- A job that is taken from the line and finds nothing to do is of no account. -/
theorem Request.Fits.fewer {k l : Nat} (h : q.Fits s g state n m) (hk : k ≤ n) (hl : l ≤ m) :
    q.Fits s g state k l := by
  refine ⟨?_, ?_, h.awaited, h.untimed, h.stopping⟩
  · have hstage := h.stage
    unfold Request.Placed at hstage ⊢
    split
    · rename_i hs
      rw [hs] at hstage
      exact Nat.le_trans hk hstage
    · rename_i c hs
      rw [hs] at hstage
      obtain ⟨a, ha, hlined, hg⟩ := hstage
      exact ⟨a, ha, hlined.mono hk, hg⟩
    · rename_i a hs
      rw [hs] at hstage
      exact ⟨hstage.1.mono hk, hstage.2⟩
    · rename_i late a hs
      rw [hs] at hstage
      exact ⟨hstage.1.mono hk, hstage.2⟩
    · rename_i v hs
      rw [hs] at hstage
      exact hstage
  · have hprobe := h.probe
    unfold Probe.Placed at hprobe ⊢
    split at hprobe
    · omega
    · exact Nat.le_trans hl hprobe
    · obtain ⟨a, ha, hlined⟩ := hprobe
      exact ⟨a, ha, hlined.mono hl⟩
    · exact hprobe
    · trivial

end Fits

end Admission
