import Admission.Proofs.Desk.Wakeful

/-!
# Requests that come to their end

A request never falls back on its way. Once it waits for nobody outside, the job that takes it
further is in line, and with its turn the request is nearer to its end. Nothing is said of requests
of an open dialog: these may wait for the classifier for ever.
-/
namespace Admission

/-- How many turns a request has before it, at most, when it waits for nobody outside. -/
def Request.ahead (q : Request) : Nat :=
  match q.stage with
  | .created => 5
  | .racing _ => 4
  | .withdrawing _ .waiting => if q.probe.isEnded then 2 else 3
  | .withdrawing _ _ => 1
  | .calling _ => 1
  | .ended _ => 0

/-- The job that takes request `r`, which is `q`, further. -/
def Request.turn (q : Request) (r : Nat) : Job :=
  match q.ahead with
  | 3 => .probe r
  | 2 => .probeEnded r
  | _ => .request r

theorem Request.ahead_of_verdict {q : Request} {v : Verdict} (h : q.verdict? = some v) :
    q.ahead = 0 := by
  simp [ahead, Desk.stage_of_verdict h]

theorem Request.ahead_withdrawn {q : Request} {late : Bool} {a : Signal}
    (hs : q.stage = .withdrawing late a) (ha : a ≠ .waiting) : q.ahead = 1 := by
  cases a with
  | waiting => exact absurd rfl ha
  | given | withdrawn => simp [ahead, hs]

theorem Request.ahead_withdrawing_le {q : Request} {late : Bool} {a : Signal}
    (hs : q.stage = .withdrawing late a) : q.ahead ≤ 3 := by
  cases a with
  | waiting =>
    simp only [ahead, hs]
    split <;> decide
  | given | withdrawn => simp [ahead, hs]

/-- Its probe has to run only while the request waits for it. -/
theorem Request.of_turn_probe {q : Request} {r : Nat} (h : q.turn r = .probe r) :
    q.ahead = 3 ∧ ∃ late, q.stage = .withdrawing late .waiting ∧ q.probe.isEnded = false := by
  have hn : q.ahead = 3 := by
    unfold turn at h
    split at h
    · assumption
    · cases h
    · cases h
  refine ⟨hn, ?_⟩
  unfold ahead at hn
  split at hn <;> simp_all

/-- The end of its probe has to be told only while the request waits for that. -/
theorem Request.of_turn_probeEnded {q : Request} {r : Nat} (h : q.turn r = .probeEnded r) :
    q.ahead = 2 ∧ ∃ late, q.stage = .withdrawing late .waiting := by
  have hn : q.ahead = 2 := by
    unfold turn at h
    split at h
    · cases h
    · assumption
    · cases h
  refine ⟨hn, ?_⟩
  unfold ahead at hn
  split at hn <;> simp_all

namespace Desk

variable {σ : Type} {s : Setting σ} {d e f : Desk σ} {i r : Nat} {q : Request}

theorem Pace.ahead_le {q' : Request} (h : Pace s d r q q') : q'.ahead ≤ q.ahead := by
  cases h with
  | marked => exact Nat.le_refl _
  | called hs => simp [Request.ahead, hs]
  | raced hs => simp [Request.ahead, hs]
  | expired hs => simp [Request.ahead, hs, Probe.isEnded]
  | signalled b hs => simp [Request.ahead, hs]
  | withdrew late hs =>
    have h4 : q.ahead = 4 := by simp [Request.ahead, hs]
    rw [h4]
    exact Nat.le_succ_of_le (Request.ahead_withdrawing_le rfl)
  | stopped hs =>
    simp only [Request.ahead, hs]
    split <;> decide
  | probed hp =>
    simp only [Request.ahead, hp, Probe.isEnded]
    split <;> simp_all
  | ended => exact Nat.zero_le _

/-- No request falls back. -/
def Nearer (d e : Desk σ) : Prop :=
  ∀ ⦃r : Nat⦄ ⦃q : Request⦄, d.requests[r]? = some q →
    ∃ q', e.requests[r]? = some q' ∧ q'.ahead ≤ q.ahead

theorem nearer_of (h : e.requests = d.requests) : Nearer d e :=
  fun _ q hq => ⟨q, h ▸ hq, Nat.le_refl _⟩

theorem Nearer.trans (h : Nearer d e) (h' : Nearer e f) : Nearer d f := by
  intro r q hq
  obtain ⟨q', hq', hle⟩ := h hq
  obtain ⟨q'', hq'', hle'⟩ := h' hq'
  exact ⟨q'', hq'', Nat.le_trans hle' hle⟩

theorem nearer_onRequest {g : Request → Request}
    (h : ∀ q, d.requests[r]? = some q → (g q).ahead ≤ q.ahead) : Nearer d (d.onRequest r g) := by
  intro r' q hq
  refine ⟨_, getElem?_modify_eq_some_iff.mpr ⟨q, hq, rfl⟩, ?_⟩
  split
  · rename_i hr
    exact h q (hr ▸ hq)
  · exact Nat.le_refl _

theorem nearer_ask (d : Desk σ) (i : Nat) (x : Dialog) (path : String) :
    Nearer d (d.ask i x path).1 := by
  intro r q hq
  refine ⟨q, ?_, Nat.le_refl _⟩
  unfold ask
  split
  · exact getElem?_concat_eq_some_iff.mpr (Or.inl hq)
  · exact hq

theorem nearer_tellProbeEnded (d : Desk σ) (r : Nat) : Nearer d (d.tellProbeEnded r) := by
  unfold tellProbeEnded
  split
  · rename_i hs
    refine nearer_onRequest fun q hq => ?_
    rw [hq] at hs
    simp [Request.ahead, Option.some.inj hs]
  · rename_i late hs
    refine nearer_onRequest fun q hq => ?_
    rw [hq] at hs
    simp only [Request.ahead, Option.some.inj hs]
    split <;> decide
  · exact nearer_of rfl

theorem nearer_endRequest (d : Desk σ) (r : Nat) (v : Verdict) : Nearer d (d.endRequest r v) :=
  nearer_onRequest fun _ _ => Nat.zero_le _

theorem Change.nearer (h : Change s d e) : Nearer d e := by
  cases h with
  | around _ hr => exact nearer_of hr
  | seat path => exact nearer_of rfl
  | aside i _ => exact nearer_of rfl
  | edit i path =>
    unfold Desk.edit
    split
    · exact nearer_of rfl
    · exact (nearer_ask d i _ path).trans (nearer_of rfl)
  | endTrust _ => exact (nearer_ask d _ _ _).trans (nearer_of rfl)
  | call => exact nearer_of rfl
  | endCall => exact nearer_of rfl
  | pace hf => exact nearer_onRequest fun q hq => (hf q hq).ahead_le
  | @endProbe r q probe hq hp =>
    refine nearer_onRequest fun q' hq' => ?_
    obtain rfl := Option.some.inj (hq.symm.trans hq')
    have hended : probe.isEnded = true := by cases hp <;> rfl
    simp only [Request.ahead, hended]
    split <;> simp_all
    split <;> decide
  | @probeTold r rest _ =>
    exact nearer_tellProbeEnded ({ d with agenda := { d.agenda with now := rest } } : Desk σ) r

theorem Quiet.nearer (h : Quiet s d e) : Nearer d e := by
  induction h with
  | refl => exact nearer_of rfl
  | tail _ hc ih => exact ih.trans hc.nearer

theorem nearer_conclude (d : Desk σ) (r : Nat) (o : Except Failure Classification) :
    Nearer d (conclude s d r o) := by
  unfold conclude
  split
  · exact nearer_of rfl
  · exact nearer_endRequest d r _
  · rename_i q c _ _
    exact nearer_endRequest (d.onDialog q.dialog (·.offer q.path (.settled c) (some q.number))) r _

theorem nearer_move (d : Desk σ) (m : Move σ) : Nearer d (d.move s m) :=
  invariant_move (P := Nearer d) (fun hc h => h.trans hc.nearer)
    (fun _ _ h => h.trans (nearer_conclude _ _ _)) (nearer_of rfl) m

theorem nearer_after (d : Desk σ) (ms : List (Move σ)) : Nearer d (d.after s ms) := by
  induction ms generalizing d with
  | nil => exact nearer_of rfl
  | cons m ms ih => exact (nearer_move d m).trans (ih (d.move s m))

/-! ## Turns -/

/-- The job that takes a request further is in line. -/
theorem Wakes.turn_mem (h : Wakes False d r) (hq : d.requests[r]? = some q)
    (hv : q.verdict? = none) : q.turn r ∈ d.agenda.jobs := by
  have hwakes := h q hq
  have hruns {j : Job} (hj : 0 < d.agenda.jobs.count j) : j ∈ d.agenda.jobs :=
    List.count_pos_iff.mp hj
  unfold Request.Wakes at hwakes
  split at hwakes
  · rename_i hs
    simp only [Request.turn, Request.ahead, hs]
    exact hruns hwakes.1
  · rename_i c hs
    simp only [Request.turn, Request.ahead, hs]
    exact hruns (hwakes.resolve_right fun hwait => hwait.1)
  · rename_i a hs
    simp only [Request.turn, Request.ahead, hs]
    exact hruns (hwakes.1.resolve_right fun hwait => hwait.1)
  · rename_i late a hs
    by_cases ha : a = .waiting
    · subst ha
      have hhalts := hwakes.1 rfl
      cases hp : q.probe with
      | idle => simp [hp, Probe.Halts] at hhalts
      | ready _ | calling _ =>
        simp only [hp, Probe.Halts] at hhalts
        simp only [Request.turn, Request.ahead, hs, hp, Probe.isEnded]
        exact hruns hhalts.2
      | found _ | stopped =>
        simpa [Request.turn, Request.ahead, hs, hp, Probe.isEnded, Probe.Halts] using hhalts
    · simp only [Request.turn, Request.ahead_withdrawn hs ha]
      exact hruns (hwakes.2 ha)
  · rename_i v hs
    simp [Request.verdict?, hs] at hv

/-- A request that runs ends, or withdraws for its probe. -/
theorem ahead_runRequest (h : Wakes False d r) (hd : e.requests = d.requests)
    (hq : d.requests[r]? = some q) (hv : q.verdict? = none) (ht : q.turn r = .request r) :
    ∃ q', (runRequest s e r).requests[r]? = some q' ∧ q'.ahead < q.ahead := by
  have hqe : e.requests[r]? = some q := hd ▸ hq
  have hover {f : Desk σ} (hn : 0 < q.ahead) (ho : Over f r) :
      ∃ q', f.requests[r]? = some q' ∧ q'.ahead < q.ahead := by
    obtain ⟨q', v, hq', hv⟩ := ho
    exact ⟨q', hq', by rwa [Request.ahead_of_verdict hv]⟩
  have hwakes := h q hq
  simp only [runRequest, hqe]
  split
  · rename_i hs
    simp only [Request.Wakes, hs] at hwakes
    have hstop : q.stopping = true := hwakes.2.resolve_right id
    simp only [beginRequest, hstop, if_true]
    exact hover (by simp [Request.ahead, hs]) (over_endRequest hqe _)
  · rename_i c hs
    have hn : 0 < q.ahead := by simp [Request.ahead, hs]
    split
    · exact hover hn (over_conclude hqe _)
    · exact hover hn (over_endRequest hqe _)
  · rename_i a hs
    have hn : q.ahead = 4 := by simp [Request.ahead, hs]
    split
    · exact hover (by omega) (over_conclude hqe _)
    · exact hover (by omega) (over_endRequest hqe _)
    · obtain ⟨q', hq', hle⟩ :=
        (still_haltProbe (s := s) _ r).quiet.nearer (getElem?_onRequest hqe _)
      refine ⟨q', hq', Nat.lt_of_le_of_lt (Nat.le_trans hle (Request.ahead_withdrawing_le rfl)) ?_⟩
      rw [hn]
      decide
  · rename_i late a hs
    have ha : a ≠ .waiting := by
      rintro rfl
      cases hp : q.probe.isEnded <;> simp [Request.turn, Request.ahead, hs, hp] at ht
    have hn : 0 < q.ahead := by simp [Request.ahead_withdrawn hs ha]
    split
    · split
      · exact hover hn (over_conclude hqe _)
      · exact hover hn (over_conclude hqe _)
    · exact hover hn (over_endRequest hqe _)
  · rename_i v hs
    simp [Request.verdict?, hs] at hv

/-- A probe that has been halted ends when it runs. -/
theorem ahead_runProbe (h : Wakes False d r) (hd : e.requests = d.requests)
    (hq : d.requests[r]? = some q) (ht : q.turn r = .probe r) :
    ∃ q', (runProbe s e r).requests[r]? = some q' ∧ q'.ahead < q.ahead := by
  have hqe : e.requests[r]? = some q := hd ▸ hq
  obtain ⟨hn, late, hs, hp⟩ := Request.of_turn_probe ht
  have hwakes := h q hq
  simp only [Request.Wakes, hs] at hwakes
  have hhalts := hwakes.1
  have hends {p : Probe} (hp : p.isEnded = true) :
      ∃ q', (e.endProbe r p).requests[r]? = some q' ∧ q'.ahead < q.ahead := by
    refine ⟨_, getElem?_onRequest hqe _, ?_⟩
    rw [hn]
    simp [Request.ahead, hs, hp]
  simp only [runProbe, hqe]
  cases hprobe : q.probe with
  | idle => simp [hprobe, Probe.Halts] at hhalts
  | ready path =>
    simp only [hprobe, Probe.Halts, forall_const] at hhalts
    simp only [hhalts.1, if_true]
    exact hends rfl
  | calling c =>
    dsimp only
    split
    · exact hends rfl
    · exact hends rfl
  | found o => simp [hprobe, Probe.isEnded] at hp
  | stopped => simp [hprobe, Probe.isEnded] at hp

/-- A request that is told of the end of its probe waits no longer. -/
theorem ahead_tellProbeEnded (hd : e.requests = d.requests) (hq : d.requests[r]? = some q)
    (ht : q.turn r = .probeEnded r) :
    ∃ q', (e.tellProbeEnded r).requests[r]? = some q' ∧ q'.ahead < q.ahead := by
  have hqe : e.requests[r]? = some q := hd ▸ hq
  obtain ⟨hn, late, hs⟩ := Request.of_turn_probeEnded ht
  simp only [tellProbeEnded, hqe, Option.map_some, hs]
  exact ⟨_, getElem?_onRequest hqe _, by rw [hn]; simp [Request.ahead]⟩

/-- With its turn, a request is nearer to its end. -/
theorem ahead_lt_of_turn (h : Wakes False d r) (hq : d.requests[r]? = some q)
    (hv : q.verdict? = none) {rest : List Job} (hnow : d.agenda.now = q.turn r :: rest) :
    ∃ q', (d.move s .step).requests[r]? = some q' ∧ q'.ahead < q.ahead := by
  have hturn : q.turn r = .probe r ∨ q.turn r = .probeEnded r ∨ q.turn r = .request r := by
    unfold Request.turn
    split <;> simp
  rw [move_step_of_now hnow]
  rcases hturn with ht | ht | ht
  · rw [ht]
    exact ahead_runProbe (e := { d with agenda := { d.agenda with now := rest } }) h rfl hq ht
  · rw [ht]
    exact ahead_tellProbeEnded (e := { d with agenda := { d.agenda with now := rest } }) rfl hq ht
  · rw [ht]
    exact ahead_runRequest (e := { d with agenda := { d.agenda with now := rest } }) h rfl hq hv ht

/-! ## Dialogs that are closed -/

/-- The dialog of a request stays closed. -/
theorem dialog_closed_after (hq : d.requests[r]? = some q) {x : Dialog}
    (hx : d.dialogs[q.dialog]? = some x) (hc : x.closed = true) {ms : List (Move σ)} {q' : Request}
    (hq' : (d.after s ms).requests[r]? = some q') :
    ∃ y, (d.after s ms).dialogs[q'.dialog]? = some y ∧ y.closed = true := by
  obtain ⟨p, hp, hdialog, -⟩ := request_kept (linesKept_after (s := s) d ms) hq
  obtain rfl := Option.some.inj (hq'.symm.trans hp)
  rw [hdialog]
  exact closed_after hx hc ms

/-- A request of a closed dialog waits for nobody outside. -/
theorem wakes_of_closed (hd : Reachable s d) (hq : d.requests[r]? = some q) {x : Dialog}
    (hx : d.dialogs[q.dialog]? = some x) (hc : x.closed = true) : Wakes False d r := by
  refine (hd.wakeful r).mono ?_
  rintro ⟨i, y, hi, hy, ho⟩
  obtain rfl : q.dialog = i := by simpa [requestOwner?, hq] using hi
  obtain rfl := Option.some.inj (hx.symm.trans hy)
  rw [hc] at ho
  cases ho

/-- **Every request of a closed dialog ends**, if nothing but steps is done. -/
theorem over_of_closed (hd : Reachable s d) (hq : d.requests[r]? = some q) {x : Dialog}
    (hx : d.dialogs[q.dialog]? = some x) (hc : x.closed = true) :
    ∃ n, Over (d.after s (List.replicate n .step)) r := by
  -- On what the request has before it: until its turn comes, other jobs may take it further too.
  induction hn : q.ahead using Nat.strongRecOn generalizing d q x with
  | ind n ih =>
    subst hn
    have hgo {m : Nat} {q' : Request}
        (hq' : (d.after s (List.replicate m .step)).requests[r]? = some q')
        (hlt : q'.ahead < q.ahead) : ∃ n, Over (d.after s (List.replicate n .step)) r := by
      obtain ⟨y, hy, hclosed⟩ := dialog_closed_after hq hx hc hq'
      obtain ⟨n, hn⟩ := ih q'.ahead hlt (hd.after _) hq' hy hclosed rfl
      refine ⟨m + n, ?_⟩
      rwa [← List.replicate_append_replicate, after_append]
    cases hv : q.verdict? with
    | some v => exact ⟨0, q, v, hq, hv⟩
    | none =>
      obtain ⟨m, rest, hnow⟩ := turn_comes (s := s) ((wakes_of_closed hd hq hx hc).turn_mem hq hv)
      obtain ⟨q', hq', hle⟩ := nearer_after (s := s) d (List.replicate m .step) hq
      rcases Nat.lt_or_eq_of_le hle with hlt | heq
      · exact hgo hq' hlt
      cases hv' : q'.verdict? with
      | some v => exact ⟨m, q', v, hq', hv'⟩
      | none =>
        obtain ⟨y, hy, hclosed⟩ := dialog_closed_after hq hx hc hq'
        have hwakes := wakes_of_closed (hd.after _) hq' hy hclosed
        have hturn : q'.turn r = q.turn r := by simp only [Request.turn, heq]
        obtain ⟨q'', hq'', hlt⟩ := ahead_lt_of_turn hwakes hq' hv' (hturn ▸ hnow)
        rw [← after_concat, ← List.replicate_succ'] at hq''
        exact hgo hq'' (heq ▸ hlt)

end Desk
end Admission
