import Admission.Proofs.Desk.Moves
import Admission.Proofs.Standing

/-!
# Requests at their posts

Each function of the desk that works on one request leaves the others as they were, and it leaves
that one in a state that agrees with its calls and with the line. So what runs has got what it
waited for, and a request is cancelled only if it has been given up.
-/
namespace Admission

variable {σ : Type} {s : Setting σ}

namespace Desk

variable {d e f : Desk σ} {r : Nat} {g : Prop}

def post (d : Desk σ) (r : Nat) : Post where
  request := d.requests[r]?
  state := stateOf d.calls r
  runs := d.agenda.jobs.count (.request r)
  probeRuns := d.agenda.jobs.count (.probe r)

/-- Requests other than `r` are as they were, and `r` is for the same dialog. -/
structure Beside (r : Nat) (d e : Desk σ) : Prop where
  others : ∀ r', r' ≠ r → e.post r' = d.post r'
  dialog : e.requests[r]?.map Request.dialog = d.requests[r]?.map Request.dialog

/-- Only request `r` is worked on, and it fits afterwards. -/
structure Settles (s : Setting σ) (g : Prop) (r : Nat) (d e : Desk σ) : Prop where
  beside : Beside r d e
  sound : (e.post r).Sound s g

theorem Beside.refl (d : Desk σ) : Beside r d d := ⟨fun _ _ => rfl, rfl⟩

theorem Beside.trans (h : Beside r d e) (h' : Beside r e f) : Beside r d f where
  others r' hr := (h'.others r' hr).trans (h.others r' hr)
  dialog := h'.dialog.trans h.dialog

theorem post_onRequest (d : Desk σ) (r : Nat) (f : Request → Request) (r' : Nat) :
    (d.onRequest r f).post r' = if r = r' then
      { d.post r' with request := (d.post r').request.map f } else d.post r' := by
  by_cases hr : r = r'
  · subst hr
    simp [post, onRequest]
  · simp [post, onRequest, hr]

theorem post_enqueue (d : Desk σ) (j : Job) (r : Nat) :
    (d.enqueue j).post r =
      { d.post r with
        runs := (d.post r).runs + if j = .request r then 1 else 0
        probeRuns := (d.post r).probeRuns + if j = .probe r then 1 else 0 } := by
  simp [post, enqueue, Agenda.jobs, List.count_append, List.count_singleton, Nat.add_assoc]

theorem stateOf_modify {calls : List Call} {c r : Nat} {path : String} {a b : CallState}
    (hc : calls[c]? = some ⟨r, path, a⟩) (r' c' : Nat) :
    stateOf (calls.modify c fun k => { k with state := b }) r' c' =
      if r = r' ∧ c = c' then some b else stateOf calls r' c' := by
  by_cases hcc : c = c'
  · subst hcc
    by_cases hr : r = r' <;> simp [stateOf, hc, hr]
  · simp [stateOf, hcc]

theorem stateOf_concat (calls : List Call) (k : Call) (r' c' : Nat) :
    stateOf (calls ++ [k]) r' c' =
      if k.request = r' ∧ calls.length = c' then some k.state else stateOf calls r' c' := by
  rcases Nat.lt_trichotomy c' calls.length with hlt | rfl | hlt
  · simp [stateOf, List.getElem?_append_left hlt, Nat.ne_of_gt hlt]
  · by_cases hr : k.request = r' <;> simp [stateOf, hr]
  · have hnone : (calls ++ [k])[c']? = none := List.getElem?_eq_none (by simp; omega)
    have hnone' : calls[c']? = none := List.getElem?_eq_none (by omega)
    simp [stateOf, hnone, hnone', Nat.ne_of_lt hlt]

theorem stateOf_eq_some_iff {calls : List Call} {r c : Nat} {a : CallState} :
    stateOf calls r c = some a ↔ ∃ path, calls[c]? = some ⟨r, path, a⟩ := by
  unfold stateOf
  cases calls[c]? with
  | none => simp
  | some k =>
    obtain ⟨r', path, b⟩ := k
    by_cases hr : r' = r <;> simp [hr]

theorem post_onCall (d : Desk σ) {c r : Nat} {path : String} {a b : CallState}
    (hc : d.calls[c]? = some ⟨r, path, a⟩) (r' : Nat) :
    (d.onCall c fun k => { k with state := b }).post r' =
      { d.post r' with
        state := fun c' => if r = r' ∧ c = c' then some b else (d.post r').state c' } := by
  simp only [post, onCall]
  congr 1
  funext c'
  exact stateOf_modify hc r' c'

theorem sound_iff_fits {q : Request} (hq : d.requests[r]? = some q) :
    (d.post r).Sound s g ↔
      q.Fits s g (d.post r).state (d.post r).runs (d.post r).probeRuns := by
  simp only [Post.Sound, post, hq]

/-! ## Work on one request -/

theorem beside_onRequest {f : Request → Request} (hf : ∀ q, (f q).dialog = q.dialog) :
    Beside r d (d.onRequest r f) where
  others r' hr := by simp [post_onRequest, Ne.symm hr]
  dialog := by
    cases hq : d.requests[r]? with
    | none => simp [onRequest, hq]
    | some q => simp [onRequest, hq, hf]

theorem beside_enqueue (d : Desk σ) {j : Job}
    (hj : ∀ r', r' ≠ r → j ≠ .request r' ∧ j ≠ .probe r') : Beside r d (d.enqueue j) where
  others r' hr := by
    obtain ⟨h, h'⟩ := hj r' hr
    simp [post_enqueue, h, h']
  dialog := rfl

theorem beside_onCall {c : Nat} {path : String} {a b : CallState}
    (hc : d.calls[c]? = some ⟨r, path, a⟩) :
    Beside r d (d.onCall c fun k => { k with state := b }) where
  others r' hr := by simp [post_onCall d hc, Ne.symm hr]
  dialog := rfl

/-- A call is made for request `r`, which had none at its place. -/
theorem call_post {path : String} {c : Nat} {o : Option (Except Failure Classification)}
    (h : call s d r path = (e, c, o)) :
    Beside r d e ∧ e.requests = d.requests ∧ (d.post r).state c = none ∧
      e.post r = { d.post r with
        state := fun c' => if c = c' then some (o.elim .waiting .answered)
          else (d.post r).state c' } := by
  simp only [call, Prod.mk.injEq] at h
  obtain ⟨rfl, rfl, rfl⟩ := h
  have hstate (r' : Nat) (a : CallState) : stateOf (d.calls ++ [⟨r, path, a⟩]) r' =
      fun c' => if r = r' ∧ d.calls.length = c' then some a else stateOf d.calls r' c' := by
    funext c'
    exact stateOf_concat _ _ r' c'
  refine ⟨⟨fun r' hr => ?_, rfl⟩, rfl, ?_, ?_⟩
  · simp [post, note, hstate, Ne.symm hr]
  · simp [post, note, stateOf]
  · have hself (a : CallState) : stateOf (d.calls ++ [⟨r, path, a⟩]) r =
        fun c' => if d.calls.length = c' then some a else stateOf d.calls r c' := by
      funext c'
      simp [hstate]
    cases (s.classify path d.world).1 <;> simp only [post, note, hself] <;> rfl

/-- A request ends for a reason that there is. -/
theorem settles_endRequest {q : Request} {v : Verdict} {n : Nat} (hq : d.requests[r]? = some q)
    (h : q.Fits s g (d.post r).state (n + 1) (d.post r).probeRuns)
    (hv : v.Accounted s g q.path (d.post r).state) : Settles s g r d (d.endRequest r v) where
  beside := by
    have henqueue := beside_enqueue (r := r)
      (d.onRequest r fun q => { q with stage := .ended v, stopping := false })
      (j := .requestEnded r) fun r' _ => by simp
    exact (beside_onRequest (f := fun q => { q with stage := .ended v, stopping := false })
      fun _ => rfl).trans henqueue
  sound := by
    have hpost : (d.post r).request = some q := hq
    simp only [endRequest, post_enqueue, post_onRequest, if_true, hpost]
    exact h.ended hv _

theorem settles_conclude {q : Request} {n : Nat} {o : Except Failure Classification}
    (hq : d.requests[r]? = some q)
    (h : q.Fits s g (d.post r).state (n + 1) (d.post r).probeRuns)
    (ho : ∀ x, o = .error x → ∃ c, (d.post r).state c = some (.answered (.error x))) :
    Settles s g r d (conclude s d r o) := by
  unfold conclude
  rw [hq]
  split
  · contradiction
  · rename_i x q' f hq' ht
    have hof : o = .error f := by
      cases o with
      | ok c => simp [taken] at ht
      | error x =>
        simp only [taken] at ht
        split at ht
        · cases ht
        · exact ht
    obtain ⟨c, hstate⟩ := ho f hof
    exact settles_endRequest hq h (Or.inr ⟨c, f, rfl, hstate⟩)
  · rename_i q' c hq' _
    obtain rfl := Option.some.inj hq'
    have hd (v : Verdict) (hv : v.Accounted s g q.path (d.post r).state) :
        Settles s g r (d.onDialog q.dialog (·.offer q.path (.settled c) (some q.number)))
          (Desk.endRequest _ r v) := settles_endRequest hq h hv
    have hanswered (applied : Bool) := hd (.answered c applied) trivial
    exact ⟨⟨(hanswered _).beside.others, (hanswered _).beside.dialog⟩, (hanswered _).sound⟩

theorem getElem?_onRequest {q : Request} (hq : d.requests[r]? = some q) (f : Request → Request) :
    (d.onRequest r f).requests[r]? = some (f q) := by
  simp [onRequest, hq]

theorem settles_onRequest {q : Request} {f : Request → Request} (hq : d.requests[r]? = some q)
    (hf : ∀ q, (f q).dialog = q.dialog)
    (h : (f q).Fits s g (d.post r).state (d.post r).runs (d.post r).probeRuns) :
    Settles s g r d (d.onRequest r f) where
  beside := beside_onRequest hf
  sound := by
    have hpost : (d.post r).request = some q := hq
    simp only [post_onRequest, if_true, hpost]
    exact h

/-- A request is changed and has its turn. -/
theorem settles_wake {q : Request} {f : Request → Request} (hq : d.requests[r]? = some q)
    (hf : ∀ q, (f q).dialog = q.dialog)
    (h : (f q).Fits s g (d.post r).state ((d.post r).runs + 1) (d.post r).probeRuns) :
    Settles s g r d ((d.onRequest r f).enqueue (.request r)) where
  beside := (beside_onRequest hf).trans (beside_enqueue _ fun r' hr => by simp [Ne.symm hr])
  sound := by
    have hpost : (d.post r).request = some q := hq
    simp only [post_enqueue, post_onRequest, if_true, hpost]
    exact h

/-- A call of request `r` ends, and what waited for it has its turn. -/
theorem settles_endCall {q : Request} {c : Nat} {path : String} {a : CallState} {j : Job}
    (hq : d.requests[r]? = some q) (hc : d.calls[c]? = some ⟨r, path, .waiting⟩)
    (hj : ∀ r', r' ≠ r → j ≠ .request r' ∧ j ≠ .probe r')
    (h : q.Fits s g (fun c' => if c = c' then some a else (d.post r).state c')
      ((d.post r).runs + if j = .request r then 1 else 0)
      ((d.post r).probeRuns + if j = .probe r then 1 else 0)) :
    Settles s g r d ((d.onCall c fun k => { k with state := a }).enqueue j) where
  beside := (beside_onCall hc).trans (beside_enqueue _ hj)
  sound := by
    have hpost : (d.post r).request = some q := hq
    simp only [post_enqueue, post_onCall d hc, true_and, Post.Sound, hpost]
    exact h

theorem withdrawCall_of_waiting {c : Nat} (h : (d.post r).state c = some .waiting) (j : Job) :
    ∃ path, d.calls[c]? = some ⟨r, path, .waiting⟩ ∧ d.withdrawCall c j =
      ((d.onCall c fun k => { k with state := .withdrawn }).enqueue j, true) := by
  obtain ⟨path, hc⟩ := stateOf_eq_some_iff.mp h
  exact ⟨path, hc, by simp [withdrawCall, hc]⟩

theorem withdrawCall_of_ne_waiting {c : Nat} {a : CallState} (h : (d.post r).state c = some a)
    (ha : a ≠ .waiting) (j : Job) : d.withdrawCall c j = (d, false) := by
  obtain ⟨path, hc⟩ := stateOf_eq_some_iff.mp h
  cases a with
  | waiting => exact absurd rfl ha
  | _ => simp [withdrawCall, hc]

/-- A probe is halted once its request no longer races with it. -/
theorem settles_haltProbe {q : Request} {late : Bool} {a : Signal} (hq : d.requests[r]? = some q)
    (h : q.Fits s g (d.post r).state (d.post r).runs (d.post r).probeRuns)
    (hs : q.stage = .withdrawing late a) : Settles s g r d (d.haltProbe r) := by
  have hmark : Settles s g r d (d.onRequest r fun q => { q with halting := true }) := by
    have hstage := h.stage
    simp only [Request.Placed, hs] at hstage
    refine settles_onRequest hq (fun _ => rfl) ⟨?_, h.probe, h.awaited, by simp [hs], h.stopping⟩
    simpa only [Request.Placed, hs] using hstage
  unfold haltProbe
  rw [hq, Option.map_some]
  split
  · exact hmark
  · rename_i c hp
    have hp : q.probe = .calling c := Option.some.inj hp
    have hprobe := h.probe
    rw [hp] at hprobe
    obtain ⟨b, hb, -⟩ := hprobe
    by_cases hw : b = .waiting
    · subst hw
      obtain ⟨path, hc, he⟩ := withdrawCall_of_waiting hb (.probe r)
      simp only [he]
      refine settles_endCall hq hc (fun r' hr => by simp [Ne.symm hr]) ?_
      simpa using h.probeCallEnded (a := .withdrawn) hp hb (by simp) (by simp [hs])
    · simp only [withdrawCall_of_ne_waiting hb hw]
      exact hmark
  · exact ⟨.refl d, (sound_iff_fits hq).mpr h⟩

/-- A request is cancelled, which gives it up. -/
theorem settles_cancelRequest (hg : g) (h : (d.post r).Sound s g) :
    Settles s g r d (d.cancelRequest r).1 := by
  have hnothing : Settles s g r d d := ⟨.refl d, h⟩
  cases hq : d.requests[r]? with
  | none => simpa [cancelRequest, hq] using hnothing
  | some q =>
    have hfits := (sound_iff_fits hq).mp h
    have hstop : Settles s g r d (d.onRequest r fun q => { q with stopping := true }) :=
      settles_onRequest hq (fun _ => rfl) (hfits.stopped hg)
    unfold cancelRequest
    rw [hq, Option.map_some]
    dsimp only
    split
    · exact hnothing
    · exact hnothing
    · rename_i c hs
      have hs : q.stage = .calling c := Option.some.inj hs
      have hstage := hfits.stage
      simp only [Request.Placed, hs] at hstage
      obtain ⟨a, ha, -⟩ := hstage
      by_cases hw : a = .waiting
      · subst hw
        obtain ⟨path, hc, he⟩ := withdrawCall_of_waiting ha (.request r)
        simp only [he]
        refine settles_endCall hq hc (fun r' hr => by simp [Ne.symm hr]) ?_
        simpa using hfits.callEnded (a := .withdrawn) hs ha (by simp) fun _ => hg
      · simp only [withdrawCall_of_ne_waiting ha hw]
        exact hstop
    · rename_i hs
      have hsignalled := hfits.signalled (b := .withdrawn) (Option.some.inj hs) (by simp)
        fun _ => hg
      exact settles_wake hq (fun _ => rfl) hsignalled
    · rename_i hs
      have hwithdrawn := hfits.withdrawn (b := .withdrawn) (Option.some.inj hs) (by simp)
        fun _ => hg
      exact settles_wake hq (fun _ => rfl) hwithdrawn
    · exact hstop

theorem settles_tellLimit (h : (d.post r).Sound s g) : Settles s g r d (d.tellLimit r) := by
  cases hq : d.requests[r]? with
  | none => simpa [tellLimit, hq] using (⟨.refl d, h⟩ : Settles s g r d d)
  | some q =>
    have hfits := (sound_iff_fits hq).mp h
    unfold tellLimit
    rw [hq, Option.map_some]
    split
    · rename_i hs
      exact settles_wake hq (fun _ => rfl) (hfits.signalled (Option.some.inj hs) nofun nofun)
    · exact ⟨.refl d, h⟩

theorem settles_tellProbeEnded (h : (d.post r).Sound s g) :
    Settles s g r d (d.tellProbeEnded r) := by
  cases hq : d.requests[r]? with
  | none => simpa [tellProbeEnded, hq] using (⟨.refl d, h⟩ : Settles s g r d d)
  | some q =>
    have hfits := (sound_iff_fits hq).mp h
    unfold tellProbeEnded
    rw [hq, Option.map_some]
    split
    · rename_i hs
      exact settles_wake hq (fun _ => rfl) (hfits.signalled (Option.some.inj hs) nofun nofun)
    · rename_i hs
      exact settles_wake hq (fun _ => rfl) (hfits.withdrawn (Option.some.inj hs) nofun nofun)
    · exact ⟨.refl d, h⟩

/-! ## Jobs of a request -/

theorem Settles.of_beside (h : Beside r d e) (h' : Settles s g r e f) : Settles s g r d f :=
  ⟨h.trans h'.beside, h'.sound⟩

/-- A request is changed, and its probe has its turn. -/
theorem settles_probe {q : Request} {f : Request → Request} (hq : d.requests[r]? = some q)
    (hf : ∀ q, (f q).dialog = q.dialog)
    (h : (f q).Fits s g (d.post r).state (d.post r).runs ((d.post r).probeRuns + 1)) :
    Settles s g r d ((d.onRequest r f).enqueue (.probe r)) where
  beside := (beside_onRequest hf).trans (beside_enqueue _ fun r' hr => by simp [Ne.symm hr])
  sound := by
    have hpost : (d.post r).request = some q := hq
    simp only [post_enqueue, post_onRequest, if_true, hpost]
    exact h

theorem settles_beginRequest {q : Request} (hq : d.requests[r]? = some q) (hs : q.stage = .created)
    (h : q.Fits s g (d.post r).state ((d.post r).runs + 1) (d.post r).probeRuns) :
    Settles s g r d (beginRequest s d r q) := by
  unfold beginRequest
  split
  · rename_i hstop
    exact settles_endRequest hq h (h.stopping hstop)
  · split
    · rename_i hp
      exact settles_endRequest hq h (Or.inl ⟨rfl, hp⟩)
    · rename_i path hp _
      rcases he : call s d r path with ⟨e, c, o⟩
      obtain ⟨hbeside, hr, hnew, hpost⟩ := call_post he
      have hq' : e.requests[r]? = some q := by rw [hr]; exact hq
      refine .of_beside hbeside ?_
      cases o with
      | some o =>
        have hfits := h.answeredAtOnce hnew o
        refine settles_conclude (n := (d.post r).runs) hq' ?_ fun x hx => ⟨c, ?_⟩
        · simpa only [hpost, Option.elim] using hfits
        · simp [hpost, hx]
      | none =>
        have hfits := h.called (c := c) hs
        exact settles_onRequest hq' (fun _ => rfl) (by simpa only [hpost, Option.elim] using hfits)
    · rename_i path limit hp _
      split
      · exact settles_probe hq (fun _ => rfl) (h.expired hs path)
      · have htimer : Beside r d { d with timers := d.timers.push ⟨d.clock + limit, r⟩ } :=
          ⟨fun _ _ => rfl, rfl⟩
        refine .of_beside htimer (settles_probe hq (fun _ => rfl) ?_)
        exact h.raced hs path

/-- A request has its turn. The job is out of the line already. -/
theorem settles_runRequest
    (h : ({ d.post r with runs := (d.post r).runs + 1 } : Post).Sound s g) :
    Settles s g r d (runRequest s d r) := by
  cases hq : d.requests[r]? with
  | none =>
    simp only [Post.Sound, post, hq] at h
    exact absurd h.1 (Nat.succ_ne_zero _)
  | some q =>
    have hfits : q.Fits s g (d.post r).state ((d.post r).runs + 1) (d.post r).probeRuns := by
      simpa only [Post.Sound, post, hq] using h
    unfold runRequest
    rw [hq]
    dsimp only
    split
    · rename_i hs
      exact settles_beginRequest hq hs hfits
    · rename_i c hs
      have hstage := hfits.stage
      simp only [Request.Placed, hs] at hstage
      obtain ⟨a, ha, -⟩ := hstage
      obtain ⟨path, hc⟩ := stateOf_eq_some_iff.mp ha
      rw [hc, Option.map_some]
      split
      · rename_i o hstop hanswered
        obtain rfl : a = .answered o := Option.some.inj hanswered
        exact settles_conclude hq hfits fun x hx => ⟨c, hx ▸ ha⟩
      · rename_i hno
        refine settles_endRequest hq hfits (hfits.givenUp_of_calling hs fun o hstop ho => ?_)
        exact hno o hstop (ha.symm.trans ho)
    · rename_i a hs
      split
      · rename_i o hp
        exact settles_conclude hq hfits fun x hx => hx ▸ hfits.answer_of_found hp
      · rename_i hp
        have hstage := hfits.stage
        simp only [Request.Placed, hs, hp] at hstage
        exact hstage.2.2.2.elim
      · have hmark := settles_onRequest (f := fun p => { p with
          stage := .withdrawing (!q.stopping && a == .given) .waiting, stopping := false })
          hq (fun _ => rfl) (hfits.withdrew hs (hfits.givenUp_of_racing hs))
        have hq' := getElem?_onRequest hq fun p => { p with
          stage := .withdrawing (!q.stopping && a == .given) .waiting, stopping := false }
        exact .of_beside hmark.beside
          (settles_haltProbe hq' ((sound_iff_fits hq').mp hmark.sound) rfl)
    · rename_i late a hs
      split
      · split
        · rename_i o hp
          exact settles_conclude hq hfits fun x hx => hx ▸ hfits.answer_of_found hp
        · exact settles_conclude hq hfits (by simp)
      · rename_i hno
        have hno : (late && !q.stopping && a == .given) = false := by simpa using hno
        exact settles_endRequest hq hfits (hfits.givenUp_of_withdrawing hs hno)
    · exact ⟨.refl d, (sound_iff_fits hq).mpr (hfits.fewer (Nat.le_succ _) (Nat.le_refl _))⟩

/-! ## Probes and calls -/

theorem settles_endProbe {q : Request} {p : Probe} {n : Nat} (hq : d.requests[r]? = some q)
    (h : q.Fits s g (d.post r).state (d.post r).runs n) (hp : q.probe ≠ .idle)
    (hc : ∀ c, q.probe = .calling c → (d.post r).state c ≠ some .waiting)
    (hplaced : p.Placed (d.post r).state (d.post r).probeRuns)
    (hr : ∀ b, q.stage = .racing b → p.Undisturbed (d.post r).state) :
    Settles s g r d (d.endProbe r p) := by
  have hmark := settles_onRequest (f := fun q => { q with probe := p, halting := false }) hq
    (fun _ => rfl) (h.probeEnded hp hc hplaced hr)
  have henqueue := beside_enqueue (r := r)
    (d.onRequest r fun q => { q with probe := p, halting := false })
    (j := .probeEnded r) fun r' _ => by simp
  refine ⟨hmark.beside.trans henqueue, ?_⟩
  simpa only [endProbe, post_enqueue, reduceCtorEq, if_false, Nat.add_zero] using hmark.sound

/-- A probe has its turn. The job is out of the line already. -/
theorem settles_runProbe
    (h : ({ d.post r with probeRuns := (d.post r).probeRuns + 1 } : Post).Sound s g) :
    Settles s g r d (runProbe s d r) := by
  cases hq : d.requests[r]? with
  | none =>
    simp only [Post.Sound, post, hq] at h
    exact absurd h.2.1 (Nat.succ_ne_zero _)
  | some q =>
    have hfits : q.Fits s g (d.post r).state (d.post r).runs ((d.post r).probeRuns + 1) := by
      simpa only [Post.Sound, post, hq] using h
    have hstage := hfits.stage
    unfold runProbe
    rw [hq]
    dsimp only
    split
    · rename_i path hp
      split
      · rename_i hhalt
        refine settles_endProbe hq hfits (by simp [hp]) (by simp [hp]) trivial fun b hs => ?_
        simp only [Request.Placed, hs, hhalt, Bool.true_eq_false, false_and, and_false] at hstage
      · rcases he : call s d r path with ⟨e, c, o⟩
        obtain ⟨hbeside, hr, hnew, hpost⟩ := call_post he
        have hq' : e.requests[r]? = some q := by rw [hr]; exact hq
        refine .of_beside hbeside ?_
        cases o with
        | some o =>
          have hlater := hfits.answeredAtOnce hnew o
          refine settles_endProbe (n := (d.post r).probeRuns + 1) hq' ?_ (by simp [hp])
            (by simp [hp]) ⟨c, by simp [hpost]⟩ fun b _ => trivial
          simpa only [hpost, Option.elim] using hlater
        | none =>
          have hprobed := hfits.probed hp hnew
          refine settles_onRequest hq' (fun _ => rfl) ?_
          simpa only [hpost, Option.elim] using hprobed
    · rename_i c hp
      have hprobe := hfits.probe
      rw [hp] at hprobe
      obtain ⟨a, ha, hlined⟩ := hprobe
      obtain ⟨path, hc⟩ := stateOf_eq_some_iff.mp ha
      have hawake (c' : Nat) (hc' : q.probe = .calling c') :
          (d.post r).state c' ≠ some .waiting := by
        rw [hp] at hc'
        cases hc'
        rw [ha]
        exact fun hw => hlined.succ.1 (Option.some.inj hw)
      rw [hc, Option.map_some]
      split
      · rename_i o hhalt hanswered
        obtain rfl : a = .answered o := Option.some.inj hanswered
        exact settles_endProbe hq hfits (by simp [hp]) hawake ⟨c, ha⟩ fun b _ => trivial
      · rename_i hno
        refine settles_endProbe hq hfits (by simp [hp]) hawake trivial fun b hs => ?_
        -- a request that races with its probe has not disturbed it, so the call has been answered
        simp only [Request.Placed, hs, hp] at hstage
        obtain ⟨-, -, hhalt, hundisturbed⟩ := hstage
        cases a with
        | waiting => exact absurd rfl hlined.succ.1
        | answered o => exact absurd rfl (hno o hhalt)
        | withdrawn => exact absurd ha hundisturbed
    · exact ⟨.refl d, (sound_iff_fits hq).mpr (hfits.fewer (Nat.le_refl _) (Nat.le_succ _))⟩

/-- A call that waits is answered, and what waits for it has its turn. -/
theorem settles_answer {c : Nat} {path : String} (hc : d.calls[c]? = some ⟨r, path, .waiting⟩)
    (h : (d.post r).Sound s g) (o : Except Failure Classification) :
    Settles s g r d (d.answer c o).1 := by
  have hstate : (d.post r).state c = some .waiting := stateOf_eq_some_iff.mpr ⟨path, hc⟩
  cases hq : d.requests[r]? with
  | none =>
    simp only [Post.Sound, post, hq] at h
    have hnone := h.2.2 c
    rw [show stateOf d.calls r c = some .waiting from hstate] at hnone
    cases hnone
  | some q =>
    have hfits := (sound_iff_fits hq).mp h
    have hother {j : Job} (hj : j = .request r ∨ j = .probe r) (r' : Nat) (hr : r' ≠ r) :
        j ≠ .request r' ∧ j ≠ .probe r' := by
      rcases hj with rfl | rfl <;> simp [Ne.symm hr]
    unfold answer
    simp only [hc, waiter, Option.map_some, hq]
    split
    · rename_i c' hs
      have hs : q.stage = .calling c' := Option.some.inj hs
      have hcc : c = c' := by
        rcases hfits.awaited c hstate with hs' | hp
        · rw [hs] at hs'
          cases hs'
          rfl
        · rw [(hfits.untimed (Or.inr ⟨c', hs⟩)).1] at hp
          cases hp
      subst hcc
      refine settles_endCall hq hc (hother (Or.inl rfl)) ?_
      simpa using hfits.callEnded (a := .answered o) hs hstate (by simp) (by simp)
    · rename_i hno
      have hp : q.probe = .calling c := by
        rcases hfits.awaited c hstate with hs | hp
        · exact absurd (congrArg some hs) (hno c)
        · exact hp
      refine settles_endCall hq hc (hother (Or.inr rfl)) ?_
      simpa using hfits.probeCallEnded (a := .answered o) hp hstate (by simp) (by simp)

end Desk
end Admission
