import Admission.Proofs.Desk.Withdrawal

/-!
# How requests with a limit are decided

A request races with its probe until it takes what the probe has found or its time is over. Which of
the two comes first decides how it ends; it may also be cancelled. An answer to its call that comes
after that changes nothing, and no request is answered twice.
-/
namespace Admission
namespace Desk

variable {σ : Type} {s : Setting σ} {d e : Desk σ} {r : Nat} {q : Request} {ms : List (Move σ)}
  {P : Desk σ → Prop} {o : Except Failure Classification}

/-- At some time of the run `ms` from `d` the desk was as `P` says. -/
def Sometime (s : Setting σ) (d : Desk σ) (ms : List (Move σ)) (P : Desk σ → Prop) : Prop :=
  ∃ before later, ms = before ++ later ∧ P (d.after s before)

theorem Sometime.now (h : P (d.after s ms)) : Sometime s d ms P :=
  ⟨ms, [], (List.append_nil ms).symm, h⟩

theorem Sometime.concat (h : Sometime s d ms P) (m : Move σ) : Sometime s d (ms ++ [m]) P := by
  obtain ⟨before, later, rfl, hp⟩ := h
  exact ⟨before, later ++ [m], List.append_assoc .., hp⟩

/-- The probe of request `r` brings the outcome `o`, and the request has not left it. -/
def Brings (r : Nat) (o : Except Failure Classification) (d : Desk σ) : Prop :=
  ∃ q a, d.requests[r]? = some q ∧ q.stage = .racing a ∧ q.probe = .found o

/-- Request `r` has left its probe because its time was over. -/
def IsLate (r : Nat) (d : Desk σ) : Prop :=
  ∃ q a, d.requests[r]? = some q ∧ q.stage = .withdrawing true a

theorem Brings.hasFound (h : Brings r o d) : HasFound d r o := by
  obtain ⟨q, a, hq, hs, hp⟩ := h
  exact ⟨q, hq, by simp [hs], hp⟩

/-- On the run `ms` from `d`, a verdict of request `r` for `path` for which no outcome accounts. -/
def EndsLate (s : Setting σ) (d : Desk σ) (ms : List (Move σ)) (r : Nat) (path : String) :
    Verdict → Prop
  | .cancelled => True
  | .failed e => e = .homeUnknown ∧ Path.canonical s.home path = none
  | .answered c _ => c = .missing ∧ Sometime s d ms (IsLate r)

/-- How request `r`, which is `q`, has been decided on the run `ms` from `d`: it has taken what its
probe brought, or its probe is shut off. -/
inductive Decided (s : Setting σ) (d : Desk σ) (ms : List (Move σ)) (r : Nat) (q : Request) : Prop
  | taking {o : Except Failure Classification} {v : Verdict} (h : Sometime s d ms (Brings r o))
      (hp : q.probe = .found o) (hs : q.stage = .ended v) (hv : v.Gives (taken s.limit o))
  | without (hp : ShutOff (d.after s ms) r)
      (hv : ∀ v, q.stage = .ended v → EndsLate s d ms r q.path v)

theorem EndsLate.concat {path : String} {v : Verdict} (h : EndsLate s d ms r path v) (m : Move σ) :
    EndsLate s d (ms ++ [m]) r path v := by
  cases v with
  | cancelled => trivial
  | failed e => exact h
  | answered c applied => exact ⟨h.1, h.2.concat m⟩

theorem path_of_move {q' : Request} (m : Move σ) (hq : d.requests[r]? = some q)
    (hq' : (d.move s m).requests[r]? = some q') : q'.path = q.path := by
  obtain ⟨v, hline, -⟩ := linesKept_move (s := s) d m (issue_of_request hq)
  obtain ⟨p, hp, he⟩ := request_of_issue hline
  obtain rfl := Option.some.inj (hq'.symm.trans hp)
  exact congrArg Issue.path he

/-- A request that is done, and stays in its phase, has been decided as before. -/
theorem Decided.concat {p : Request} {m : Move σ} (h : Decided s d ms r p)
    (hp : (d.after s ms).requests[r]? = some p)
    (hq : ((d.after s ms).move s m).requests[r]? = some q)
    (hsame : p.stage.phase = q.stage.phase) : Decided s d (ms ++ [m]) r q := by
  have hended {v : Verdict} : p.stage = .ended v ↔ q.stage = .ended v := by
    rw [← Stage.phase_eq_ended, hsame, Stage.phase_eq_ended]
  cases h with
  | @taking o v h hfound hv hgives =>
    have hfound : HasFound (d.after s ms) r o := ⟨p, hp, by simp [hv], hfound⟩
    obtain ⟨q', hq', -, hfound'⟩ := hfound.move (s := s) m
    obtain rfl := Option.some.inj (hq.symm.trans hq')
    exact .taking (h.concat m) hfound' (hended.mp hv) hgives
  | without hshut hv =>
    refine .without ?_ fun v hv' => ?_
    · rw [after_concat]
      exact hshut.move m
    · rw [path_of_move m hp hq]
      exact (hv v (hended.mpr hv')).concat m

/-- A request that is done with its turn is decided in it. -/
theorem TurnTaken.decided {p : Request}
    (h : TurnTaken s p q ((d.after s ms).move s .step).calls)
    (hp : (d.after s ms).requests[r]? = some p)
    (hq : ((d.after s ms).move s .step).requests[r]? = some q) (hs : q.stage.isDone = true) :
    Decided s d (ms ++ [.step]) r q := by
  have hoff (hp : q.probe.Shut q.halting ((d.after s ms).move s .step).calls) :
      ShutOff (d.after s (ms ++ [.step])) r := by
    rw [after_concat]
    exact ⟨q, hq, hs, hp⟩
  cases h with
  | raced hrace =>
    rw [hrace] at hs
    cases hs
  | withdrew hstage hshut =>
    refine .without (hoff hshut) fun v hv => ?_
    rw [hstage] at hv
    cases hv
  | @took o v hrace hfound hended hgives hfound' =>
    obtain ⟨a, hrace⟩ := hrace
    have hbrings : Sometime s d ms (Brings r o) := .now ⟨p, a, hp, hrace, hfound⟩
    exact .taking (hbrings.concat .step) hfound' hended hgives
  | @ended w hended hw hshut =>
    refine .without (hoff hshut) fun v hv => ?_
    obtain rfl := Stage.ended.inj (hended.symm.trans hv)
    cases w with
    | cancelled => trivial
    | failed e => exact ⟨hw.1, (path_of_move .step hp hq).symm ▸ hw.2⟩
    | answered c applied =>
      have hlate : Sometime s d ms (IsLate r) := .now ⟨p, _, hp, hw.2⟩
      exact ⟨hw.1, hlate.concat .step⟩

/-- A request that is done and has not ended has shut off its probe. -/
theorem Decided.shut (h : Decided s d ms r q) (hq : (d.after s ms).requests[r]? = some q)
    (hv : q.verdict? = none) : q.probe.Shut q.halting (d.after s ms).calls := by
  cases h with
  | taking _ _ hended _ => simp [Request.verdict?, hended] at hv
  | without hshut _ =>
    obtain ⟨q', hq', -, hshut⟩ := hshut
    obtain rfl := Option.some.inj (hq.symm.trans hq')
    exact hshut

/-- **How a request is decided**, once it waits for no answer any more. -/
theorem decided_after (hl : s.limit.isSome = true) (world : σ) (paths : List String)
    (ms : List (Move σ)) (hq : ((opening world paths).after s ms).requests[r]? = some q)
    (hs : q.stage.isDone = true) : Decided s (opening world paths) ms r q := by
  induction ms using List.reverseRecOn generalizing q with
  | nil => cases hq
  | append_singleton ms m ih =>
    rw [after_concat] at hq
    have hkept {p : Request} (hp : ((opening world paths).after s ms).requests[r]? = some p)
        (hsame : p.stage.phase = q.stage.phase) :
        Decided s (opening world paths) (ms ++ [m]) r q := by
      refine (ih hp ?_).concat hp hq hsame
      rw [← Stage.isDone_phase, hsame, Stage.isDone_phase, hs]
    have hnew : q.stage.phase ≠ .created := by
      intro h
      rw [Stage.phase_eq_created.mp h] at hs
      cases hs
    rcases phase?_before (phase?_of_request hq) hnew with hbefore | ⟨rfl, now, hnow⟩
    · obtain ⟨p, hp, hsame⟩ := request_of_phase? hbefore
      exact hkept hp hsame
    · cases hp : ((opening world paths).after s ms).requests[r]? with
      | none =>
        rw [move_step_of_now hnow] at hq
        simp only [run, runRequest, hp] at hq
        cases hq
      | some p =>
        cases hv : p.verdict? with
        | some v =>
          obtain ⟨p', hp', -, -, hended⟩ :=
            request_kept (linesKept_move (s := s) ((opening world paths).after s ms) .step) hp
          obtain rfl := Option.some.inj (hq.symm.trans hp')
          refine hkept hp ?_
          rw [stage_of_verdict hv, stage_of_verdict (hended v hv)]
        | none =>
          have hd := (reachable_opening (s := s) world paths).after ms
          have hshut (hdone : p.stage.isDone = true) := (ih hp hdone).shut hp hv
          obtain ⟨q', hq', hturn⟩ := turned_runRequest (s := s) hd hp hv hl hshut
            (f := { (opening world paths).after s ms with agenda :=
              { ((opening world paths).after s ms).agenda with now := now } }) rfl rfl
          rw [← run, ← move_step_of_now hnow] at hq' hturn
          obtain rfl := Option.some.inj (hq.symm.trans hq')
          exact hturn.decided hp hq hs

/-! ## What comes first -/

section

variable {world : σ} {paths : List String}

theorem Sometime.hasFound (h : Sometime s d ms (Brings r o)) : HasFound (d.after s ms) r o := by
  obtain ⟨before, later, rfl, hbrings⟩ := h
  rw [after_append]
  exact hbrings.hasFound.after later

/-- A request whose time is over finds nothing any more. -/
theorem shutOff_of_late (hl : s.limit.isSome = true)
    (h : Sometime s (opening world paths) ms (IsLate r)) :
    ShutOff ((opening world paths).after s ms) r := by
  obtain ⟨before, later, rfl, q, a, hq, hs⟩ := h
  rw [after_append]
  refine ShutOff.after ?_ later
  cases decided_after hl world paths before hq (by rw [hs]; rfl) with
  | taking _ _ hended _ =>
    rw [hs] at hended
    cases hended
  | without hshut _ => exact hshut

/-- **An outcome that comes first is taken.** -/
theorem gives_of_brings (hl : s.limit.isSome = true)
    (hq : ((opening world paths).after s ms).requests[r]? = some q) {v : Verdict}
    (hv : q.verdict? = some v) (h : Sometime s (opening world paths) ms (Brings r o)) :
    v.Gives (taken s.limit o) := by
  have hs := stage_of_verdict hv
  have hfound := h.hasFound
  cases decided_after hl world paths ms hq (by rw [hs]; rfl) with
  | @taking o' v' _ hp hs' hgives =>
    obtain ⟨q', hq', -, hp'⟩ := hfound
    obtain rfl := Option.some.inj (hq.symm.trans hq')
    obtain rfl := Probe.found.inj (hp.symm.trans hp')
    obtain rfl := Stage.ended.inj (hs.symm.trans hs')
    exact hgives
  | without hshut _ => exact absurd hfound hshut.not_found

/-- **Once its time is over**, a request counts its path as missing, or is cancelled. -/
theorem missing_of_late (hl : s.limit.isSome = true)
    (hq : ((opening world paths).after s ms).requests[r]? = some q)
    (hp : Path.canonical s.home q.path ≠ none) {v : Verdict}
    (hv : q.verdict? = some v) (h : Sometime s (opening world paths) ms (IsLate r)) :
    v = .cancelled ∨ ∃ applied, v = .answered .missing applied := by
  have hs := stage_of_verdict hv
  have hshut := shutOff_of_late hl h
  cases decided_after hl world paths ms hq (by rw [hs]; rfl) with
  | taking _ hprobe _ _ =>
    have hfound : HasFound ((opening world paths).after s ms) r _ :=
      ⟨q, hq, by simp [hs], hprobe⟩
    exact absurd hfound hshut.not_found
  | without _ hwithout =>
    have hends := hwithout v hs
    cases v with
    | cancelled => exact Or.inl rfl
    | answered c applied => exact Or.inr ⟨applied, by rw [hends.1]⟩
    | failed e => exact absurd hends.2 hp

/-- An outcome comes first, or the time is over first. -/
theorem not_brings_and_late (hl : s.limit.isSome = true)
    (hlate : Sometime s (opening world paths) ms (IsLate r)) :
    ¬ Sometime s (opening world paths) ms (Brings r o) :=
  fun hbrings => (shutOff_of_late hl hlate).not_found hbrings.hasFound

/-- A request that has ended has taken an outcome, or its time was over, or it was cancelled. -/
theorem decided_of_verdict (hl : s.limit.isSome = true)
    (hq : ((opening world paths).after s ms).requests[r]? = some q)
    (hp : Path.canonical s.home q.path ≠ none) {v : Verdict}
    (hv : q.verdict? = some v) :
    (∃ o, Sometime s (opening world paths) ms (Brings r o)) ∨
      Sometime s (opening world paths) ms (IsLate r) ∨ v = .cancelled := by
  have hs := stage_of_verdict hv
  cases decided_after hl world paths ms hq (by rw [hs]; rfl) with
  | taking h _ _ _ => exact Or.inl ⟨_, h⟩
  | without _ hwithout =>
    have hends := hwithout v hs
    cases v with
    | cancelled => exact Or.inr (Or.inr rfl)
    | answered c applied => exact Or.inr (Or.inl hends.2)
    | failed e => exact absurd hends.2 hp

/-! ## Late answers -/

/-- **An answer that comes after a request is done changes nothing.** -/
theorem answer_of_done (hl : s.limit.isSome = true)
    (hq : ((opening world paths).after s ms).requests[r]? = some q) (hs : q.stage.isDone = true)
    {c : Nat} {k : Call} (hk : ((opening world paths).after s ms).calls[c]? = some k)
    (hr : k.request = r) (o : Except Failure Classification) :
    ((opening world paths).after s ms).move s (.answer c o) = (opening world paths).after s ms := by
  obtain ⟨owner, path, state⟩ := k
  obtain rfl : owner = r := hr
  have hended : state ≠ .waiting := by
    rintro rfl
    have hfits := (sound_iff_fits hq).mp (orderly_after s world paths ms owner)
    have hcalling : q.probe = .calling c := by
      refine (hfits.awaited c (stateOf_eq_some_iff.mpr ⟨path, hk⟩)).resolve_left fun hc => ?_
      rw [hc] at hs
      cases hs
    cases decided_after hl world paths ms hq hs with
    | taking _ hfound _ _ =>
      rw [hcalling] at hfound
      cases hfound
    | without hshut _ =>
      obtain ⟨q', hq', -, hshut⟩ := hshut
      obtain rfl := Option.some.inj (hq.symm.trans hq')
      rw [hcalling] at hshut
      obtain ⟨k, hk', hended, -⟩ := hshut
      obtain rfl := Option.some.inj (hk.symm.trans hk')
      exact hended rfl
  cases state with
  | waiting => exact absurd rfl hended
  | answered x => simp only [move, answer, hk]
  | withdrawn => simp only [move, answer, hk]

end

/-! ## Offers -/

/-- Whether request `r` has got an answer. -/
def isAnswered (d : Desk σ) (r : Nat) : Bool :=
  d.requests[r]?.any fun q => q.verdict?.any fun v => v.answer?.isSome

theorem isAnswered_iff : d.isAnswered r = true ↔
    ∃ q c applied, d.requests[r]? = some q ∧ q.verdict? = some (.answered c applied) := by
  simp only [isAnswered, Option.any_eq_true]
  constructor
  · rintro ⟨q, hq, v, hv, ha⟩
    cases v with
    | answered c applied => exact ⟨q, c, applied, hq, hv⟩
    | failed e => cases ha
    | cancelled => cases ha
  · rintro ⟨q, c, applied, hq, hv⟩
    exact ⟨q, hq, _, hv, rfl⟩

/-- Whether move `m` offers the answer of request `r` to its dialog. -/
def isOffered (s : Setting σ) (d : Desk σ) (m : Move σ) (r : Nat) : Bool :=
  d.requests[r]?.any (·.verdict?.isNone) && (d.move s m).isAnswered r

theorem isOffered_iff {m : Move σ} :
    isOffered s d m r = true ↔ ∃ q c applied, Answered s d m r q c applied := by
  simp only [isOffered, Bool.and_eq_true, Option.any_eq_true, Option.isNone_iff_eq_none,
    isAnswered_iff]
  constructor
  · rintro ⟨⟨q, hq, hn⟩, q', c, applied, hq', hv⟩
    exact ⟨q, c, applied, hq, hn, q', hq', hv⟩
  · rintro ⟨q, c, applied, hq, hn, q', hq', hv⟩
    exact ⟨⟨q, hq, hn⟩, q', c, applied, hq', hv⟩

/-- In how many moves of a run the answer of request `r` is offered to its dialog. -/
def offers (s : Setting σ) (r : Nat) : Desk σ → List (Move σ) → Nat
  | _, [] => 0
  | d, m :: ms => (if isOffered s d m r then 1 else 0) + offers s r (d.move s m) ms

theorem isAnswered_move (m : Move σ) (h : d.isAnswered r = true) :
    (d.move s m).isAnswered r = true := by
  obtain ⟨q, c, applied, hq, hv⟩ := isAnswered_iff.mp h
  obtain ⟨q', hq', -, -, hkept⟩ := request_kept (linesKept_move (s := s) d m) hq
  exact isAnswered_iff.mpr ⟨q', c, applied, hq', hkept _ hv⟩

/-- A request that has got its answer is not offered again. -/
theorem offers_of_isAnswered (h : d.isAnswered r = true) (ms : List (Move σ)) :
    offers s r d ms = 0 := by
  induction ms generalizing d with
  | nil => rfl
  | cons m ms ih =>
    have hnot : ¬ isOffered s d m r = true := by
      rw [isOffered_iff]
      rintro ⟨q, c, applied, hanswered⟩
      obtain ⟨q', c', applied', hq', hv⟩ := isAnswered_iff.mp h
      obtain rfl := Option.some.inj (hanswered.before.symm.trans hq')
      cases hanswered.unended.symm.trans hv
    rw [offers, if_neg hnot, ih (isAnswered_move m h)]

/-- **A request is offered to its dialog once at most.** -/
theorem offers_le_one (s : Setting σ) (r : Nat) (d : Desk σ) (ms : List (Move σ)) :
    offers s r d ms ≤ 1 := by
  induction ms generalizing d with
  | nil => exact Nat.zero_le 1
  | cons m ms ih =>
    rw [offers]
    by_cases h : isOffered s d m r = true
    · obtain ⟨q, c, applied, hanswered⟩ := isOffered_iff.mp h
      obtain ⟨q', hq', hv⟩ := hanswered.after
      rw [if_pos h, offers_of_isAnswered (isAnswered_iff.mpr ⟨q', c, applied, hq', hv⟩)]
    · rw [if_neg h]
      have := ih (d.move s m)
      omega

end Desk
end Admission
