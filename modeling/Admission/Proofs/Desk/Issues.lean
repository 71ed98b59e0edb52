import Admission.Proofs.Ledger

/-!
# The ledger of a desk

On every run the dialogs of a desk agree with its requests: a new request comes with the edit that
calls for it, and the end of a request with what its answer does to its dialog. Which calls the
answers come from is not said.
-/
namespace Admission
namespace Desk

variable {σ : Type} {s : Setting σ} {d e : Desk σ}

/-- The lines of the ledger, one for each request. -/
def issues (d : Desk σ) : List Issue := d.requests.map Request.issue

theorem getElem?_issues (d : Desk σ) (r : Nat) :
    d.issues[r]? = d.requests[r]?.map Request.issue := by
  simp [issues]

theorem issue_of_request {r : Nat} {q : Request} (h : d.requests[r]? = some q) :
    d.issues[r]? = some q.issue := by
  simp [issues, h]

theorem request_of_issue {r : Nat} {l : Issue} (h : d.issues[r]? = some l) :
    ∃ q, d.requests[r]? = some q ∧ q.issue = l := by
  rw [getElem?_issues] at h
  exact Option.map_eq_some_iff.mp h

/-- A change of a request that leaves its line as it is. -/
theorem issues_onRequest {r : Nat} {f : Request → Request}
    (h : ∀ q, d.requests[r]? = some q → (f q).issue = q.issue) :
    (d.onRequest r f).issues = d.issues := by
  refine List.ext_getElem? fun r' => ?_
  rw [getElem?_issues, getElem?_issues]
  simp only [onRequest, List.getElem?_modify]
  cases hq : d.requests[r']? with
  | none => rfl
  | some q =>
    by_cases he : r = r'
    · subst he
      simpa using h q hq
    · simp [he]

theorem issues_ended (d : Desk σ) (r : Nat) {f : Request → Request} {v : Verdict}
    (h : ∀ q, d.requests[r]? = some q → (f q).issue = { q.issue with verdict? := some v }) :
    (d.onRequest r f).issues = enterVerdict d.issues r v := by
  refine List.ext_getElem? fun r' => ?_
  rw [getElem?_issues, enterVerdict, List.getElem?_modify, getElem?_issues]
  simp only [onRequest, List.getElem?_modify]
  cases hq : d.requests[r']? with
  | none => rfl
  | some q =>
    by_cases he : r = r'
    · subst he
      simpa using h q hq
    · simp [he]

theorem issues_endRequest (d : Desk σ) (r : Nat) (v : Verdict) :
    (d.endRequest r v).issues = enterVerdict d.issues r v :=
  issues_ended d r fun _ _ => rfl

/-- A change of a request, short of an answer, leaves its line as it is or enters its end. -/
theorem Pace.issue {r : Nat} {q q' : Request} (h : Pace s d r q q') :
    q'.issue = q.issue ∨ ∃ v, v.answer? = none ∧ q.verdict? = none ∧
      q'.issue = { q.issue with verdict? := some v } := by
  cases h with
  | @ended v hv hs => exact Or.inr ⟨v, hv, hs, rfl⟩
  | marked => exact Or.inl rfl
  | probed => exact Or.inl rfl
  | called hs => exact Or.inl (by simp [Request.issue, Request.verdict?, hs])
  | raced hs => exact Or.inl (by simp [Request.issue, Request.verdict?, hs])
  | expired hs => exact Or.inl (by simp [Request.issue, Request.verdict?, hs])
  | signalled b hs => exact Or.inl (by simp [Request.issue, Request.verdict?, hs])
  | withdrew late hs => exact Or.inl (by simp [Request.issue, Request.verdict?, hs])
  | stopped hs => exact Or.inl (by simp [Request.issue, Request.verdict?, hs])

/-- A request that is due has not ended. -/
theorem Due.verdict {r : Nat} {q : Request} {o : Except Failure Classification}
    (h : Due s d r q o) : q.verdict? = none := by
  cases h with
  | atOnce hs => simp [Request.verdict?, hs]
  | called hs => simp [Request.verdict?, hs]
  | found hs =>
    unfold Request.verdict?
    split
    · rename_i hv
      simp [hv, Stage.isTimed] at hs
    · rfl
  | late hs => simp [Request.verdict?, hs]

theorem issues_ask (d : Desk σ) (i : Nat) (x : Dialog) (path : String) :
    (d.ask i x path).1.issues =
      d.issues ++ if x.asks path then [⟨i, x.issued + 1, path, none⟩] else [] := by
  unfold ask
  split <;> simp [issues, enqueue, Request.issue, Request.verdict?, *]

theorem dialogs_ask (d : Desk σ) (i : Nat) (x : Dialog) (path : String) :
    (d.ask i x path).1.dialogs = d.dialogs := by
  unfold ask
  split <;> rfl

theorem calls_ask (d : Desk σ) (i : Nat) (x : Dialog) (path : String) :
    (d.ask i x path).1.calls = d.calls := by
  unfold ask
  split <;> rfl

theorem dialogs_tellProbeEnded (d : Desk σ) (r : Nat) :
    (d.tellProbeEnded r).dialogs = d.dialogs := by
  unfold tellProbeEnded
  split <;> rfl

theorem calls_tellProbeEnded (d : Desk σ) (r : Nat) : (d.tellProbeEnded r).calls = d.calls := by
  unfold tellProbeEnded
  split <;> rfl

theorem issues_tellProbeEnded (d : Desk σ) (r : Nat) :
    (d.tellProbeEnded r).issues = d.issues := by
  unfold tellProbeEnded
  split
  · rename_i hs
    refine issues_onRequest fun q hq => ?_
    rw [hq] at hs
    simp [Request.issue, Request.verdict?, Option.some.inj hs]
  · rename_i late hs
    refine issues_onRequest fun q hq => ?_
    rw [hq] at hs
    simp [Request.issue, Request.verdict?, Option.some.inj hs]
  · rfl

/-! ## The invariant -/

/-- Dialogs and requests agree. -/
def Booked (d : Desk σ) : Prop := Ledger d.dialogs d.issues

theorem Booked.congr (h : Booked d) (hd : e.dialogs = d.dialogs) (hi : e.issues = d.issues) :
    Booked e := by
  unfold Booked
  rw [hd, hi]
  exact h

/-- A request ends, and its dialog takes what there is to take. -/
theorem Booked.enter (h : Booked d) {r : Nat} {q : Issue} {v : Verdict} {f : Dialog → Dialog}
    (hq : d.issues[r]? = some q)
    (hf : ∀ {x : Dialog}, d.dialogs[q.dialog]? = some x → Agrees q.dialog x d.issues →
      Agrees q.dialog (f x) (enterVerdict d.issues r v)) :
    Ledger (d.dialogs.modify q.dialog f) (enterVerdict d.issues r v) := by
  refine Ledger.onDialog h (fun {r' q'} hq' => ?_) (fun {r₁ r₂ q₁ q₂} hlt h₁ h₂ hd => ?_) hf
    (fun {r' q'} hd => ?_)
  · rcases of_getElem?_enterVerdict hq hq' with ⟨-, rfl⟩ | ⟨-, hq'⟩
    · have hhome := h.homed hq
      exact hhome
    · exact h.homed hq'
  · rcases of_getElem?_enterVerdict hq h₁ with ⟨rfl, rfl⟩ | ⟨-, h₁⟩ <;>
      rcases of_getElem?_enterVerdict hq h₂ with ⟨rfl, rfl⟩ | ⟨-, h₂⟩
    · omega
    · have := h.ordered hlt hq h₂ hd
      exact this
    · have := h.ordered hlt h₁ hq hd
      exact this
    · exact h.ordered hlt h₁ h₂ hd
  · constructor
    · intro hq'
      rcases of_getElem?_enterVerdict hq hq' with ⟨-, rfl⟩ | ⟨-, hq'⟩
      · exact absurd rfl hd
      · exact hq'
    · intro hq'
      by_cases he : r = r'
      · subst he
        obtain rfl := Option.some.inj (hq.symm.trans hq')
        exact absurd rfl hd
      · exact (getElem?_enterVerdict_of_ne he).trans hq'

/-- A request that ends without an answer leaves its dialog alone. -/
theorem Booked.drop (h : Booked d) {r : Nat} {q : Issue} {v : Verdict} (hv : v.answer? = none)
    (hq : d.issues[r]? = some q) (hn : q.verdict? = none) :
    Ledger d.dialogs (enterVerdict d.issues r v) := by
  have := h.enter (f := id) (v := v) hq fun hx ha => ha.dropped hq hn fun c applied he => by
    subst he
    cases hv
  rwa [List.modify_id] at this

/-- A new request, if the edit calls for one, with what the edit does to its dialog. -/
theorem Booked.ask (h : Booked d) {i : Nat} {x : Dialog} {path : String} {f : Dialog → Dialog}
    (hx : d.dialogs[i]? = some x)
    (hf : Agrees i (x.edit path) (d.ask i x path).1.issues →
      Agrees i (f x) (d.ask i x path).1.issues) :
    Booked ((d.ask i x path).1.onDialog i f) := by
  have hold {r : Nat} {q : Issue} (hq : (d.ask i x path).1.issues[r]? = some q) :
      d.issues[r]? = some q ∨ (r = d.issues.length ∧ q = ⟨i, x.issued + 1, path, none⟩) := by
    rw [issues_ask] at hq
    split at hq
    · exact getElem?_concat_eq_some_iff.mp hq
    · rw [List.append_nil] at hq
      exact Or.inl hq
  have hkeep {r : Nat} {q : Issue} (hq : d.issues[r]? = some q) :
      (d.ask i x path).1.issues[r]? = some q := by
    rw [issues_ask]
    exact (List.getElem?_append_left (List.getElem?_eq_some_iff.mp hq).1).trans hq
  have hbound {r : Nat} {q : Issue} (hq : d.issues[r]? = some q) : r < d.issues.length :=
    (List.getElem?_eq_some_iff.mp hq).1
  unfold Booked
  simp only [Desk.onDialog, dialogs_ask]
  refine Ledger.onDialog h (fun hq => ?_) (fun {r r' q q'} hlt hq hq' hd => ?_)
    (fun hx' ha => ?_) (fun {r q} hd => ?_)
  · rcases hold hq with hq | ⟨-, rfl⟩
    · exact h.homed hq
    · exact (List.getElem?_eq_some_iff.mp hx).1
  · rcases hold hq with hq | ⟨rfl, rfl⟩ <;> rcases hold hq' with hq' | ⟨rfl, rfl⟩
    · exact h.ordered hlt hq hq' hd
    · have := ((h.agrees hx).owned hq hd).2.1
      simpa using Nat.lt_succ_of_le this
    · have := hbound hq'
      omega
    · omega
  · obtain rfl := Option.some.inj (hx.symm.trans hx')
    refine hf ?_
    rw [issues_ask]
    exact ha.edit path
  · constructor
    · intro hq
      rcases hold hq with hq | ⟨-, rfl⟩
      · exact hq
      · exact absurd rfl hd
    · exact hkeep

/-- A dialog changes in what the ledger does not count, or is closed. -/
theorem Booked.aside (h : Booked d) (i : Nat) {f : Dialog → Dialog}
    (hf : f = Dialog.startTrust ∨ f = Dialog.stopTrust ∨ f = Dialog.close) :
    Booked (d.onDialog i f) := by
  refine Ledger.onDialog h h.homed h.ordered (fun _ ha => ?_) (fun _ => Iff.rfl)
  rcases hf with rfl | rfl | rfl
  · exact ha.aside rfl rfl rfl rfl rfl id
  · exact ha.aside rfl rfl rfl rfl rfl id
  · exact ha.aside rfl rfl rfl rfl rfl nofun

theorem Booked.seat (h : Booked d) (path : String) : Booked (d.seat path).1 where
  homed hq := by
    have := h.homed hq
    simp only [Desk.seat, List.length_append, List.length_singleton]
    omega
  ordered := h.ordered
  agrees hx := by
    rcases getElem?_concat_eq_some_iff.mp hx with hx | ⟨rfl, rfl⟩
    · exact h.agrees hx
    · exact Agrees.new rfl rfl rfl rfl rfl fun hq => Nat.ne_of_lt (h.homed hq)

theorem Booked.pace (h : Booked d) {r : Nat} {f : Request → Request}
    (hf : ∀ q, d.requests[r]? = some q → Pace s d r q (f q)) : Booked (d.onRequest r f) := by
  cases hq : d.requests[r]? with
  | none => exact h.congr rfl (issues_onRequest fun q hq' => by rw [hq] at hq'; cases hq')
  | some q =>
    have hself {q' : Request} (hq' : d.requests[r]? = some q') : q' = q :=
      Option.some.inj (hq'.symm.trans hq)
    rcases (hf q hq).issue with he | ⟨v, hv, hn, he⟩
    · exact h.congr rfl (issues_onRequest fun q' hq' => by rw [hself hq', he])
    · unfold Booked
      rw [issues_ended d r fun q' hq' => by rw [hself hq', he]]
      exact h.drop hv (issue_of_request hq) hn

theorem Booked.conclude (h : Booked d) {r : Nat} {q : Request}
    {o : Except Failure Classification} (hq : d.requests[r]? = some q) (ho : Due s d r q o) :
    Booked (conclude s d r o) := by
  have hline := issue_of_request hq
  have hn := ho.verdict
  unfold Desk.conclude
  rw [hq]
  split
  · exact h
  · unfold Booked
    rw [issues_endRequest]
    exact h.drop rfl hline hn
  · rename_i q' c hq' _
    obtain rfl := Option.some.inj hq'
    unfold Booked
    rw [issues_endRequest]
    refine h.enter hline fun {x} hx ha => ?_
    change d.dialogs[q.dialog]? = some x at hx
    rw [hx]
    by_cases hacc : x.accepts q.path (some q.number) = true
    · simp only [Option.any_some, hacc]
      rw [Dialog.offer_of_accepts hacc]
      exact ha.counted h.ordered hline rfl hacc
    · rw [Dialog.offer_of_not_accepts hacc]
      refine ha.dropped hline hn fun c' applied he => ?_
      obtain ⟨-, rfl⟩ := Verdict.answered.inj he
      exact ⟨by simpa using hacc, fun _ => hacc⟩

theorem Booked.change (hc : Change s d e) (h : Booked d) : Booked e := by
  cases hc with
  | around hd hr => exact h.congr hd (by rw [issues, hr, issues])
  | seat path => exact h.seat path
  | aside i hf => exact h.aside i hf
  | edit i path =>
    unfold Desk.edit
    split
    · exact h
    · rename_i x hx
      exact h.ask hx id
  | endTrust hx => exact h.ask hx fun ha => ha.aside rfl rfl rfl rfl rfl id
  | call => exact h.congr rfl rfl
  | endCall => exact h.congr rfl rfl
  | pace hf => exact h.pace hf
  | endProbe hq => exact h.congr rfl (issues_onRequest fun _ _ => rfl)
  | @probeTold r rest _ =>
    have hpop : Booked ({ d with agenda := { d.agenda with now := rest } } : Desk σ) := h
    exact hpop.congr (dialogs_tellProbeEnded _ r) (issues_tellProbeEnded _ r)

/-- On every run, dialogs and requests agree. -/
theorem Reachable.booked (h : Reachable s d) : Booked d := by
  refine h.invariant (fun world paths => ?_) (fun hc hb => hb.change hc)
    fun hq ho hb => hb.conclude hq ho
  refine ⟨nofun, nofun, fun {i x} hx => ?_⟩
  obtain ⟨path, -, rfl⟩ := by simpa [opening] using hx
  exact Agrees.new rfl rfl rfl rfl rfl nofun

end Desk
end Admission
