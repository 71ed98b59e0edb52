import Admission.Proofs.Desk.Waits

/-!
# Errands in front of a gate

An errand that has called a service behind a gate stays there, with what it has called it for, until
its turn comes. It is known then whether it has been cancelled, and what it does to the desk can be
told apart from what happens to the errand. When a gate is opened is not said.
-/
namespace Admission
namespace Desk

variable {σ : Type} {s : Setting σ} {d e : Desk σ} {b : Prop} {service : Gated} {op : Operation}
  {i k : Nat} {text : String} {m : Move σ} {x : Errand}

/-! ## What is no errand's -/

/-- Desk `e` is desk `d`, save for errand `k`. -/
structure SaveFor (k : Nat) (d e : Desk σ) : Prop where
  desk : { e with errands := d.errands } = d
  errands : ∀ j, j ≠ k → e.errands[j]? = d.errands[j]?

theorem saveFor_onErrand (d : Desk σ) (k : Nat) (g : Errand → Errand) :
    SaveFor k d (d.onErrand k g) :=
  ⟨rfl, fun _ hj => List.getElem?_modify_ne _ _ (Ne.symm hj)⟩

theorem SaveFor.dialogs (h : SaveFor k d e) : e.dialogs = d.dialogs :=
  (congrArg Desk.dialogs h.desk :)

theorem SaveFor.requests (h : SaveFor k d e) : e.requests = d.requests :=
  (congrArg Desk.requests h.desk :)

theorem SaveFor.agenda (h : SaveFor k d e) : e.agenda = d.agenda := (congrArg Desk.agenda h.desk :)

theorem SaveFor.world (h : SaveFor k d e) : e.world = d.world := (congrArg Desk.world h.desk :)

/-! ## While an errand waits -/

/-- An errand that has called a service for dialog `i` with `text`. -/
def Gated.progress (service : Gated) (i : Nat) (text : String) (gate : Nat) (a : Signal) :
    Progress :=
  match service with
  | .trustStore => .trusting i text gate a
  | .registrar => .registering i text gate a

/-- Errand `k`, which runs `op`, has called a service for dialog `i` with `text` and is not through
with it; `b` says whether it has been cancelled. -/
inductive AtGate (service : Gated) (b : Prop) (d : Desk σ) (k i : Nat) (text : String)
    (op : Operation) : Prop
  | intro {gate : Nat} {a : Signal} {stopping : Bool}
      (found : d.errands[k]? = some ⟨op, service.progress i text gate a, stopping⟩)
      (cancelled : b ↔ stopping = true ∨ a = .withdrawn) : AtGate service b d k i text op

theorem AtGate.congr {b' : Prop} (h : AtGate service b d k i text op) (hb : b' ↔ b) :
    AtGate service b' d k i text op := by
  obtain ⟨found, cancelled⟩ := h
  exact ⟨found, hb.trans cancelled⟩

/-- An errand that comes to a gate has not been cancelled. -/
theorem atGate_await {gate : Nat} (hx : d.errands[k]? = some { operation := op }) :
    AtGate service False (d.await k (service.progress i text gate .waiting)) k i text op := by
  have hwaits : (d.await k (service.progress i text gate .waiting)).errands[k]? =
      some ⟨op, service.progress i text gate .waiting, false⟩ := by
    simp [await, onErrand, hx]
  exact ⟨hwaits, by simp⟩

/-- A gate lets an errand pass that waits in front of it. -/
theorem passing_progress {opened : Gated} {g gate : Nat} {a : Signal} {p : Progress}
    (h : passing opened g (service.progress i text gate a) = some p) :
    a = .waiting ∧ p = service.progress i text gate .given := by
  cases service <;> cases a <;> simp only [passing, Gated.progress] at h
  case trustStore.waiting | registrar.waiting =>
    split at h
    · exact ⟨rfl, (Option.some.inj h).symm⟩
    · cases h
  all_goals cases h

theorem withdrawn?_progress {gate : Nat} {a : Signal} {p : Progress}
    (h : (service.progress i text gate a).withdrawn? = some p) :
    p = service.progress i text gate .withdrawn := by
  cases service <;> cases a <;> cases h <;> rfl

theorem progress_ne_ended {gate : Nat} {a : Signal} (v : Ending) :
    service.progress i text gate a ≠ .ended v := by
  cases service <;> nofun

/-- A move that does not run the errand leaves it where it is, and cancels it or does not. -/
theorem AtGate.move (h : AtGate service b d k i text op) (hruns : ∀ e, ¬ Runs d m k e) :
    AtGate service (b ∨ m = .cancelErrand k) (d.move s m) k i text op := by
  obtain ⟨found, hb⟩ := h
  by_cases hm : m = .cancelErrand k
  · subst hm
    rcases slot_of_cancel found progress_ne_ended (slot_cancelErrand_self d k) with
      ⟨p, hp, herrand, -⟩ | ⟨-, herrand, -⟩
    · obtain rfl := withdrawn?_progress hp
      exact ⟨herrand, by simp⟩
    · exact ⟨herrand, by simp⟩
  · have hsame (hslot : (d.move s m).slot k = d.slot k) :
        AtGate service (b ∨ m = .cancelErrand k) (d.move s m) k i text op :=
      ⟨(slot_eq_iff.mp hslot).1.trans found, by simpa [hm] using hb⟩
    cases slot_move (s := s) d k m with
    | runs hr => exact absurd hr (hruns _)
    | told _ hslot =>
      exact hsame (slot_of_not_wake found hslot (by cases service <;> rfl))
    | @passed opened g hslot =>
      cases hp : passing opened g (service.progress i text _ _) with
      | none => exact hsame (slot_of_not_wake found hslot hp)
      | some p =>
        obtain ⟨herrand, -⟩ := slot_of_wake found hslot hp
        obtain ⟨rfl, rfl⟩ := passing_progress hp
        exact ⟨herrand, by simpa using hb⟩
    | cancelled => exact absurd rfl hm
    | spawned hk _ =>
      have hlt := (List.getElem?_eq_some_iff.mp found).1
      omega
    | still _ hslot => exact hsame hslot

/-- On every run the errand stays where it is, or its turn comes. -/
theorem AtGate.after (h : AtGate service b d k i text op) (ms : List (Move σ)) :
    AtGate service (b ∨ .cancelErrand k ∈ ms) (d.after s ms) k i text op ∨
      ∃ before later e, ms = before ++ .step :: later ∧
        AtGate service (b ∨ .cancelErrand k ∈ before) (d.after s before) k i text op ∧
        Runs (d.after s before) .step k e := by
  induction ms generalizing d b with
  | nil => exact .inl (h.congr (by simp))
  | cons m ms ih =>
    by_cases hruns : ∃ e, Runs d m k e
    · obtain ⟨e, hruns⟩ := hruns
      obtain ⟨found, -⟩ := id h
      cases hruns with
      | inLine hnow => exact .inr ⟨[], ms, _, rfl, h.congr (by simp), .inLine hnow⟩
      | atOnce op => exact absurd (List.getElem?_eq_some_iff.mp found).1 (Nat.lt_irrefl _)
    · rcases ih (h.move (s := s) fun e he => hruns ⟨e, he⟩) with
        hstill | ⟨before, later, e, rfl, hthere, he⟩
      · exact .inl (hstill.congr (by simp [or_assoc, eq_comm]))
      · exact .inr ⟨m :: before, later, e, rfl, hthere.congr (by simp [or_assoc, eq_comm]), he⟩

/-! ## When its turn comes -/

/-- The errand finds itself stopped just if it has been cancelled. -/
theorem AtGate.turn (h : AtGate service b d k i text op) (hd : Reachable s d)
    (hruns : Runs d m k e) : ∃ gate a stopping,
      e.errands[k]? = some ⟨op, service.progress i text gate a, stopping⟩ ∧
      (b ↔ (stopping || a != .given) = true) := by
  obtain ⟨found, hb⟩ := h
  rename_i gate a stopping
  refine ⟨gate, a, stopping, hruns.errand found, ?_⟩
  have hmay := hruns.mayRun found (hd.queued k)
  rw [hb]
  cases service <;> cases a <;> simp_all [Progress.mayRun, Gated.progress]

end Desk
end Admission
