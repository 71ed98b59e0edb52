import Admission.Proofs.Desk.Wakeful

/-!
# Desks at rest

A desk rests when no job waits and no limit is due. Nobody is in line then, so whatever has not
ended waits for somebody outside.
-/
namespace Admission
namespace Desk

variable {σ : Type} {s : Setting σ} {d : Desk σ}

/-- Nobody is in line at a desk at rest. -/
theorem jobs_of_rest (h : d.step s = none) : d.agenda.jobs = [] := by
  obtain ⟨hnow, hnext, -⟩ := step_eq_none_iff.mp h
  rw [Agenda.jobs, hnow, hnext, List.append_nil]

/-- At rest every request has had its first run. -/
theorem Reachable.not_created_of_rest (hd : Reachable s d) (h : d.step s = none) {r : Nat}
    {q : Request} (hq : d.requests[r]? = some q) : q.stage ≠ .created := by
  intro hs
  have hwakes := hd.wakeful r q hq
  simp only [Request.Wakes, hs, post, jobs_of_rest h] at hwakes
  exact absurd hwakes.1 (Nat.lt_irrefl 0)

end Desk
end Admission
