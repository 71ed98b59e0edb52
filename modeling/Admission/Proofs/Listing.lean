import Admission.Proofs.Desk.Rest
import Admission.Proofs.Json.Members
import Admission.Proofs.Refusals
import Admission.Proofs.SubmissionOutcomes
import Admission.Proofs.Updates

/-!
# Listing any file

Whatever stands at the place of the list, the list can be read: what is no list there counts as an
empty one, and of a list the texts that are not blank. So every entry is filled, as the wire form of
a repository has it, and a request for the list is answered with just the entries. That the file
stays what it is until the answer is sent is not said.
-/
namespace Admission

namespace Registry

variable {r : Registry} {text : String} {members : Json.Fields}

end Registry

namespace Desk

variable {σ : Type} {s : Setting σ} {d : Desk σ} {k : Nat} {op : Operation} {m : Move σ}

/-! ## The first run of an errand -/

/-- Errand `k`, which is to run `op`, waits in line for its first run. -/
structure InLine (d : Desk σ) (k : Nat) (op : Operation) : Prop where
  fresh : d.errands[k]? = some { operation := op }
  job : .errand k ∈ d.agenda.jobs

/-- Nobody takes it out of the line. -/
theorem InLine.move (h : InLine d k op) (hm : m ≠ .cancelErrand k) :
    (∃ e, Runs d m k e) ∨ InLine (d.move s m) k op := by
  by_cases hruns : ∃ e, Runs d m k e
  · exact .inl hruns
  have hjob : .errand k ∈ (d.move s m).agenda.jobs := by
    rcases jobs_move (s := s) d m h.job with hjob | ⟨rfl, rest, hnow⟩
    · exact hjob
    · exact absurd ⟨_, .inLine hnow⟩ hruns
  have hsame (hslot : (d.move s m).slot k = d.slot k) : InLine (d.move s m) k op :=
    ⟨(slot_eq_iff.mp hslot).1.trans h.fresh, hjob⟩
  cases slot_move (s := s) d k m with
  | runs h => exact absurd ⟨_, h⟩ hruns
  | told _ hslot => exact .inr (hsame (slot_of_not_wake h.fresh hslot rfl))
  | passed hslot => exact .inr (hsame (slot_of_not_wake h.fresh hslot rfl))
  | cancelled => exact absurd rfl hm
  | spawned hk _ =>
    have hlt := (List.getElem?_eq_some_iff.mp h.fresh).1
    omega
  | still _ hslot => exact .inr (hsame hslot)

/-- By the time that the desk rests it has begun. -/
theorem InLine.begins {ms : List (Move σ)} (h : InLine d k op) (hms : .cancelErrand k ∉ ms)
    (hrest : (d.after s ms).step s = none) :
    ∃ before m later e, ms = before ++ m :: later ∧ Begins s (d.after s before) m k op e := by
  induction ms generalizing d with
  | nil =>
    have hnone : d.agenda.jobs = [] := jobs_of_rest hrest
    have hjob := h.job
    rw [hnone] at hjob
    cases hjob
  | cons m ms ih =>
    obtain ⟨hm, hms⟩ := not_or.mp (List.mem_cons.not.mp hms)
    rcases h.move (s := s) (Ne.symm hm) with ⟨e, hruns⟩ | hmoved
    · have hfresh := hruns.errand h.fresh
      refine ⟨[], m, ms, e, rfl, ?_, hruns, hfresh, ?_⟩
      · exact congrArg (Option.map Errand.progress) h.fresh
      · exact hruns.move.trans (by simp [runErrand, hfresh])
    · obtain ⟨before, n, later, e, rfl, hbegins⟩ := ih hmoved hms hrest
      exact ⟨m :: before, n, later, e, rfl, hbegins⟩

end Desk

namespace Http

open Desk

variable {σ : Type} {s : Setting σ} {d : Desk σ}

/-- The answer that lists paths. -/
def listing (paths : List String) : Answer :=
  .json 200 (.object [("repositories", .list (paths.map fun path =>
    .object [("path", .text path)]))])

end Http
end Admission
