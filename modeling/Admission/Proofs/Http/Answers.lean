import Admission.Http.Exchange
import Admission.Proofs.Standing

/-!
# Answers and their statuses

A reply is shown with status 200, and an error with 404, 409 or 500. Only what could not be shown,
which is a warning that is itself outstanding or an empty path, makes a reply or a conflict an error
of the server.
-/
namespace Admission.Http

open Json (Value)
open Wire (SnapshotRecord)

/-- A warning that is not outstanding can be shown. -/
theorem warningKindOf_ok {w : Assessment} (h : w ≠ .pending) :
    ∃ kind, SnapshotRecord.warningKindOf w = .ok kind := by
  cases w with
  | blank => exact ⟨_, rfl⟩
  | pending => exact absurd rfl h
  | settled c => exact ⟨_, rfl⟩

theorem showing_of_warning {g : Snapshot} (h : g.warning ≠ .pending) :
    ∃ shown, SnapshotRecord.ofSnapshot g = .ok shown ∧
      ∀ answer, showing g answer = answer shown.toValue := by
  obtain ⟨kind, hkind⟩ := warningKindOf_ok h
  obtain ⟨shown, hshown⟩ : ∃ shown, SnapshotRecord.ofSnapshot g = .ok shown :=
    ⟨_, by rw [SnapshotRecord.ofSnapshot, hkind]; rfl⟩
  exact ⟨shown, hshown, fun answer => by rw [showing, hshown]⟩

theorem status_showing (g : Snapshot) {answer : Value → Answer} {n : Nat}
    (h : ∀ v, (answer v).response.status = n) :
    (showing g answer).response.status = n ∨ (showing g answer).response.status = 500 := by
  unfold showing
  split
  · exact Or.inl (h _)
  · exact Or.inr rfl

theorem status_recording {α : Type} (record : Wire.Checked α) {answer : α → Answer} {n : Nat}
    (h : ∀ a, (answer a).response.status = n) :
    (recording record answer).response.status = n ∨
      (recording record answer).response.status = 500 := by
  unfold recording
  split
  · exact Or.inl (h _)
  · exact Or.inr rfl

theorem status_replyAnswer (reply : Reply) :
    (replyAnswer reply).response.status = 200 ∨ (replyAnswer reply).response.status = 500 := by
  cases reply with
  | shown g => exact status_showing g fun _ => rfl
  | trustShown granted g => exact status_showing g fun _ => rfl
  | added path => exact status_recording _ fun _ => rfl
  | listed paths => exact status_recording _ fun _ => rfl
  | _ => exact Or.inl rfl

theorem status_conflict (code : String) (e : Error) (g : Snapshot) :
    (conflict code e g).response.status = 409 ∨ (conflict code e g).response.status = 500 :=
  status_showing g fun _ => rfl

theorem status_errorAnswer (c : Command) (e : Error) :
    (errorAnswer c e).response.status ∈ [404, 409, 500] := by
  have hconflict (code : String) (g : Snapshot) :
      (conflict code e g).response.status ∈ [404, 409, 500] := by
    rcases status_conflict code e g with h | h <;> simp [h]
  unfold errorAnswer
  split
  · simp [Answer.detail, Answer.json]
  · exact hconflict _ _
  · exact hconflict _ _
  · split <;> simp [Answer.detail, Answer.json, Answer.fault]
  · simp [Answer.fault]

theorem errorAnswer_not_ok (c : Command) (e : Error) : (errorAnswer c e).response.status ≠ 200 := by
  intro hok
  have h := status_errorAnswer c e
  simp [hok] at h

/-- Only a refusal is answered as one. -/
theorem status_errorAnswer_of_not_refuses (c : Command) {e : Error} (h : e.refuses = false) :
    (errorAnswer c e).response.status = 500 := by
  cases e with
  | noDialog => cases h
  | notDubious g => cases h
  | notAdmissible g => cases h
  | failure f =>
    dsimp only [errorAnswer]
    split <;> rfl
  | _ => rfl

end Admission.Http
