import Admission.Desk.Run

/-!
# Moves

Whatever may happen to a desk, in any order: its next job is run, or something comes from outside.
A run is a list of moves from a desk whose dialogs are new.
-/
namespace Admission

inductive Move (σ : Type) where
  /-- The next job, or the next pass. -/
  | step
  /-- A user does something to the path of a dialog. -/
  | edit (dialog : Nat) (e : Edit)
  /-- An operation waits in line. -/
  | spawn (op : Operation)
  /-- An operation starts at once. -/
  | perform (op : Operation)
  | close (dialog : Nat)
  /-- The dialog that is shown is dismissed and put away. -/
  | dismiss
  | answer (call : Nat) (outcome : Except Failure Classification)
  | openGate (service : Desk.Gated) (gate : Nat)
  | cancelRequest (request : Nat)
  | cancelErrand (errand : Nat)
  | advance (seconds : Float)
  | alter (f : σ → σ)

namespace Desk

variable {σ : Type}

def move (s : Setting σ) (d : Desk σ) : Move σ → Desk σ
  | .step => (d.step s).getD d
  | .edit i e => (d.amend i e).1
  | .spawn op => (d.spawn op).1
  | .perform op => (d.perform s op).1
  | .close i => d.closeDialog i
  | .dismiss => d.dismiss.1
  | .answer c outcome => (d.answer c outcome).1
  | .openGate service gate => d.openGate service gate
  | .cancelRequest r => (d.cancelRequest r).1
  | .cancelErrand e => (d.cancelErrand e).1
  | .advance seconds => d.advance seconds
  | .alter f => d.alter f

def after (s : Setting σ) (d : Desk σ) (ms : List (Move σ)) : Desk σ := ms.foldl (move s) d

/-- A desk with new dialogs, opened with these paths. -/
def opening (world : σ) (paths : List String) : Desk σ where
  world := world
  dialogs := paths.map fun path => { initial := path }

/-- The desks that a run may come to. -/
def Reachable (s : Setting σ) (d : Desk σ) : Prop :=
  ∃ (world : σ) (paths : List String) (ms : List (Move σ)), d = (opening world paths).after s ms

/-- Services that keep every classifier call waiting and grant whatever else they are asked. -/
def patient (home : String) : Setting Unit where
  classify _ w := (none, w)
  trustGate _ := none
  trust _ w := (.ok (), w)
  registerGate _ := none
  register paths w := (.ok paths, w)
  registered _ := []
  home := home

variable {s : Setting σ}

theorem after_append (d : Desk σ) (ms ns : List (Move σ)) :
    d.after s (ms ++ ns) = (d.after s ms).after s ns := List.foldl_append ..

theorem after_concat (d : Desk σ) (ms : List (Move σ)) (m : Move σ) :
    d.after s (ms ++ [m]) = (d.after s ms).move s m := after_append d ms [m]

theorem reachable_opening (world : σ) (paths : List String) :
    Reachable s (opening world paths) := ⟨world, paths, [], rfl⟩

theorem Reachable.after {d : Desk σ} (h : Reachable s d) (ms : List (Move σ)) :
    Reachable s (d.after s ms) := by
  obtain ⟨world, paths, ns, rfl⟩ := h
  exact ⟨world, paths, ns ++ ms, (after_append _ ns ms).symm⟩

theorem Reachable.move {d : Desk σ} (h : Reachable s d) (m : Move σ) :
    Reachable s (d.move s m) := h.after [m]

end Desk
end Admission
