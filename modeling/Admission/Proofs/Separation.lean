import Admission.Proofs.Closing
import Admission.Proofs.Desk.Owners
import Admission.Proofs.Desk.Waits

/-!
# Dialogs that are apart

A dialog that is put away, because it is dismissed or because another one takes its place, may leave
requests and errands behind that are still under way. Whatever becomes of them, no other dialog is
touched, and of what the dialog itself shows only the sign that it is being trusted changes. Which
dialog is shown is not said: a submission that is left behind may still take it away.
-/
namespace Admission

/-- Whether an operation puts away the dialog that is shown. -/
def Operation.putsAway : Operation → Bool
  | .dismiss | .openDialog _ _ => true
  | _ => false

/-- A closed dialog goes on to show what it showed, except for the sign that it is being trusted. -/
theorem Dialog.Frozen.snapshot {x y : Dialog} (h : x.Frozen y) :
    y.snapshot = { x.snapshot with trusting := y.trusting } := by
  simp [Dialog.snapshot, h.path, h.classification, h.warning]

namespace Desk

variable {σ : Type} {s : Setting σ} {d e : Desk σ} {a k : Nat} {m : Move σ}

/-- The move puts away dialog `a`, which is shown: it is dismissed, or another one is opened in its
place. -/
inductive PutsAway (d : Desk σ) (a : Nat) : Move σ → Prop
  | dismissed (ha : d.current = some a) : PutsAway d a .dismiss
  | byErrand {m : Move σ} {k : Nat} {e : Desk σ} {op : Operation} (ha : d.current = some a)
      (hruns : Runs d m k e) (hop : e.errands[k]? = some { operation := op })
      (hputs : op.putsAway = true) : PutsAway d a m

/-- A dialog that is put away is closed. -/
theorem PutsAway.closed (h : PutsAway d a m) (hd : Seated d) :
    ∃ y, (d.move s m).dialogs[a]? = some y ∧ y.closed = true := by
  cases h with
  | dismissed ha =>
    have hx := List.getElem?_eq_getElem (hd a ha)
    simp only [move, dismiss, dialogs_closeCurrent s, ha]
    exact closed_modify_close hx
  | @byErrand m k e op ha hruns hop hputs =>
    have ha : e.current = some a := hruns.found.current.trans ha
    have hx := List.getElem?_eq_getElem (hruns.found.seated hd a ha)
    rw [hruns.move]
    unfold runErrand
    rw [hop]
    cases op with
    | dismiss =>
      change ∃ y, e.dismiss.1.dialogs[a]? = some y ∧ y.closed = true
      simp only [dismiss, dialogs_closeCurrent s, ha]
      exact closed_modify_close hx
    | openDialog path wait =>
      have hlen : (e.closeCurrent.seat path).2 = e.dialogs.length := closeCurrent_length s e
      have hclosed := closed_opened s ha hx path .openInitial
      rw [← hlen] at hclosed
      obtain ⟨y, hy, hc⟩ := hclosed
      exact ⟨y, (congrArg (·[a]?) (leaves_afterEdit _ k _ _ wait _).dialogs).trans hy, hc⟩
    | _ => cases hputs

/-- Once a dialog has been put away, whatever happens for it leaves every other dialog as it is,
with all its requests, and so does what happens for nobody. What the dialog itself shows does not
change any more with any move, except for the sign that it is being trusted. -/
theorem dialogs_apart (s : Setting σ) (world : σ) (before : List (Move σ)) {d : Desk σ}
    (hd : d = (opening world []).after s before) {a : Nat} {m : Move σ} (hputs : PutsAway d a m)
    (ms : List (Move σ)) {e : Desk σ} (he : e = d.after s (m :: ms)) (n : Move σ) :
    (e.owner? n = some a ∨ e.owner? n = none →
      ∀ (b : Nat) (y : Dialog), b ≠ a → e.dialogs[b]? = some y →
        (e.move s n).dialogs[b]? = some y ∧
        ∀ (r : Nat) (q : Request), q.dialog = b →
          ((e.move s n).requests[r]? = some q ↔ e.requests[r]? = some q)) ∧
    ∃ x y, e.dialogs[a]? = some x ∧ (e.move s n).dialogs[a]? = some y ∧
      y.snapshot = { x.snapshot with trusting := y.trusting } := by
  have hreach : Reachable s d := hd ▸ (reachable_opening world []).after before
  have hreach' : Reachable s e := he ▸ hreach.after (m :: ms)
  constructor
  · intro hn b y hb hy
    have hother : e.owner? n ≠ some b := by
      rcases hn with hn | hn
      · exact fun h => hb (Option.some.inj (h.symm.trans hn))
      · exact fun h => by cases h.symm.trans hn
    have hapart := apart_move hreach'.orderly (List.getElem?_eq_some_iff.mp hy).1 n hother
    refine ⟨hapart.dialog.trans hy, fun r q hq => ⟨(hapart.requests r q · hq), fun h => ?_⟩⟩
    exact (congrArg Post.request (hapart.posts r q h hq)).trans h
  · obtain ⟨x, hx, hc⟩ := hputs.closed (s := s) hreach.seated
    obtain ⟨y, hy, hxy⟩ := frozen_after (s := s) hx hc ms
    obtain ⟨z, hz, hyz⟩ := frozen_move (s := s) hy hxy.closed n
    subst he
    exact ⟨y, z, hy, hz, hyz.snapshot⟩

/-- A dialog is opened, and its request waits for the classifier. -/
def underReview : List (Move Unit) := [.perform (.openDialog "/a" false), .step, .step]

/-- Another dialog takes the place of one whose request is then cancelled. -/
theorem dialogs_apart_replaced :
    ∃ e : Desk Unit, e = ((opening () []).after (patient "") underReview).after (patient "")
        [.perform (.openDialog "/b" false), .step] ∧
      e.owner? (.step : Move Unit) = some 0 ∧
      (∃ q, (e.move (patient "") .step).requests[0]? = some q ∧ q.verdict? = some .cancelled) ∧
      ∃ y, e.dialogs[1]? = some y ∧ (e.move (patient "") .step).dialogs[1]? = some y ∧
        ∀ (r : Nat) (q : Request), q.dialog = 1 →
          ((e.move (patient "") .step).requests[r]? = some q ↔ e.requests[r]? = some q) := by
  have h := (dialogs_apart (patient "") () underReview rfl (a := 0)
    (m := .perform (.openDialog "/b" false))
    (.byErrand rfl (.atOnce _) rfl rfl) [.step] rfl .step).1 (Or.inl rfl) 1 _ (by decide) rfl
  exact ⟨_, rfl, rfl, ⟨_, rfl, rfl⟩, _, rfl, h⟩

end Desk
end Admission
