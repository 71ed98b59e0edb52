import Admission.Proofs.Closing
import Admission.Proofs.Desk.Endings

/-!
# What is outstanding when a dialog is closed

A dialog that is closed takes no edit and no answer any more, whatever was under way. A request that
had not ended before the closing move may still be answered, as its reply may have been on its way;
the answer is not applied then. Such requests do end, with nothing but steps: the classifier need
not answer, and no time has to pass.
-/
namespace Admission
namespace Desk

variable {σ : Type} {s : Setting σ} {d e f : Desk σ} {i r : Nat} {x : Dialog} {q : Request}
  {c : Classification}

theorem amend_of_closed (hx : d.dialogs[i]? = some x) (hc : x.closed = true) (edit : Edit) :
    d.amend i edit = (d, none) := by
  have hsame (path : String) : d.onDialog i (·.edit path) = d := by
    have hdialogs : d.dialogs.modify i (·.edit path) = d.dialogs := by
      refine List.ext_getElem? fun j => ?_
      rw [List.getElem?_modify]
      split
      · rename_i hj
        rw [← hj, hx]
        exact congrArg some (Dialog.edit_of_closed hc path)
      · simp
    rw [onDialog, hdialogs]
  unfold amend
  split
  · rfl
  · rename_i path _
    simp only [Desk.edit, hx, ask, Dialog.asks, hc, hsame, Bool.not_true, Bool.false_and,
      Bool.false_eq_true, if_false]

/-- An answer that has been applied was applied before the move that left its dialog closed. -/
theorem applied_of_move (m : Move σ) (hq : (d.move s m).requests[r]? = some q)
    (hv : q.verdict? = some (.answered c true)) (hx : (d.move s m).dialogs[q.dialog]? = some x)
    (hc : x.closed = true) :
    ∃ p, d.requests[r]? = some p ∧ p.dialog = q.dialog ∧ p.verdict? = q.verdict? := by
  have hline := issue_of_request hq
  have hold (h : d.issues[r]? = some q.issue) :
      ∃ p, d.requests[r]? = some p ∧ p.dialog = q.dialog ∧ p.verdict? = q.verdict? := by
    obtain ⟨p, hp, he⟩ := request_of_issue h
    exact ⟨p, hp, congrArg Issue.dialog he, congrArg Issue.verdict? he⟩
  rcases move_changes d m with h | ⟨r', e, p, o, hm, hr, hp, ho, hmove⟩
  · exact hold (h.lines.2 hline hv)
  · have hi : e.issues = d.issues := by rw [issues, hr, issues]
    have hline' : d.issues[r']? = some p.issue := hi ▸ issue_of_request hp
    rw [hmove] at hline hx
    rcases conclude_spec (s := s) hp o with ⟨f, -, -, hf⟩ | ⟨c', -, hdialogs, hissues⟩
    · rw [hf, hi] at hline
      exact hold (noAnswer_enterVerdict hline' rfl hline hv)
    · rw [hissues, hi] at hline
      rcases of_getElem?_enterVerdict hline' hline with ⟨rfl, he⟩ | ⟨-, h⟩
      · -- The conclusion itself applied it, so the dialog was open then, and has not been closed.
        have hdialog : q.dialog = p.dialog := congrArg Issue.dialog he
        have hverdict := (congrArg Issue.verdict? he).symm.trans hv
        obtain ⟨-, happlied⟩ := Verdict.answered.inj (Option.some.inj hverdict)
        rw [hdialogs, hdialog] at hx
        obtain ⟨y, hy, rfl⟩ := getElem?_modify_eq_some_iff.mp hx
        rw [hy, Option.any_some] at happlied
        have hopen := ((Dialog.accepts_iff ..).mp happlied).1
        rw [if_pos rfl, Dialog.closed_offer, hopen] at hc
        cases hc
      · exact hold h

/-- On no run is an answer applied to a dialog that is closed. -/
theorem applied_of_after (hx : d.dialogs[i]? = some x) (hc : x.closed = true) (ms : List (Move σ))
    (hq : (d.after s ms).requests[r]? = some q) (hi : q.dialog = i)
    (hv : q.verdict? = some (.answered c true)) :
    ∃ p, d.requests[r]? = some p ∧ p.dialog = i ∧ p.verdict? = q.verdict? := by
  induction ms using List.reverseRecOn generalizing q with
  | nil => exact ⟨q, hq, hi, rfl⟩
  | append_singleton ms m ih =>
    obtain ⟨y, hy, hclosed⟩ := closed_after (s := s) hx hc (ms ++ [m])
    rw [after_concat] at hq hy
    obtain ⟨p, hp, hdialog, hverdict⟩ := applied_of_move m hq hv (hi ▸ hy) hclosed
    obtain ⟨p', hp', hdialog', hverdict'⟩ := ih hp (hdialog.trans hi) (hverdict.trans hv)
    exact ⟨p', hp', hdialog', hverdict'.trans hverdict⟩

/-- Once a move has left dialog `i` closed, then on every run its path, the path of its last
request, its answer, its warning and both of its counters stay as they are. It takes no answer that
is offered to it, an edit of it does nothing and issues no request, and no request is issued for it
otherwise. A request of it that had not ended before the move does end, if nothing but steps is done
from anywhere on the run; it is cancelled then, or it has failed, or its answer was not applied. -/
theorem closed_dialog_is_sealed (hd : Reachable s d) {m : Move σ} (he : e = d.move s m)
    (hx : e.dialogs[i]? = some x) (hc : x.closed = true) (ms : List (Move σ))
    (hf : f = e.after s ms) :
    (∃ y, f.dialogs[i]? = some y ∧ x.Sealed y ∧
      ∀ (path : String) (answer : Assessment) (number : Option Int),
        y.offer path answer number = y) ∧
    (∀ edit, f.amend i edit = (f, none)) ∧
    (∀ (r : Nat) (q : Request), f.requests[r]? = some q → q.dialog = i → r < e.requests.length) ∧
    ∀ (r : Nat) (q : Request), f.requests[r]? = some q → q.dialog = i → ¬ Over d r →
      (∃ n, Over (f.after s (List.replicate n .step)) r) ∧
      ∀ v, q.verdict? = some v →
        v = .cancelled ∨ (∃ error, v = .failed error) ∨ ∃ c, v = .answered c false := by
  subst he hf
  have he := hd.move m
  obtain ⟨y, hy, hxy⟩ := sealed_after (s := s) hx hc ms
  refine ⟨⟨y, hy, hxy, fun path a n => Dialog.offer_of_closed hxy.closed path a n⟩,
    amend_of_closed hy hxy.closed, fun r q hq hi => issued_before_of_closed he hx hc ms hq hi,
    fun r q hq hi hn => ⟨over_of_closed (he.after ms) hq (hi ▸ hy) hxy.closed, fun v hv => ?_⟩⟩
  cases v with
  | cancelled => exact Or.inl rfl
  | failed error => exact Or.inr (Or.inl ⟨error, rfl⟩)
  | answered c applied =>
    cases applied with
    | false => exact Or.inr (Or.inr ⟨c, rfl⟩)
    | true =>
      obtain ⟨p, hp, hdialog, hverdict⟩ := applied_of_after (s := s) hx hc ms hq hi hv
      obtain ⟨p', hp', -, hverdict'⟩ := applied_of_move m hp (hverdict.trans hv) (hdialog ▸ hx) hc
      exact absurd ⟨p', _, hp', hverdict'.trans (hverdict.trans hv)⟩ hn

/-- The classifier has answered, but the request has not had its turn yet. -/
def repliedUnread : List (Move Unit) :=
  [.edit 0 (.setPath "/a"), .step, .step, .answer 0 (.ok .valid)]

/-- The dialog is closed then: its path stays under review, and the request ends. -/
theorem closed_dialog_is_sealed_replied :
    ∃ f : Desk Unit, f = ((opening () [""]).after (patient "/root") repliedUnread).after
        (patient "/root") [.close 0] ∧
      (∃ y, f.dialogs[0]? = some y ∧ y.classification = .pending) ∧
      ∃ n, Over (f.after (patient "/root") (List.replicate n .step)) 0 := by
  have h := closed_dialog_is_sealed (s := patient "/root") (m := .close 0) (i := 0)
    ((reachable_opening () [""]).after repliedUnread) rfl rfl rfl [] rfl
  obtain ⟨⟨y, hy, hxy, -⟩, -, -, hends⟩ := h
  refine ⟨_, rfl, ⟨y, hy, hxy.classification⟩, (hends 0 _ rfl rfl ?_).1⟩
  rintro ⟨q, v, hq, hv⟩
  obtain rfl := Option.some.inj hq
  cases hv

end Desk
end Admission
