import Admission.Proofs.Desk.Issues

/-!
# The answers of a move

A move answers at most one request, and what it does to dialogs is then that answer and nothing
else. Over any run requests keep what they are for and how they ended, and the counters of a dialog
only grow. Which dialog a request belongs to is not looked at.
-/
namespace Admission

/-- Later lines of a ledger go on from earlier ones: what a line is for and an end stay. -/
def LinesKept (l l' : List Issue) : Prop :=
  ∀ ⦃r : Nat⦄ ⦃q : Issue⦄, l[r]? = some q →
    ∃ v?, l'[r]? = some { q with verdict? := v? } ∧ ∀ v, q.verdict? = some v → v? = some v

/-- No answer is entered between two ledgers. -/
def NoAnswer (l l' : List Issue) : Prop :=
  ∀ ⦃r : Nat⦄ ⦃q : Issue⦄ ⦃c : Classification⦄ ⦃applied : Bool⦄, l'[r]? = some q →
    q.verdict? = some (.answered c applied) → l[r]? = some q

/-- What time does to the counters of a dialog: they grow, and a re-validation that is new has a
number that is new. -/
structure Dialog.Grown (x y : Dialog) : Prop where
  issued : x.issued ≤ y.issued
  applied : x.applied ≤ y.applied
  revalidation : y.revalidation = x.revalidation ∨ y.revalidation = none ∨
    ∃ n, y.revalidation = some n ∧ x.issued < n

/-- Every dialog is still there, and has grown. -/
def DialogsGrown (l l' : List Dialog) : Prop :=
  ∀ ⦃i : Nat⦄ ⦃x : Dialog⦄, l[i]? = some x → ∃ y, l'[i]? = some y ∧ x.Grown y

theorem LinesKept.rfl {l : List Issue} : LinesKept l l := fun _ q hq =>
  ⟨q.verdict?, hq, fun _ => id⟩

theorem LinesKept.trans {l l' l'' : List Issue} (h : LinesKept l l') (h' : LinesKept l' l'') :
    LinesKept l l'' := by
  intro r q hq
  obtain ⟨v, hq', hv⟩ := h hq
  obtain ⟨w, hq'', hw⟩ := h' hq'
  exact ⟨w, hq'', fun u hu => hw u (hv u hu)⟩

theorem NoAnswer.trans {l l' l'' : List Issue} (h : NoAnswer l l') (h' : NoAnswer l' l'') :
    NoAnswer l l'' := fun _ _ _ _ hq hv => h (h' hq hv) hv

theorem Dialog.Grown.refl (x : Dialog) : x.Grown x := ⟨Nat.le_refl _, Nat.le_refl _, Or.inl rfl⟩

theorem Dialog.Grown.trans {x y z : Dialog} (h : x.Grown y) (h' : y.Grown z) : x.Grown z where
  issued := Nat.le_trans h.issued h'.issued
  applied := Nat.le_trans h.applied h'.applied
  revalidation := by
    rcases h'.revalidation with he | hn | ⟨n, hn, hlt⟩
    · rw [he]
      exact h.revalidation
    · exact Or.inr (Or.inl hn)
    · exact Or.inr (Or.inr ⟨n, hn, Nat.lt_of_le_of_lt h.issued hlt⟩)

theorem DialogsGrown.rfl {l : List Dialog} : DialogsGrown l l := fun _ x hx =>
  ⟨x, hx, Dialog.Grown.refl x⟩

theorem DialogsGrown.trans {l l' l'' : List Dialog} (h : DialogsGrown l l')
    (h' : DialogsGrown l' l'') : DialogsGrown l l'' := by
  intro i x hx
  obtain ⟨y, hy, hxy⟩ := h hx
  obtain ⟨z, hz, hyz⟩ := h' hy
  exact ⟨z, hz, hxy.trans hyz⟩

theorem linesKept_append (l more : List Issue) : LinesKept l (l ++ more) := by
  intro r q hq
  have hr := (List.getElem?_eq_some_iff.mp hq).1
  exact ⟨q.verdict?, (List.getElem?_append_left hr).trans hq, fun _ => id⟩

theorem linesKept_enterVerdict {l : List Issue} {r : Nat} {q : Issue} {v : Verdict}
    (hq : l[r]? = some q) (hn : q.verdict? = none) : LinesKept l (enterVerdict l r v) := by
  intro r' q' hq'
  by_cases he : r = r'
  · subst he
    obtain rfl := Option.some.inj (hq.symm.trans hq')
    exact ⟨some v, getElem?_enterVerdict hq, fun w hw => by rw [hn] at hw; cases hw⟩
  · exact ⟨q'.verdict?, (getElem?_enterVerdict_of_ne he).trans hq', fun _ => id⟩

theorem noAnswer_append {l more : List Issue} (h : ∀ q ∈ more, q.verdict? = none) :
    NoAnswer l (l ++ more) := by
  intro r q c applied hq hv
  by_cases hr : r < l.length
  · rwa [List.getElem?_append_left hr] at hq
  · rw [List.getElem?_append_right (Nat.le_of_not_lt hr)] at hq
    rw [h q (List.mem_of_getElem? hq)] at hv
    cases hv

theorem noAnswer_enterVerdict {l : List Issue} {r : Nat} {q : Issue} {v : Verdict}
    (hq : l[r]? = some q) (ha : v.answer? = none) : NoAnswer l (enterVerdict l r v) := by
  intro r' q' c applied hq' hv
  rcases of_getElem?_enterVerdict hq hq' with ⟨-, rfl⟩ | ⟨-, hq'⟩
  · obtain rfl := Option.some.inj hv
    cases ha
  · exact hq'

theorem dialogsGrown_modify {l : List Dialog} {i : Nat} {f : Dialog → Dialog}
    (h : ∀ {x : Dialog}, l[i]? = some x → x.Grown (f x)) : DialogsGrown l (l.modify i f) := by
  intro j x hx
  refine ⟨_, getElem?_modify_eq_some_iff.mpr ⟨x, hx, Eq.refl _⟩, ?_⟩
  split
  · rename_i he
    subst he
    exact h hx
  · exact .refl x

theorem Dialog.grown_edit (x : Dialog) (path : String) : x.Grown (x.edit path) := by
  unfold Dialog.edit
  split
  · exact .refl x
  · split
    · exact ⟨Nat.le_refl _, Nat.le_refl _, Or.inl rfl⟩
    · exact ⟨Nat.le_succ _, Nat.le_refl _, Or.inl rfl⟩

theorem Dialog.grown_endTrust (x : Dialog) : x.Grown x.endTrust := by
  have h := x.grown_edit x.path
  refine ⟨h.issued, h.applied, ?_⟩
  by_cases ha : x.asks x.path = true
  · refine Or.inr (Or.inr ⟨(x.edit x.path).issued, by simp [Dialog.endTrust, ha], ?_⟩)
    simp [Dialog.issued_edit, ha]
  · exact Or.inr (Or.inl (by simp [Dialog.endTrust, ha]))

theorem Dialog.grown_offer (x : Dialog) (path : String) (a : Assessment) (n : Nat) :
    x.Grown (x.offer path a (some n)) := by
  by_cases h : x.accepts path (some n) = true
  · rw [Dialog.offer_of_accepts h]
    exact ⟨Nat.le_refl _, ((Dialog.accepts_iff ..).mp h).2.2, Or.inl rfl⟩
  · rw [Dialog.offer_of_not_accepts h]
    exact .refl x

namespace Desk

variable {σ : Type} {s : Setting σ} {d e : Desk σ}

/-! ## Changes -/

/-- A change adds to the lines of the ledger and enters no answer. -/
theorem Change.lines (h : Change s d e) :
    LinesKept d.issues e.issues ∧ NoAnswer d.issues e.issues := by
  have hsame {e : Desk σ} (he : e.issues = d.issues) :
      LinesKept d.issues e.issues ∧ NoAnswer d.issues e.issues := by
    rw [he]
    exact ⟨.rfl, fun _ _ _ _ hq _ => hq⟩
  have hask (i : Nat) (x : Dialog) (path : String) (f : Dialog → Dialog) :
      LinesKept d.issues ((d.ask i x path).1.onDialog i f).issues ∧
        NoAnswer d.issues ((d.ask i x path).1.onDialog i f).issues := by
    change LinesKept _ (d.ask i x path).1.issues ∧ NoAnswer _ (d.ask i x path).1.issues
    rw [issues_ask]
    refine ⟨linesKept_append .., noAnswer_append fun q hq => ?_⟩
    split at hq
    · rw [List.mem_singleton.mp hq]
    · cases hq
  cases h with
  | around _ hr => exact hsame (by rw [issues, hr, issues])
  | seat path => exact hsame rfl
  | aside i hf => exact hsame rfl
  | edit i path =>
    unfold Desk.edit
    split
    · exact hsame rfl
    · exact hask i _ path _
  | endTrust hx => exact hask _ _ _ _
  | call => exact hsame rfl
  | endCall => exact hsame rfl
  | @pace r f hf =>
    cases hq : d.requests[r]? with
    | none => exact hsame (issues_onRequest fun q hq' => by rw [hq] at hq'; cases hq')
    | some q =>
      have hself {q' : Request} (hq' : d.requests[r]? = some q') : q' = q :=
        Option.some.inj (hq'.symm.trans hq)
      rcases (hf q hq).issue with he | ⟨v, hv, hn, he⟩
      · exact hsame (issues_onRequest fun q' hq' => by rw [hself hq', he])
      · rw [issues_ended d r fun q' hq' => by rw [hself hq', he]]
        exact ⟨linesKept_enterVerdict (issue_of_request hq) hn,
          noAnswer_enterVerdict (issue_of_request hq) hv⟩
  | endProbe => exact hsame (issues_onRequest fun _ _ => rfl)
  | @probeTold r rest _ =>
    refine hsame ?_
    change (({ d with agenda := _ } : Desk σ).tellProbeEnded r).issues =
      ({ d with agenda := { d.agenda with now := rest } } : Desk σ).issues
    exact issues_tellProbeEnded _ r

theorem Change.grown (h : Change s d e) : DialogsGrown d.dialogs e.dialogs := by
  cases h with
  | around hd => rw [hd]; exact .rfl
  | seat path =>
    exact fun _ x hx => ⟨x, getElem?_concat_eq_some_iff.mpr (Or.inl hx), .refl x⟩
  | aside i hf =>
    refine dialogsGrown_modify fun {x} _ => ?_
    rcases hf with rfl | rfl | rfl <;> exact ⟨Nat.le_refl _, Nat.le_refl _, Or.inl rfl⟩
  | edit i path =>
    unfold Desk.edit
    split
    · exact .rfl
    · simp only [onDialog, dialogs_ask]
      exact dialogsGrown_modify fun {x} _ => x.grown_edit path
  | endTrust =>
    simp only [onDialog, dialogs_ask]
    exact dialogsGrown_modify fun {x} _ => x.grown_endTrust
  | call => exact .rfl
  | endCall => exact .rfl
  | pace => exact .rfl
  | endProbe => exact .rfl
  | probeTold => rw [dialogs_tellProbeEnded]; exact .rfl

theorem Quiet.lines (h : Quiet s d e) :
    LinesKept d.issues e.issues ∧ NoAnswer d.issues e.issues := by
  induction h with
  | refl => exact ⟨.rfl, fun _ _ _ _ hq _ => hq⟩
  | tail _ hc ih => exact ⟨ih.1.trans hc.lines.1, NoAnswer.trans ih.2 hc.lines.2⟩

theorem Quiet.grown (h : Quiet s d e) : DialogsGrown d.dialogs e.dialogs := by
  induction h with
  | refl => exact .rfl
  | tail _ hc ih => exact ih.trans hc.grown

/-! ## Conclusions -/

/-- What a conclusion does: the request fails, or it is answered and its dialog is offered that. -/
theorem conclude_spec {r : Nat} {q : Request} (hq : d.requests[r]? = some q)
    (o : Except Failure Classification) :
    (∃ f, taken s.limit o = .error f ∧ (conclude s d r o).dialogs = d.dialogs ∧
      (conclude s d r o).issues = enterVerdict d.issues r (.failed (.failure f))) ∨
    (∃ c, taken s.limit o = .ok c ∧
      (conclude s d r o).dialogs =
        d.dialogs.modify q.dialog (·.offer q.path (.settled c) (some q.number)) ∧
      (conclude s d r o).issues = enterVerdict d.issues r (.answered c
        (d.dialogs[q.dialog]?.any (·.accepts q.path (some q.number))))) := by
  unfold conclude
  rw [hq]
  cases ht : taken s.limit o with
  | error f => exact Or.inl ⟨f, rfl, rfl, issues_endRequest ..⟩
  | ok c => exact Or.inr ⟨c, rfl, rfl, issues_endRequest ..⟩

theorem Concludes.lines {r : Nat} (h : Concludes s d r e) : LinesKept d.issues e.issues := by
  obtain ⟨m, q, o, -, hr, hq, ho, rfl⟩ := h
  have hd : m.issues = d.issues := by rw [issues, hr, issues]
  rw [← hd]
  rcases conclude_spec (s := s) hq o with ⟨f, -, -, hi⟩ | ⟨c, -, -, hi⟩
  · rw [hi]
    exact linesKept_enterVerdict (issue_of_request hq) ho.verdict
  · rw [hi]
    exact linesKept_enterVerdict (issue_of_request hq) ho.verdict

theorem Concludes.grown {r : Nat} (h : Concludes s d r e) : DialogsGrown d.dialogs e.dialogs := by
  obtain ⟨m, q, o, hm, -, hq, -, rfl⟩ := h
  rw [← hm.aloof.dialogs]
  rcases conclude_spec (s := s) hq o with ⟨f, -, he, -⟩ | ⟨c, -, he, -⟩
  · rw [he]
    exact .rfl
  · rw [he]
    exact dialogsGrown_modify fun {x} _ => x.grown_offer q.path _ q.number

/-! ## Moves and runs -/

theorem linesKept_move (d : Desk σ) (m : Move σ) : LinesKept d.issues (d.move s m).issues := by
  rcases move_changes d m with h | ⟨r, h⟩
  · exact h.lines.1
  · exact h.lines

theorem dialogsGrown_move (d : Desk σ) (m : Move σ) :
    DialogsGrown d.dialogs (d.move s m).dialogs := by
  rcases move_changes d m with h | ⟨r, h⟩
  · exact h.grown
  · exact h.grown

theorem linesKept_after (d : Desk σ) (ms : List (Move σ)) :
    LinesKept d.issues (d.after s ms).issues := by
  induction ms generalizing d with
  | nil => exact .rfl
  | cons m ms ih => exact (linesKept_move d m).trans (ih (d.move s m))

/-- A request stays what it is, and ends as it has ended. -/
theorem request_kept (h : LinesKept d.issues e.issues) {r : Nat} {q : Request}
    (hq : d.requests[r]? = some q) :
    ∃ q', e.requests[r]? = some q' ∧ q'.dialog = q.dialog ∧ q'.number = q.number ∧
      ∀ v, q.verdict? = some v → q'.verdict? = some v := by
  obtain ⟨v, hline, hv⟩ := h (issue_of_request hq)
  obtain ⟨q', hq', he⟩ := request_of_issue hline
  exact ⟨q', hq', congrArg Issue.dialog he, congrArg Issue.number he,
    fun w hw => (congrArg Issue.verdict? he).trans (hv w hw)⟩

/-- Move `m` brings request `r`, which is `q` before it, the answer `c`; `applied` says whether the
dialog of the request takes it. -/
structure Answered (s : Setting σ) (d : Desk σ) (m : Move σ) (r : Nat) (q : Request)
    (c : Classification) (applied : Bool) : Prop where
  before : d.requests[r]? = some q
  unended : q.verdict? = none
  after : ∃ q', (d.move s m).requests[r]? = some q' ∧ q'.verdict? = some (.answered c applied)

/-- A move that answers a request does nothing else to dialogs: the answer is offered to the dialog
of the request, which takes it or stays as it is. -/
theorem Answered.offered {m : Move σ} {r : Nat} {q : Request} {c : Classification}
    {applied : Bool} (h : Answered s d m r q c applied) :
    (d.move s m).dialogs =
        d.dialogs.modify q.dialog (·.offer q.path (.settled c) (some q.number)) ∧
      applied = d.dialogs[q.dialog]?.any (·.accepts q.path (some q.number)) := by
  obtain ⟨hq, hn, q', hq', hv⟩ := h
  have hline' := issue_of_request hq'
  have hv : q'.issue.verdict? = some (.answered c applied) := hv
  have hold : d.issues[r]? ≠ some q'.issue := by
    intro he
    rw [issue_of_request hq] at he
    rw [← Option.some.inj he] at hv
    exact absurd (hn.symm.trans hv) nofun
  have hnew {l : List Issue} (hl : NoAnswer d.issues l) : l[r]? ≠ some q'.issue :=
    fun hr => hold (hl hr hv)
  rcases move_changes d m with h | ⟨r', e, p, o, hm, hr, hp, ho, hmove⟩
  · exact absurd hline' (hnew h.lines.2)
  · have hi : e.issues = d.issues := by rw [issues, hr, issues]
    have hline : d.issues[r']? = some p.issue := hi ▸ issue_of_request hp
    rw [hmove] at hline' ⊢
    rcases conclude_spec (s := s) hp o with ⟨f, -, -, hf⟩ | ⟨c', -, hdialogs, hc⟩
    · rw [hf, hi] at hline'
      exact absurd hline' (hnew (noAnswer_enterVerdict hline rfl))
    · rw [hc, hi] at hline'
      rcases of_getElem?_enterVerdict hline hline' with ⟨rfl, he'⟩ | ⟨-, hline'⟩
      · obtain rfl := Option.some.inj (hq.symm.trans (hr ▸ hp))
        have hverdict := (congrArg Issue.verdict? he').symm.trans hv
        obtain ⟨rfl, happlied⟩ := Verdict.answered.inj (Option.some.inj hverdict)
        rw [hdialogs, ← happlied, hm.aloof.dialogs]
        exact ⟨rfl, rfl⟩
      · exact absurd hline' hold

/-- An answer in the eyes of the dialog that it is for. -/
theorem Answered.dialog {m : Move σ} {i r : Nat} {x : Dialog} {q : Request} {c : Classification}
    {applied : Bool} (h : Answered s d m r q c applied) (hx : d.dialogs[i]? = some x)
    (hd : q.dialog = i) :
    applied = x.accepts q.path (some q.number) ∧ (d.move s m).dialogs[i]? = some
      (if applied then
        { x with classification := .settled c, warning := .settled c, applied := q.number }
      else x) := by
  obtain ⟨hdialogs, happlied⟩ := h.offered
  rw [hd, hx] at happlied
  rw [hdialogs, hd]
  have happlied : applied = x.accepts q.path (some q.number) := happlied
  refine ⟨happlied, getElem?_modify_eq_some_iff.mpr ⟨x, hx, ?_⟩⟩
  rw [if_pos rfl]
  cases hacc : x.accepts q.path (some q.number) with
  | true =>
    rw [Dialog.offer_of_accepts hacc, happlied, hacc]
    rfl
  | false =>
    rw [Dialog.offer_of_not_accepts (by simp [hacc]), happlied, hacc]
    rfl

end Desk
end Admission
