import Admission.Proofs.Desk.Deeds
import Admission.Proofs.Staleness

/-!
# What a move does to dialogs

A move that runs no errand leaves errands in front of the trust store there, and edits, answers or
closes one dialog at most. With what errands do, a move that answers nothing edits each dialog at
most once, and changes otherwise only whether it is closed and what it has to do with trust.
-/
namespace Admission

/-- A dialog that shows what it showed, whether it has been closed or its trust has changed. -/
structure Dialog.Aside (x y : Dialog) : Prop where
  path : y.path = x.path
  classification : y.classification = x.classification
  warning : y.warning = x.warning
  requested : y.requested = x.requested
  closed : x.closed = true → y.closed = true

/-- What a move without an answer makes of a dialog. -/
inductive Dialog.Turn (x y : Dialog) : Prop
  | aside (h : x.Aside y)
  | edited {path : String} (h : (x.edit path).Aside y)

/-- Every dialog has taken its turn, and a dialog that was not there was opened before. -/
def Turned (l l' : List Dialog) : Prop :=
  ∀ ⦃i : Nat⦄ ⦃y : Dialog⦄, l'[i]? = some y →
    ∃ x : Dialog, (l[i]? = some x ∨ l[i]? = none ∧ ∃ path, x = { initial := path }) ∧ x.Turn y

theorem Dialog.Aside.refl (x : Dialog) : x.Aside x := ⟨rfl, rfl, rfl, rfl, id⟩

theorem Dialog.Turn.refl (x : Dialog) : x.Turn x := .aside (.refl x)

theorem Dialog.Turn.closed {x y : Dialog} (h : x.Turn y) (hc : x.closed = true) :
    y.closed = true := by
  cases h with
  | aside h => exact h.closed hc
  | edited h => exact h.closed (by rw [Dialog.closed_edit, hc])

theorem Dialog.aside_endTrust (x : Dialog) : (x.edit x.path).Aside x.endTrust :=
  ⟨rfl, rfl, rfl, rfl, id⟩

theorem Dialog.endTrust_startTrust (x : Dialog) : x.startTrust.endTrust = x.endTrust := by
  unfold endTrust edit asks startTrust
  dsimp only
  split
  · rfl
  · split <;> rfl

theorem modify_concat_length {α : Type} (l : List α) (a : α) (f : α → α) :
    (l ++ [a]).modify l.length f = l ++ [f a] := by
  induction l with
  | nil => rfl
  | cons b l ih => simp [ih]

/-- Where a list with one more at its end may be cut. -/
theorem concat_eq_append_cons {α : Type} {l before later : List α} {a b : α}
    (h : l ++ [a] = before ++ b :: later) : (before = l ∧ b = a ∧ later = []) ∨
      ∃ later', later = later' ++ [a] ∧ l = before ++ b :: later' := by
  rcases List.eq_nil_or_concat later with rfl | ⟨later', c, rfl⟩
  · obtain ⟨hl, ha⟩ := List.append_inj' h rfl
    exact Or.inl ⟨hl.symm, (List.singleton_inj.mp ha).symm, rfl⟩
  · have h' : l ++ [a] = (before ++ b :: later') ++ [c] := by simpa using h
    obtain ⟨hl, ha⟩ := List.append_inj' h' rfl
    obtain rfl := List.singleton_inj.mp ha
    exact Or.inr ⟨later', by simp, hl⟩

theorem Turned.refl (l : List Dialog) : Turned l l := fun _ y hy => ⟨y, Or.inl hy, .refl y⟩

theorem turned_modify (l : List Dialog) (i : Nat) {f : Dialog → Dialog}
    (h : ∀ x : Dialog, x.Turn (f x)) :
    Turned l (l.modify i f) := by
  intro j y hy
  obtain ⟨x, hx, rfl⟩ := getElem?_modify_eq_some_iff.mp hy
  refine ⟨x, Or.inl hx, ?_⟩
  split
  · exact h x
  · exact .refl x

/-- A dialog that is opened takes its turn behind those that have taken theirs. -/
theorem Turned.concat {l l' : List Dialog} (h : Turned l l') (hl : l'.length = l.length)
    {path : String} {y : Dialog} (hy : ({ initial := path } : Dialog).Turn y) :
    Turned l (l' ++ [y]) := by
  intro i z hz
  rcases getElem?_concat_eq_some_iff.mp hz with hz | ⟨rfl, rfl⟩
  · exact h hz
  · exact ⟨_, Or.inr ⟨List.getElem?_eq_none (by omega), path, rfl⟩, hy⟩

namespace Desk

variable {σ : Type} {s : Setting σ} {d e f : Desk σ} {k : Nat}

/-! ## Moves that run no errand -/

/-- Dialogs stay, and so does who waits in front of the trust store, which is not called. -/
structure Backstage (d e : Desk σ) : Prop where
  dialogs : e.dialogs = d.dialogs
  current : e.current = d.current
  trusts : ∀ k, e.trusts? k = d.trusts? k
  log : LogGrown (!·.isTrust) d.log e.log

/-- What a move does that runs no errand. -/
inductive Touch (s : Setting σ) (d : Desk σ) (m : Move σ) : Prop
  | none (h : Backstage d (d.move s m))
  | edited {i : Nat} {path : String}
      (h : Backstage (d.onDialog i (·.edit path)) (d.move s m))
  | answered {r : Nat} {q : Request} {c : Classification} {applied : Bool}
      (ha : Answered s d m r q c applied)
      (h : Backstage (d.onDialog q.dialog (·.offer q.path (.settled c) (some q.number)))
        (d.move s m))
  | closed {i : Nat} (h : Backstage (d.onDialog i Dialog.close) (d.move s m))
  | dismissed {i : Nat} (hi : d.current = some i)
      (h : Backstage { d.onDialog i Dialog.close with current := Option.none } (d.move s m))

theorem Backstage.refl (d : Desk σ) : Backstage d d := ⟨rfl, rfl, fun _ => rfl, .refl _ _⟩

theorem Backstage.trans (h : Backstage d e) (h' : Backstage e f) : Backstage d f where
  dialogs := h'.dialogs.trans h.dialogs
  current := h'.current.trans h.current
  trusts k := (h'.trusts k).trans (h.trusts k)
  log := h.log.trans h'.log

theorem Aloof.backstage (h : Aloof d e) : Backstage d e where
  dialogs := h.dialogs
  current := h.current
  trusts k := by rw [trusts?, progress?, h.errands, trusts?, progress?]
  log := h.log.mono fun x hx => by cases x <;> simp_all [Entry.isClassify, Entry.isTrust]

/-- What happens to an errand elsewhere does not bring it to the trust store or away from it. -/
theorem backstage_onErrand {g : Errand → Errand}
    (h : ∀ x, d.errands[k]? = some x → (g x).progress.trusts? = x.progress.trusts?) :
    Backstage d (d.onErrand k g) where
  dialogs := rfl
  current := rfl
  trusts j := by
    simp only [trusts?, progress?, onErrand, List.getElem?_modify]
    cases hx : d.errands[j]? with
    | none => rfl
    | some x =>
      by_cases hj : k = j
      · subst hj
        simpa using h x hx
      · simp [hj]
  log := .refl _ _

theorem backstage_foldl {α : Type} {g : Desk σ → α → Desk σ} (h : ∀ d a, Backstage d (g d a))
    (l : List α) (d : Desk σ) : Backstage d (l.foldl g d) := by
  induction l generalizing d with
  | nil => exact .refl d
  | cons a l ih => exact (h d a).trans (ih (g d a))

theorem backstage_tellRequestEnded (d : Desk σ) (r : Nat) :
    Backstage d (d.tellRequestEnded r) := by
  refine (aloof_onRequest d r _).backstage.trans (backstage_foldl (fun d k => ?_) _ _)
  split
  · rename_i i q hk
    split
    · refine (backstage_onErrand fun x hx => ?_).trans (aloof_enqueue _ _).backstage
      rw [hx] at hk
      rw [show x.progress = .watching i q .waiting from Option.some.inj hk]
      rfl
    · exact .refl d
  · exact .refl d

theorem backstage_openGate (d : Desk σ) (service : Gated) (gate : Nat) :
    Backstage d (d.openGate service gate) := by
  refine backstage_foldl (fun d k => ?_) _ _
  split
  · rename_i p hk
    refine (backstage_onErrand fun x hx => ?_).trans (aloof_enqueue _ _).backstage
    rw [hx, Option.bind_some] at hk
    unfold passing at hk
    split at hk
    · rename_i hp
      split at hk
      · obtain rfl := Option.some.inj hk
        rw [hp]
        rfl
      · cases hk
    · rename_i hp
      split at hk
      · obtain rfl := Option.some.inj hk
        rw [hp]
        rfl
      · cases hk
    · cases hk
  · exact .refl d

theorem backstage_cancelErrand (d : Desk σ) (k : Nat) : Backstage d (d.cancelErrand k).1 := by
  obtain h | ⟨x, p, hx, hp, h⟩ | h := cancelErrand_cases d k <;> rw [h]
  · exact .refl d
  · refine (backstage_onErrand fun y hy => ?_).trans (aloof_enqueue _ _).backstage
    obtain rfl := Option.some.inj (hx.symm.trans hy)
    generalize x.progress = q at hp
    cases hp <;> rfl
  · exact backstage_onErrand fun _ _ => rfl

theorem trusts?_addErrand (d : Desk σ) (op : Operation) (k : Nat) :
    ({ d with errands := d.errands ++ [{ operation := op }] } : Desk σ).trusts? k =
      d.trusts? k := by
  simp only [trusts?, progress?]
  rcases Nat.lt_trichotomy k d.errands.length with hk | rfl | hk
  · rw [List.getElem?_append_left hk]
  · simp [Progress.trusts?]
  · rw [List.getElem?_eq_none (by simp; omega), List.getElem?_eq_none (by omega)]

theorem backstage_spawn (d : Desk σ) (op : Operation) : Backstage d (d.spawn op).1 :=
  have h : Backstage d { d with errands := d.errands ++ [{ operation := op }] } :=
    ⟨rfl, rfl, trusts?_addErrand d op, .refl _ _⟩
  h.trans (aloof_enqueue _ _).backstage

/-- A request that is concluded fails, or it is answered with the same move. -/
theorem Concludes.touch {m : Move σ} {r : Nat} (h : Concludes s d r (d.move s m)) :
    Touch s d m := by
  obtain ⟨n, q, o, hn, hr, hq, ho, he⟩ := h
  have hdialogs : n.dialogs = d.dialogs := hn.aloof.dialogs
  rcases conclude_spec (s := s) hq o with ⟨x, ht, -, -⟩ | ⟨c, ht, -, hissues⟩
  · refine .none ?_
    rw [he]
    simp only [conclude, hq, ht]
    exact (hn.aloof.trans (aloof_endRequest n r _)).backstage
  · have hline := getElem?_enterVerdict (v := .answered c
      (n.dialogs[q.dialog]?.any (·.accepts q.path (some q.number)))) (issue_of_request hq)
    rw [← hissues] at hline
    obtain ⟨q', hq', hq''⟩ := request_of_issue hline
    refine .answered ⟨hr ▸ hq, ho.verdict, q', he ▸ hq', congrArg Issue.verdict? hq''⟩ ?_
    rw [he]
    simp only [conclude, hq, ht]
    exact ((hn.aloof.onDialog q.dialog _).trans (aloof_endRequest _ r _)).backstage

/-- The dialog that is shown is closed with its requests. -/
theorem backstage_closeDialog (s : Setting σ) (d : Desk σ) (i : Nat) :
    Backstage (d.onDialog i Dialog.close) (d.closeDialog i) :=
  (still_closeDialog (s := s) d i).aloof.backstage

theorem backstage_amend (d : Desk σ) (i : Nat) (x : Edit) :
    (d.amend i x).1 = d ∨ ∃ path, Backstage (d.onDialog i (·.edit path)) (d.amend i x).1 := by
  unfold amend
  split
  · exact Or.inl rfl
  · exact Or.inr ⟨_, (aloof_edit d i _).backstage⟩

theorem backstage_dismiss (s : Setting σ) (d : Desk σ) :
    (d.current = none ∧ d.dismiss.1 = d) ∨ ∃ i, d.current = some i ∧
      Backstage { d.onDialog i Dialog.close with current := none } d.dismiss.1 := by
  cases hc : d.current with
  | none =>
    refine Or.inl ⟨rfl, ?_⟩
    simp only [dismiss, closeCurrent, hc]
    rw [← hc]
  | some i =>
    have h := backstage_closeDialog s d i
    refine Or.inr ⟨i, rfl, ?_⟩
    simp only [dismiss, closeCurrent, hc]
    exact ⟨h.dialogs, rfl, h.trusts, h.log⟩

/-- A move runs an errand, or what it does is one of these. -/
theorem runs_or_touch (d : Desk σ) (m : Move σ) : (∃ k e, Runs d m k e) ∨ Touch s d m := by
  cases m with
  | step =>
    cases hnow : d.agenda.now with
    | nil =>
      refine Or.inr (.none ?_)
      simp only [move, step, hnow]
      cases hnext : d.nextPass with
      | none => exact .refl d
      | some e => exact (still_nextPass (s := s) hnext).aloof.backstage
    | cons j rest =>
      have hpop := still_pop (s := s) hnow
      have hmove : d.move s .step = run s { d with agenda := { d.agenda with now := rest } } j := by
        simp only [move, step, hnow, Option.getD_some]
      cases j with
      | request r =>
        refine Or.inr ?_
        rcases runRequest_changes (s := s) { d with agenda := { d.agenda with now := rest } } r
          with hr | ⟨n, q, o, hn, hrest⟩
        · refine .none ?_
          rw [hmove]
          exact (hpop.trans hr).aloof.backstage
        · refine Concludes.touch (r := r) ?_
          rw [hmove]
          exact ⟨n, q, o, hpop.trans hn, hrest⟩
      | probe r =>
        exact Or.inr (.none (hmove ▸ (hpop.trans (still_runProbe _ r)).aloof.backstage))
      | probeEnded r =>
        exact Or.inr (.none (hmove ▸ (hpop.aloof.trans (aloof_tellProbeEnded _ r)).backstage))
      | requestEnded r =>
        exact Or.inr (.none (hmove ▸ hpop.aloof.backstage.trans (backstage_tellRequestEnded _ r)))
      | limit r =>
        exact Or.inr (.none (hmove ▸ (hpop.trans (still_tellLimit _ r)).aloof.backstage))
      | errand k => exact Or.inl ⟨k, _, .inLine hnow⟩
  | edit i x =>
    refine Or.inr ?_
    rcases backstage_amend d i x with h | ⟨path, h⟩
    · exact .none (by rw [move, h]; exact .refl d)
    · exact .edited h
  | spawn op => exact Or.inr (.none (backstage_spawn d op))
  | perform op => exact Or.inl ⟨_, _, .atOnce op⟩
  | close i => exact Or.inr (.closed (backstage_closeDialog s d i))
  | dismiss =>
    refine Or.inr ?_
    rcases backstage_dismiss s d with ⟨-, h⟩ | ⟨i, hi, h⟩
    · exact .none (by rw [move, h]; exact .refl d)
    · exact .dismissed hi h
  | answer c o => exact Or.inr (.none (still_answer (s := s) d c o).aloof.backstage)
  | openGate service gate => exact Or.inr (.none (backstage_openGate d service gate))
  | cancelRequest r => exact Or.inr (.none (still_cancelRequest (s := s) d r).aloof.backstage)
  | cancelErrand k => exact Or.inr (.none (backstage_cancelErrand d k))
  | advance seconds => exact Or.inr (.none ⟨rfl, rfl, fun _ => rfl, .refl _ _⟩)
  | alter g => exact Or.inr (.none ⟨rfl, rfl, fun _ => rfl, .refl _ _⟩)

/-! ## The dialogs that an errand finds and leaves -/

theorem dialogs_edit (d : Desk σ) (i : Nat) (path : String) :
    (d.edit i path).1.dialogs = d.dialogs.modify i (·.edit path) := (aloof_edit d i path).dialogs

theorem dialogs_closeDialog (s : Setting σ) (d : Desk σ) (i : Nat) :
    (d.closeDialog i).dialogs = d.dialogs.modify i Dialog.close :=
  (backstage_closeDialog s d i).dialogs

theorem dialogs_submitted (s : Setting σ) (d : Desk σ) (i : Nat) (op : Operation) :
    (d.submitted i op).dialogs = d.dialogs.modify i Dialog.close := by
  unfold submitted
  split <;> exact dialogs_closeDialog s d i

theorem Alike.dialogs_closeDialog (s : Setting σ) (h : Alike d e) (i : Nat) :
    (e.closeDialog i).dialogs = d.dialogs.modify i Dialog.close := by
  rw [Desk.dialogs_closeDialog s, h.dialogs]

theorem dialogs_closeCurrent (s : Setting σ) (d : Desk σ) :
    d.closeCurrent.dialogs = match d.current with
      | some i => d.dialogs.modify i Dialog.close
      | none => d.dialogs := by
  cases hc : d.current with
  | none => simp only [closeCurrent, hc]
  | some i => simp only [closeCurrent, hc, dialogs_closeDialog s]

theorem turned_close (l : List Dialog) (i : Nat) : Turned l (l.modify i Dialog.close) :=
  turned_modify l i fun _ => .aside ⟨rfl, rfl, rfl, rfl, fun _ => rfl⟩

theorem turned_closeCurrent (s : Setting σ) (d : Desk σ) :
    Turned d.dialogs d.closeCurrent.dialogs := by
  rw [dialogs_closeCurrent s]
  split
  · exact turned_close _ _
  · exact .refl _

/-- A new dialog, with the first edit of its path. -/
theorem turned_opened (s : Setting σ) (d : Desk σ) (path : String) :
    Turned d.dialogs
      ((d.closeCurrent.seat path).1.amend d.dialogs.length .openInitial).1.dialogs := by
  have hlen := closeCurrent_length s d
  have hseat {y : Dialog} (hy : ({ initial := path } : Dialog).Turn y) :
      Turned d.dialogs (d.closeCurrent.dialogs ++ [y]) :=
    (turned_closeCurrent s d).concat hlen hy
  rcases backstage_amend (d.closeCurrent.seat path).1 d.dialogs.length .openInitial with
    h | ⟨path', h⟩
  · rw [h]
    exact hseat (.refl _)
  · have hdialogs := modify_concat_length d.closeCurrent.dialogs { initial := path } (·.edit path')
    rw [hlen] at hdialogs
    rw [h.dialogs]
    change Turned _ ((d.closeCurrent.dialogs ++ [({ initial := path } : Dialog)]).modify _ _)
    rw [hdialogs]
    exact hseat (.edited (.refl _))

theorem StoreAnswered.turned {i : Nat} (h : StoreAnswered k i d e) :
    Turned d.dialogs e.dialogs := by
  cases h with
  | refused h =>
    rw [h.dialogs]
    exact turned_modify _ i fun _ => .aside ⟨rfl, rfl, rfl, rfl, id⟩
  | granted hx h =>
    rw [h.dialogs]
    simp only [onDialog, dialogs_ask]
    exact turned_modify _ i fun x => .edited x.aside_endTrust

theorem Deed.turned (s : Setting σ) (h : Deed d k e) : Turned d.dialogs e.dialogs := by
  cases h with
  | plain _ h => rw [h.dialogs]; exact .refl _
  | edited _ h =>
    rw [h.dialogs, dialogs_edit]
    exact turned_modify _ _ fun x => .edited (.refl _)
  | opened _ h => rw [h.dialogs]; exact turned_opened s d _
  | dismissed _ h => rw [h.dialogs]; exact turned_closeCurrent s d
  | @registered m e i _ hm h =>
    rw [h.dialogs, hm.dialogs_closeDialog s]
    exact turned_close _ i
  | @putAway m e i _ hm _ _ h =>
    have hdialogs := h.dialogs.trans (hm.dialogs_closeDialog s i)
    rw [hdialogs]
    exact turned_close _ i
  | storeCalled _ _ h =>
    rw [h.dialogs]
    exact turned_modify _ _ fun _ => .aside ⟨rfl, rfl, rfl, rfl, id⟩
  | storeAnswered _ hm h => exact hm.dialogs ▸ h.turned
  | answeredAtOnce _ hm h =>
    cases h with
    | refused h =>
      rw [h.dialogs]
      simp only [onDialog, hm.dialogs, Desk.storeCalled, note, List.modify_modify_eq]
      exact turned_modify _ _ fun _ => .aside ⟨rfl, rfl, rfl, rfl, id⟩
    | granted _ h =>
      rw [h.dialogs]
      simp only [onDialog, dialogs_ask, hm.dialogs, Desk.storeCalled, note, List.modify_modify_eq]
      refine turned_modify _ _ fun x => .edited (?_ : (x.edit x.path).Aside _)
      rw [Function.comp_apply, x.endTrust_startTrust]
      exact x.aside_endTrust

/-- A move that answers no request gives every dialog one turn at most. -/
theorem answered_or_turned (d : Desk σ) (m : Move σ) :
    (∃ r q c applied, Answered s d m r q c applied) ∨ Turned d.dialogs (d.move s m).dialogs := by
  rcases runs_or_touch (s := s) d m with ⟨k, e, h⟩ | h
  · refine Or.inr ?_
    rw [h.move, ← h.found.dialogs]
    exact Deed.turned s (runErrand_deed e k)
  · cases h with
    | none h => exact Or.inr (h.dialogs ▸ .refl _)
    | edited h => exact Or.inr (h.dialogs ▸ turned_modify _ _ fun x => .edited (.refl _))
    | answered ha _ => exact Or.inl ⟨_, _, _, _, ha⟩
    | closed h => exact Or.inr (h.dialogs ▸ turned_close _ _)
    | dismissed _ h => exact Or.inr (h.dialogs ▸ turned_close _ _)

end Desk
end Admission
