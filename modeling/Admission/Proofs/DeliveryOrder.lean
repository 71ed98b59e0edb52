import Admission.Proofs.Desk.Issues

/-!
# The order of delivery does not matter

While no errand is at work, the path of an open dialog and the number of its requests follow from
the edits alone. Once all requests are answered, the dialog shows the answer of the newest one,
whenever that came. Which of the older answers were shown in between is left open.
-/
namespace Admission

/-- A dialog after what a user does to its path. -/
def Dialog.amend (x : Dialog) (e : Edit) : Dialog :=
  match x.target? e with
  | none => x
  | some path => x.edit path

/-- Two dialogs that edits have made the same, whatever answers they got. -/
structure Dialog.SameEdits (x y : Dialog) : Prop where
  initial : y.initial = x.initial
  path : y.path = x.path
  issued : y.issued = x.issued
  closed : y.closed = x.closed

theorem Dialog.SameEdits.refl (x : Dialog) : x.SameEdits x := ⟨rfl, rfl, rfl, rfl⟩

theorem Dialog.SameEdits.trans {x y z : Dialog} (h : x.SameEdits y) (h' : y.SameEdits z) :
    x.SameEdits z where
  initial := h'.initial.trans h.initial
  path := h'.path.trans h.path
  issued := h'.issued.trans h.issued
  closed := h'.closed.trans h.closed

theorem Dialog.SameEdits.symm {x y : Dialog} (h : x.SameEdits y) : y.SameEdits x where
  initial := h.initial.symm
  path := h.path.symm
  issued := h.issued.symm
  closed := h.closed.symm

theorem Dialog.SameEdits.edit {x y : Dialog} (h : x.SameEdits y) (path : String) :
    (x.edit path).SameEdits (y.edit path) := by
  unfold Dialog.edit
  by_cases hc : x.closed = true
  · rw [if_pos hc, if_pos (h.closed.trans hc)]
    exact h
  · have hc' : ¬ y.closed = true := by rwa [h.closed]
    rw [if_neg hc, if_neg hc']
    by_cases hp : path = ""
    · rw [if_pos hp, if_pos hp]
      exact ⟨h.initial, rfl, h.issued, h.closed⟩
    · rw [if_neg hp, if_neg hp]
      exact ⟨h.initial, rfl, congrArg (· + 1) h.issued, h.closed⟩

theorem Dialog.SameEdits.amend {x y : Dialog} (h : x.SameEdits y) (e : Edit) :
    (x.amend e).SameEdits (y.amend e) := by
  have ht : y.target? e = x.target? e := by
    cases e <;> simp [Dialog.target?, h.initial, h.path]
  unfold Dialog.amend
  rw [ht]
  split
  · exact h
  · exact h.edit _

theorem Dialog.SameEdits.foldl {x y : Dialog} (h : x.SameEdits y) (es : List Edit) :
    (es.foldl Dialog.amend x).SameEdits (es.foldl Dialog.amend y) := by
  induction es generalizing x y with
  | nil => exact h
  | cons e es ih => exact ih (h.amend e)

theorem Dialog.sameEdits_offer (x : Dialog) (path : String) (a : Assessment)
    (number : Option Int) : x.SameEdits (x.offer path a number) := by
  unfold Dialog.offer
  split
  · exact ⟨rfl, rfl, rfl, rfl⟩
  · exact .refl x

theorem Dialog.closed_amend (x : Dialog) (e : Edit) : (x.amend e).closed = x.closed := by
  unfold Dialog.amend
  split
  · rfl
  · exact x.closed_edit _

theorem Dialog.closed_foldl_amend (x : Dialog) (es : List Edit) :
    (es.foldl Dialog.amend x).closed = x.closed := by
  induction es generalizing x with
  | nil => rfl
  | cons e es ih => exact (ih (x.amend e)).trans (x.closed_amend e)

variable {σ : Type}

/-- Whether a move is an edit, an answer of the classifier, or what goes on by itself. -/
def Move.isPlain : Move σ → Bool
  | .step | .edit _ _ | .answer _ _ | .advance _ | .alter _ => true
  | _ => false

/-- What a move does to the path of dialog `i`. -/
def Move.edit? (i : Nat) : Move σ → Option Edit
  | .edit j e => if j = i then some e else none
  | _ => none

/-- The edits of dialog `i` among the moves. -/
def editsOf (i : Nat) (ms : List (Move σ)) : List Edit := ms.filterMap (Move.edit? i)

namespace Desk

variable {s : Setting σ} {d e : Desk σ}

/-- Every errand has come to its end. -/
def Unhurried (d : Desk σ) : Prop := ∀ x ∈ d.errands, x.isEnded = true

/-- Every request of dialog `i` has been answered, with what `f` has for its number. -/
def AnsweredBy (d : Desk σ) (i : Nat) (f : Nat → Classification) : Prop :=
  ∀ (r : Nat) (q : Request), d.requests[r]? = some q → q.dialog = i →
    ∃ applied, q.verdict? = some (.answered (f q.number) applied)

theorem Unhurried.aloof_runErrand (h : Unhurried d) (k : Nat) : Aloof d (runErrand s d k) := by
  unfold runErrand
  split
  · exact .refl d
  · rename_i x hx
    have hended := h x (List.mem_of_getElem? hx)
    unfold Errand.isEnded at hended
    split at hended
    · rename_i hp
      simp only [hp]
      exact .refl d
    · cases hended

theorem Unhurried.aloof_tellRequestEnded (h : Unhurried d) (r : Nat) :
    Aloof d (d.tellRequestEnded r) := by
  unfold tellRequestEnded
  generalize List.range d.errands.length = l
  induction l with
  | nil => exact aloof_onRequest d r _
  | cons k l ih =>
    rw [List.foldl_cons]
    split
    · rename_i hk
      obtain ⟨x, hx, hp⟩ := Option.map_eq_some_iff.mp hk
      have hended := h x (List.mem_of_getElem? hx)
      simp [Errand.isEnded, hp] at hended
    · exact ih

/-- While no errand is at work, a step leaves all errands alone, and of the dialogs it changes at
most the one that is offered an answer. -/
theorem aloof_step (h : Unhurried d) (he : d.step s = some e) : AloofOrOffered d e := by
  unfold step at he
  split at he
  · rename_i j rest _
    obtain rfl := Option.some.inj he
    have hpop : Aloof d { d with agenda := { d.agenda with now := rest } } := .of rfl rfl rfl rfl
    have hidle : Unhurried ({ d with agenda := { d.agenda with now := rest } } : Desk σ) := h
    cases j with
    | request r => exact hpop.orOffered (aloof_runRequest _ r)
    | probe r => exact Or.inl (hpop.trans (still_runProbe (s := s) _ r).aloof)
    | probeEnded r => exact Or.inl (hpop.trans (aloof_tellProbeEnded _ r))
    | requestEnded r => exact Or.inl (hpop.trans (hidle.aloof_tellRequestEnded r))
    | limit r => exact Or.inl (hpop.trans (still_tellLimit (s := s) _ r).aloof)
    | errand k => exact Or.inl (hpop.trans (hidle.aloof_runErrand k))
  · exact Or.inl (still_nextPass (s := s) he).aloof

theorem AloofOrOffered.errands (h : AloofOrOffered d e) : e.errands = d.errands := by
  rcases h with h | ⟨i, path, c, n, h⟩
  · exact h.errands
  · exact h.errands

theorem AloofOrOffered.sameEdits (h : AloofOrOffered d e) {i : Nat} {x : Dialog}
    (hx : d.dialogs[i]? = some x) : ∃ y, e.dialogs[i]? = some y ∧ x.SameEdits y := by
  rcases h with h | ⟨j, path, c, n, h⟩
  · exact ⟨x, h.dialogs ▸ hx, .refl x⟩
  · refine ⟨if j = i then x.offer path (.settled c) (some n) else x, ?_, ?_⟩
    · rw [h.dialogs]
      exact getElem?_modify_eq_some_iff.mpr ⟨x, hx, rfl⟩
    · split
      · exact x.sameEdits_offer path _ _
      · exact .refl x

/-- An edit of a dialog is what it does to that dialog. -/
theorem dialogs_amend (d : Desk σ) {i j : Nat} {e : Edit} {x : Dialog}
    (hx : d.dialogs[i]? = some x) :
    (d.amend j e).1.dialogs[i]? = some (if j = i then x.amend e else x) := by
  unfold amend
  by_cases hj : j = i
  · subst hj
    rw [hx, if_pos rfl, Option.bind_some, Dialog.amend]
    cases x.target? e with
    | none => exact hx
    | some path =>
      change (d.edit j path).1.dialogs[j]? = _
      rw [(aloof_edit d j path).dialogs]
      exact getElem?_modify_eq_some_iff.mpr ⟨x, hx, by rw [if_pos rfl]⟩
  · rw [if_neg hj]
    split
    · exact hx
    · rw [(aloof_edit d j _).dialogs]
      exact getElem?_modify_eq_some_iff.mpr ⟨x, hx, by rw [if_neg hj]⟩

/-- What a plain move edits is all that it does to the path of a dialog. -/
theorem sameEdits_move (h : Unhurried d) {m : Move σ} (hm : m.isPlain = true) {i : Nat}
    {x : Dialog} (hx : d.dialogs[i]? = some x) :
    Unhurried (d.move s m) ∧ ∃ y, (d.move s m).dialogs[i]? = some y ∧
      ((m.edit? i).toList.foldl Dialog.amend x).SameEdits y := by
  cases m with
  | step =>
    cases he : d.step s with
    | none =>
      simp only [move, he, Option.getD_none]
      exact ⟨h, x, hx, .refl x⟩
    | some e =>
      have haloof := aloof_step h he
      simp only [move, he, Option.getD_some]
      exact ⟨fun y hy => h y (haloof.errands ▸ hy), haloof.sameEdits hx⟩
  | edit j e =>
    refine ⟨fun y hy => h y (errands_amend d j e ▸ hy), _, dialogs_amend d hx, ?_⟩
    simp only [Move.edit?]
    split <;> exact .refl _
  | answer c o =>
    have haloof := (still_answer (s := s) d c o).aloof
    exact ⟨fun y hy => h y (haloof.errands ▸ hy), x, haloof.dialogs ▸ hx, .refl x⟩
  | advance seconds => exact ⟨h, x, hx, .refl x⟩
  | alter f => exact ⟨h, x, hx, .refl x⟩
  | _ => cases hm

/-- The path of a dialog, and how many requests it has issued, follow from its edits. -/
theorem sameEdits_after (h : Unhurried d) {ms : List (Move σ)} (hms : ∀ m ∈ ms, m.isPlain = true)
    {i : Nat} {x : Dialog} (hx : d.dialogs[i]? = some x) :
    ∃ y, (d.after s ms).dialogs[i]? = some y ∧
      ((editsOf i ms).foldl Dialog.amend x).SameEdits y := by
  induction ms generalizing d x with
  | nil => exact ⟨x, hx, .refl x⟩
  | cons m ms ih =>
    obtain ⟨hnext, y, hy, hsame⟩ :=
      sameEdits_move (s := s) h (hms m List.mem_cons_self) hx
    obtain ⟨z, hz, hrest⟩ := ih hnext (fun k hk => hms k (List.mem_cons_of_mem m hk)) hy
    refine ⟨z, hz, .trans ?_ hrest⟩
    have hcons : editsOf i (m :: ms) = (m.edit? i).toList ++ editsOf i ms := by
      simp only [editsOf, List.filterMap_cons]
      cases m.edit? i <;> rfl
    rw [hcons, List.foldl_append]
    exact hsame.foldl _

/-- An open dialog all of whose requests have been answered shows the answer of the newest. -/
theorem Booked.shown_of_answeredBy (h : Booked d) {i : Nat} {x : Dialog}
    (hx : d.dialogs[i]? = some x) (hopen : x.closed = false) {f : Nat → Classification}
    (ha : AnsweredBy d i f) :
    (x.path = "" → x.classification = .blank ∧ x.warning = .blank) ∧
      (x.path ≠ "" → x.classification = .settled (f x.issued) ∧
        x.warning = .settled (f x.issued)) := by
  have hagrees := h.agrees hx
  refine ⟨fun hp => ⟨hagrees.blank.mp hp, hagrees.cleared hp⟩, fun hp => ?_⟩
  obtain ⟨r, l, hl, hd, hn, -, hshown⟩ := hagrees.live hopen hp
  rw [getElem?_issues] at hl
  obtain ⟨q, hq, rfl⟩ := Option.map_eq_some_iff.mp hl
  obtain ⟨applied, hv⟩ := ha r q hq hd
  have hclass := (hshown hv).2
  have hn : q.number = x.issued := hn
  rw [hn] at hclass
  exact ⟨hclass, (hagrees.shown hclass).1⟩

/-- Two schedules of the same edits, each with all answers in, end in the same path, classification
and warning: nothing without a path, and otherwise the answer to the newest request. -/
theorem delivery_order_irrelevant (h : Reachable s d) (hd : Unhurried d) {i : Nat} {x : Dialog}
    (hx : d.dialogs[i]? = some x) (hopen : x.closed = false) (f : Nat → Classification)
    (ms ms' : List (Move σ)) (hms : ∀ m ∈ ms, m.isPlain = true)
    (hms' : ∀ m ∈ ms', m.isPlain = true) (hedits : editsOf i ms = editsOf i ms')
    (ha : AnsweredBy (d.after s ms) i f) (ha' : AnsweredBy (d.after s ms') i f) :
    ∃ y y', (d.after s ms).dialogs[i]? = some y ∧ (d.after s ms').dialogs[i]? = some y' ∧
      y.path = y'.path ∧ y.classification = y'.classification ∧ y.warning = y'.warning ∧
      (y.path = "" → y.classification = .blank ∧ y.warning = .blank) ∧
      (y.path ≠ "" → y.classification = .settled (f y.issued) ∧
        y.warning = .settled (f y.issued)) := by
  obtain ⟨y, hy, hsame⟩ := sameEdits_after (s := s) hd hms hx
  obtain ⟨y', hy', hsame'⟩ := sameEdits_after (s := s) hd hms' hx
  rw [← hedits] at hsame'
  have hboth : y.SameEdits y' := hsame.symm.trans hsame'
  have hyopen : y.closed = false :=
    hsame.closed.trans ((x.closed_foldl_amend _).trans hopen)
  have hshown := (h.after ms).booked.shown_of_answeredBy hy hyopen ha
  have hshown' :=
    (h.after ms').booked.shown_of_answeredBy hy' (hboth.closed.trans hyopen) ha'
  refine ⟨y, y', hy, hy', hboth.path.symm, ?_, ?_, hshown⟩
  · by_cases hp : y.path = ""
    · rw [(hshown.1 hp).1, (hshown'.1 (hboth.path.trans hp)).1]
    · rw [(hshown.2 hp).1, (hshown'.2 (hboth.path ▸ hp)).1, hboth.issued]
  · by_cases hp : y.path = ""
    · rw [(hshown.1 hp).2, (hshown'.1 (hboth.path.trans hp)).2]
    · rw [(hshown.2 hp).2, (hshown'.2 (hboth.path ▸ hp)).2, hboth.issued]

/-- A path, another one, and the first one again, with the answers in the order of the requests. -/
def inOrder : List (Move Unit) :=
  [.edit 0 (.setPath "/a"), .edit 0 (.setPath "/b"), .edit 0 (.setPath "/a"), .step, .step, .step,
    .step, .answer 0 (.ok .bare), .answer 1 (.ok .missing), .answer 2 (.ok .valid), .step, .step,
    .step, .step]

/-- The same edits, with the answers as they may come. -/
def outOfOrder : List (Move Unit) :=
  [.edit 0 (.setPath "/a"), .edit 0 (.setPath "/b"), .step, .step, .step, .answer 1 (.ok .missing),
    .edit 0 (.setPath "/a"), .step, .step, .step, .answer 2 (.ok .valid), .step, .step, .step,
    .answer 0 (.ok .bare), .step, .step, .step]

/-- The answers, by the number of the request. -/
def answers : Nat → Classification
  | 1 => .bare
  | 2 => .missing
  | _ => .valid

/-- Both end with the third answer, though only one of them ever applies the first. -/
theorem delivery_order_irrelevant_two_schedules :
    editsOf 0 inOrder = editsOf 0 outOfOrder ∧
    AnsweredBy ((opening () [""]).after (patient "/root") inOrder) 0 answers ∧
    AnsweredBy ((opening () [""]).after (patient "/root") outOfOrder) 0 answers ∧
    ∃ y y', ((opening () [""]).after (patient "/root") inOrder).dialogs[0]? = some y ∧
      ((opening () [""]).after (patient "/root") outOfOrder).dialogs[0]? = some y' ∧
      y.classification = y'.classification ∧ y.classification = .settled .valid := by
  have ha : AnsweredBy ((opening () [""]).after (patient "/root") inOrder) 0 answers := by
    intro r q hq _
    match r with
    | 0 | 1 | 2 =>
      obtain rfl := Option.some.inj hq
      exact ⟨_, rfl⟩
    | r + 3 => cases hq
  have ha' : AnsweredBy ((opening () [""]).after (patient "/root") outOfOrder) 0 answers := by
    intro r q hq _
    match r with
    | 0 | 1 | 2 =>
      obtain rfl := Option.some.inj hq
      exact ⟨_, rfl⟩
    | r + 3 => cases hq
  obtain ⟨y, y', hy, hy', -, hclass, -, -, hshown⟩ :=
    delivery_order_irrelevant (s := patient "/root") (reachable_opening () [""])
      (fun x hx => absurd hx List.not_mem_nil) (i := 0) rfl rfl answers inOrder outOfOrder
      (by decide) (by decide) rfl ha ha'
  refine ⟨rfl, ha, ha', y, y', hy, hy', hclass, ?_⟩
  obtain rfl := Option.some.inj hy
  exact (hshown (by decide)).1

end Desk
end Admission
