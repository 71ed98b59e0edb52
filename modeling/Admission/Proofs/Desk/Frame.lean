import Admission.Desk.Move
import Mathlib.Data.List.Induction

/-!
# What is left alone

Two frames for the jobs of a desk: that of a request's job, which leaves dialogs and errands alone
and calls the classifier at most, and that of an errand's job, which leaves the other errands alone
and does not call the registrar. What a frame leaves open may change in any way.
-/
namespace Admission

/-- Whether an entry is a call of the classifier. -/
def Entry.isClassify : Entry → Bool
  | .classify _ _ => true
  | _ => false

/-- Whether an entry is a call of the registrar. -/
def Entry.isRegister : Entry → Bool
  | .register _ _ => true
  | _ => false

/-- The dialog that an operation submits, if it is a submission. -/
def Operation.submits? (current : Option Nat) : Operation → Option Nat
  | .submit i => some i
  | .submitCurrent => current
  | _ => none

/-- The log goes on with entries that satisfy `p`. -/
def LogGrown (p : Entry → Bool) (l l' : List Entry) : Prop :=
  ∃ more, l' = l ++ more ∧ ∀ x ∈ more, p x = true

theorem LogGrown.refl (p : Entry → Bool) (l : List Entry) : LogGrown p l l :=
  ⟨[], (List.append_nil l).symm, fun _ hx => absurd hx List.not_mem_nil⟩

theorem LogGrown.trans {p : Entry → Bool} {l l' l'' : List Entry} (h : LogGrown p l l')
    (h' : LogGrown p l' l'') : LogGrown p l l'' := by
  obtain ⟨more, rfl, hm⟩ := h
  obtain ⟨more', rfl, hm'⟩ := h'
  refine ⟨more ++ more', List.append_assoc .., fun x hx => ?_⟩
  rcases List.mem_append.mp hx with hx | hx
  · exact hm x hx
  · exact hm' x hx

theorem LogGrown.concat {p : Entry → Bool} (l : List Entry) {x : Entry} (h : p x = true) :
    LogGrown p l (l ++ [x]) :=
  ⟨[x], rfl, fun y hy => by rw [List.mem_singleton.mp hy, h]⟩

/-- A log has what it has grown without from before. -/
theorem LogGrown.of_getElem? {p : Entry → Bool} {l l' : List Entry} (h : LogGrown p l l')
    {n : Nat} {x : Entry} (hx : p x = false) (hn : l'[n]? = some x) : l[n]? = some x := by
  obtain ⟨more, rfl, hmore⟩ := h
  by_cases hlt : n < l.length
  · rwa [List.getElem?_append_left hlt] at hn
  · rw [List.getElem?_append_right (Nat.le_of_not_lt hlt)] at hn
    have := hmore _ (List.mem_of_getElem? hn)
    rw [hx] at this
    cases this

/-- A log that has grown without registrar calls has those that it had. -/
theorem LogGrown.register {l l' : List Entry} (h : LogGrown (!·.isRegister) l l') {n i : Nat}
    {paths : List String} (hn : l'[n]? = some (.register i paths)) :
    l[n]? = some (.register i paths) := h.of_getElem? rfl hn

namespace Desk

variable {σ : Type} {s : Setting σ} {d e f : Desk σ}

/-- Dialogs and errands stay, and only the classifier is called. -/
structure Aloof (d e : Desk σ) : Prop where
  dialogs : e.dialogs = d.dialogs
  current : e.current = d.current
  errands : e.errands = d.errands
  log : LogGrown Entry.isClassify d.log e.log

theorem Aloof.refl (d : Desk σ) : Aloof d d := ⟨rfl, rfl, rfl, .refl _ _⟩

theorem Aloof.trans (h : Aloof d e) (h' : Aloof e f) : Aloof d f where
  dialogs := h'.dialogs.trans h.dialogs
  current := h'.current.trans h.current
  errands := h'.errands.trans h.errands
  log := h.log.trans h'.log

/-- What changes in neither of these. -/
theorem Aloof.of (hd : e.dialogs = d.dialogs) (hc : e.current = d.current)
    (he : e.errands = d.errands) (hl : e.log = d.log) : Aloof d e :=
  ⟨hd, hc, he, hl ▸ .refl _ _⟩

/-- A change of a dialog is of no account to a job that leaves dialogs alone. -/
theorem Aloof.onDialog (h : Aloof d e) (i : Nat) (g : Dialog → Dialog) :
    Aloof (d.onDialog i g) (e.onDialog i g) where
  dialogs := by simp only [Desk.onDialog, h.dialogs]
  current := h.current
  errands := h.errands
  log := h.log

theorem aloof_enqueue (d : Desk σ) (j : Job) : Aloof d (d.enqueue j) := .of rfl rfl rfl rfl

theorem aloof_onRequest (d : Desk σ) (r : Nat) (g : Request → Request) :
    Aloof d (d.onRequest r g) := .of rfl rfl rfl rfl

theorem aloof_endRequest (d : Desk σ) (r : Nat) (v : Verdict) : Aloof d (d.endRequest r v) :=
  .of rfl rfl rfl rfl

theorem aloof_call (d : Desk σ) (r : Nat) (path : String) : Aloof d (call s d r path).1 where
  dialogs := rfl
  current := rfl
  errands := rfl
  log := .concat _ rfl

theorem aloof_tellProbeEnded (d : Desk σ) (r : Nat) : Aloof d (d.tellProbeEnded r) := by
  unfold tellProbeEnded
  split <;> exact .of rfl rfl rfl rfl

/-- Of all dialogs, at most one changes, which is offered an answer. -/
def AloofOrOffered (d e : Desk σ) : Prop :=
  Aloof d e ∨ ∃ (i : Nat) (path : String) (c : Classification) (n : Nat),
    Aloof (d.onDialog i (·.offer path (.settled c) (some n))) e

theorem Aloof.orOffered (h : Aloof d e) (h' : AloofOrOffered e f) : AloofOrOffered d f := by
  rcases h' with h' | ⟨i, path, c, n, h'⟩
  · exact Or.inl (h.trans h')
  · exact Or.inr ⟨i, path, c, n, (h.onDialog i _).trans h'⟩

theorem aloof_conclude (d : Desk σ) (r : Nat) (o : Except Failure Classification) :
    AloofOrOffered d (conclude s d r o) := by
  unfold conclude
  split
  · exact Or.inl (.refl d)
  · exact Or.inl (aloof_endRequest d r _)
  · exact Or.inr ⟨_, _, _, _, aloof_endRequest _ r _⟩

theorem aloof_ask (d : Desk σ) (i : Nat) (x : Dialog) (path : String) :
    Aloof d (d.ask i x path).1 := by
  unfold ask
  split
  · exact .of rfl rfl rfl rfl
  · exact .refl d

/-- Of all dialogs, one is edited. -/
theorem aloof_edit (d : Desk σ) (i : Nat) (path : String) :
    Aloof (d.onDialog i (·.edit path)) (d.edit i path).1 := by
  unfold edit
  split
  · rename_i hx
    refine .of ?_ rfl rfl rfl
    refine List.ext_getElem? fun j => ?_
    by_cases he : i = j
    · subst he
      simp [onDialog, hx]
    · simp [onDialog, he]
  · exact (aloof_ask d i _ path).onDialog i _

theorem errands_amend (d : Desk σ) (i : Nat) (e : Edit) :
    (d.amend i e).1.errands = d.errands := by
  unfold amend
  split
  · rfl
  · exact (aloof_edit d i _).errands

/-! ## Errands -/

/-- Errands other than `k` stay, and the registrar is not called. -/
structure Sparing (k : Nat) (d e : Desk σ) : Prop where
  errands : ∀ ⦃j : Nat⦄, j ≠ k → e.errands[j]? = d.errands[j]?
  log : LogGrown (!·.isRegister) d.log e.log

theorem Sparing.trans {k : Nat} (h : Sparing k d e) (h' : Sparing k e f) : Sparing k d f where
  errands _ hj := (h'.errands hj).trans (h.errands hj)
  log := h.log.trans h'.log

theorem Sparing.of {k : Nat} (he : e.errands = d.errands) (hl : e.log = d.log) : Sparing k d e :=
  ⟨fun _ _ => by rw [he], hl ▸ .refl _ _⟩

theorem Aloof.sparing (h : Aloof d e) (k : Nat) : Sparing k d e where
  errands _ _ := by rw [h.errands]
  log := by
    obtain ⟨more, hl, hm⟩ := h.log
    refine ⟨more, hl, fun x hx => ?_⟩
    have := hm x hx
    cases x <;> simp_all [Entry.isClassify, Entry.isRegister]

theorem sparing_onErrand (d : Desk σ) (k : Nat) (g : Errand → Errand) :
    Sparing k d (d.onErrand k g) where
  errands j hj := by simp [onErrand, Ne.symm hj]
  log := .refl _ _

theorem sparing_onDialog (d : Desk σ) (k i : Nat) (g : Dialog → Dialog) :
    Sparing k d (d.onDialog i g) := .of rfl rfl

end Desk
end Admission
