import Admission.Proofs.Desk.Moves

/-!
# What moves do to errands

An errand in front of the registrar's gate keeps its dialog and its path until it is cancelled or
the registrar answers; an errand that has ended stays so. Only the move in which a submission sets
out calls the registrar. Errands that wait for trust or for a request are not followed.
-/
namespace Admission

/-- How a submission ends with what the registrar gives. -/
def Ending.registered : Except Failure (List String) → Ending
  | .ok handles => .gave (.added handles.head?)
  | .error f => .failed (.failure f)

/-- What time leaves of an errand: what is to be registered, and an end. -/
structure Errand.Stays (x y : Errand) : Prop where
  registering : ∀ {i : Nat} {path : String} {gate : Nat} {a : Signal},
    x.progress = .registering i path gate a → ∃ b, y.progress = .registering i path gate b
  ended : ∀ {v : Ending}, x.progress = .ended v → y.progress = .ended v

theorem Errand.Stays.refl (x : Errand) : x.Stays x := ⟨fun h => ⟨_, h⟩, id⟩

theorem Errand.Stays.trans {x y z : Errand} (h : x.Stays y) (h' : y.Stays z) : x.Stays z where
  registering hp := by
    obtain ⟨b, hb⟩ := h.registering hp
    exact h'.registering hb
  ended hp := h'.ended (h.ended hp)

/-- An errand that waits otherwise, or has not started, may go on as it will. -/
theorem Errand.Stays.of {x y : Errand}
    (hr : ∀ i path gate a, x.progress ≠ .registering i path gate a)
    (he : ∀ v, x.progress ≠ .ended v) : x.Stays y :=
  ⟨fun h => absurd h (hr _ _ _ _), fun h => absurd h (he _)⟩

/-- Every errand is still there. -/
def ErrandsStay (l l' : List Errand) : Prop :=
  ∀ ⦃k : Nat⦄ ⦃x : Errand⦄, l[k]? = some x → ∃ y, l'[k]? = some y ∧ x.Stays y

theorem ErrandsStay.refl (l : List Errand) : ErrandsStay l l := fun _ x hx => ⟨x, hx, .refl x⟩

theorem ErrandsStay.trans {l l' l'' : List Errand} (h : ErrandsStay l l')
    (h' : ErrandsStay l' l'') : ErrandsStay l l'' := by
  intro k x hx
  obtain ⟨y, hy, hxy⟩ := h hx
  obtain ⟨z, hz, hyz⟩ := h' hy
  exact ⟨z, hz, hxy.trans hyz⟩

theorem errandsStay_modify {l : List Errand} {k : Nat} {f : Errand → Errand}
    (h : ∀ x, l[k]? = some x → x.Stays (f x)) : ErrandsStay l (l.modify k f) := by
  intro j x hx
  refine ⟨_, getElem?_modify_eq_some_iff.mpr ⟨x, hx, rfl⟩, ?_⟩
  split
  · rename_i he
    subst he
    exact h x hx
  · exact .refl x

theorem errandsStay_append (l more : List Errand) : ErrandsStay l (l ++ more) := fun _ x hx =>
  ⟨x, (List.getElem?_append_left (List.getElem?_eq_some_iff.mp hx).1).trans hx, .refl x⟩

namespace Desk

variable {σ : Type} {s : Setting σ} {d e : Desk σ}

/-- How errand `k` goes on. -/
def progress? (d : Desk σ) (k : Nat) : Option Progress := d.errands[k]?.map Errand.progress

theorem registering_of_stay (h : ErrandsStay d.errands e.errands) {k i gate : Nat}
    {target : String} {a : Signal} (hp : d.progress? k = some (.registering i target gate a)) :
    ∃ b, e.progress? k = some (.registering i target gate b) := by
  obtain ⟨x, hx, hx'⟩ := Option.map_eq_some_iff.mp hp
  obtain ⟨y, hy, hxy⟩ := h hx
  obtain ⟨b, hb⟩ := hxy.registering hx'
  exact ⟨b, by rw [progress?, hy, Option.map_some, hb]⟩

theorem ended_of_stay (h : ErrandsStay d.errands e.errands) {k : Nat} {v : Ending}
    (hp : d.progress? k = some (.ended v)) : e.progress? k = some (.ended v) := by
  obtain ⟨x, hx, hx'⟩ := Option.map_eq_some_iff.mp hp
  obtain ⟨y, hy, hxy⟩ := h hx
  rw [progress?, hy, Option.map_some, hxy.ended hx']

/-- Errands stay, and the registrar is not called. -/
structure Unmoved (d e : Desk σ) : Prop where
  errands : ErrandsStay d.errands e.errands
  log : LogGrown (!·.isRegister) d.log e.log

theorem Unmoved.refl (d : Desk σ) : Unmoved d d := ⟨.refl _, .refl _ _⟩

theorem Unmoved.trans {f : Desk σ} (h : Unmoved d e) (h' : Unmoved e f) : Unmoved d f :=
  ⟨h.errands.trans h'.errands, h.log.trans h'.log⟩

theorem Aloof.unmoved (h : Aloof d e) : Unmoved d e :=
  ⟨h.errands ▸ .refl _, (h.sparing 0).log⟩

theorem AloofOrOffered.unmoved (h : AloofOrOffered d e) : Unmoved d e := by
  rcases h with h | ⟨i, path, c, n, h⟩
  · exact h.unmoved
  · exact ⟨h.unmoved.errands, h.unmoved.log⟩

theorem unmoved_foldl {α : Type} {g : Desk σ → α → Desk σ} (h : ∀ d a, Unmoved d (g d a))
    (l : List α) (d : Desk σ) : Unmoved d (l.foldl g d) := by
  induction l generalizing d with
  | nil => exact .refl d
  | cons a l ih => exact (h d a).trans (ih (g d a))

theorem Still.unmoved (h : Still s d e) : Unmoved d e := h.aloof.unmoved

theorem unmoved_closeDialog (s : Setting σ) (d : Desk σ) (i : Nat) :
    Unmoved d (d.closeDialog i) :=
  have h := (still_closeDialog (s := s) d i).unmoved
  ⟨h.errands, h.log⟩

theorem unmoved_dismiss (s : Setting σ) (d : Desk σ) : Unmoved d d.dismiss.1 := by
  have h : Unmoved d d.closeCurrent := by
    unfold closeCurrent
    split
    · exact unmoved_closeDialog s d _
    · exact .refl d
  exact ⟨h.errands, h.log⟩

theorem unmoved_onErrand {k : Nat} {f : Errand → Errand}
    (h : ∀ x, d.errands[k]? = some x → x.Stays (f x)) : Unmoved d (d.onErrand k f) :=
  ⟨errandsStay_modify h, .refl _ _⟩

theorem unmoved_tellRequestEnded (d : Desk σ) (r : Nat) : Unmoved d (d.tellRequestEnded r) := by
  refine (aloof_onRequest d r _).unmoved.trans (unmoved_foldl (fun d k => ?_) _ _)
  split
  · rename_i i q hk
    split
    · refine (unmoved_onErrand fun x hx => ?_).trans (aloof_enqueue _ _).unmoved
      rw [hx] at hk
      have hp : x.progress = .watching i q .waiting := Option.some.inj hk
      exact .of (by simp [hp]) (by simp [hp])
    · exact .refl d
  · exact .refl d

/-- What a gate lets pass goes on with what it was doing. -/
theorem unmoved_openGate (d : Desk σ) (service : Gated) (gate : Nat) :
    Unmoved d (d.openGate service gate) := by
  refine unmoved_foldl (fun d k => ?_) _ _
  split
  · rename_i p hk
    refine (unmoved_onErrand fun x hx => ?_).trans (aloof_enqueue _ _).unmoved
    rw [hx, Option.bind_some] at hk
    unfold passing at hk
    split at hk
    · rename_i hp
      exact .of (by simp [hp]) (by simp [hp])
    · rename_i i path g hp
      split at hk
      · obtain rfl := Option.some.inj hk
        refine ⟨fun hr => ?_, fun hr => ?_⟩
        · rw [hp] at hr
          cases hr
          exact ⟨_, rfl⟩
        · rw [hp] at hr
          cases hr
      · cases hk
    · cases hk
  · exact .refl d

theorem unmoved_cancelErrand (d : Desk σ) (k : Nat) : Unmoved d (d.cancelErrand k).1 := by
  obtain h | ⟨x, p, hx, hp, h⟩ | h := cancelErrand_cases d k <;> rw [h]
  · exact .refl d
  · refine (unmoved_onErrand fun y hy => ?_).trans (aloof_enqueue _ _).unmoved
    obtain rfl := Option.some.inj (hx.symm.trans hy)
    refine ⟨fun hr => ?_, fun hr => ?_⟩
    · rw [hr] at hp
      cases hp
      exact ⟨_, rfl⟩
    · rw [hr] at hp
      cases hp
  · exact unmoved_onErrand fun x _ => ⟨fun hr => ⟨_, hr⟩, id⟩

/-! ## Moves -/

/-- The move lets errand `k` run: its turn has come, or it is new and starts at once. `e` is the
desk that it finds. -/
inductive Runs (d : Desk σ) : Move σ → Nat → Desk σ → Prop
  | inLine {k : Nat} {rest : List Job} (h : d.agenda.now = .errand k :: rest) :
      Runs d .step k { d with agenda := { d.agenda with now := rest } }
  | atOnce (op : Operation) :
      Runs d (.perform op) d.errands.length { d with errands := d.errands ++ [{ operation := op }] }

/-- The desk that an errand finds is the one before the move, but for the line and for a new
errand. -/
structure Found (d e : Desk σ) : Prop where
  world : e.world = d.world
  dialogs : e.dialogs = d.dialogs
  current : e.current = d.current
  log : e.log = d.log
  errands : ErrandsStay d.errands e.errands

theorem Runs.found {m : Move σ} {k : Nat} (h : Runs d m k e) : Found d e := by
  cases h with
  | inLine _ => exact ⟨rfl, rfl, rfl, rfl, .refl _⟩
  | atOnce op => exact ⟨rfl, rfl, rfl, rfl, errandsStay_append _ _⟩

/-- What runs and was there before is found as it was. -/
theorem Runs.errand {m : Move σ} {k : Nat} {x : Errand} (h : Runs d m k e)
    (hx : d.errands[k]? = some x) : e.errands[k]? = some x := by
  cases h with
  | inLine _ => exact hx
  | atOnce _ => exact absurd (List.getElem?_eq_some_iff.mp hx).1 (Nat.lt_irrefl _)

theorem Runs.move {m : Move σ} {k : Nat} (h : Runs d m k e) : d.move s m = runErrand s e k := by
  cases h with
  | inLine h => simp only [Desk.move, step, h, Option.getD_some, run]
  | atOnce op => rfl

/-- A move runs an errand, or leaves all errands be. -/
theorem runs_or_unmoved (d : Desk σ) (m : Move σ) :
    (∃ k e, Runs d m k e) ∨ Unmoved d (d.move s m) := by
  cases m with
  | step =>
    cases hnow : d.agenda.now with
    | nil =>
      refine Or.inr ?_
      simp only [move, step, hnow]
      cases hnext : d.nextPass with
      | none => exact .refl d
      | some e => exact (still_nextPass (s := s) hnext).unmoved
    | cons j rest =>
      have hpop : Aloof d { d with agenda := { d.agenda with now := rest } } := .of rfl rfl rfl rfl
      simp only [move, step, hnow, Option.getD_some]
      cases j with
      | request r => exact Or.inr (hpop.orOffered (aloof_runRequest _ r)).unmoved
      | probe r => exact Or.inr (hpop.trans (still_runProbe (s := s) _ r).aloof).unmoved
      | probeEnded r => exact Or.inr (hpop.trans (aloof_tellProbeEnded _ r)).unmoved
      | requestEnded r => exact Or.inr (hpop.unmoved.trans (unmoved_tellRequestEnded _ r))
      | limit r => exact Or.inr (hpop.trans (still_tellLimit (s := s) _ r).aloof).unmoved
      | errand k => exact Or.inl ⟨k, _, .inLine hnow⟩
  | edit i e =>
    have h := (work_amend (s := s) (k := 0) d i e).sparing.log
    exact Or.inr ⟨errands_amend d i e ▸ .refl _, h⟩
  | spawn op => exact Or.inr ⟨errandsStay_append _ _, .refl _ _⟩
  | perform op => exact Or.inl ⟨_, _, .atOnce op⟩
  | close i => exact Or.inr (unmoved_closeDialog s d i)
  | dismiss => exact Or.inr (unmoved_dismiss s d)
  | answer c o => exact Or.inr (still_answer (s := s) d c o).unmoved
  | openGate service gate => exact Or.inr (unmoved_openGate d service gate)
  | cancelRequest r => exact Or.inr (still_cancelRequest (s := s) d r).unmoved
  | cancelErrand k => exact Or.inr (unmoved_cancelErrand d k)
  | advance seconds => exact Or.inr ⟨.refl _, .refl _ _⟩
  | alter f => exact Or.inr ⟨.refl _, .refl _ _⟩

/-! ## Errands that run, and those that do not -/

theorem progress?_onErrand {k : Nat} {x : Errand} (hx : d.errands[k]? = some x)
    (f : Errand → Errand) : (d.onErrand k f).progress? k = some (f x).progress := by
  simp [progress?, onErrand, hx]

theorem progress?_endErrand {k : Nat} {x : Errand} (hx : d.errands[k]? = some x) (v : Ending) :
    (d.endErrand k v).progress? k = some (.ended v) := progress?_onErrand hx _

theorem errands_beginSubmit_of_ne {i j k : Nat} (h : j ≠ k) :
    (beginSubmit s d k i).errands[j]? = d.errands[j]? := by
  obtain ⟨x, hx⟩ | ⟨path, gate, hx⟩ | ⟨path, hx⟩ := beginSubmit_cases s d k i <;> rw [hx]
  · exact (sparing_onErrand d k _).errands h
  · exact (sparing_onErrand _ k _).errands h
  · exact (work_passRegister (s := s) (d.note (.register i [path])) i path).sparing.errands h

theorem errands_runErrand_of_ne {j k : Nat} (h : j ≠ k) :
    (runErrand s d k).errands[j]? = d.errands[j]? := by
  rcases runErrand_changes (s := s) d k with hs | ⟨op, i, -, -, he⟩
  · exact hs.sparing.errands h
  · rw [he]
    exact errands_beginSubmit_of_ne h

/-- In front of the registrar's gate an errand gives up or goes on to the registrar. -/
theorem runErrand_of_registering {i k gate : Nat} {path : String} {a : Signal}
    (h : d.progress? k = some (.registering i path gate a)) :
    runErrand s d k = d.endErrand k .cancelled ∨ runErrand s d k = passRegister s d k i path := by
  obtain ⟨x, hx, hp⟩ := Option.map_eq_some_iff.mp h
  unfold runErrand
  rw [hx]
  simp only [hp]
  split
  · exact .inl rfl
  · exact .inr rfl

theorem runErrand_of_ended {k : Nat} {v : Ending} (h : d.progress? k = some (.ended v)) :
    runErrand s d k = d := by
  obtain ⟨x, hx, hp⟩ := Option.map_eq_some_iff.mp h
  unfold runErrand
  rw [hx]
  simp only [hp]

/-- What has ended stays so. -/
theorem progress?_move_of_ended {k : Nat} {v : Ending} (h : d.progress? k = some (.ended v))
    (m : Move σ) : (d.move s m).progress? k = some (.ended v) := by
  rcases runs_or_unmoved (s := s) d m with ⟨j, e, hruns⟩ | hstay
  · have hfound := ended_of_stay hruns.found.errands h
    rw [hruns.move]
    by_cases hj : k = j
    · subst hj
      rwa [runErrand_of_ended hfound]
    · rw [progress?, errands_runErrand_of_ne hj]
      exact hfound
  · exact ended_of_stay hstay.errands h

theorem progress?_after_of_ended {k : Nat} {v : Ending} (h : d.progress? k = some (.ended v))
    (ms : List (Move σ)) : (d.after s ms).progress? k = some (.ended v) := by
  induction ms generalizing d with
  | nil => exact h
  | cons m ms ih => exact ih (progress?_move_of_ended h m)

end Desk
end Admission
