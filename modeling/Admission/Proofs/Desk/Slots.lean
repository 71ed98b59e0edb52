import Admission.Proofs.Desk.Line

/-!
# Errands and their turns

What a move does to an errand that it does not run: it is told that a request has ended, a gate lets
it pass, it is cancelled, or it stays as it is. An errand that goes on is put in line then. So an
errand is in line once at most, and not while it waits. What an errand does when it runs is not
said.
-/
namespace Admission

/-- How a watched request's end is told. -/
def Errand.heard (r : Nat) (x : Errand) : Option Progress :=
  match x.progress with
  | .watching i q .waiting => if q = r then some (.watching i q .given) else none
  | _ => none

/-- What is given up of an errand that waits. -/
def Progress.withdrawn? : Progress → Option Progress
  | .trusting i owner gate .waiting => some (.trusting i owner gate .withdrawn)
  | .registering i path gate .waiting => some (.registering i path gate .withdrawn)
  | .watching i r .waiting => some (.watching i r .withdrawn)
  | _ => none

/-- Whether an errand may be in line: it has not started, or it waits no longer. -/
def Progress.mayRun : Progress → Bool
  | .created => true
  | .trusting _ _ _ a | .registering _ _ _ a | .watching _ _ a => a != .waiting
  | .ended _ => false

/-- An errand, if it is there, and how often it is in line. -/
structure Slot where
  errand? : Option Errand
  turns : Nat

namespace Slot

/-- The errand goes on as `f` says, if it says something. -/
def wake (f : Errand → Option Progress) (p : Slot) : Slot :=
  match p.errand?.bind f with
  | some q => ⟨p.errand?.map fun x => { x with progress := q }, p.turns + 1⟩
  | none => p

/-- The errand is cancelled: what it waits for is given up, or it is stopped at its next run. -/
def cancel (p : Slot) : Slot :=
  match p.errand? with
  | none => p
  | some x =>
    if x.isEnded then p
    else
      match x.progress.withdrawn? with
      | some q => ⟨some { x with progress := q }, p.turns + 1⟩
      | none => ⟨some { x with stopping := true }, p.turns⟩

/-- The errand is in line once at most, and not while it waits. -/
def Queued (p : Slot) : Prop :=
  p.turns ≤ if p.errand?.any (·.progress.mayRun) then 1 else 0

/-- An errand that waits is woken, and put in line. -/
theorem Queued.wake {p : Slot} (h : p.Queued) {f : Errand → Option Progress}
    (hf : ∀ x q, f x = some q → x.progress.mayRun = false ∧ q.mayRun = true) :
    (p.wake f).Queued := by
  unfold Slot.wake
  split
  · rename_i q hq
    obtain ⟨x, hx, hq⟩ := Option.bind_eq_some_iff.mp hq
    obtain ⟨hwaits, hruns⟩ := hf x q hq
    simp only [Queued, hx, Option.any_some, hwaits] at h
    simp only [Queued, hx, Option.map_some, Option.any_some, hruns]
    simpa using h
  · exact h

theorem Queued.cancel {p : Slot} (h : p.Queued) : p.cancel.Queued := by
  unfold Slot.cancel
  split
  · exact h
  · rename_i x hx
    simp only [Queued, hx, Option.any_some] at h
    split
    · simpa only [Queued, hx, Option.any_some] using h
    · split
      · rename_i q hq
        unfold Progress.withdrawn? at hq
        split at hq <;> cases hq <;> simp_all [Queued, Progress.mayRun]
      · exact h

end Slot

theorem Errand.heard_mayRun {r : Nat} {x : Errand} {p : Progress} (h : x.heard r = some p) :
    x.progress.mayRun = false ∧ p.mayRun = true := by
  unfold Errand.heard at h
  split at h
  · rename_i hp
    split at h
    · obtain rfl := Option.some.inj h
      simp [hp, Progress.mayRun]
    · cases h
  · cases h

theorem passing_mayRun {service : Desk.Gated} {gate : Nat} {x p : Progress}
    (h : Desk.passing service gate x = some p) : x.mayRun = false ∧ p.mayRun = true := by
  unfold Desk.passing at h
  split at h
  · split at h
    · obtain rfl := Option.some.inj h
      exact ⟨rfl, rfl⟩
    · cases h
  · split at h
    · obtain rfl := Option.some.inj h
      exact ⟨rfl, rfl⟩
    · cases h
  · cases h

namespace Desk

variable {σ : Type} {s : Setting σ} {d e : Desk σ} {k r : Nat} {m : Move σ}

/-- How often errand `k` is in line. -/
def turns (d : Desk σ) (k : Nat) : Nat := d.agenda.jobs.count (.errand k)

def slot (d : Desk σ) (k : Nat) : Slot := ⟨d.errands[k]?, d.turns k⟩

theorem turns_enqueue (d : Desk σ) (j : Job) (k : Nat) :
    (d.enqueue j).turns k = d.turns k + if j = .errand k then 1 else 0 := by
  simp only [turns, enqueue, Agenda.jobs, ← List.append_assoc, List.count_append,
    List.count_singleton, beq_iff_eq]

theorem GoingBy.turns (h : Going d e) (k : Nat) : e.turns k = d.turns k := by
  obtain ⟨more, hmore, hp⟩ := h.next
  have hnone : more.count (.errand k) = 0 := by
    refine List.count_eq_zero.mpr fun hk => ?_
    have := hp _ hk
    simp [Job.isErrand] at this
  simp [Desk.turns, Agenda.jobs, h.now, hmore, List.count_append, hnone]

/-- Work that leaves errands alone and puts none in line. -/
theorem slot_of_going (he : e.errands = d.errands) (h : Going d e) (k : Nat) :
    e.slot k = d.slot k := by
  rw [slot, he, h.turns, slot]

/-! ## Errands that are woken -/

/-- Errand `k` goes on as `f` says, if it says something. -/
def wake (f : Errand → Option Progress) (d : Desk σ) (k : Nat) : Desk σ :=
  match d.errands[k]?.bind f with
  | some p => (d.await k p).enqueue (.errand k)
  | none => d

def awaken (d : Desk σ) (f : Errand → Option Progress) : Desk σ :=
  (List.range d.errands.length).foldl (wake f) d

theorem slot_await_enqueue (d : Desk σ) (k : Nat) (p : Progress) (j : Nat) :
    ((d.await k p).enqueue (.errand k)).slot j =
      if k = j then ⟨d.errands[j]?.map fun x => { x with progress := p }, d.turns j + 1⟩
      else d.slot j := by
  have hturns : ((d.await k p).enqueue (.errand k)).turns j =
      d.turns j + if k = j then 1 else 0 := by
    rw [turns_enqueue]
    simp [turns, await, onErrand]
  have herrands : ((d.await k p).enqueue (.errand k)).errands[j]? =
      if k = j then d.errands[j]?.map fun x => { x with progress := p } else d.errands[j]? := by
    simp only [await, onErrand, enqueue, List.getElem?_modify]
    split <;> simp
  rw [slot, hturns, herrands]
  split <;> rfl

theorem slot_wake (f : Errand → Option Progress) (d : Desk σ) (k j : Nat) :
    (wake f d k).slot j = if k = j then (d.slot j).wake f else d.slot j := by
  unfold wake Slot.wake
  by_cases hk : k = j
  · subst hk
    rw [if_pos rfl]
    simp only [slot]
    cases d.errands[k]?.bind f with
    | none => rfl
    | some p => exact (slot_await_enqueue d k p k).trans (if_pos rfl)
  · rw [if_neg hk]
    cases d.errands[k]?.bind f with
    | none => rfl
    | some p => exact (slot_await_enqueue d k p j).trans (if_neg hk)

/-- Every errand is looked at once, and only its own look changes it. -/
theorem slot_awaken (d : Desk σ) (f : Errand → Option Progress) (k : Nat) :
    (d.awaken f).slot k = (d.slot k).wake f := by
  have hrange (n : Nat) : ((List.range n).foldl (wake f) d).slot k =
      if k < n then (d.slot k).wake f else d.slot k := by
    induction n with
    | zero => rfl
    | succ n ih =>
      rw [List.range_succ, List.foldl_append, List.foldl_cons, List.foldl_nil, slot_wake, ih]
      rcases Nat.lt_trichotomy k n with h | rfl | h
      · simp [h, Nat.ne_of_gt h, Nat.lt_succ_of_lt h]
      · simp
      · simp [Nat.ne_of_lt h, Nat.not_lt.mpr (Nat.le_of_lt h), show ¬k < n + 1 by omega]
  rw [awaken, hrange]
  split
  · rfl
  · rename_i hk
    have hnone : d.errands[k]? = none := List.getElem?_eq_none (Nat.le_of_not_lt hk)
    simp [Slot.wake, slot, hnone]

theorem openGate_eq_awaken (d : Desk σ) (service : Gated) (gate : Nat) :
    d.openGate service gate = d.awaken fun x => passing service gate x.progress := rfl

theorem tellRequestEnded_eq_awaken (d : Desk σ) (r : Nat) :
    d.tellRequestEnded r =
      (d.onRequest r fun q => { q with tracked := false }).awaken (Errand.heard r) := by
  unfold tellRequestEnded awaken
  refine congrArg (fun g => List.foldl g _ _) (funext fun d => funext fun k => ?_)
  unfold wake Errand.heard
  cases hx : d.errands[k]? with
  | none => rfl
  | some x =>
    simp only [Option.map_some, Option.bind_some]
    split
    · rename_i i q hp
      rw [Option.some.inj hp]
      dsimp only
      split <;> rfl
    · rename_i hp
      split
      · rename_i h
        split at h
        · rename_i i q hp'
          exact absurd (congrArg some hp') (hp i q)
        · cases h
      · rfl

theorem slot_cancelErrand_self (d : Desk σ) (k : Nat) :
    (d.cancelErrand k).1.slot k = (d.slot k).cancel := by
  cases hx : d.errands[k]? with
  | none => simp [cancelErrand, Slot.cancel, slot, hx]
  | some x =>
    have hslot : d.slot k = ⟨some x, d.turns k⟩ := by rw [slot, hx]
    have hwithdrawn (p : Progress) : ((d.await k p).enqueue (.errand k)).slot k =
        ⟨some { x with progress := p }, d.turns k + 1⟩ := by
      rw [slot_await_enqueue, if_pos rfl, hx, Option.map_some]
    have hstopped : (d.onErrand k fun x => { x with stopping := true }).slot k =
        ⟨some { x with stopping := true }, d.turns k⟩ := by
      simp [slot, onErrand, Desk.turns, hx]
    obtain ⟨op, p, stopping⟩ := x
    rw [hslot]
    unfold cancelErrand
    simp only [hx, Option.map_some]
    cases p with
    | created => exact hstopped
    | trusting i owner gate a =>
      cases a
      · exact hwithdrawn _
      · exact hstopped
      · exact hstopped
    | registering i path gate a =>
      cases a
      · exact hwithdrawn _
      · exact hstopped
      · exact hstopped
    | watching i r a =>
      cases a
      · exact hwithdrawn _
      · exact hstopped
      · exact hstopped
    | ended v => exact hslot

theorem slot_cancelErrand_of_ne (d : Desk σ) {j k : Nat} (h : j ≠ k) :
    (d.cancelErrand k).1.slot j = d.slot j := by
  have hwithdraw (p : Progress) : ((d.await k p).enqueue (.errand k)).slot j = d.slot j :=
    (slot_await_enqueue d k p j).trans (if_neg (Ne.symm h))
  obtain hd | ⟨x, p, -, -, hd⟩ | hd := cancelErrand_cases d k
  · rw [hd]
  · rw [hd]
    exact hwithdraw p
  · rw [hd]
    simp [slot, Desk.turns, onErrand, Ne.symm h]

/-! ## Moves -/

/-- What a move does to errand `k`. -/
inductive SlotMove (s : Setting σ) (d : Desk σ) (k : Nat) : Move σ → Prop
  | runs {m : Move σ} {e : Desk σ} (h : Runs d m k e) : SlotMove s d k m
  | told {r : Nat} {rest : List Job} (hnow : d.agenda.now = .requestEnded r :: rest)
      (h : (d.move s .step).slot k = (d.slot k).wake (Errand.heard r)) : SlotMove s d k .step
  | passed {service : Gated} {gate : Nat}
      (h : (d.move s (.openGate service gate)).slot k =
        (d.slot k).wake fun x => passing service gate x.progress) :
      SlotMove s d k (.openGate service gate)
  | cancelled (h : (d.move s (.cancelErrand k)).slot k = (d.slot k).cancel) :
      SlotMove s d k (.cancelErrand k)
  | spawned {op : Operation} (hk : k = d.errands.length)
      (h : (d.move s (.spawn op)).slot k = ⟨some { operation := op }, d.turns k + 1⟩) :
      SlotMove s d k (.spawn op)
  | still {m : Move σ} (hm : ∀ r rest, m = .step → d.agenda.now ≠ .requestEnded r :: rest)
      (h : (d.move s m).slot k = d.slot k) : SlotMove s d k m

/-- A job that is taken from the line is no turn of another errand. -/
theorem slot_pop {rest : List Job} {j : Job} (h : d.agenda.now = j :: rest) (hj : j ≠ .errand k) :
    ({ d with agenda := { d.agenda with now := rest } } : Desk σ).slot k = d.slot k := by
  simp [slot, turns, Agenda.jobs, h, hj]

theorem slot_nextPass (hnow : d.agenda.now = []) (h : d.nextPass = some e) (k : Nat) :
    e.slot k = d.slot k := by
  obtain ⟨-, he, due, ha⟩ := nextPass_spec h
  have hdue : (due.map fun t => Job.limit t.request).count (.errand k) = 0 := by
    rw [List.count_eq_zero, List.mem_map]
    rintro ⟨t, -, ht⟩
    cases ht
  simp [slot, turns, Agenda.jobs, he, ha, hnow, List.count_append, hdue]

theorem slot_runErrand_of_ne {j : Nat} (h : k ≠ j) : (runErrand s d j).slot k = d.slot k := by
  rw [slot, errands_runErrand_of_ne h, (going_runErrand d j).turns, slot]

theorem slot_concat (d : Desk σ) {x : Errand} (h : k ≠ d.errands.length) :
    ({ d with errands := d.errands ++ [x] } : Desk σ).slot k = d.slot k := by
  rcases Nat.lt_or_gt_of_ne h with hk | hk
  · simp [slot, turns, List.getElem?_append_left hk]
  · have hnone : d.errands[k]? = none := List.getElem?_eq_none (Nat.le_of_lt hk)
    have hnone' : (d.errands ++ [x])[k]? = none := List.getElem?_eq_none (by simp; omega)
    simp [slot, turns, hnone, hnone']

theorem slot_spawn_of_ne (d : Desk σ) (op : Operation) (h : k ≠ d.errands.length) :
    (d.spawn op).1.slot k = d.slot k := by
  rw [← slot_concat d (x := { operation := op }) h, spawn, slot, turns_enqueue,
    if_neg fun hk => h (Job.errand.inj hk).symm]
  rfl

theorem slot_told {rest : List Job} (hnow : d.agenda.now = .requestEnded r :: rest) (k : Nat) :
    (d.move s .step).slot k = (d.slot k).wake (Errand.heard r) := by
  rw [move_step_of_now hnow, run, tellRequestEnded_eq_awaken, slot_awaken,
    ← slot_pop hnow (k := k) (by simp)]
  rfl

/-- A move that is no step. -/
theorem SlotMove.aside {m : Move σ} (hm : m ≠ .step) (h : (d.move s m).slot k = d.slot k) :
    SlotMove s d k m :=
  .still (fun _ _ h _ => hm h) h

/-- A step: the job that comes next is for errand `k`, or tells it that a request has ended, or does
nothing to it. -/
theorem slot_step (d : Desk σ) (k : Nat) : SlotMove s d k .step := by
  cases hnow : d.agenda.now with
  | nil =>
    refine .still (fun r rest _ h => by cases hnow.symm.trans h) ?_
    simp only [move, step, hnow]
    cases hpass : d.nextPass with
    | none => rfl
    | some e => exact slot_nextPass hnow hpass k
  | cons j rest =>
    have hmove := move_step_of_now (s := s) hnow
    by_cases hj : j = .errand k
    · subst hj
      exact .runs (.inLine hnow)
    have hpop := slot_pop hnow hj
    by_cases htold : ∃ r, j = .requestEnded r
    · obtain ⟨r, rfl⟩ := htold
      exact .told hnow (slot_told hnow k)
    · have hstep : ∀ r rest, (Move.step : Move σ) = .step →
          d.agenda.now ≠ .requestEnded r :: rest := by
        intro r rest' _ h
        exact htold ⟨r, (List.cons.inj (hnow.symm.trans h)).1⟩
      refine .still hstep ?_
      rw [hmove, ← hpop]
      cases j with
      | request r =>
        refine slot_of_going ((aloof_runRequest (s := s) _ r).elim (·.errands) ?_)
          (going_runRequest _ r) k
        rintro ⟨_, _, _, _, h⟩
        exact h.errands
      | probe r =>
        exact slot_of_going (still_runProbe (s := s) _ r).aloof.errands (going_runProbe _ r) k
      | probeEnded r =>
        exact slot_of_going (aloof_tellProbeEnded _ r).errands (going_tellProbeEnded _ r) k
      | requestEnded r => exact absurd ⟨r, rfl⟩ htold
      | limit r =>
        exact slot_of_going (still_tellLimit (s := s) _ r).aloof.errands (going_tellLimit _ r) k
      | errand j => exact slot_runErrand_of_ne fun h => hj (h ▸ rfl)

/-- Errand `k` runs with a move, or the move does one of a few things to it. -/
theorem slot_move (d : Desk σ) (k : Nat) (m : Move σ) : SlotMove s d k m := by
  have hgoing {m : Move σ} (hm : m ≠ .step) (he : (d.move s m).errands = d.errands)
      (h : Going d (d.move s m)) : SlotMove s d k m :=
    .aside hm (slot_of_going he h k)
  cases m with
  | step => exact slot_step d k
  | edit i x => exact hgoing (by simp) (errands_amend d i x) (going_amend d i x)
  | spawn op =>
    by_cases hk : k = d.errands.length
    · subst hk
      refine .spawned rfl ?_
      rw [move, spawn, slot, turns_enqueue, if_pos rfl]
      exact congrArg (Slot.mk · _) List.getElem?_concat_length
    · exact .aside (by simp) (slot_spawn_of_ne d op hk)
  | perform op =>
    by_cases hk : k = d.errands.length
    · subst hk
      exact .runs (.atOnce op)
    · refine .aside (by simp) ?_
      rw [Runs.move (.atOnce op), slot_runErrand_of_ne hk, slot_concat d hk]
  | close i =>
    exact hgoing (by simp) (errands_closeDialog s d i) (going_closeDialog d i)
  | dismiss => exact hgoing (by simp) (errands_dismiss s d) (going_dismiss d)
  | answer c o =>
    exact hgoing (by simp) (still_answer (s := s) d c o).aloof.errands (going_answer d c o)
  | openGate service gate =>
    refine .passed ?_
    rw [move, openGate_eq_awaken, slot_awaken]
  | cancelRequest r =>
    exact hgoing (by simp) (still_cancelRequest (s := s) d r).aloof.errands (going_cancelRequest d r)
  | cancelErrand j =>
    by_cases hk : k = j
    · subst hk
      exact .cancelled (slot_cancelErrand_self d k)
    · exact .aside (by simp) (slot_cancelErrand_of_ne d hk)
  | advance seconds => exact .aside (by simp) rfl
  | alter f => exact .aside (by simp) rfl

theorem turns_of_absent (h : (d.slot k).Queued) (hk : d.errands[k]? = none) : d.turns k = 0 := by
  simpa [Slot.Queued, slot, hk] using h

/-- An errand that runs is not in line any more. -/
theorem Runs.turns (h : Runs d m k e) (hq : (d.slot k).Queued) : e.turns k = 0 := by
  cases h with
  | @inLine k rest hnow =>
    have hle : d.turns k ≤ 1 := Nat.le_trans hq (by split <;> simp)
    simpa [Desk.turns, Agenda.jobs, hnow] using hle
  | atOnce op =>
    have hnone : d.turns d.errands.length = 0 :=
      turns_of_absent hq (List.getElem?_eq_none (Nat.le_refl _))
    exact hnone

theorem turns_move_of_runs (h : Runs d m k e) (hq : (d.slot k).Queued) :
    (d.move s m).turns k = 0 := by
  rw [h.move, (going_runErrand e k).turns, h.turns hq]

theorem queued_move (h : (d.slot k).Queued) (m : Move σ) : ((d.move s m).slot k).Queued := by
  cases slot_move (s := s) d k m with
  | runs hruns =>
    change (d.move s m).turns k ≤ _
    rw [turns_move_of_runs hruns h]
    exact Nat.zero_le _
  | told _ he =>
    rw [he]
    exact h.wake fun x q => Errand.heard_mayRun
  | passed he =>
    rw [he]
    exact h.wake fun x q => passing_mayRun
  | cancelled he =>
    rw [he]
    exact h.cancel
  | spawned hk he =>
    rw [he, turns_of_absent h (List.getElem?_eq_none (Nat.le_of_eq hk.symm))]
    exact Nat.le_refl 1
  | still _ he =>
    rw [he]
    exact h

/-- On every run, an errand is in line once at most, and not while it waits. -/
theorem Reachable.queued (h : Reachable s d) (k : Nat) : (d.slot k).Queued := by
  obtain ⟨world, paths, ms, rfl⟩ := h
  induction ms using List.reverseRecOn with
  | nil => exact Nat.zero_le _
  | append_singleton ms m ih =>
    rw [after_concat]
    exact queued_move ih m

end Desk
end Admission
