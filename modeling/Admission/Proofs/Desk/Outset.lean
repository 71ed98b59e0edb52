import Admission.Proofs.CurrentDialog
import Admission.Proofs.Waiting

/-!
# The first run of an errand

An errand that waits in line does nothing until its first run. There it may be refused, because no
dialog is shown or because of what the dialog shows. An errand that is let in is not refused later,
whatever it waits for and whatever becomes of the dialog; a submission that the registrar fails
leaves the dialogs and their requests alone. What other errands do meanwhile is left open.
-/
namespace Admission

namespace Desk

variable {σ : Type} {s : Setting σ} {d e f : Desk σ} {op : Operation} {i k r : Nat} {a : Signal}
  {m : Move σ} {ms : List (Move σ)} {v : Ending}

/-- Dialogs, the one that is shown, and their requests and calls are as they were. -/
structure Intact (d e : Desk σ) : Prop where
  dialogs : e.dialogs = d.dialogs
  current : e.current = d.current
  requests : e.requests = d.requests
  calls : e.calls = d.calls

/-- No service has been called either. -/
structure Untouched (d e : Desk σ) : Prop extends Intact d e where
  world : e.world = d.world
  log : e.log = d.log

theorem Intact.trans (h : Intact d e) (h' : Intact e f) : Intact d f where
  dialogs := h'.dialogs.trans h.dialogs
  current := h'.current.trans h.current
  requests := h'.requests.trans h.requests
  calls := h'.calls.trans h.calls

theorem Alike.intact (h : Alike d e) : Intact d e := ⟨h.dialogs, h.current, h.requests, h.calls⟩

/-- To find its turn come changes nothing for an errand, nor does its end. -/
theorem Runs.untouched_endErrand (h : Runs d m k e) (v : Ending) :
    Untouched d (e.endErrand k v) := by
  cases h <;> exact ⟨⟨rfl, rfl, rfl, rfl⟩, rfl, rfl⟩

theorem Runs.intact (h : Runs d m k e) : Intact d e := by
  cases h <;> exact ⟨rfl, rfl, rfl, rfl⟩

theorem untouched_spawn (d : Desk σ) (op : Operation) : Untouched d (d.spawn op).1 :=
  ⟨⟨rfl, rfl, rfl, rfl⟩, rfl, rfl⟩

/-- An errand ends once. -/
theorem ending_unique {w : Ending} (hw : d.progress? k = some (.ended w))
    (hv : (d.after s ms).progress? k = some (.ended v)) : w = v :=
  Progress.ended.inj (Option.some.inj ((progress?_after_of_ended hw ms).symm.trans hv))

/-! ## Errands that have not started -/

/-- Errand `k`, which is to run `op`, has not started. -/
def Unstarted (d : Desk σ) (k : Nat) (op : Operation) : Prop :=
  ∃ stopping, d.errands[k]? = some { operation := op, stopping := stopping }

theorem unstarted_spawn (d : Desk σ) (op : Operation) :
    Unstarted (d.spawn op).1 (d.spawn op).2 op :=
  ⟨false, List.getElem?_concat_length⟩

theorem Unstarted.progress (h : Unstarted d k op) : d.progress? k = some .created := by
  obtain ⟨stopping, hx⟩ := h
  rw [progress?, hx, Option.map_some]

/-- It starts, or it stays as it is; at most it is to be stopped at its first run. -/
theorem Unstarted.move (h : Unstarted d k op) (m : Move σ) :
    (∃ e, Runs d m k e) ∨ Unstarted (d.move s m) k op := by
  obtain ⟨stopping, hx⟩ := h
  have hsame (hslot : (d.move s m).slot k = d.slot k) : Unstarted (d.move s m) k op :=
    ⟨stopping, (slot_eq_iff.mp hslot).1.trans hx⟩
  cases slot_move (s := s) d k m with
  | runs hruns => exact Or.inl ⟨_, hruns⟩
  | told _ hslot => exact Or.inr (hsame (slot_of_not_wake hx hslot rfl))
  | passed hslot => exact Or.inr (hsame (slot_of_not_wake hx hslot rfl))
  | cancelled hslot =>
    rcases slot_of_cancel hx (by simp) hslot with ⟨p, hp, -⟩ | ⟨-, hy, -⟩
    · cases hp
    · exact Or.inr ⟨true, hy⟩
  | spawned hk _ =>
    have hlt := (List.getElem?_eq_some_iff.mp hx).1
    omega
  | still _ hslot => exact Or.inr (hsame hslot)

/-- With its first run it begins, or it is stopped. -/
theorem Unstarted.run (h : Unstarted d k op) (hruns : Runs d m k e) :
    d.move s m = e.endErrand k .cancelled ∨
      d.move s m = beginErrand s e k op ∧ e.errands[k]? = some { operation := op } := by
  obtain ⟨stopping, hx⟩ := h
  have hx' : e.errands[k]? = some { operation := op, stopping := stopping } := hruns.errand hx
  rw [hruns.move]
  cases stopping with
  | true => exact Or.inl (by simp [runErrand, hx'])
  | false => exact Or.inr ⟨by simp [runErrand, hx'], hx'⟩

/-- What has ended has started. -/
theorem Unstarted.first_run (h : Unstarted d k op)
    (hv : (d.after s ms).progress? k = some (.ended v)) :
    ∃ before m later e, ms = before ++ m :: later ∧ Unstarted (d.after s before) k op ∧
      Runs (d.after s before) m k e := by
  induction ms generalizing d with
  | nil => cases h.progress.symm.trans hv
  | cons m ms ih =>
    rcases h.move (s := s) m with ⟨e, hruns⟩ | h'
    · exact ⟨[], m, ms, e, rfl, h, hruns⟩
    · obtain ⟨before, n, later, e, rfl, hstart, hruns⟩ := ih h' hv
      exact ⟨m :: before, n, later, e, rfl, hstart, hruns⟩

/-- With move `m` errand `k`, which is to run `op`, has its first run. `e` is the desk that it
finds. -/
structure Begins (s : Setting σ) (d : Desk σ) (m : Move σ) (k : Nat) (op : Operation)
    (e : Desk σ) : Prop where
  unstarted : d.progress? k = some .created
  runs : Runs d m k e
  fresh : e.errands[k]? = some { operation := op }
  move_eq : d.move s m = beginErrand s e k op

/-- An errand that has ended, other than by being cancelled, has begun. -/
theorem Unstarted.begins (h : Unstarted d k op)
    (hv : (d.after s ms).progress? k = some (.ended v)) (hne : v ≠ .cancelled) :
    ∃ before m later e, ms = before ++ m :: later ∧ Begins s (d.after s before) m k op e ∧
      (((d.after s before).move s m).after s later).progress? k = some (.ended v) := by
  obtain ⟨before, m, later, e, rfl, hstart, hruns⟩ := h.first_run hv
  rw [after_append] at hv
  have hv : (((d.after s before).move s m).after s later).progress? k = some (.ended v) := hv
  rcases hstart.run hruns with hstop | ⟨hbegin, hfresh⟩
  · have hends : ((d.after s before).move s m).progress? k = some (.ended .cancelled) := by
      obtain ⟨stopping, hx⟩ := hstart
      rw [hstop]
      exact progress?_endErrand (hruns.errand hx) _
    exact absurd (ending_unique hends hv).symm hne
  · exact ⟨before, m, later, e, rfl, ⟨hstart.progress, hruns, hfresh, hbegin⟩, hv⟩

/-! ## Errands that have been let in -/

/-- Errand `k` has been let in: it waits for something, or it has ended without a refusal. -/
inductive LetIn (d : Desk σ) (k : Nat) : Prop
  | waits {op : Operation} {i : Nat} {x : Errand} (h : Waits True op i d k x)
  | registers {i : Nat} {path : String} {gate : Nat} {a : Signal}
      (h : d.progress? k = some (.registering i path gate a))
  | ended {v : Ending} (h : d.progress? k = some (.ended v))
      (hv : ∀ error, v = .failed error → error.refuses = false)

theorem Reported.not_refused (h : Reported d i op v) {error : Error} (hv : v = .failed error) :
    error.refuses = false := by
  subst hv
  cases op with
  | openDialog path wait =>
    obtain ⟨j, g, -, -, hv⟩ | ⟨-, hv⟩ := h
    · cases hv
    · cases hv
      rfl
  | trustCurrent wait strict =>
    obtain ⟨g, granted, -, hv⟩ := h
    cases hv
  | _ =>
    obtain ⟨g, -, hv⟩ := h
    cases hv

theorem Goes.letIn (h : Goes True op i d k) : LetIn d k := by
  cases h with
  | waits h => exact .waits h
  | ended h hv => exact .ended h fun _ => hv.not_refused

theorem letIn_registered {o : Except Failure (List String)}
    (h : d.progress? k = some (.ended (.registered o))) : LetIn d k := by
  refine .ended h fun error he => ?_
  cases o with
  | ok handles => cases he
  | error f =>
    cases he
    rfl

/-- A request fails because the home directory is unknown, or because the classifier does. -/
theorem Reachable.not_refused (hd : Reachable s d) {q : Request} {error : Error}
    (hq : d.requests[r]? = some q) (hv : q.verdict? = some (.failed error)) :
    error.refuses = false := by
  obtain ⟨world, paths, ms, rfl⟩ := hd
  have hstage := ((sound_iff_fits hq).mp (orderly_after s world paths ms r)).stage
  simp only [Request.Placed, stage_of_verdict hv] at hstage
  exact hstage.not_refuses

theorem LetIn.move (h : LetIn d k) (hd : Reachable s d) (m : Move σ) : LetIn (d.move s m) k := by
  cases h with
  | waits h =>
    by_cases hruns : ∃ e, Runs d m k e
    · obtain ⟨e, hruns⟩ := hruns
      rcases h.run hd hruns with ⟨hgoes, -⟩ | ⟨-, hv⟩ | ⟨r, a, q, error, -, hq, hverdict, hv⟩
      · exact hgoes.letIn
      · exact .ended hv (by simp)
      · refine .ended hv fun error' he => ?_
        cases he
        exact hd.not_refused hq hverdict
    · obtain ⟨y, hy⟩ := h.move (m := m) hd (fun _ => trivial) fun e he => hruns ⟨e, he⟩
      exact .waits hy
  | registers h =>
    rcases progress?_move_of_registering (s := s) h m with ⟨b, hb⟩ | hv | hv
    · exact .registers hb
    · exact .ended hv (by simp)
    · exact letIn_registered hv
  | ended h hv => exact .ended (progress?_move_of_ended h m) hv

theorem LetIn.after (h : LetIn d k) (hd : Reachable s d) (ms : List (Move σ)) :
    LetIn (d.after s ms) k := by
  induction ms generalizing d with
  | nil => exact h
  | cons m ms ih => exact ih (h.move hd m) (hd.move m)

/-- So it does not end with a refusal. -/
theorem LetIn.not_refused (h : LetIn d k) (hd : Reachable s d) {error : Error}
    (hv : (d.after s ms).progress? k = some (.ended (.failed error))) : error.refuses = false := by
  cases h.after hd ms with
  | waits hw => exact absurd hv (hw.unended _)
  | registers hp => cases hp.symm.trans hv
  | ended hw hno =>
    have he := Option.some.inj (hw.symm.trans hv)
    exact hno error (Progress.ended.inj he)

/-! ## Submissions that fail -/

theorem alike_passRegister {x : Errand} (hx : d.errands[k]? = some x) (path : String)
    (hno : ∀ handle, (passRegister s d k i path).progress? k ≠
      some (.ended (.gave (.added handle)))) : Alike d (passRegister s d k i path) := by
  have hends := progress?_passRegister (s := s) (i := i) hx path
  cases hout : (s.register [path] d.world).1 with
  | error failure =>
    rw [passRegister_of_error hout]
    exact (alike_world d _).trans (alike_onErrand _ k _)
  | ok handles =>
    rw [hout] at hends
    exact absurd hends (hno _)

theorem alike_beginSubmit {x : Errand} (hx : d.errands[k]? = some x)
    (hno : ∀ handle, (beginSubmit s d k i).progress? k ≠
      some (.ended (.gave (.added handle)))) : Alike d (beginSubmit s d k i) := by
  have hnote (path : String) : Alike d (d.note (.register i [path])) := alike_note d rfl
  obtain ⟨error, h⟩ | ⟨path, gate, h⟩ | ⟨path, h⟩ := beginSubmit_cases s d k i
  · rw [h]
    exact alike_onErrand d k _
  · rw [h]
    exact (hnote path).trans (alike_onErrand _ k _)
  · have hx' : (d.note (.register i [path])).errands[k]? = some x := hx
    rw [h] at hno ⊢
    exact (hnote path).trans (alike_passRegister hx' path hno)

theorem alike_runErrand_of_registering {path : String} {gate : Nat}
    (h : d.progress? k = some (.registering i path gate a))
    (hno : ∀ handle, (runErrand s d k).progress? k ≠ some (.ended (.gave (.added handle)))) :
    Alike d (runErrand s d k) := by
  obtain ⟨x, hx, -⟩ := Option.map_eq_some_iff.mp h
  obtain hrun | hrun := runErrand_of_registering (s := s) h <;> rw [hrun] at hno ⊢
  · exact alike_onErrand d k _
  · exact alike_passRegister hx path hno

/-- A submission that the registrar keeps waiting runs once more, and ends then. -/
theorem registering_ends {path : String} {gate : Nat}
    (h : d.progress? k = some (.registering i path gate a))
    (hv : (d.after s ms).progress? k = some (.ended v)) :
    ∃ between n rest, ms = between ++ n :: rest ∧
      ((d.after s between).move s n).progress? k = some (.ended v) ∧
      ((∀ handle, v ≠ .gave (.added handle)) →
        Intact (d.after s between) ((d.after s between).move s n)) := by
  induction ms generalizing d a with
  | nil => cases h.symm.trans hv
  | cons m ms ih =>
    have hends {w : Ending} (hw : (d.move s m).progress? k = some (.ended w)) :
        ∃ between n rest, m :: ms = between ++ n :: rest ∧
          ((d.after s between).move s n).progress? k = some (.ended v) ∧
          ((∀ handle, v ≠ .gave (.added handle)) →
            Intact (d.after s between) ((d.after s between).move s n)) := by
      obtain rfl : w = v := ending_unique hw hv
      refine ⟨[], m, ms, rfl, hw, fun hno => ?_⟩
      obtain ⟨e, b, hruns, hp⟩ := runs_of_registering h hw
      rw [hruns.move] at hw
      have halike := alike_runErrand_of_registering (s := s) hp fun handle hadded =>
        hno handle (Progress.ended.inj (Option.some.inj (hw.symm.trans hadded)))
      exact hruns.move ▸ hruns.intact.trans halike.intact
    rcases progress?_move_of_registering (s := s) h m with ⟨b, hb⟩ | hw | hw
    · obtain ⟨between, n, rest, rfl, hn, hintact⟩ := ih hb hv
      exact ⟨m :: between, n, rest, rfl, hn, hintact⟩
    · exact hends hw
    · exact hends hw

/-! ## Undisturbed runs -/

/-- With move `m` no errand runs, no request of a dialog goes on, and nobody lays a hand on a
dialog. -/
structure Passes (d : Desk σ) (m : Move σ) : Prop where
  errand : ∀ k e, ¬ Runs d m k e
  request : ∀ r rest, m = .step → d.agenda.now ≠ .request r :: rest
  edit : ∀ i x, m ≠ .edit i x
  close : ∀ i, m ≠ .close i
  dismiss : m ≠ .dismiss

/-- All that happens in the run `ms` from `d` is of this kind. -/
def Undisturbed (s : Setting σ) (d : Desk σ) (ms : List (Move σ)) : Prop :=
  ∀ before m later, ms = before ++ m :: later → Passes (d.after s before) m

theorem Passes.backstage (h : Passes d m) : Backstage d (d.move s m) := by
  cases m with
  | step =>
    cases hnow : d.agenda.now with
    | nil =>
      simp only [Desk.move, step, hnow]
      cases hnext : d.nextPass with
      | none => exact .refl d
      | some e => exact (still_nextPass (s := s) hnext).aloof.backstage
    | cons j rest =>
      have hpop := still_pop (s := s) hnow
      rw [move_step_of_now hnow]
      cases j with
      | request r => exact absurd hnow (h.request r rest rfl)
      | probe r => exact (hpop.trans (still_runProbe _ r)).aloof.backstage
      | probeEnded r => exact (hpop.aloof.trans (aloof_tellProbeEnded _ r)).backstage
      | requestEnded r => exact hpop.aloof.backstage.trans (backstage_tellRequestEnded _ r)
      | limit r => exact (hpop.trans (still_tellLimit _ r)).aloof.backstage
      | errand k => exact absurd (.inLine hnow) (h.errand k _)
  | edit i x => exact absurd rfl (h.edit i x)
  | spawn op => exact backstage_spawn d op
  | perform op => exact absurd (.atOnce op) (h.errand _ _)
  | close i => exact absurd rfl (h.close i)
  | dismiss => exact absurd rfl h.dismiss
  | answer c o => exact (still_answer (s := s) d c o).aloof.backstage
  | openGate service gate => exact backstage_openGate d service gate
  | cancelRequest r => exact (still_cancelRequest (s := s) d r).aloof.backstage
  | cancelErrand k => exact backstage_cancelErrand d k
  | advance seconds => exact ⟨rfl, rfl, fun _ => rfl, .refl _ _⟩
  | alter g => exact ⟨rfl, rfl, fun _ => rfl, .refl _ _⟩

theorem Undisturbed.keeps (h : Undisturbed s d ms) :
    (d.after s ms).dialogs = d.dialogs ∧ (d.after s ms).current = d.current := by
  induction ms using List.reverseRecOn with
  | nil => exact ⟨rfl, rfl⟩
  | append_singleton ms m ih =>
    have hbefore : Undisturbed s d ms := by
      rintro before n later rfl
      exact h before n (later ++ [m]) (by simp)
    obtain ⟨hdialogs, hcurrent⟩ := ih hbefore
    have hmove := (h ms m [] rfl).backstage (s := s)
    rw [after_concat]
    exact ⟨hmove.dialogs.trans hdialogs, hmove.current.trans hcurrent⟩

end Desk
end Admission
