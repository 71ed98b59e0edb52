import Admission.Proofs.Desk.Errands
import Admission.Proofs.Staleness

/-!
# What submissions register

The registrar is called by submissions that set out while a valid answer is shown, each time with
the canonical path of the live path, for which the classifier gave that answer. What happens while
the registrar is busy changes neither the path nor what is given back. Whether the registrar
succeeds is not said.
-/
namespace Admission
namespace Desk

variable {σ : Type} {s : Setting σ} {d e : Desk σ}

/-- With move `m`, errand `k` sets out to submit dialog `i`. `e` is the desk that it finds. -/
def SetsOut (d : Desk σ) (m : Move σ) (k i : Nat) (e : Desk σ) : Prop :=
  Runs d m k e ∧ ∃ op : Operation,
    e.errands[k]? = some { operation := op } ∧ op.submits? d.current = some i

/-! ## The registrar's answer -/

/-- A registrar call that has passed its gate ends the submission with what it gives. -/
theorem progress?_passRegister {k i : Nat} {x : Errand} (hx : d.errands[k]? = some x)
    (path : String) :
    (passRegister s d k i path).progress? k =
      some (.ended (.registered (s.register [path] d.world).1)) := by
  cases h : (s.register [path] d.world).1 with
  | error f =>
    rw [passRegister_of_error h]
    exact progress?_endErrand hx _
  | ok handles =>
    rw [passRegister_of_ok hx h]
    refine progress?_endErrand (x := x) ?_ _
    rw [errands_submitted s]
    exact hx

/-- A submission: it calls the registrar with the canonical path of the live one, if a valid answer
is shown and the home directory is known or not needed; otherwise it ends at once. -/
theorem beginSubmit_spec {k i : Nat} {x : Dialog} {y : Errand} (hx : d.dialogs[i]? = some x)
    (hy : d.errands[k]? = some y) :
    (x.snapshot.canSubmit = false ∧ (beginSubmit s d k i).log = d.log ∧
      (beginSubmit s d k i).progress? k = some (.ended (.failed (.notAdmissible x.snapshot)))) ∨
    (x.snapshot.canSubmit = true ∧ (beginSubmit s d k i).log = d.log ∧
      (beginSubmit s d k i).progress? k = some (.ended (.failed .homeUnknown)) ∧
      Path.canonical s.home x.path = none) ∨
    (x.snapshot.canSubmit = true ∧ ∃ target, Path.canonical s.home x.path = some target ∧
      LogGrown (!·.isRegister) (d.log ++ [.register i [target]]) (beginSubmit s d k i).log ∧
      ((∃ gate, (beginSubmit s d k i).progress? k =
          some (.registering i target gate .waiting)) ∨
        (beginSubmit s d k i).progress? k =
          some (.ended (.registered (s.register [target] d.world).1)))) := by
  have hshown : d.snapshot? i = some x.snapshot := by simp [snapshot?, hx]
  unfold beginSubmit
  simp only [hshown]
  split
  · rename_i hcan
    refine Or.inr ?_
    simp only [Dialog.snapshot]
    cases hp : Path.canonical s.home x.path with
    | none => exact Or.inl ⟨hcan, rfl, progress?_onErrand hy _, rfl⟩
    | some target =>
      refine Or.inr ⟨hcan, target, rfl, ?_⟩
      dsimp only
      split
      · rename_i gate _
        exact ⟨.refl _ _, Or.inl ⟨gate, progress?_onErrand hy _⟩⟩
      · have hy' : (d.note (.register i [target])).errands[k]? = some y := hy
        exact ⟨(work_passRegister (s := s) (k := k) _ i target).sparing.log,
          Or.inr (progress?_passRegister hy' target)⟩
  · rename_i hcan
    exact Or.inl ⟨by simpa using hcan, rfl, progress?_onErrand hy _⟩

/-! ## Submissions in a run -/

theorem SetsOut.move {m : Move σ} {k i : Nat} (h : SetsOut d m k i e) :
    d.move s m = beginSubmit s e k i := by
  obtain ⟨hruns, op, hop, hi⟩ := h
  rw [hruns.move]
  have hcurrent := hruns.found.current
  cases op with
  | submit j =>
    obtain rfl := Option.some.inj hi
    simp [runErrand, hop, beginErrand]
  | submitCurrent =>
    have hi : e.current = some i := hcurrent.trans hi
    simp [runErrand, hop, beginErrand, onCurrent, hi]
  | _ => cases hi

/-- A move calls the registrar only if a submission sets out with it. -/
theorem setsOut_or_spared (d : Desk σ) (m : Move σ) :
    (∃ k i e, SetsOut d m k i e) ∨ LogGrown (!·.isRegister) d.log (d.move s m).log := by
  rcases runs_or_unmoved (s := s) d m with ⟨k, e, h⟩ | h
  · have hfound := h.found
    rw [h.move, ← hfound.log]
    rcases runErrand_changes (s := s) e k with hs | ⟨op, i, hop, hi, -⟩
    · exact Or.inr hs.sparing.log
    · exact Or.inl ⟨k, i, e, h, op, hop, hfound.current ▸ hi⟩
  · exact Or.inr h.log

/-- The errand that passes the gate of the registrar ends, with what is given for its path. -/
theorem progress?_runErrand_of_registering {k i gate : Nat} {target : String} {a : Signal}
    (h : d.progress? k = some (.registering i target gate a)) :
    (runErrand s d k).progress? k = some (.ended .cancelled) ∨
      (runErrand s d k).progress? k =
        some (.ended (.registered (s.register [target] d.world).1)) := by
  obtain ⟨x, hx, -⟩ := Option.map_eq_some_iff.mp h
  obtain hrun | hrun := runErrand_of_registering (s := s) h <;> rw [hrun]
  · exact Or.inl (progress?_endErrand hx _)
  · exact Or.inr (progress?_passRegister hx target)

/-- After a move an errand in front of the registrar's gate goes on with what is to be registered,
or it has ended, then with what the registrar gives for just that. -/
theorem progress?_move_of_registering {k i gate : Nat} {target : String} {a : Signal}
    (h : d.progress? k = some (.registering i target gate a)) (m : Move σ) :
    (∃ b, (d.move s m).progress? k = some (.registering i target gate b)) ∨
      (d.move s m).progress? k = some (.ended .cancelled) ∨
      (d.move s m).progress? k = some (.ended (.registered (s.register [target] d.world).1)) := by
  rcases runs_or_unmoved (s := s) d m with ⟨j, e, hruns⟩ | hstay
  · obtain ⟨b, hb⟩ := registering_of_stay hruns.found.errands h
    rw [hruns.move, ← hruns.found.world]
    by_cases hj : k = j
    · subst hj
      exact Or.inr (progress?_runErrand_of_registering hb)
    · rw [progress?, errands_runErrand_of_ne hj]
      exact Or.inl ⟨b, hb⟩
  · exact Or.inl (registering_of_stay hstay.errands h)

/-- An errand in front of the registrar's gate runs with the move that ends it. -/
theorem runs_of_registering {m : Move σ} {k i gate : Nat} {target : String} {a : Signal}
    {v : Ending} (h : d.progress? k = some (.registering i target gate a))
    (hv : (d.move s m).progress? k = some (.ended v)) :
    ∃ e b, Runs d m k e ∧ e.progress? k = some (.registering i target gate b) := by
  rcases runs_or_unmoved (s := s) d m with ⟨j, e, hruns⟩ | hstay
  · obtain ⟨b, hb⟩ := registering_of_stay hruns.found.errands h
    by_cases hj : k = j
    · exact ⟨e, b, hj ▸ hruns, hb⟩
    · rw [hruns.move, progress?, errands_runErrand_of_ne hj] at hv
      cases hb.symm.trans hv
  · obtain ⟨b, hb⟩ := registering_of_stay hstay.errands h
    cases hb.symm.trans hv

/-- On the run `ms` from `d`, errand `k` still has `target` to register, or it has been cancelled,
or it has ended with what the registrar gave for `target` alone, when it was asked for an answer. -/
def Registers (s : Setting σ) (d : Desk σ) (ms : List (Move σ)) (k i : Nat) (target : String) :
    Prop :=
  (∃ gate a, (d.after s ms).progress? k = some (.registering i target gate a)) ∨
    (d.after s ms).progress? k = some (.ended .cancelled) ∨
    ∃ before m later, ms = before ++ m :: later ∧
      (∀ v, (d.after s before).progress? k ≠ some (.ended v)) ∧
      (d.after s ms).progress? k =
        some (.ended (.registered (s.register [target] (d.after s before).world).1))

theorem Registers.concat {ms : List (Move σ)} {k i : Nat} {target : String}
    (h : Registers s d ms k i target) (m : Move σ) : Registers s d (ms ++ [m]) k i target := by
  unfold Registers
  rw [after_concat]
  rcases h with ⟨gate, a, h⟩ | h | ⟨before, n, later, rfl, hopen, h⟩
  · rcases progress?_move_of_registering (s := s) h m with ⟨b, hb⟩ | hc | hr
    · exact Or.inl ⟨gate, b, hb⟩
    · exact Or.inr (Or.inl hc)
    · have hopen (v : Ending) : (d.after s ms).progress? k ≠ some (.ended v) := by
        rw [h]
        nofun
      exact Or.inr (Or.inr ⟨ms, m, [], rfl, hopen, hr⟩)
  · exact Or.inr (Or.inl (progress?_move_of_ended h m))
  · refine Or.inr (Or.inr ⟨before, n, later ++ [m], ?_, hopen, progress?_move_of_ended h m⟩)
    rw [List.append_assoc, List.cons_append]

/-- What a submission has set out with is what it registers, whatever the run brings. -/
theorem Registers.after {m : Move σ} {k i : Nat} {target : String}
    (h : Registers s d [m] k i target) (ms : List (Move σ)) :
    Registers s d (m :: ms) k i target := by
  induction ms using List.reverseRecOn with
  | nil => exact h
  | append_singleton ms n ih => exact ih.concat n

/-- A submission that sets out, by what the dialog shows then. -/
theorem SetsOut.spec {m : Move σ} {k i : Nat} {x : Dialog} (h : SetsOut d m k i e)
    (hx : d.dialogs[i]? = some x) :
    (x.snapshot.canSubmit = false ∧ (d.move s m).log = d.log ∧
      (d.move s m).progress? k = some (.ended (.failed (.notAdmissible x.snapshot)))) ∨
    (x.snapshot.canSubmit = true ∧ (d.move s m).log = d.log ∧
      (d.move s m).progress? k = some (.ended (.failed .homeUnknown)) ∧
      Path.canonical s.home x.path = none) ∨
    (x.snapshot.canSubmit = true ∧ ∃ target, Path.canonical s.home x.path = some target ∧
      LogGrown (!·.isRegister) (d.log ++ [.register i [target]]) (d.move s m).log ∧
      Registers s d [m] k i target) := by
  have hfound := h.1.found
  obtain ⟨op, hop, -⟩ := h.2
  rw [h.move, ← hfound.log]
  rcases beginSubmit_spec (s := s) (k := k) (i := i) (hfound.dialogs ▸ hx) hop with
    hno | hno | ⟨hcan, target, hp, hlog, hgoes⟩
  · exact Or.inl hno
  · exact Or.inr (Or.inl hno)
  · refine Or.inr (Or.inr ⟨hcan, target, hp, hlog, ?_⟩)
    have hmove : d.after s [m] = beginSubmit s e k i := h.move
    unfold Registers
    rw [hmove]
    rcases hgoes with ⟨gate, hg⟩ | hr
    · exact Or.inl ⟨gate, .waiting, hg⟩
    · refine Or.inr (Or.inr ⟨[], m, [], rfl, fun v hv => ?_, ?_⟩)
      · have hnew : e.progress? k = some .created := by simp [progress?, hop]
        rw [ended_of_stay hfound.errands hv] at hnew
        cases hnew
      · rw [hfound.world] at hr
        exact hr

theorem SetsOut.log_of_none {m : Move σ} {k i : Nat} (h : SetsOut d m k i e)
    (hx : d.dialogs[i]? = none) : (d.move s m).log = d.log := by
  have hfound := h.1.found
  have hshown : e.snapshot? i = none := by simp [snapshot?, hfound.dialogs, hx]
  rw [h.move, ← hfound.log]
  simp only [beginSubmit, hshown]
  rfl

/-- What a move adds to the log calls the registrar at most once, for a submission that sets out
with a valid answer shown. -/
theorem log_move (d : Desk σ) (m : Move σ) :
    LogGrown (!·.isRegister) d.log (d.move s m).log ∨
    ∃ (k i : Nat) (e : Desk σ) (x : Dialog) (target : String), SetsOut d m k i e ∧
      d.dialogs[i]? = some x ∧ x.snapshot.canSubmit = true ∧
      Path.canonical s.home x.path = some target ∧ Registers s d [m] k i target ∧
      LogGrown (!·.isRegister) (d.log ++ [.register i [target]]) (d.move s m).log := by
  rcases setsOut_or_spared (s := s) d m with ⟨k, i, e, hout⟩ | hlog
  · cases hx : d.dialogs[i]? with
    | none =>
      refine Or.inl ?_
      rw [hout.log_of_none hx]
      exact .refl _ _
    | some x =>
      rcases hout.spec (s := s) hx with ⟨-, hl, -⟩ | ⟨-, hl, -⟩ | ⟨hcan, target, hp, hl, hr⟩
      · exact Or.inl (hl ▸ .refl _ _)
      · exact Or.inl (hl ▸ .refl _ _)
      · exact Or.inr ⟨k, i, e, x, target, hout, hx, hcan, hp, hr, hl⟩
  · exact Or.inl hlog

/-- With move `m`, errand `k` sets out to submit dialog `i`, for which a valid answer is shown. It
is the classifier's, given to a request of this dialog for the live path, whose canonical path is
`target`. -/
structure Admitted (s : Setting σ) (d : Desk σ) (m : Move σ) (k i : Nat) (target : String) :
    Prop where
  setsOut : ∃ e, SetsOut d m k i e
  shown : ∃ (x : Dialog) (r c : Nat) (q : Request), d.dialogs[i]? = some x ∧
    x.snapshot.classification = .settled .valid ∧ Path.canonical s.home x.path = some target ∧
    LastApplied d i x .valid r q ∧ q.path = x.path ∧
    d.calls[c]? = some ⟨r, target, .answered (.ok .valid)⟩

/-- Entry `n` of the log of the run `ms` from `d`, a registrar call for dialog `i` with `paths`, was
made by a submission that set out with the move at which the log had `n` entries. -/
def RegisteredBy (s : Setting σ) (d : Desk σ) (ms : List (Move σ)) (n i : Nat)
    (paths : List String) : Prop :=
  ∃ (before later : List (Move σ)) (m : Move σ) (k : Nat) (target : String),
    ms = before ++ m :: later ∧ n = (d.after s before).log.length ∧ paths = [target] ∧
    Admitted s (d.after s before) m k i target ∧
    Registers s (d.after s before) (m :: later) k i target

theorem RegisteredBy.concat {ms : List (Move σ)} {n i : Nat} {paths : List String}
    (h : RegisteredBy s d ms n i paths) (m : Move σ) :
    RegisteredBy s d (ms ++ [m]) n i paths := by
  obtain ⟨before, later, m', k, target, rfl, hn, hp, hadmitted, hr⟩ := h
  refine ⟨before, later ++ [m], m', k, target, ?_, hn, hp, hadmitted, hr.concat m⟩
  rw [List.append_assoc, List.cons_append]

/-- What is in the log of a run was put there by a move of it. -/
theorem registeredBy_of_log (hd : Reachable s d) (hlog : d.log = []) (ms : List (Move σ))
    {n i : Nat} {paths : List String} (hn : (d.after s ms).log[n]? = some (.register i paths)) :
    RegisteredBy s d ms n i paths := by
  induction ms using List.reverseRecOn with
  | nil =>
    have hn : d.log[n]? = some (.register i paths) := hn
    rw [hlog] at hn
    cases hn
  | append_singleton ms m ih =>
    rw [after_concat] at hn
    rcases log_move (s := s) (d.after s ms) m with
      hgrown | ⟨k, j, e, x, target, hout, hx, hcan, hp, hr, hgrown⟩
    · exact (ih (hgrown.register hn)).concat m
    · rcases getElem?_concat_eq_some_iff.mp (hgrown.register hn) with hold | ⟨hlen, he⟩
      · exact (ih hold).concat m
      · obtain ⟨rfl, rfl⟩ := Entry.register.inj he
        have hvalid := ((Snapshot.canSubmit_iff _).mp hcan).2
        obtain ⟨-, r, q, hlast, hq, hcame⟩ := (hd.after ms).answer_of_settled hx hvalid
        obtain ⟨c, hcall⟩ := hcame.told_of_valid hp
        exact ⟨ms, [], m, k, target, rfl, hlen, rfl,
          ⟨⟨e, hout⟩, x, r, c, q, hx, hvalid, hp, hlast, hq, hcall⟩, hr⟩

/-- Every registrar call of a run is made by a submission, with the canonical path of the path that
is live when it sets out, for which the classifier gave the valid answer that is then shown. What
the submission gives in the end is the registrar's answer for that path. With any other answer
shown, or none, a submission fails and makes no call. -/
theorem submission_provenance (s : Setting σ) (world : σ) (paths : List String) :
    (∀ (ms : List (Move σ)) (n i : Nat) (given : List String),
      ((opening world paths).after s ms).log[n]? = some (.register i given) →
      RegisteredBy s (opening world paths) ms n i given) ∧
    ∀ (before later : List (Move σ)) (m : Move σ) (k i : Nat) (d e : Desk σ) (x : Dialog),
      d = (opening world paths).after s before → SetsOut d m k i e → d.dialogs[i]? = some x →
      x.snapshot.classification ≠ .settled .valid →
      (d.move s m).log = d.log ∧ (d.after s (m :: later)).progress? k =
        some (.ended (.failed (.notAdmissible x.snapshot))) := by
  refine ⟨fun ms n i given hn =>
    registeredBy_of_log (reachable_opening world paths) rfl ms hn, ?_⟩
  rintro before later m k i d e x rfl hout hx hc
  have hcan : x.snapshot.canSubmit = false := by
    rw [← Bool.not_eq_true, Snapshot.canSubmit_iff]
    exact fun h => hc h.2
  rcases hout.spec (s := s) hx with ⟨-, hl, hp⟩ | ⟨hcan', -⟩ | ⟨hcan', -⟩
  · exact ⟨hl, progress?_after_of_ended hp later⟩
  · rw [hcan] at hcan'
    cases hcan'
  · rw [hcan] at hcan'
    cases hcan'

/-- Services whose registrar is behind a gate. -/
def gated : Setting Unit := { patient "/root" with registerGate := fun _ => some 0 }

/-- A submission, and an edit before the gate opens. -/
def busyRegistrar : List (Move Unit) :=
  [.edit 0 (.setPath "/a"), .step, .step, .answer 0 (.ok .valid), .step, .step,
    .perform (.submit 0), .edit 0 (.setPath "/b"), .openGate .registrar 0, .step, .step,
    .step, .step]

/-- The path is the one that was live when the submission set out; before there was an answer, a
submission would have failed. -/
theorem submission_provenance_busy :
    RegisteredBy gated (opening () [""]) busyRegistrar 1 0 ["/a"] ∧
    ((opening () [""]).after gated busyRegistrar).progress? 0 =
      some (.ended (.gave (.added (some "/a")))) ∧
    ((opening () [""]).after gated [.edit 0 (.setPath "/a"), .perform (.submit 0)]).log = [] := by
  have h := submission_provenance gated () [""]
  refine ⟨h.1 busyRegistrar 1 0 ["/a"] rfl, rfl, ?_⟩
  exact (h.2 [.edit 0 (.setPath "/a")] [] (.perform (.submit 0)) 0 0 _ _ _ rfl
    ⟨.atOnce (.submit 0), .submit 0, rfl, rfl⟩ rfl nofun).1

end Desk
end Admission
