import Admission.CommandLine.Session

/-!
# What a run asks and is told

The log of a run names the calls it made. Made again in the same order from the same world, they
are answered as they were, so the log gives back what the run was told. A run that looks at the
services is followed through its outcomes: what holds when it goes on, and what holds when it ends.
-/
namespace Admission

/-- A call of a service with what it was answered. -/
inductive Event where
  | classified (path : String) (outcome : Option (Except Failure Classification))
  | trusted (owner : String) (outcome : Except Failure Unit)
  | registered (paths : List String) (outcome : Except Failure (List String))

def Event.isClassified : Event → Bool
  | .classified _ _ => true
  | _ => false

def Event.isTrusted : Event → Bool
  | .trusted _ _ => true
  | _ => false

def Event.isRegistered : Event → Bool
  | .registered _ _ => true
  | _ => false

/-- The dialog is open for `path`, and no answer has been applied ahead of its turn. -/
structure Dialog.OpenFor (d : Dialog) (path : String) : Prop where
  path_eq : d.path = path
  closed_eq : d.closed = false
  applied_le : d.applied ≤ d.issued

theorem Dialog.openFor_edit (path : String) : (({} : Dialog).edit path).OpenFor path := by
  by_cases hp : path = "" <;> constructor <;> simp [edit, hp]

/-- After a trust, a dialog that is open shows its path under review, or nothing. -/
theorem Dialog.OpenFor.endTrust {d : Dialog} {path : String} (h : d.OpenFor path) :
    d.endTrust.OpenFor path ∧
      d.endTrust.classification = if d.asks d.path then .pending else .blank := by
  obtain ⟨rfl, hopen, happlied⟩ := h
  by_cases hp : d.path = ""
  · exact ⟨⟨by simp [Dialog.endTrust, edit, hopen, hp], by simp [Dialog.endTrust, hopen],
      by simpa [Dialog.endTrust, edit, hopen, hp] using happlied⟩,
      by simp [Dialog.endTrust, edit, asks, hopen, hp]⟩
  · exact ⟨⟨by simp [Dialog.endTrust, edit, hopen, hp], by simp [Dialog.endTrust, hopen],
      by simpa [Dialog.endTrust, edit, hopen, hp] using Nat.le_succ_of_le happlied⟩,
      by simp [Dialog.endTrust, edit, asks, hopen, hp]⟩

namespace Setting

variable {σ : Type} (s : Setting σ)

/-- A call made in a world: what it is answered, and the world after it. -/
def tell (w : σ) : Entry → Event × σ
  | .classify _ path => (.classified path (s.classify path w).1, (s.classify path w).2)
  | .trust _ owner => (.trusted owner (s.trust owner w).1, (s.trust owner w).2)
  | .register _ paths => (.registered paths (s.register paths w).1, (s.register paths w).2)

/-- The calls of a log, made one after the other from a world on, with what they are answered. -/
def history (w : σ) : List Entry → List Event
  | [] => []
  | e :: log => (s.tell w e).1 :: history (s.tell w e).2 log

def worldAfter (w : σ) (log : List Entry) : σ := log.foldl (fun w e => (s.tell w e).2) w

theorem worldAfter_concat (w : σ) (log : List Entry) (e : Entry) :
    s.worldAfter w (log ++ [e]) = (s.tell (s.worldAfter w log) e).2 := by
  simp [worldAfter]

theorem history_concat (w : σ) (log : List Entry) (e : Entry) :
    s.history w (log ++ [e]) = s.history w log ++ [(s.tell (s.worldAfter w log) e).1] := by
  induction log generalizing w with
  | nil => rfl
  | cons d log ih => simp [history, ih, worldAfter]

end Setting

namespace CommandLine

variable {σ α β : Type}

/-- What holds of an outcome: `P` of a run that goes on, `Q` of one that has ended. -/
def Outcome.Meets (P : Run σ → α → Prop) (Q : Run σ → Finish → Prop) : Outcome σ α → Prop
  | .more run a => P run a
  | .ended run f => Q run f

theorem Outcome.Meets.bind {P : Run σ → α → Prop} {P' : Run σ → β → Prop}
    {Q : Run σ → Finish → Prop} {o : Outcome σ α} {go : Run σ → α → Outcome σ β}
    (h : o.Meets P Q) (hgo : ∀ run a, P run a → (go run a).Meets P' Q) :
    (o.bind go).Meets P' Q := by
  cases o with
  | more run a => exact hgo run a h
  | ended run f => exact h

theorem Outcome.Meets.imp {P P' : Run σ → α → Prop} {Q Q' : Run σ → Finish → Prop}
    {o : Outcome σ α} (h : o.Meets P Q) (hP : ∀ run a, P run a → P' run a)
    (hQ : ∀ run f, Q run f → Q' run f) : o.Meets P' Q' := by
  cases o with
  | more run a => exact hP run a h
  | ended run f => exact hQ run f h

namespace Run

variable {s : Setting σ} {w : σ} {run : Run σ} {es : List Event}

/-- The run after a call. -/
def told (s : Setting σ) (run : Run σ) (e : Entry) : Run σ :=
  { run with world := (s.tell run.world e).2, log := run.log ++ [e] }

/-- The run's calls, made again from `w` on, are answered by `es` and lead to its world. -/
structure Traced (s : Setting σ) (w : σ) (run : Run σ) (es : List Event) : Prop where
  world : run.world = s.worldAfter w run.log
  events : s.history w run.log = es

theorem traced_start (s : Setting σ) (w : σ) (dialog : Dialog) :
    Traced s w { world := w, dialog := dialog } [] := ⟨rfl, rfl⟩

theorem Traced.told (h : run.Traced s w es) (e : Entry) :
    (run.told s e).Traced s w (es ++ [(s.tell run.world e).1]) where
  world := by
    rw [Run.told, s.worldAfter_concat, ← h.world]
  events := by
    rw [Run.told, s.history_concat, ← h.world, h.events]

/-- What is shown and written is no call. -/
theorem Traced.of_eq {run' : Run σ} (h : run.Traced s w es) (hworld : run'.world = run.world)
    (hlog : run'.log = run.log) : run'.Traced s w es :=
  ⟨by rw [hworld, hlog, h.world], by rw [hlog, h.events]⟩

/-! ## Inspections -/

/-- An answer counts as long as the dialog is open. -/
theorem answer_of_openFor {path : String} (h : run.dialog.OpenFor path) (c : Classification) :
    run.answer c =
      { run with
        dialog :=
          { run.dialog with
            classification := .settled c
            warning := .settled c
            applied := run.dialog.issued } } := by
  have haccepts : run.dialog.accepts run.dialog.path (some run.dialog.issued) = true :=
    (run.dialog.accepts_iff _ _).mpr ⟨h.closed_eq, rfl, h.applied_le⟩
  rw [answer, Dialog.offer_of_accepts haccepts]

/-- What asking the classifier about the live path comes to. -/
inductive Inspected (s : Setting σ) (run : Run σ) : Outcome σ Unit → Prop
  | homeless (hp : Path.canonical s.home run.dialog.path = none) :
    Inspected s run (.ended run (.failed .homeUnknown))
  | overdue (hover : s.limit.any (· ≤ 0.0) = true) :
    Inspected s run (.more (run.answer .missing) ())
  | answered {path : String} {c : Classification}
    (hp : Path.canonical s.home run.dialog.path = some path)
    (hover : s.limit.any (· ≤ 0.0) = false)
    (hc : (s.classify path run.world).1 = some (.ok c)) :
    Inspected s run (.more ((run.told s (.classify run.dialog.issued path)).answer c) ())
  | late {path : String} (hp : Path.canonical s.home run.dialog.path = some path)
    (hover : s.limit.any (· ≤ 0.0) = false)
    (hc : ∀ c, (s.classify path run.world).1 ≠ some (.ok c)) :
    Inspected s run (.more ((run.told s (.classify run.dialog.issued path)).answer .missing) ())
  | failed {path : String} {f : Failure}
    (hp : Path.canonical s.home run.dialog.path = some path)
    (hover : s.limit.any (· ≤ 0.0) = false)
    (hc : (s.classify path run.world).1 = some (.error f)) :
    Inspected s run
      (.ended (run.told s (.classify run.dialog.issued path)) (.failed (.failure f)))
  | hung {path : String} (hp : Path.canonical s.home run.dialog.path = some path)
    (hover : s.limit.any (· ≤ 0.0) = false)
    (hc : (s.classify path run.world).1 = none) (hlimit : s.limit = none) :
    Inspected s run (.ended (run.told s (.classify run.dialog.issued path)) .hung)

theorem inspected_inspect (s : Setting σ) (run : Run σ) : Inspected s run (run.inspect s) := by
  unfold inspect
  cases hp : Path.canonical s.home run.dialog.path with
  | none => exact .homeless hp
  | some path =>
    dsimp only
    split
    · rename_i hover
      exact .overdue hover
    · rename_i hnow
      have hover := Bool.not_eq_true _ ▸ hnow
      cases hc : (s.classify path run.world).1 with
      | none =>
        dsimp only [Option.map]
        split
        · exact .late hp hover (by simp [hc])
        · rename_i hlimit
          exact .hung hp hover hc (by simpa using hlimit)
      | some outcome =>
        cases outcome with
        | ok c => exact .answered hp hover hc
        | error f =>
          dsimp only [Option.map, Desk.taken]
          split
          · rename_i c hf
            split at hf
            · obtain rfl : Classification.missing = c := by simpa using hf
              exact .late hp hover (by simp [hc])
            · cases hf
          · rename_i g hf
            split at hf
            · cases hf
            · obtain rfl : f = g := by simpa using hf
              exact .failed hp hover hc
          · rename_i hf
            cases hf

/-! ## Trust and submission, call by call -/

theorem trust_eq (s : Setting σ) (owner : String) (run : Run σ) :
    run.trust s owner =
      match (s.trust owner run.world).1 with
      | .error _ =>
        ((run.told s (.trust 0 owner)).say ("Error: Could not trust " ++ owner ++ ".")).exit 1
      | .ok () =>
        let again := { run.told s (.trust 0 owner) with dialog := run.dialog.endTrust }
        (if run.dialog.asks run.dialog.path then again.inspect s else .more again ()).bind
          fun run _ => .more (run.say ("✓ Trusted " ++ owner)) () := rfl

theorem submit_of_canSubmit {path : String} (h : run.dialog.snapshot.canSubmit = true)
    (hp : Path.canonical s.home run.dialog.path = some path) :
    run.submit s =
      let told := run.told s (.register 0 [path])
      match (s.register [path] run.world).1 with
      | .error f =>
        if f.kind.isSystem then
          (told.say ("Error: Could not save the repository list: " ++ f.message)).exit 1
        else .ended told (.failed (.failure f))
      | .ok [] => (told.say "Error: The repository was not added.").exit 1
      | .ok (handle :: _) => (told.say ("✓ Added repository " ++ handle)).exit 0 := by
  have hshown : Path.canonical s.home run.dialog.snapshot.path = some path := hp
  simp only [submit, if_pos h, hshown]
  rfl

end Run
end CommandLine
end Admission
