import Admission.Proofs.Desk.Outlines

/-!
# What is put under review

A request is issued for each path that is put under review, and for nothing else: by an edit, by a
dialog that is opened, or because trust has been granted. This is said of the dialogs and of what is
done to them, whatever becomes of the requests.
-/
namespace Admission
namespace Desk

variable {σ : Type} {s : Setting σ} {d e : Desk σ} {i k r : Nat} {rs : List (Nat × String)}

/-! ## What counts -/

/-- What an edit of dialog `i` puts under review: the path that it sets, if the dialog is open and
the path is not empty. -/
def review? (d : Desk σ) (i : Nat) (e : Edit) : Option (Nat × String) :=
  (d.dialogs[i]?.bind fun x => (x.target? e).filter x.asks).map fun path => (i, path)

theorem issuing_ask (d : Desk σ) (i : Nat) (x : Dialog) (path : String) :
    Issuing (if x.asks path then [(i, path)] else []) d (d.ask i x path).1 := by
  unfold ask
  split
  · refine ⟨?_, rfl, rfl⟩
    simp [outlines, enqueue, Request.outline, Outline.fresh, Stage.phase]
  · exact .refl d

theorem issuing_edit {x : Dialog} (hx : d.dialogs[i]? = some x) (path : String) :
    Issuing (if x.asks path then [(i, path)] else []) d (d.edit i path).1 := by
  simp only [edit, hx]
  exact (issuing_ask d i x path).steady (steady_of rfl rfl rfl)

theorem review?_of_target {x : Dialog} {edit : Edit} {path : String} (hx : d.dialogs[i]? = some x)
    (h : x.target? edit = some path) :
    (d.review? i edit).toList = if x.asks path then [(i, path)] else [] := by
  rw [review?, hx, Option.bind_some, h]
  by_cases ha : x.asks path = true
  · simp [Option.filter, ha]
  · simp [Option.filter, ha]

theorem issuing_amend (d : Desk σ) (i : Nat) (x : Edit) :
    Issuing (d.review? i x).toList d (d.amend i x).1 := by
  unfold amend
  cases hx : d.dialogs[i]? with
  | none =>
    rw [review?, hx]
    exact .refl d
  | some y =>
    cases ht : y.target? x with
    | none =>
      have hnone : d.review? i x = none := by simp [review?, hx, ht]
      rw [hnone, Option.bind_some, ht]
      exact .refl d
    | some path =>
      rw [review?_of_target hx ht, Option.bind_some, ht]
      exact issuing_edit hx path

/-- What the answer of the trust store puts under review: if it succeeds, the live path of the
dialog. -/
def grantReview? (s : Setting σ) (d : Desk σ) (i : Nat) (owner : String) : Option (Nat × String) :=
  match (s.trust owner d.world).1 with
  | .ok () => d.review? i .revalidate
  | .error _ => none

/-- What asking trust for dialog `i` puts under review at once: trust is possible, and no gate is
shut. -/
def trustReview? (s : Setting σ) (d : Desk σ) (i : Nat) : Option (Nat × String) :=
  (d.dialogs[i]?.bind Dialog.trustTarget?).bind fun owner =>
    if (s.trustGate d.world).isNone then d.grantReview? s i owner else none

/-- What an operation puts under review with its first run. -/
def operationReview? (s : Setting σ) (d : Desk σ) : Operation → Option (Nat × String)
  | .openDialog path _ => if path = "" then none else some (d.dialogs.length, path)
  | .changePath path _ => d.current.bind fun i => d.review? i (.changePath path)
  | .choosePath selected _ => d.current.bind fun i => d.review? i (.choosePath selected)
  | .trust i => d.trustReview? s i
  | .trustCurrent _ _ => d.current.bind (d.trustReview? s)
  | _ => none

/-- What errand `k` puts under review when it runs. -/
def errandReview? (s : Setting σ) (d : Desk σ) (k : Nat) : Option (Nat × String) :=
  d.errands[k]?.bind fun x =>
    match x.progress with
    | .created => if x.stopping then none else d.operationReview? s x.operation
    | .trusting i owner _ signal =>
      if x.stopping || signal != .given then none else d.grantReview? s i owner
    | _ => none

/-- What a move puts under review. -/
def moveReview? (s : Setting σ) (d : Desk σ) : Move σ → Option (Nat × String)
  | .edit i x => d.review? i x
  | .perform op =>
    ({ d with errands := d.errands ++ [{ operation := op }] } : Desk σ).errandReview? s
      d.errands.length
  | .step =>
    match d.agenda.now with
    | .errand k :: _ => d.errandReview? s k
    | _ => none
  | _ => none

/-- What a run puts under review: dialogs and paths, in order. -/
def reviews (s : Setting σ) : Desk σ → List (Move σ) → List (Nat × String)
  | _, [] => []
  | d, m :: ms => (d.moveReview? s m).toList ++ reviews s (d.move s m) ms

/-! ## Errands -/

theorem steady_endErrand (d : Desk σ) (k : Nat) (x : Ending) : Steady d (d.endErrand k x) :=
  steady_of rfl rfl rfl

theorem steady_await (d : Desk σ) (k : Nat) (p : Progress) : Steady d (d.await k p) :=
  steady_of rfl rfl rfl

theorem steady_afterEdit (d : Desk σ) (k i : Nat) (op : Operation) (wait : Bool)
    (r : Option Nat) : Steady d (d.afterEdit k i op wait r) := by
  unfold afterEdit
  split
  · exact steady_await d k _
  · exact steady_endErrand d k _

theorem steady_afterTrust (d : Desk σ) (k i : Nat) (granted : Bool) (r : Option Nat) :
    Steady d (d.afterTrust k i granted r) := by
  unfold afterTrust
  split
  · split
    · exact steady_afterEdit d k i _ _ r
    · split <;> exact steady_endErrand d k _
  · exact steady_endErrand d k _

theorem issuing_passTrust (d : Desk σ) (k i : Nat) (owner : String) :
    Issuing (d.grantReview? s i owner).toList d (passTrust s d k i owner) := by
  have hworld : Steady d (d.alter fun world => (s.trust owner world).2) := steady_of rfl rfl rfl
  have hdialog (d : Desk σ) (g : Dialog → Dialog) : Steady d (d.onDialog i g) :=
    steady_of rfl rfl rfl
  cases h : (s.trust owner d.world).1 with
  | error f =>
    rw [passTrust_of_error h, grantReview?, h]
    exact (hworld.trans (hdialog _ _)).trans (steady_afterTrust _ k i false none)
  | ok _ =>
    rw [grantReview?, h]
    cases hx : d.dialogs[i]? with
    | none =>
      have hpass : passTrust s d k i owner = ((d.alter fun world =>
          (s.trust owner world).2).onDialog i Dialog.stopTrust).afterTrust k i false none := by
        simp only [passTrust, h, hx]
        rfl
      rw [hpass, review?, hx]
      exact (hworld.trans (hdialog _ _)).trans (steady_afterTrust _ k i false none)
    | some x =>
      have htarget : x.target? .revalidate = some x.path := rfl
      rw [passTrust_of_ok hx h, review?_of_target hx htarget]
      have hask := hworld.issuing (issuing_ask (d.alter fun world => (s.trust owner world).2) i x
        x.path)
      exact (hask.steady (hdialog _ _)).steady (steady_afterTrust _ k i true _)

/-- While trust is asked for, a dialog has the same path, and is open or closed as before. -/
theorem grantReview?_storeCalled (d : Desk σ) (i : Nat) (owner : String) :
    (d.storeCalled i owner).grantReview? s i owner = d.grantReview? s i owner := by
  have hsame : (d.storeCalled i owner).review? i .revalidate = d.review? i .revalidate := by
    simp only [review?, storeCalled, note, onDialog, List.getElem?_modify_eq]
    cases d.dialogs[i]? <;> rfl
  rw [grantReview?, grantReview?, hsame]
  rfl

theorem issuing_beginTrust (d : Desk σ) (k i : Nat) :
    Issuing (d.trustReview? s i).toList d (beginTrust s d k i) := by
  unfold beginTrust trustReview?
  cases d.dialogs[i]?.bind Dialog.trustTarget? with
  | none => exact steady_afterTrust d k i false none
  | some owner =>
    have hcalled : Steady d (d.storeCalled i owner) := by
      have hstart : Steady d (d.onDialog i Dialog.startTrust) := steady_of rfl rfl rfl
      exact hstart.trans (steady_note _ rfl)
    have hgate : ((d.onDialog i Dialog.startTrust).note (.trust i owner)).world = d.world := rfl
    dsimp only [Option.bind_some]
    rw [hgate]
    cases s.trustGate d.world with
    | some gate => exact hcalled.trans (steady_await _ k _)
    | none =>
      have hpass := issuing_passTrust (s := s) (d.storeCalled i owner) k i owner
      rw [grantReview?_storeCalled] at hpass
      exact hcalled.issuing hpass

theorem steady_passRegister (d : Desk σ) (k i : Nat) (path : String) :
    Steady d (passRegister s d k i path) := by
  have hworld : Steady d { d with world := (s.register [path] d.world).2 } := steady_of rfl rfl rfl
  unfold passRegister
  dsimp only
  split
  · exact hworld.trans (steady_endErrand _ k _)
  · refine (hworld.trans (steady_closeDialog _ i)).trans (.trans ?_ (steady_endErrand _ k _))
    split
    · exact steady_of rfl rfl rfl
    · exact .refl _

theorem steady_beginSubmit (d : Desk σ) (k i : Nat) : Steady d (beginSubmit s d k i) := by
  have hnote (path : String) : Steady d (d.note (.register i [path])) := steady_note d rfl
  obtain ⟨x, h⟩ | ⟨path, gate, h⟩ | ⟨path, h⟩ := beginSubmit_cases s d k i <;> rw [h]
  · exact steady_endErrand d k _
  · exact (hnote path).trans (steady_await _ k _)
  · exact (hnote path).trans (steady_passRegister _ k i path)

theorem issuing_onCurrent {go : Nat → Desk σ} {review? : Nat → Option (Nat × String)}
    (h : ∀ i, Issuing (review? i).toList d (go i)) :
    Issuing (d.current.bind review?).toList d (d.onCurrent k go) := by
  unfold onCurrent
  cases d.current with
  | some i => exact h i
  | none => exact steady_endErrand d k _

/-- Without an owner on show there is nothing to trust. -/
theorem trustReview?_of_no_owner {shown : Snapshot} (h : d.snapshot? i = some shown)
    (ho : shown.owner? = none) : d.trustReview? s i = none := by
  obtain ⟨x, hx, rfl⟩ := Option.map_eq_some_iff.mp h
  have hnone : x.trustTarget? = none := by
    unfold Dialog.trustTarget?
    split
    · rfl
    · exact ho
  rw [trustReview?, hx, Option.bind_some, hnone]
  rfl

/-- A dialog that is opened puts its path under review, unless that is empty. -/
theorem issuing_opened (s : Setting σ) (d : Desk σ) (path : String) :
    Issuing (if path = "" then none else some (d.dialogs.length, path)).toList d
      ((d.closeCurrent.seat path).1.amend d.dialogs.length .openInitial).1 := by
  have hseat : Steady d (d.closeCurrent.seat path).1 :=
    (steady_closeCurrent d).trans (steady_of rfl rfl rfl)
  have hnew : (d.closeCurrent.seat path).1.dialogs[d.dialogs.length]? =
      some { initial := path } := by
    rw [← closeCurrent_length s d]
    exact List.getElem?_concat_length
  have hreview : (d.closeCurrent.seat path).1.review? d.dialogs.length .openInitial =
      if path = "" then none else some (d.dialogs.length, path) := by
    rw [review?, hnew, Option.bind_some]
    by_cases hp : path = ""
    · simp [Dialog.target?, hp]
    · simp [Dialog.target?, Dialog.asks, hp, Option.filter]
  rw [← hreview]
  exact hseat.issuing (issuing_amend _ _ _)

theorem issuing_beginErrand (d : Desk σ) (k : Nat) (op : Operation) :
    Issuing (d.operationReview? s op).toList d (beginErrand s d k op) := by
  cases op with
  | trust i => exact issuing_beginTrust d k i
  | submit i => exact steady_beginSubmit d k i
  | openDialog path wait =>
    have hseat : (d.closeCurrent.seat path).2 = d.dialogs.length := closeCurrent_length s d
    simp only [beginErrand, hseat]
    exact (issuing_opened s d path).steady (steady_afterEdit _ k _ _ wait _)
  | changePath path wait =>
    refine issuing_onCurrent fun i => ?_
    exact (issuing_amend d i _).steady (steady_afterEdit _ k i _ wait _)
  | choosePath selected wait =>
    refine issuing_onCurrent fun i => ?_
    exact (issuing_amend d i _).steady (steady_afterEdit _ k i _ wait _)
  | trustCurrent wait strict =>
    refine issuing_onCurrent fun i => ?_
    split
    · rename_i shown hshown
      split
      · exact issuing_beginTrust d k i
      · rename_i ho
        rw [trustReview?_of_no_owner hshown (by simpa using ho)]
        exact steady_endErrand d k _
    · exact issuing_beginTrust d k i
  | submitCurrent =>
    have hbegin (i : Nat) : Issuing (none : Option (Nat × String)).toList d (beginSubmit s d k i) :=
      steady_beginSubmit d k i
    have hsteady := issuing_onCurrent (k := k) hbegin
    rwa [Option.bind_fun_none] at hsteady
  | look =>
    have hlook (i : Nat) : Issuing (none : Option (Nat × String)).toList d
        (d.endErrand k (d.report i .look)) := steady_endErrand d k _
    have hsteady := issuing_onCurrent (k := k) hlook
    rwa [Option.bind_fun_none] at hsteady
  | dismiss => exact (steady_dismiss d).trans (steady_endErrand _ k _)
  | repositories => exact steady_endErrand d k _
  | nothing => exact steady_endErrand d k _

/-- **An errand that runs issues the request for what it puts under review**, and does nothing to
other requests. -/
theorem issuing_runErrand (d : Desk σ) (k : Nat) :
    Issuing (d.errandReview? s k).toList d (runErrand s d k) := by
  unfold runErrand errandReview?
  cases d.errands[k]? with
  | none => exact .refl d
  | some x =>
    obtain ⟨op, p, stopping⟩ := x
    cases p with
    | created =>
      cases stopping with
      | true => exact steady_endErrand d k _
      | false => exact issuing_beginErrand d k op
    | trusting i owner gate a =>
      have hstop : Steady d (d.onDialog i Dialog.stopTrust) := steady_of rfl rfl rfl
      dsimp only [Option.bind_some]
      by_cases hgo : (stopping || a != .given) = true
      · rw [if_pos hgo, if_pos hgo]
        exact hstop.trans (steady_endErrand _ k _)
      · rw [if_neg hgo, if_neg hgo]
        exact issuing_passTrust d k i owner
    | registering i path gate a =>
      dsimp only [Option.bind_some]
      split
      · exact steady_endErrand d k _
      · exact steady_passRegister d k i path
    | watching i r a =>
      dsimp only [Option.bind_some]
      split
      · exact steady_endErrand d k _
      · split <;> exact steady_endErrand d k _
    | ended v => exact .refl d

/-! ## Moves -/

/-- A move that is no step issues the request for what it puts under review. -/
theorem issuing_move (d : Desk σ) {m : Move σ} (h : m ≠ .step) :
    Issuing (d.moveReview? s m).toList d (d.move s m) := by
  cases m with
  | step => exact absurd rfl h
  | edit i x => exact issuing_amend d i x
  | spawn op => exact steady_of rfl rfl rfl
  | perform op =>
    have hadd : Steady d { d with errands := d.errands ++ [{ operation := op }] } :=
      steady_of rfl rfl rfl
    exact hadd.issuing (issuing_runErrand _ _)
  | close i => exact steady_closeDialog d i
  | dismiss => exact steady_dismiss d
  | answer c o => exact steady_answer d c o
  | openGate service gate => exact steady_openGate d service gate
  | cancelRequest r => exact steady_cancelRequest d r
  | cancelErrand k => exact steady_cancelErrand d k
  | advance seconds => exact steady_of rfl rfl rfl
  | alter g => exact steady_of rfl rfl rfl

/-- The next pass finds the requests as they are. -/
theorem nextPass_outlines (h : d.nextPass = some e) :
    e.outlines = d.outlines ∧ e.callers = d.callers := by
  obtain rfl := nextPass_of_eq_some h
  exact ⟨rfl, rfl⟩

/-- The dialogs and the paths of the requests, in the order of issue. -/
def subjects (d : Desk σ) : List (Nat × String) := d.outlines.map Outline.subject

theorem subjects_modify {g : Outline → Outline} (h : e.outlines = d.outlines.modify r g)
    (hg : ∀ o, (g o).subject = o.subject) : e.subjects = d.subjects := by
  refine List.ext_getElem? fun r' => ?_
  simp only [subjects, h, List.getElem?_map, List.getElem?_modify]
  cases d.outlines[r']? with
  | none => rfl
  | some o =>
    by_cases hr : r = r'
    · simp [hr, hg]
    · simp [hr]

/-- What a move does to outlines: it issues the request for what it puts under review, or a request
has its turn, or the word of its end is heard. -/
inductive OutlineMove (s : Setting σ) (d : Desk σ) (m : Move σ) : Prop
  | issues (h : (d.move s m).outlines =
      d.outlines ++ (d.moveReview? s m).toList.map Outline.fresh)
  | works {r : Nat} (hn : d.moveReview? s m = none) (h : WorksOn r d (d.move s m))
  | told {r : Nat} {rest : List Job} (hn : d.moveReview? s m = none) (hm : m = .step)
      (hnow : d.agenda.now = .requestEnded r :: rest)
      (h : (d.move s m).outlines = d.outlines.modify r ({ · with tracked := false }))

/-- Only the job of an errand puts something under review. -/
theorem moveReview?_step_eq_none {j : Job} {rest : List Job} (hnow : d.agenda.now = j :: rest)
    (hj : ∀ k, j ≠ .errand k) : d.moveReview? s .step = none := by
  simp only [moveReview?, hnow]
  split
  · rename_i k _ he
    exact absurd (List.cons.inj he).1 (hj k)
  · rfl

theorem outlines_step (d : Desk σ) : OutlineMove s d .step := by
  cases hnow : d.agenda.now with
  | nil =>
    refine .issues ?_
    simp only [move, step, hnow, moveReview?, Option.toList_none, List.map_nil, List.append_nil]
    cases hpass : d.nextPass with
    | none => rfl
    | some e => exact (nextPass_outlines hpass).1
  | cons j rest =>
    have hmove := move_step_of_now (s := s) hnow
    have hsteady (hj : ∀ k, j ≠ .errand k) {e : Desk σ} (he : d.move s .step = e)
        (h : e.outlines = d.outlines ++ [].map Outline.fresh) : OutlineMove s d .step := by
      refine .issues ?_
      rw [he, h, moveReview?_step_eq_none hnow hj]
      rfl
    cases j with
    | request r =>
      refine .works (r := r) (moveReview?_step_eq_none hnow (by simp)) ?_
      rw [hmove]
      exact worksOn_runRequest _ r
    | probe r =>
      refine .works (r := r) (moveReview?_step_eq_none hnow (by simp)) ?_
      rw [hmove]
      exact worksOn_runProbe _ r
    | probeEnded r => exact hsteady (by simp) hmove (steady_tellProbeEnded _ r).outlines
    | requestEnded r =>
      refine .told (moveReview?_step_eq_none hnow (by simp)) rfl hnow ?_
      rw [hmove]
      exact (outlines_tellRequestEnded _ r).1
    | limit r => exact hsteady (by simp) hmove (steady_tellLimit _ r).outlines
    | errand k =>
      refine .issues ?_
      rw [hmove]
      simp only [moveReview?, hnow]
      exact (issuing_runErrand _ k).outlines

theorem outlines_move (d : Desk σ) (m : Move σ) : OutlineMove s d m := by
  by_cases hm : m = .step
  · rw [hm]
    exact outlines_step d
  · exact .issues (issuing_move d hm).outlines

theorem subjects_move (d : Desk σ) (m : Move σ) :
    (d.move s m).subjects = d.subjects ++ (d.moveReview? s m).toList := by
  have hsame {g : Outline → Outline} {r : Nat} (hn : d.moveReview? s m = none)
      (h : (d.move s m).outlines = d.outlines.modify r g) (hg : ∀ o, (g o).subject = o.subject) :
      (d.move s m).subjects = d.subjects ++ (d.moveReview? s m).toList := by
    rw [hn, Option.toList_none, List.append_nil]
    exact subjects_modify h hg
  cases outlines_move (s := s) d m with
  | issues h =>
    rw [subjects, h, List.map_append, List.map_map]
    exact congrArg (d.subjects ++ ·) (List.map_id _)
  | works hn h =>
    obtain ⟨g, ho, hg⟩ := h
    exact hsame hn ho fun o => (hg o).1
  | told hn _ _ h => exact hsame hn h fun _ => rfl

/-- **The requests of a run are for what the run puts under review**, in order, and for nothing
else. -/
theorem subjects_after (d : Desk σ) (ms : List (Move σ)) :
    (d.after s ms).subjects = d.subjects ++ d.reviews s ms := by
  induction ms generalizing d with
  | nil => exact (List.append_nil _).symm
  | cons m ms ih =>
    have hmore : (d.after s (m :: ms)).subjects = _ := ih (d.move s m)
    rw [hmore, subjects_move, List.append_assoc, reviews]

end Desk
end Admission
