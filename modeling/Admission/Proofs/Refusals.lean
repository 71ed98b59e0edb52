import Admission.Proofs.Desk.Outset
import Admission.Proofs.Http.Answers
import Admission.Proofs.Http.Serving
import Admission.Proofs.Warnings

/-!
# Refused requests change nothing

A request that is refused has no other effect than its answer: no service is called, no request of a
dialog is issued, and the dialogs stay as they are. It is refused when its command first runs, by
what is shown then; one that is let in may fail later, but is not refused. A submission that the
registrar fails leaves the dialogs as they are too, when it sets out and when it ends.
-/
namespace Admission.Http

open Desk
open Wire (SnapshotRecord)

/-- Whether a command is for the dialog that is shown. -/
def Command.needsDialog : Command → Bool
  | .look | .changePath _ _ | .choosePath _ _ | .trust _ | .submit => true
  | _ => false

/-- What a dialog shows bars a command: no other user owns the path, or it may not be added. -/
inductive Command.Barred (g : Snapshot) : Command → Prop
  | trust {wait : Bool} (h : ∀ owner, g.classification ≠ .settled (.dubious owner)) :
    Barred g (.trust wait)
  | submit (h : g.canSubmit = false) : Barred g .submit

/-- The answer to a submission that the registrar has failed. -/
def registrationFailed (message : String) : Answer :=
  .detail 500 (.object [("code", .text "registration_failed"), ("message", .text message)])

variable {σ : Type} {s : Setting σ} {d e : Desk σ} {k : Nat} {v : Ending} {c : Command}

/-- What becomes of a command with its first run. -/
inductive Outset (c : Command) (d : Desk σ) (k : Nat) (e : Desk σ) : Prop
  | noDialog (hc : c.needsDialog = true) (hnone : d.current = none)
      (he : e = d.endErrand k (.failed .noDialog))
  | barred {i : Nat} {g : Snapshot} {error : Error} {code : String} (hi : d.current = some i)
      (hg : d.snapshot? i = some g) (hb : c.Barred g) (he : e = d.endErrand k (.failed error))
      (hanswer : errorAnswer c error = conflict code error g)
  | letIn (hopen : c.needsDialog = true →
      ∃ i g, d.current = some i ∧ d.snapshot? i = some g ∧ ¬ c.Barred g) (h : LetIn e k)

theorem letIn_beginSubmit {i : Nat} {g : Snapshot} {x : Errand} (hx : d.errands[k]? = some x)
    (hg : d.snapshot? i = some g) (hcan : g.canSubmit = true) : LetIn (beginSubmit s d k i) k := by
  obtain ⟨y, hy, rfl⟩ := Option.map_eq_some_iff.mp hg
  rcases beginSubmit_spec (s := s) hy hx with
    ⟨hno, -⟩ | ⟨-, -, hv, -⟩ | ⟨-, target, -, -, ⟨gate, hw⟩ | hv⟩
  · rw [hcan] at hno
    cases hno
  · refine .ended hv fun error he => ?_
    cases he
    rfl
  · exact .registers hw
  · exact letIn_registered hv

/-- A command for the dialog that is shown is refused when there is none. -/
theorem outset_onCurrent (hd : Seated d) (hc : c.needsDialog = true) {go : Nat → Desk σ}
    (h : ∀ i g, d.current = some i → i < d.dialogs.length → d.snapshot? i = some g →
      Outset c d k (go i)) : Outset c d k (d.onCurrent k go) := by
  unfold onCurrent
  split
  · rename_i i hi
    obtain ⟨g, hg⟩ := snapshot?_of_lt (hd i hi)
    exact h i g hi (hd i hi) hg
  · rename_i hnone
    exact .noDialog hc hnone rfl

theorem outset_trust (hd : Seated d) {wait : Bool}
    (hx : d.errands[k]? = some { operation := .trustCurrent wait true }) :
    Outset (.trust wait) d k (beginErrand s d k (.trustCurrent wait true)) := by
  refine outset_onCurrent hd rfl fun i g hi hlt hg => ?_
  simp only [hg]
  split
  · rename_i howner
    obtain ⟨owner, howner⟩ := Option.isSome_iff_exists.mp howner
    refine .letIn (fun _ => ⟨i, g, hi, hg, fun hb => ?_⟩) (beginTrust_goes hx rfl rfl hd hlt).letIn
    cases hb with
    | trust hb => exact hb owner ((g.owner?_eq_some_iff owner).mp howner)
  · rename_i howner
    refine .barred hi hg (.trust fun owner ho => howner ?_) rfl rfl
    rw [(g.owner?_eq_some_iff owner).mpr ho, Option.isSome_some]

theorem outset_submit (hd : Seated d)
    (hx : d.errands[k]? = some { operation := .submitCurrent }) :
    Outset .submit d k (beginErrand s d k .submitCurrent) := by
  refine outset_onCurrent hd rfl fun i g hi hlt hg => ?_
  cases hcan : g.canSubmit with
  | false =>
    have hbarred : beginSubmit s d k i = d.endErrand k (.failed (.notAdmissible g)) := by
      simp [beginSubmit, hg, hcan]
    exact .barred hi hg (.submit hcan) hbarred rfl
  | true =>
    refine .letIn (fun _ => ⟨i, g, hi, hg, fun hb => ?_⟩) (letIn_beginSubmit hx hg hcan)
    cases hb with
    | submit hb => cases hcan.symm.trans hb

theorem beginErrand_outset (hd : Seated d) (c : Command)
    (hx : d.errands[k]? = some { operation := c.operation }) :
    Outset c d k (beginErrand s d k c.operation) := by
  have hended {v : Ending} (hv : ∀ error, v ≠ .failed error) : LetIn (d.endErrand k v) k :=
    .ended (progress?_endErrand hx v) fun error he => absurd he (hv error)
  -- What a dialog shows bars no other command than these two.
  have hfree (h : ∀ g, ¬ c.Barred g) {i : Nat} {g : Snapshot} {e : Desk σ}
      (hi : d.current = some i) (hg : d.snapshot? i = some g) (hin : LetIn e k) : Outset c d k e :=
    .letIn (fun _ => ⟨i, g, hi, hg, h g⟩) hin
  cases c with
  | openDialog path =>
    have hseat : (d.closeCurrent.seat path).2 = d.dialogs.length := closeCurrent_length s d
    refine .letIn (fun h => by cases h) ?_
    simp only [Command.operation, beginErrand, hseat]
    exact (seat_goes s hx).letIn
  | look =>
    refine outset_onCurrent hd rfl fun i g hi _ hg => hfree (fun _ h => by cases h) hi hg ?_
    simp only [Command.operation, Desk.report, hg]
    exact hended (by simp)
  | changePath path wait =>
    refine outset_onCurrent hd rfl fun i g hi hlt hg => ?_
    exact hfree (fun _ h => by cases h) hi hg (amend_goes hx hd hlt).letIn
  | choosePath selected wait =>
    refine outset_onCurrent hd rfl fun i g hi hlt hg => ?_
    exact hfree (fun _ h => by cases h) hi hg (amend_goes hx hd hlt).letIn
  | trust wait => exact outset_trust hd hx
  | submit => exact outset_submit hd hx
  | dismiss =>
    have hx' : d.dismiss.1.errands[k]? = some { operation := .dismiss } :=
      (congrArg (·[k]?) (errands_dismiss s d)).trans hx
    exact .letIn (fun h => by cases h) (.ended (progress?_endErrand hx' _) fun _ h => by cases h)
  | repositories => exact .letIn (fun h => by cases h) (hended (by simp))
  | health => exact .letIn (fun h => by cases h) (hended (by simp))

/-! ## Answers -/

/-- The answer that refuses a command because of what dialog `i` shows. -/
theorem conflict_eq (hd : Reachable s d) {i : Nat} {g : Snapshot} (hg : d.snapshot? i = some g)
    (code : String) (error : Error) :
    ∃ shown, SnapshotRecord.ofSnapshot g = .ok shown ∧
      conflict code error g = .detail 409 (.object [("code", .text code),
        ("message", .text error.message), ("snapshot", shown.toValue)]) := by
  obtain ⟨x, hx, rfl⟩ := Option.map_eq_some_iff.mp hg
  obtain ⟨shown, hshown, hanswer⟩ := showing_of_warning (g := x.snapshot) (hd.warning_ne_pending hx)
  exact ⟨shown, hshown, hanswer _⟩

/-- A command that has been let in is answered with none of these statuses. -/
theorem status_of_letIn (h : LetIn d k) (hd : Reachable s d) {ms : List (Move σ)} {a : Answer}
    (hv : (d.after s ms).progress? k = some (.ended v))
    (ha : (Exchange.mk (.ok c) k).answer? v = some a) :
    a.response.status ≠ 404 ∧ a.response.status ≠ 409 ∧ a.response.status ≠ 422 := by
  cases v with
  | cancelled => cases ha
  | gave reply =>
    obtain rfl := Option.some.inj ha
    rcases status_replyAnswer reply with h | h <;> simp [h]
  | failed error =>
    obtain rfl := Option.some.inj ha
    simp [status_errorAnswer_of_not_refuses c (h.not_refused hd hv)]

/-- What the answer `a` to a command says of the dialog that was shown on `b`. -/
structure Told (c : Command) (b : Desk σ) (a : Answer) : Prop where
  noDialog : a.response.status = 404 ↔ c.needsDialog = true ∧ b.current = none
  barred : a.response.status = 409 ↔
    ∃ i g, b.current = some i ∧ b.snapshot? i = some g ∧ c.Barred g
  /-- The answer shows the dialog that bars the command. -/
  shown : a.response.status = 409 → ∃ i g code message shown, b.current = some i ∧
    b.snapshot? i = some g ∧ SnapshotRecord.ofSnapshot g = .ok shown ∧
    a = .detail 409 (.object [("code", .text code), ("message", .text message),
      ("snapshot", shown.toValue)])

theorem told_noDialog {b : Desk σ} (hc : c.needsDialog = true) (hnone : b.current = none) :
    Told c b (errorAnswer c .noDialog) := by
  have hstatus : (errorAnswer c .noDialog).response.status = 404 := rfl
  refine ⟨⟨fun _ => ⟨hc, hnone⟩, fun _ => hstatus⟩, ?_, ?_⟩
  · simp [hstatus, hnone]
  · simp [hstatus]

theorem told_barred {b : Desk σ} (hb : Reachable s b) {i : Nat} {g : Snapshot}
    (hi : b.current = some i) (hg : b.snapshot? i = some g) (hbars : c.Barred g) (code : String)
    (error : Error) : Told c b (conflict code error g) := by
  obtain ⟨shown, hrecord, hconflict⟩ := conflict_eq hb hg code error
  rw [hconflict]
  refine ⟨?_, ?_, fun _ => ?_⟩
  · simp [Answer.detail, Answer.json, hi]
  · exact ⟨fun _ => ⟨i, g, hi, hg, hbars⟩, fun _ => rfl⟩
  · exact ⟨i, g, code, error.message, shown, hi, hg, hrecord, rfl⟩

/-- A command that is not refused had what it needs, and nothing barred it. -/
theorem told_letIn {b : Desk σ} {a : Answer}
    (hopen : c.needsDialog = true →
      ∃ i g, b.current = some i ∧ b.snapshot? i = some g ∧ ¬ c.Barred g)
    (h404 : a.response.status ≠ 404) (h409 : a.response.status ≠ 409) : Told c b a := by
  refine ⟨⟨fun h => absurd h h404, fun h => ?_⟩, ⟨fun h => absurd h h409, ?_⟩,
    fun h => absurd h h409⟩
  · obtain ⟨i, g, hi, -⟩ := hopen h.1
    cases hi.symm.trans h.2
  · rintro ⟨i, g, hi, hg, hbars⟩
    have hneeds : c.needsDialog = true := by cases hbars <;> rfl
    obtain ⟨j, g', hj, hg', hfree⟩ := hopen hneeds
    obtain rfl := Option.some.inj (hi.symm.trans hj)
    obtain rfl := Option.some.inj (hg.symm.trans hg')
    exact absurd hbars hfree

/-- The work of errand `k` on a submission that the registrar has failed, from its first run on,
which led from `b` to `d`. -/
structure Failed (s : Setting σ) (b d : Desk σ) (later : List (Move σ)) (k : Nat) (v : Ending) :
    Prop where
  begun : Intact b d
  ended : d.progress? k = some (.ended v) ∨ ∃ between m rest, later = between ++ m :: rest ∧
    ((d.after s between).move s m).progress? k = some (.ended v) ∧
    Intact (d.after s between) ((d.after s between).move s m) ∧
    (Undisturbed s d between →
      ((d.after s between).move s m).dialogs = b.dialogs ∧
      ((d.after s between).move s m).current = b.current)

/-- A command, from its first run with move `m` on. -/
theorem told_of_begins {b : Desk σ} {m : Move σ} {later : List (Move σ)} {a : Answer}
    (hb : Reachable s b) (h : Begins s b m k c.operation e)
    (hv : ((b.move s m).after s later).progress? k = some (.ended v))
    (ha : (Exchange.mk (.ok c) k).answer? v = some a) :
    (a.response.status ∈ [422, 404, 409] →
      Untouched b (b.move s m) ∧ (b.move s m).progress? k = some (.ended v)) ∧ Told c b a := by
  obtain ⟨-, hruns, hx, hbegin⟩ := h
  have hcurrent := hruns.found.current
  have hshown := hruns.found.snapshot?_eq
  have houtset : Outset c e k (b.move s m) :=
    hbegin ▸ beginErrand_outset (hruns.found.seated hb.seated) c hx
  -- A refusal is the end of the errand, so the answer is known.
  have hrefused {error : Error} (he : b.move s m = e.endErrand k (.failed error)) :
      a = errorAnswer c error ∧ Untouched b (b.move s m) ∧
        (b.move s m).progress? k = some (.ended v) := by
    have hends : (b.move s m).progress? k = some (.ended (.failed error)) :=
      he ▸ progress?_endErrand hx _
    obtain rfl := ending_unique hends hv
    exact ⟨(Option.some.inj ha).symm, he ▸ hruns.untouched_endErrand _, hends⟩
  cases houtset with
  | noDialog hc hnone he =>
    obtain ⟨rfl, huntouched⟩ := hrefused he
    exact ⟨fun _ => huntouched, told_noDialog hc (hcurrent.symm.trans hnone)⟩
  | @barred i g error code hi hg hbars he hanswer =>
    obtain ⟨rfl, huntouched⟩ := hrefused he
    refine ⟨fun _ => huntouched, ?_⟩
    rw [hanswer]
    exact told_barred hb (hcurrent.symm.trans hi) ((hshown i).symm.trans hg) hbars code error
  | letIn hopen hin =>
    obtain ⟨h404, h409, h422⟩ := status_of_letIn hin (hb.move m) hv ha
    refine ⟨fun h => ?_, told_letIn (fun hneeds => ?_) h404 h409⟩
    · simp [h404, h409, h422] at h
    · obtain ⟨i, g, hi, hg, hfree⟩ := hopen hneeds
      exact ⟨i, g, hcurrent.symm.trans hi, (hshown i).symm.trans hg, hfree⟩

/-- A submission that is answered with a failure of the registrar, from its first run on. -/
theorem failed_of_registrationFailed {b : Desk σ} {m : Move σ} {later : List (Move σ)}
    {message : String} (hb : Reachable s b) (h : Begins s b m k .submitCurrent e)
    (hv : ((b.move s m).after s later).progress? k = some (.ended v))
    (ha : (Exchange.mk (.ok .submit) k).answer? v = some (registrationFailed message)) :
    Failed s b (b.move s m) later k v := by
  obtain ⟨-, hruns, hx, hbegin⟩ := h
  have hno (handle : Option String) : v ≠ .gave (.added handle) := by
    rintro rfl
    have hreply : replyAnswer (.added handle) = registrationFailed message := Option.some.inj ha
    simp only [replyAnswer, recording, registrationFailed, Answer.detail, Answer.json,
      Answer.fault] at hreply
    split at hreply <;> simp at hreply
  have hended {w : Ending} (hintact : Intact b (b.move s m))
      (hw : (b.move s m).progress? k = some (.ended w)) : Failed s b (b.move s m) later k v := by
    obtain rfl := ending_unique hw hv
    exact ⟨hintact, Or.inl hw⟩
  cases hi : e.current with
  | none =>
    have he : b.move s m = e.endErrand k (.failed .noDialog) := by
      simp [hbegin, beginErrand, onCurrent, hi]
    exact hended (he ▸ (hruns.untouched_endErrand _).toIntact) (he ▸ progress?_endErrand hx _)
  | some i =>
    have he : b.move s m = beginSubmit s e k i := by simp [hbegin, beginErrand, onCurrent, hi]
    have hintact : Intact b (b.move s m) := by
      rw [he]
      refine hruns.intact.trans (alike_beginSubmit hx fun handle hadded => ?_).intact
      exact hno handle (ending_unique (he ▸ hadded) hv).symm
    have hlt : i < e.dialogs.length := hruns.found.seated hb.seated i hi
    rcases beginSubmit_spec (s := s) (List.getElem?_eq_getElem hlt) hx with
      ⟨-, -, hw⟩ | ⟨-, -, hw, -⟩ | ⟨-, target, -, -, ⟨gate, hw⟩ | hw⟩
    · exact hended hintact (he ▸ hw)
    · exact hended hintact (he ▸ hw)
    · obtain ⟨between, n, rest, rfl, hends, hkept⟩ := registering_ends (he ▸ hw) hv
      have hkept := hkept hno
      refine ⟨hintact, Or.inr ⟨between, n, rest, rfl, hends, hkept, fun hcalm => ?_⟩⟩
      obtain ⟨hdialogs, hcurrent⟩ := hcalm.keeps
      exact ⟨hkept.dialogs.trans (hdialogs.trans hintact.dialogs),
        hkept.current.trans (hcurrent.trans hintact.current)⟩
    · exact hended hintact (he ▸ hw)

theorem receive_error {r : Request} {a : Answer} (h : command r = .error a) (d : Desk σ) :
    receive d r = ((d.spawn .nothing).1, ⟨.error a, (d.spawn .nothing).2⟩) := by
  simp only [receive, h]

theorem receive_ok {r : Request} (h : command r = .ok c) (d : Desk σ) :
    receive d r = ((d.spawn c.operation).1, ⟨.ok c, (d.spawn c.operation).2⟩) := by
  simp only [receive, h]

/-- A request that gives no command does nothing but be answered. -/
theorem untouched_of_begins {b : Desk σ} {m : Move σ} {later : List (Move σ)}
    (h : Begins s b m k .nothing e)
    (hv : ((b.move s m).after s later).progress? k = some (.ended v)) :
    Untouched b (b.move s m) ∧ (b.move s m).progress? k = some (.ended v) := by
  have he : b.move s m = e.endErrand k (.gave .nothing) := h.move_eq
  have hends : (b.move s m).progress? k = some (.ended (.gave .nothing)) :=
    he ▸ progress?_endErrand h.fresh _
  obtain rfl := ending_unique hends hv
  exact ⟨he ▸ h.runs.untouched_endErrand _, hends⟩

/-- A request is received on a desk in any state, and after some run it has been answered with `a`.
Its errand had a first run, on a desk `b`. If the answer is 422, 404 or 409, that run was the last,
and nothing but the errand has changed with it. With a body as it should be, the answer is 404 just
for a command that is for a dialog when none is shown, and 409 just for one that is barred by what
is shown, which the answer then shows. A submission that the registrar has failed changes no dialog,
neither when it begins nor when it ends. -/
theorem refused_requests_change_nothing (hd : Reachable s d) (r : Request) {x : Exchange}
    {d₀ : Desk σ} (hr : receive d r = (d₀, x)) (ms : List (Move σ)) {v : Ending} {a : Answer}
    (hv : (d₀.after s ms).progress? x.errand = some (.ended v)) (ha : x.answer? v = some a) :
    Untouched d d₀ ∧
    ∃ (before later : List (Move σ)) (m : Move σ) (b : Desk σ), ms = before ++ m :: later ∧
      b = d₀.after s before ∧ b.progress? x.errand = some .created ∧ (∃ e, Runs b m x.errand e) ∧
      (a.response.status ∈ [422, 404, 409] →
        Untouched b (b.move s m) ∧ (b.move s m).progress? x.errand = some (.ended v)) ∧
      ∀ c, command r = .ok c → Told c b a ∧
        ∀ message, c = .submit → a = registrationFailed message →
          Failed s b (b.move s m) later x.errand v := by
  have hne : v ≠ .cancelled := by
    rintro rfl
    cases ha
  cases hc : command r with
  | error answer =>
    obtain ⟨rfl, rfl⟩ := Prod.mk.inj ((receive_error hc d).symm.trans hr)
    obtain ⟨before, m, later, e, rfl, hbegins, hv⟩ := (unstarted_spawn d .nothing).begins hv hne
    refine ⟨untouched_spawn d _, before, later, m, _, rfl, rfl, hbegins.unstarted,
      ⟨e, hbegins.runs⟩, fun _ => untouched_of_begins hbegins hv, fun c h => ?_⟩
    cases h
  | ok c =>
    obtain ⟨rfl, rfl⟩ := Prod.mk.inj ((receive_ok hc d).symm.trans hr)
    obtain ⟨before, m, later, e, rfl, hbegins, hv⟩ := (unstarted_spawn d c.operation).begins hv hne
    have hb : Reachable s ((d.spawn c.operation).1.after s before) :=
      (hd.move (.spawn c.operation)).after before
    obtain ⟨huntouched, htold⟩ := told_of_begins hb hbegins hv ha
    refine ⟨untouched_spawn d _, before, later, m, _, rfl, rfl, hbegins.unstarted,
      ⟨e, hbegins.runs⟩, huntouched, fun c' h => ?_⟩
    cases h
    refine ⟨htold, ?_⟩
    rintro message rfl rfl
    exact failed_of_registrationFailed hb hbegins hv ha

/-- Services that find every path valid, and whose registrar first keeps a submission waiting and
then fails it. -/
def readOnly : Setting Unit where
  classify _ w := (some (.ok .valid), w)
  trustGate _ := none
  trust _ w := (.ok (), w)
  registerGate _ := some 0
  register _ w := (.error ⟨.permission, "denied"⟩, w)
  registered _ := []
  home := ""

def blankDesk : Desk Unit := (opening () []).after readOnly [.perform (.openDialog "" false)]

def validDesk : Desk Unit :=
  (opening () []).after readOnly (.perform (.openDialog "/a" false) :: List.replicate 4 .step)

def slowFailure : List (Move Unit) := [.step, .step, .openGate .registrar 0, .step, .step]

/-- A submission is refused as long as there is no path; for a valid path it fails at the gate. -/
theorem refused_requests_change_nothing_submit :
    (∃ (before later : List (Move Unit)) (m : Move Unit) (b : Desk Unit),
      [.step, .step] = before ++ m :: later ∧
      b = (receive blankDesk submitRequest).1.after readOnly before ∧
      Untouched b (b.move readOnly m)) ∧
    ∃ (before later : List (Move Unit)) (m : Move Unit) (b : Desk Unit),
      slowFailure = before ++ m :: later ∧
      b = (receive validDesk submitRequest).1.after readOnly before ∧
      Failed readOnly b (b.move readOnly m) later 1
        (.failed (.failure ⟨.permission, "denied"⟩)) := by
  constructor
  · obtain ⟨-, before, later, m, b, hms, hb, -, -, huntouched, -⟩ :=
      refused_requests_change_nothing (s := readOnly) (d := blankDesk) ⟨(), [], _, rfl⟩
        submitRequest rfl [.step, .step] rfl rfl
    exact ⟨before, later, m, b, hms, hb, (huntouched (by decide)).1⟩
  · obtain ⟨-, before, later, m, b, hms, hb, -, -, -, htold⟩ :=
      refused_requests_change_nothing (s := readOnly) (d := validDesk) ⟨(), [], _, rfl⟩
        submitRequest rfl slowFailure rfl rfl
    exact ⟨before, later, m, b, hms, hb, (htold .submit command_submitRequest).2 _ rfl rfl⟩

end Admission.Http
