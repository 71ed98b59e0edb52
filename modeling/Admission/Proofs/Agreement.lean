import Admission.Proofs.Additions
import Admission.Proofs.CommandLine.Consent
import Admission.Proofs.Http.Answers
import Admission.Proofs.Http.Serving

/-!
# The tool and the interface agree

Whoever adds a repository with the tool and agrees to trust its owner, and whoever sends the four
requests for the same path, have the same calls made in the same order, and both are told that the
repository was added or neither is. The tool stops early when something fails; the visitor goes on
to the submission, which is refused then.
-/
namespace Admission

theorem Snapshot.canSubmit_eq_false {x : Snapshot} (h : x.classification ≠ .settled .valid) :
    x.canSubmit = false := by
  rw [← Bool.not_eq_true, canSubmit_iff]
  exact fun hx => h hx.2

/-- A registrar that gives back the paths it was given, or none of them, or fails. -/
def Setting.HandsBack {σ : Type} (s : Setting σ) : Prop :=
  ∀ paths w handles, (s.register paths w).1 = .ok handles → handles = paths ∨ handles = []

/-- A call of a service, without who made it. -/
inductive ServiceCall where
  | classify (path : String)
  | trust (owner : String)
  | register (paths : List String)
  deriving DecidableEq, Repr

def Entry.call : Entry → ServiceCall
  | .classify _ path => .classify path
  | .trust _ owner => .trust owner
  | .register _ paths => .register paths

namespace Http

open Json (Value)

variable {σ : Type}

/-- The tag of the classification that an answer shows. -/
def Answer.kind? (a : Answer) : Option String :=
  match a.response with
  | ⟨200, .json v⟩ =>
    ((v.field? "classification").bind (·.field? "kind")).bind Value.text?
  | _ => none

/-- The path of the repository that an answer says has been added. -/
def Answer.added? (a : Answer) : Option String :=
  match a.response with
  | ⟨200, .json v⟩ => ((v.field? "repository").bind (·.field? "path")).bind Value.text?
  | _ => none

/-- A visitor opens a dialog and enters a path, trusts its owner if the answer says that it is
another user's, and submits. -/
def visit (s : Setting σ) (w : σ) (path : String) : Desk σ × Option Answer :=
  let (d, _) := serve s (.opening w []) openRequest
  let (d, shown) := serve s d (pathRequest path)
  let d := if shown.bind Answer.kind? = some "unsafe" then (serve s d trustRequest).1 else d
  serve s d submitRequest

end Http

namespace Desk.Visit

open Http CommandLine

variable {σ : Type} {s : Setting σ} {w : σ} {v : Visit σ} {run : Run σ}

/-- The visit after its dialog has been opened. -/
def opened (w : σ) : Visit σ where
  world := w
  dialog := {}
  past := []
  done := [{
    operation := .openDialog "" false
    progress := .ended (.gave (.shown ({} : Dialog).snapshot)) }]
  calls := []
  clock := 0.0
  log := []
  past_ended := by simp
  done_ended := by simp [Errand.isEnded]

theorem serve_open (s : Setting σ) (w : σ) :
    (serve s (opening w []) openRequest).1 = (opened w).desk [] [] {} [] := by
  simp only [serve, receive, command_openRequest]
  exact settle_of_steps (n := 2) rfl (step_of_no_timer rfl rfl) (by decide)

/-! ## The answers -/

theorem kind?_shown {x : Snapshot} (h : x.warning ≠ .pending) :
    (replyAnswer (.shown x)).kind? = x.classification.settled?.map (·.kind.text) := by
  obtain ⟨k, hk⟩ := warningKindOf_ok h
  simp only [replyAnswer, showing, Wire.SnapshotRecord.ofSnapshot, hk, Except.map]
  cases x.classification.settled? <;> rfl

theorem kind?_eq_unsafe_iff (a : Assessment) :
    a.settled?.map (·.kind.text) = some "unsafe" ↔ ∃ owner, a = .settled (.dubious owner) := by
  cases a with
  | settled c =>
    cases c <;> simp [Assessment.settled?, Classification.kind, Classification.Kind.text]
  | _ => simp [Assessment.settled?]

theorem kind?_unsafe_iff {x : Snapshot} (h : x.warning ≠ .pending) :
    (replyAnswer (.shown x)).kind? = some "unsafe" ↔
      ∃ owner, x.classification = .settled (.dubious owner) := by
  rw [kind?_shown h, kind?_eq_unsafe_iff]

theorem kind?_of_status {a : Answer} (h : a.response.status ≠ 200) : a.kind? = none := by
  unfold Answer.kind?
  split
  · rename_i hresponse
    simp [hresponse] at h
  · rfl

theorem added?_of_status {a : Answer} (h : a.response.status ≠ 200) : a.added? = none := by
  unfold Answer.added?
  split
  · rename_i hresponse
    simp [hresponse] at h
  · rfl

theorem added?_added {path : Option String} (h : path ≠ some "") :
    (replyAnswer (.added path)).added? = path := by
  simp only [replyAnswer, recording, Wire.SubmitReply.ofPath_of_ne_empty h]
  cases path <;> rfl

/-! ## A run and its mirror -/

/-- The run and the visit have come equally far. -/
structure Mirrors (run : Run σ) (v : Visit σ) : Prop where
  world : v.world = run.world
  dialog : v.dialog = run.dialog
  calls : v.log.map Entry.call = run.log.map Entry.call

/-- The run has failed, and the visit can only fail when it goes on. -/
structure Fails (run : Run σ) (f : Finish) (v : Visit σ) : Prop where
  finish : f ≠ .exit 0
  calls : v.log.map Entry.call = run.log.map Entry.call
  refused : v.dialog.snapshot.canSubmit = false

/-- What is said and what is over are no part of it. -/
theorem Mirrors.finished (h : Mirrors run v) (q : Request) (hq : q.isEnded = true) (x : Errand)
    (hx : x.isEnded = true) : Mirrors run ((v.filed q hq).served x hx) :=
  ⟨h.world, h.dialog, h.calls⟩

theorem Mirrors.say (h : Mirrors run v) (line : String) : Mirrors (run.say line) v :=
  ⟨h.world, h.dialog, h.calls⟩

theorem Fails.finished {f : Finish} (h : Fails run f v) (q : Request) (hq : q.isEnded = true)
    (x : Errand) (hx : x.isEnded = true) : Fails run f ((v.filed q hq).served x hx) :=
  ⟨h.finish, h.calls, h.refused⟩

theorem Mirrors.answered (h : Mirrors run v) (c : Classification) :
    Mirrors (run.answer c) (v.answered c) :=
  ⟨h.world, by simp [Visit.answered, Visit.onDialog, Run.answer, h.dialog], h.calls⟩

theorem Mirrors.classified (h : Mirrors run v) (path : String)
    (outcome : Except Failure Classification) :
    Mirrors (run.told s (.classify run.dialog.issued path)) (v.classified s path outcome) where
  world := by simp only [Visit.classified, Run.told, Setting.tell, h.world]
  dialog := h.dialog
  calls := by simp [Visit.classified, Run.told, h.calls, Entry.call]

/-- The tool's inspection of a path and the visitor's inquiry about it come to the same. -/
theorem Mirrors.inquire (hs : s.Prompt) (h : Mirrors run v) :
    (run.inspect s).Meets
      (fun run' _ => Mirrors run' (v.inquire s).1 ∧ (v.inquire s).2 = none)
      (fun run' f => Mirrors run' (v.inquire s).1 ∧ ∃ e, f = .failed e ∧
        (v.inquire s).2 = some e) := by
  unfold Run.inspect Visit.inquire
  rw [h.dialog]
  cases Path.canonical s.home run.dialog.path with
  | none => exact ⟨h, _, rfl, rfl⟩
  | some path =>
    dsimp only
    split
    · exact ⟨h.answered .missing, rfl⟩
    · obtain ⟨outcome, hc⟩ := hs.classify path run.world
      have hm := h.classified (s := s) path outcome
      rw [h.world]
      simp only [hc, Option.map_some]
      cases taken s.limit outcome with
      | ok c => exact ⟨hm.answered c, rfl⟩
      | error f => exact ⟨hm, _, rfl, rfl⟩

/-- The run has a dialog for `path` whose snapshot can be shown, and that asks for another request
as long as there is a path. -/
structure Shows (path : String) (run : Run σ) : Prop where
  openFor : run.dialog.OpenFor path
  trusting_eq : run.dialog.trusting = false
  warning_ne : run.dialog.warning ≠ .pending
  asks : ∀ owner, run.dialog.classification = .settled (.dubious owner) →
    run.dialog.asks run.dialog.path = true

theorem Shows.of_answer {path : String} (hopen : run.dialog.OpenFor path)
    (htrusting : run.dialog.trusting = false) (hasks : run.dialog.asks run.dialog.path = true)
    (c : Classification) : Shows path (run.answer c) := by
  rw [Run.answer_of_openFor hopen]
  exact ⟨⟨hopen.path_eq, hopen.closed_eq, Nat.le_refl _⟩, htrusting, nofun, fun _ _ => hasks⟩

/-- The mirrored inspection of a path under review: the visit shows the answer, or the two have
failed. -/
theorem Mirrors.review (hs : s.Prompt) (h : Mirrors run v) {path : String}
    (hopen : run.dialog.OpenFor path) (htrusting : run.dialog.trusting = false)
    (hasks : run.dialog.asks run.dialog.path = true)
    (hpending : run.dialog.classification = .pending) :
    (run.inspect s).Meets
      (fun run' _ => Mirrors run' (v.inquire s).1 ∧ (v.inquire s).2 = none ∧ Shows path run')
      (fun run' f => Fails run' f (v.inquire s).1 ∧ (v.inquire s).2 ≠ none) := by
  have hmirror := h.inquire hs
  have hi := Run.inspected_inspect s run
  generalize v.inquire s = found at hmirror ⊢
  generalize run.inspect s = o at hi hmirror
  have hrefused : run.dialog.snapshot.canSubmit = false :=
    Snapshot.canSubmit_eq_false fun h => nomatch hpending.symm.trans h
  have told (e : Entry) (c : Classification) : Shows path ((run.told s e).answer c) := by
    have hopen : (run.told s e).dialog.OpenFor path := hopen
    exact .of_answer hopen htrusting hasks c
  have failed {run' : Run σ} {f : Finish} (hdialog : run'.dialog = run.dialog)
      (hm : Mirrors run' found.1 ∧ ∃ e, f = .failed e ∧ found.2 = some e) :
      Fails run' f found.1 ∧ found.2 ≠ none := by
    obtain ⟨hm, e, rfl, he⟩ := hm
    exact ⟨⟨nofun, hm.calls, by rw [hm.dialog, hdialog, hrefused]⟩, by simp [he]⟩
  cases hi with
  | homeless => exact failed rfl hmirror
  | overdue => exact ⟨hmirror.1, hmirror.2, .of_answer hopen htrusting hasks _⟩
  | answered => exact ⟨hmirror.1, hmirror.2, told _ _⟩
  | late => exact ⟨hmirror.1, hmirror.2, told _ _⟩
  | failed => exact failed rfl hmirror
  | hung => exact failed rfl hmirror

/-- The path entered. -/
theorem mirrors_path (hs : s.Prompt) (w : σ) (path : String) :
    ∃ (v : Visit σ) (a : Answer), serve s ((opened w).desk [] [] {} []) (pathRequest path) =
        (v.desk [] [] {} [], some a) ∧
      (Run.validate s { world := w } path).Meets
        (fun run _ => Mirrors run v ∧ Shows path run ∧ (a.kind? = some "unsafe" ↔
          ∃ owner, run.dialog.classification = .settled (.dubious owner)))
        (fun run f => Fails run f v ∧ a.kind? ≠ some "unsafe") := by
  by_cases hpath : path = ""
  · subst hpath
    obtain ⟨x, hx, hserve⟩ := (opened w).serve_ended (s := s) (command_pathRequest "") rfl
      (begin_changePath_same _) rfl
    refine ⟨_, _, hserve, ⟨rfl, rfl, rfl⟩, ⟨Dialog.openFor_edit "", rfl, nofun, nofun⟩, ?_⟩
    exact kind?_unsafe_iff nofun
  · let run : Run σ := { world := w, dialog := ({} : Dialog).edit path }
    let u := (opened w).onDialog (·.edit path)
    have hasks : ({} : Dialog).asks path = true := by simpa [Dialog.asks] using hpath
    obtain ⟨hlive, hpending, -⟩ := Dialog.edit_of_asks hasks
    obtain ⟨htrusting, hclosed⟩ : run.dialog.trusting = false ∧ run.dialog.closed = false := by
      simp [run, Dialog.edit, hpath]
    have hagain : run.dialog.asks run.dialog.path = true := by
      simpa [Dialog.asks, hclosed, run, hlive] using hpath
    have hmirror : Mirrors run u := ⟨rfl, rfl, rfl⟩
    have hreview := hmirror.review hs (Dialog.openFor_edit path) htrusting hagain hpending
    have hvalidate : Run.validate s { world := w } path = run.inspect s := if_pos hasks
    obtain ⟨q, hq, x, hx, hserve⟩ := (opened w).serve_inquiry hs (u := u)
      (command_pathRequest path) rfl ((opened w).begin_changePath hpath hasks)
    rw [hvalidate]
    cases hfound : (u.inquire s).2 with
    | none =>
      rw [hfound] at hserve
      refine ⟨_, _, hserve, hreview.imp (fun run' _ h => ?_) fun run' f h => absurd hfound h.2⟩
      obtain ⟨hm, -, hshows⟩ := h
      refine ⟨hm.finished q hq x hx, hshows, ?_⟩
      rw [← hm.dialog]
      exact kind?_unsafe_iff (hm.dialog ▸ hshows.warning_ne)
    | some e =>
      rw [hfound] at hserve
      refine ⟨_, _, hserve, hreview.imp (fun run' _ h => ?_) fun run' f h => ?_⟩
      · cases hfound.symm.trans h.2.1
      · have hkind := kind?_of_status (errorAnswer_not_ok (.changePath path true) e)
        exact ⟨h.1.finished q hq x hx, by simp [hkind]⟩

/-- The owner trusted: both look at the path again, or the store has failed and the visitor is
shown what was shown before. -/
theorem Mirrors.trust (hs : s.Prompt) (h : Mirrors run v) {path owner : String}
    (hshows : Shows path run) (hdubious : run.dialog.classification = .settled (.dubious owner)) :
    ∃ v' : Visit σ, (serve s (v.desk [] [] {} []) trustRequest).1 = v'.desk [] [] {} [] ∧
      (run.trust s owner).Meets
        (fun run' _ => Mirrors run' v' ∧ run'.dialog.OpenFor path)
        (fun run' f => Fails run' f v') := by
  have hshown : v.dialog.classification = .settled (.dubious owner) := h.dialog ▸ hdubious
  have hidle : v.dialog.trusting = false := h.dialog ▸ hshows.trusting_eq
  have hasks := hshows.asks owner hdubious
  have hcalls : (v.log ++ [Entry.trust 0 owner]).map Entry.call =
      (run.log ++ [Entry.trust 0 owner]).map Entry.call := by simp [h.calls]
  rw [Run.trust_eq, ← h.world]
  cases hout : (s.trust owner v.world).1 with
  | error f =>
    obtain ⟨x, hx, hserve⟩ := v.serve_ended command_trustRequest (u := v.trusted s owner id) rfl
      (v.begin_trust_refused hs hshown hidle hout) rfl
    refine ⟨_, congrArg Prod.fst hserve, nofun, hcalls, Snapshot.canSubmit_eq_false fun h => ?_⟩
    cases hshown.symm.trans h
  | ok =>
    obtain ⟨hopen, hunder⟩ := hshows.openFor.endTrust
    let again : Run σ := { run.told s (.trust 0 owner) with dialog := run.dialog.endTrust }
    let u := v.trusted s owner Dialog.endTrust
    have hmirror : Mirrors again u :=
      ⟨by simp only [u, trusted, again, Run.told, Setting.tell, h.world],
        congrArg Dialog.endTrust h.dialog, hcalls⟩
    have hagain : again.dialog.asks again.dialog.path = true := by
      rw [hopen.path_eq, ← hshows.openFor.path_eq]
      simpa [Dialog.asks, again, hopen.closed_eq, hshows.openFor.closed_eq] using hasks
    have hreview := hmirror.review hs hopen rfl hagain (hunder.trans (if_pos hasks))
    obtain ⟨q, hq, x, hx, hserve⟩ := v.serve_inquiry hs (u := u) command_trustRequest rfl
      (v.begin_trust_granted hs hshown hidle (h.dialog ▸ hasks) hout)
    refine ⟨_, congrArg Prod.fst hserve, ?_⟩
    have hfinal : (again.inspect s).Meets
        (fun run' _ => Mirrors run' (((u.inquire s).1.filed q hq).served x hx) ∧
          run'.dialog.OpenFor path)
        (fun run' f => Fails run' f (((u.inquire s).1.filed q hq).served x hx)) :=
      hreview.imp (fun _ _ h => ⟨h.1.finished q hq x hx, h.2.2.openFor⟩)
        fun _ _ h => h.1.finished q hq x hx
    simp only [hasks, if_true]
    exact hfinal.bind fun _ _ h => ⟨h.1.say _, h.2⟩

/-! ## The submission -/

/-- A run that has ended, and the last desk and answer of a visit to the same path. -/
structure Agrees (s : Setting σ) (path : String) (run : Run σ) (f : Finish)
    (last : Desk σ × Option Answer) : Prop where
  calls : last.1.log.map Entry.call = run.log.map Entry.call
  added_iff : f = .exit 0 ↔
    ∃ p, Path.canonical s.home path = some p ∧ last.2.bind Answer.added? = some p

theorem Agrees.of_error {path : String} {f : Finish} {last : Desk σ × Option Answer} {e : Error}
    (hf : f ≠ .exit 0) (hcalls : last.1.log.map Entry.call = run.log.map Entry.call)
    (he : last.2 = some (errorAnswer .submit e)) : Agrees s path run f last where
  calls := hcalls
  added_iff := by simp [hf, he, added?_of_status (errorAnswer_not_ok .submit e)]

/-- A visitor whose dialog is refused is told so. -/
theorem Fails.agrees {path : String} {f : Finish} (h : Fails run f v) :
    Agrees s path run f (serve s (v.desk [] [] {} []) submitRequest) := by
  obtain ⟨hlog, hanswer⟩ := v.serve_refused (s := s) h.refused
  exact .of_error h.finish (hlog ▸ h.calls) hanswer

theorem Mirrors.submit (hs : s.Prompt) (hback : s.HandsBack) (h : Mirrors run v) {path : String}
    (hopen : run.dialog.OpenFor path) :
    (run.submit s).Meets (fun _ _ => False) fun run' f =>
      Agrees s path run' f (serve s (v.desk [] [] {} []) submitRequest) := by
  cases hsubmit : run.dialog.snapshot.canSubmit with
  | false =>
    have hrefused : v.dialog.snapshot.canSubmit = false := h.dialog ▸ hsubmit
    have hagrees {run' : Run σ} (hlog : run'.log = run.log) :
        Agrees s path run' (.exit 1) (serve s (v.desk [] [] {} []) submitRequest) :=
      Fails.agrees ⟨by simp, by rw [hlog, h.calls], hrefused⟩
    unfold Run.submit
    simp only [hsubmit, Bool.false_eq_true, if_false]
    split <;> exact hagrees rfl
  | true =>
    have hallowed : v.dialog.snapshot.canSubmit = true := h.dialog ▸ hsubmit
    have hpath : v.dialog.path = path := h.dialog ▸ hopen.path_eq
    cases hp : Path.canonical s.home path with
    | none =>
      obtain ⟨hlog, hanswer⟩ := v.serve_homeless hallowed (hpath ▸ hp)
      have hshown : Path.canonical s.home run.dialog.snapshot.path = none :=
        (congrArg (Path.canonical s.home) hopen.path_eq).trans hp
      simp only [Run.submit, hsubmit, if_true, hshown]
      exact .of_error (by simp) (hlog ▸ h.calls) hanswer
    | some p =>
      obtain ⟨hlog, hanswer⟩ := v.serve_submitted hs hallowed (hpath ▸ hp)
      have hcalls : (serve s (v.desk [] [] {} []) submitRequest).1.log.map Entry.call =
          (run.log ++ [Entry.register 0 [p]]).map Entry.call := by simp [hlog, h.calls]
      rw [Run.submit_of_canSubmit hsubmit (hopen.path_eq ▸ hp), ← h.world]
      cases hout : (s.register [p] v.world).1 with
      | error f =>
        rw [hout] at hanswer
        dsimp only
        split
        · exact .of_error (by simp) hcalls hanswer
        · exact .of_error (by simp) hcalls hanswer
      | ok handles =>
        rw [hout] at hanswer
        obtain rfl | rfl := hback _ _ _ hout
        · have hfilled : some p ≠ some "" := by
            rintro ⟨⟩
            exact (Path.rooted_canonical hp).ne_empty rfl
          exact ⟨hcalls, by simp [hanswer, added?_added hfilled, hp]⟩
        · exact ⟨hcalls, by simp [hanswer, added?_added]⟩

/-! ## The whole course -/

theorem visit_eq {path : String} {a : Answer}
    (h : serve s ((opened w).desk [] [] {} []) (pathRequest path) = (v.desk [] [] {} [], some a)) :
    visit s w path =
      serve s (if a.kind? = some "unsafe" then (serve s (v.desk [] [] {} []) trustRequest).1
        else v.desk [] [] {} []) submitRequest := by
  simp only [visit, serve_open, h, Option.bind_some]

theorem agrees_add (hs : s.Prompt) (hback : s.HandsBack) (t : Terminal) (w : σ) (path : String) :
    (Run.add s t path true { world := w }).Meets (fun _ _ => False)
      fun run f => Agrees s path run f (visit s w path) := by
  obtain ⟨v, a, hserve, hvalidate⟩ := mirrors_path hs w path
  rw [visit_eq hserve]
  refine (hvalidate.imp (fun _ _ => id) fun run f h => ?_).bind fun run _ h => ?_
  · rw [if_neg h.2]
    exact h.1.agrees
  · obtain ⟨hm, hshows, hkind⟩ := h
    by_cases hdubious : ∃ owner, run.dialog.classification = .settled (.dubious owner)
    · rw [if_pos (hkind.mpr hdubious)]
      obtain ⟨owner, hdubious⟩ := hdubious
      have hremedy : run.remedy s t true =
          (run.say ("Warning: " ++ run.dialog.snapshot.describe)).trust s owner := by
        simp [Run.remedy, hdubious, Assessment.owner?, Assessment.settled?, Classification.owner?]
      have hshows' : Shows path (run.say ("Warning: " ++ run.dialog.snapshot.describe)) :=
        ⟨hshows.openFor, hshows.trusting_eq, hshows.warning_ne, hshows.asks⟩
      obtain ⟨v', htrust, hmeets⟩ := (hm.say _).trust hs hshows' hdubious
      rw [hremedy, htrust]
      exact (hmeets.imp (fun _ _ => id) fun _ _ h => h.agrees).bind
        fun _ _ h => h.1.submit hs hback h.2
    · rw [if_neg (hkind.not.mpr hdubious)]
      have hremedy : run.remedy s t true = .more run () := by
        have howner : run.dialog.classification.owner? = none := by
          rw [Option.eq_none_iff_forall_ne_some]
          intro owner howner
          exact hdubious ⟨owner, (run.dialog.snapshot.owner?_eq_some_iff owner).mp howner⟩
        rw [Run.remedy, howner]
      rw [hremedy]
      exact hm.submit hs hback hshows.openFor

end Desk.Visit

namespace Http

open CommandLine

/-- A line that adds a path and trusts its owner, and the visitor who does the same: whatever the
services answer, as long as they answer, the calls are the same, and the tool exits with zero if and
only if the visitor is told that the canonical path has been added. Every path has such a line. -/
theorem visit_agrees {σ : Type} {s : Setting σ} (hs : s.Prompt) (hback : s.HandsBack)
    (t : Terminal) (w : σ) (path : String) :
    (∀ yes, readTool (addLine path true yes) = .ok (.add path true yes)) ∧
    ∀ line yes, readTool line = .ok (.add path true yes) →
      (visit s w path).1.log.map Entry.call = (runTool s t line w).1.log.map Entry.call ∧
      ((runTool s t line w).2 = .exit 0 ↔
        ∃ p, Path.canonical s.home path = some p ∧
          (visit s w path).2.bind Answer.added? = some p) := by
  refine ⟨readTool_add path true, fun line yes hline => ?_⟩
  have h := Desk.Visit.agrees_add hs hback t w path
  simp only [runTool, hline, Bool.true_or]
  generalize Run.add s t path true { world := w } = o at h ⊢
  cases o with
  | more run a => exact h.elim
  | ended run f => exact ⟨h.calls, h.added_iff⟩

theorem guarded_prompt : guarded.Prompt := ⟨fun _ _ => ⟨_, rfl⟩, fun _ => rfl, fun _ => rfl⟩

theorem visit_agrees_guarded :
    readTool ["add", "~/repo", "--trust"] = .ok (.add "~/repo" true false) ∧
      (runTool guarded willing ["add", "~/repo", "--trust"] false).2 = .exit 0 ∧
      (visit guarded false "~/repo").2.bind Answer.added? = some "/home/user/repo" ∧
      ((visit guarded false "~/repo").1.log.map Entry.call =
          (runTool guarded willing ["add", "~/repo", "--trust"] false).1.log.map Entry.call ∧
        ((runTool guarded willing ["add", "~/repo", "--trust"] false).2 = .exit 0 ↔
          ∃ p, Path.canonical guarded.home "~/repo" = some p ∧
            (visit guarded false "~/repo").2.bind Answer.added? = some p)) := by
  have hback : guarded.HandsBack := fun paths w handles h => .inl (by cases h; rfl)
  have hline : readTool ["add", "~/repo", "--trust"] = .ok (.add "~/repo" true false) := rfl
  have hagrees := (visit_agrees guarded_prompt hback willing false "~/repo").2 _ false hline
  have hzero : (runTool guarded willing ["add", "~/repo", "--trust"] false).2 = .exit 0 := by
    decide +kernel
  obtain ⟨p, hp, hadded⟩ := hagrees.2.mp hzero
  obtain rfl : "/home/user/repo" = p := Option.some.inj hp
  exact ⟨hline, hzero, hadded, hagrees⟩

end Http
end Admission
