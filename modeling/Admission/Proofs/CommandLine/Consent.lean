import Admission.Proofs.CommandLine.History

/-!
# Consent and exit status

An addition trusts a directory if and only if the first inspection found that another user owns it and
somebody agreed, and it puts a path on the list if and only if the last inspection found it valid. Its
status is zero if and only if something was added. A check asks the classifier and nobody else, and
its status is zero if and only if it was told that the path is valid.
-/
namespace Admission

namespace Setting

variable {σ : Type} {s : Setting σ} {path p : String}

/-- What the classifier is asked about when a path is entered: nothing if the path is empty, or if the
limit is over from the start. -/
def inquiry? (s : Setting σ) (path : String) : Option String :=
  if path = "" ∨ s.limit.any (· ≤ 0.0) = true then none else Path.canonical s.home path

theorem inquiry?_eq_some_iff : s.inquiry? path = some p ↔
    path ≠ "" ∧ s.limit.any (· ≤ 0.0) = false ∧ Path.canonical s.home path = some p := by
  by_cases hpath : path = "" <;> cases hover : s.limit.any (· ≤ 0.0) <;>
    simp [inquiry?, hpath, hover]

/-- What a log begins with is answered by the world that it begins in. -/
theorem outcome_of_history {w : σ} {log : List Entry} {es : List Event}
    {outcome : Option (Except Failure Classification)}
    (h : s.history w log = .classified p outcome :: es) : outcome = (s.classify p w).1 := by
  cases log with
  | nil => cases h
  | cons e log =>
    cases e with
    | classify number q =>
      obtain ⟨rfl, rfl⟩ := Event.classified.inj (List.cons.inj h).1
      rfl
    | trust | register => cases (List.cons.inj h).1

end Setting

namespace CommandLine

variable {σ : Type}

/-- The exit status that a caller sees: an error that nobody handles ends in one. -/
def Finish.status? : Finish → Option Nat
  | .exit status => some status
  | .failed _ => some 1
  | .hung => none

/-- The user is there to be asked, and says yes. -/
def Terminal.Agrees (t : Terminal) : Prop :=
  t.inputIsTerminal = true ∧ t.outputIsTerminal = true ∧ ∃ answer, Run.line? t = some answer ∧
    (Text.strip answer).map Char.toLower ∈ ["y", "yes"]

/-! ## Every path has its lines -/

/-- A line that adds a path, whatever text that is. -/
def addLine (path : String) (trust yes : Bool) : List String :=
  "add" :: (if trust then ["--trust"] else []) ++ (if yes then ["--yes"] else []) ++ ["--", path]

/-- A line that checks a path, whatever text that is. -/
def checkLine (path : String) : List String := ["check", "--", path]

theorem readTool_add (path : String) (trust yes : Bool) :
    readTool (addLine path trust yes) = .ok (.add path trust yes) := by
  cases trust <;> cases yes <;> rfl

theorem readTool_check (path : String) : readTool (checkLine path) = .ok (.check path) := rfl

/-! ## The course of an addition -/

/-- An inspection after the events `es`: the classifier is asked about `target`, if there is one. -/
inductive Asked (target : Option String) (es : List Event) : List Event → Prop
  | unasked (hp : target = none) : Asked target es es
  | asked {path : String} (hp : target = some path)
    (outcome : Option (Except Failure Classification)) :
    Asked target es (es ++ [.classified path outcome])

/-- The events of an addition up to its submission. `target` is what the classifier is asked about,
and `agreed` that somebody wants the owner of the directory trusted. -/
inductive Review (target : Option String) (agreed : Prop) : List Event → Prop
  | unasked (hp : target = none) : Review target agreed []
  | once {path : String} (hp : target = some path)
    (outcome : Option (Except Failure Classification))
    (hno : ∀ owner, outcome = some (.ok (.dubious owner)) → ¬agreed) :
    Review target agreed [.classified path outcome]
  | twice {path : String} (hp : target = some path) (hagreed : agreed) (owner : String)
    (outcome : Option (Except Failure Classification)) :
    Review target agreed [.classified path (some (.ok (.dubious owner))), .trusted owner (.ok ()),
      .classified path outcome]

/-- All events of an addition. It ends without a submission where the last answer is not that the path
is valid, or where the trust store fails. -/
inductive Course (target : Option String) (agreed : Prop) : List Event → Prop
  | review {es : List Event} (h : Review target agreed es)
    (hlast : ∀ path, es.getLast? ≠ some (.classified path (some (.ok .valid)))) :
    Course target agreed es
  | untrusted {path : String} (hp : target = some path) (hagreed : agreed) (owner : String)
    (f : Failure) :
    Course target agreed
      [.classified path (some (.ok (.dubious owner))), .trusted owner (.error f)]
  | submitted {es : List Event} {path : String} (hp : target = some path)
    (h : Review target agreed es)
    (hlast : es.getLast? = some (.classified path (some (.ok .valid))))
    (outcome : Except Failure (List String)) :
    Course target agreed (es ++ [.registered [path] outcome])

/-- The registrar gave at least one path back. -/
def Added (es : List Event) : Prop :=
  ∃ paths path more, Event.registered paths (.ok (path :: more)) ∈ es

/-- An addition that does what it may, and nothing else. `agreed` says that somebody wants the owner
trusted. -/
structure Consented (s : Setting σ) (w : σ) (path : String) (agreed : Prop) (run : Run σ)
    (finish : Finish) : Prop where
  /-- The log holds all calls that were made. -/
  world : run.world = s.worldAfter w run.log
  /-- The classifier is asked first, if there is something to ask it about. -/
  asked : (s.history w run.log).head? =
    (s.inquiry? path).map fun p => .classified p (s.classify p w).1
  /-- The trust store is called at most once, with the owner that the first inspection found. -/
  trusted_once : (s.history w run.log).countP Event.isTrusted ≤ 1
  trusted_only : ∀ owner outcome, .trusted owner outcome ∈ s.history w run.log → agreed ∧
    ∃ p, Path.canonical s.home path = some p ∧
      (s.history w run.log).head? = some (.classified p (some (.ok (.dubious owner))))
  /-- It is called if somebody agreed, and once it has trusted the path is inspected again. -/
  trusted_if : agreed → ∀ p owner,
    (s.history w run.log).head? = some (.classified p (some (.ok (.dubious owner)))) →
      ∃ outcome, .trusted owner outcome ∈ s.history w run.log
  asked_again : ∀ owner, .trusted owner (.ok ()) ∈ s.history w run.log →
    (s.history w run.log).countP Event.isClassified = 2
  /-- The registrar is called at most once, with the path that the last inspection found valid, and if
  it did. -/
  registered_once : (s.history w run.log).countP Event.isRegistered ≤ 1
  registered_only : ∀ paths outcome, .registered paths outcome ∈ s.history w run.log →
    ∃ p, Path.canonical s.home path = some p ∧ paths = [p] ∧
      ((s.history w run.log).filter Event.isClassified).getLast? =
        some (.classified p (some (.ok .valid)))
  registered_if : ∀ p, ((s.history w run.log).filter Event.isClassified).getLast? =
      some (.classified p (some (.ok .valid))) →
    ∃ outcome, .registered [p] outcome ∈ s.history w run.log
  status_zero_iff : finish.status? = some 0 ↔ Added (s.history w run.log)
  /-- Only a classifier that is waited for without a limit keeps the run from ending. -/
  ends : finish.status? = none →
    s.limit = none ∧ ∃ p, (s.history w run.log).getLast? = some (.classified p none)

/-- A check: it asks the classifier, if there is something to ask it about, and nobody else, and its
status says what it was told. -/
structure Checked (s : Setting σ) (w : σ) (path : String) (run : Run σ) (finish : Finish) :
    Prop where
  world : run.world = s.worldAfter w run.log
  asked : s.history w run.log =
    ((s.inquiry? path).map fun p => .classified p (s.classify p w).1).toList
  status_zero_iff : finish.status? = some 0 ↔
    ∃ p, s.inquiry? path = some p ∧ (s.classify p w).1 = some (.ok .valid)
  ends : finish.status? = none →
    s.limit = none ∧ ∃ p, (s.history w run.log).getLast? = some (.classified p none)

variable {target : Option String} {agreed : Prop} {es : List Event}

theorem Review.not_registered (h : Review target agreed es) (paths : List String)
    (outcome : Except Failure (List String)) : Event.registered paths outcome ∉ es := by
  cases h <;> simp

theorem Review.not_added (h : Review target agreed es) : ¬Added es :=
  fun ⟨paths, _, _, hmem⟩ => h.not_registered paths _ hmem

/-- The answer to the last inspection is the last event of a review. -/
theorem Review.filter_isClassified (h : Review target agreed es) :
    (es.filter Event.isClassified).getLast? = es.getLast? := by
  cases h <;> simp [Event.isClassified]

theorem Review.trusted_only (h : Review target agreed es) {owner : String}
    {outcome : Except Failure Unit} (hmem : .trusted owner outcome ∈ es) :
    agreed ∧ ∃ p, target = some p ∧
      es.head? = some (.classified p (some (.ok (.dubious owner)))) := by
  cases h with
  | unasked => simp at hmem
  | once => simp at hmem
  | twice hp hagreed owner' o =>
    obtain ⟨rfl, rfl⟩ : owner = owner' ∧ outcome = .ok () := by simpa using hmem
    exact ⟨hagreed, _, hp, rfl⟩

theorem Review.trusted_if (h : Review target agreed es) (hagreed : agreed) {p owner : String}
    (hhead : es.head? = some (.classified p (some (.ok (.dubious owner))))) :
    ∃ outcome, .trusted owner outcome ∈ es := by
  cases h with
  | unasked => cases hhead
  | once hp outcome hno =>
    obtain ⟨rfl, rfl⟩ := Event.classified.inj (Option.some.inj hhead)
    exact absurd hagreed (hno owner rfl)
  | twice _ _ owner' _ =>
    obtain rfl : owner' = owner := by simpa using (Event.classified.inj (Option.some.inj hhead)).2
    exact ⟨.ok (), by simp⟩

theorem Review.asked_again (h : Review target agreed es) {owner : String}
    {outcome : Except Failure Unit} (hmem : .trusted owner outcome ∈ es) :
    es.countP Event.isClassified = 2 := by
  cases h with
  | unasked => simp at hmem
  | once => simp at hmem
  | twice => simp [List.countP_cons, Event.isClassified]

theorem Asked.review (h : Asked target [] es)
    (hno : ∀ path c, es.getLast? ≠ some (.classified path (some (.ok c)))) :
    Review target agreed es := by
  cases h with
  | unasked hnone => exact .unasked hnone
  | @asked path hp outcome =>
    refine .once hp outcome fun owner howner => absurd ?_ (hno path (.dubious owner))
    rw [List.nil_append, List.getLast?_singleton, howner]

/-- The events of one inspection. -/
theorem Asked.history_eq {s : Setting σ} {w : σ} {log : List Entry}
    (h : Asked target [] (s.history w log)) :
    s.history w log = (target.map fun p => .classified p (s.classify p w).1).toList := by
  generalize hes : s.history w log = es at h
  cases h with
  | unasked hnone => simp [hnone]
  | asked hp outcome => simp [hp, Setting.outcome_of_history hes]

/-! ## What follows from the course -/

namespace Course

theorem asked (h : Course target agreed es) :
    target = none ∧ es = [] ∨
      ∃ p outcome rest, target = some p ∧ es = .classified p outcome :: rest := by
  cases h with
  | review h =>
    cases h with
    | unasked hnone => exact .inl ⟨hnone, rfl⟩
    | once hp | twice hp => exact .inr ⟨_, _, _, hp, rfl⟩
  | untrusted hp => exact .inr ⟨_, _, _, hp, rfl⟩
  | submitted hp h =>
    cases h with
    | unasked hnone => cases hnone.symm.trans hp
    | once hp | twice hp => exact .inr ⟨_, _, _, hp, rfl⟩

theorem trusted_once (h : Course target agreed es) : es.countP Event.isTrusted ≤ 1 := by
  cases h with
  | review h => cases h <;> simp [List.countP_cons, Event.isTrusted]
  | untrusted => simp [List.countP_cons, Event.isTrusted]
  | submitted hp h => cases h <;> simp [List.countP_cons, Event.isTrusted]

theorem trusted_only (h : Course target agreed es) {owner : String}
    {outcome : Except Failure Unit} (hmem : .trusted owner outcome ∈ es) :
    agreed ∧ ∃ p, target = some p ∧
      es.head? = some (.classified p (some (.ok (.dubious owner)))) := by
  cases h with
  | review h => exact h.trusted_only hmem
  | untrusted hp hagreed owner' f =>
    obtain ⟨rfl, -⟩ : owner = owner' ∧ outcome = .error f := by simpa using hmem
    exact ⟨hagreed, _, hp, rfl⟩
  | submitted hp h hlast o =>
    have hmem := (List.mem_append.mp hmem).resolve_right (by simp)
    obtain ⟨hagreed, p, hp, hhead⟩ := h.trusted_only hmem
    exact ⟨hagreed, p, hp, by rw [List.head?_append, hhead, Option.some_or]⟩

theorem trusted_if (h : Course target agreed es) (hagreed : agreed) {p owner : String}
    (hhead : es.head? = some (.classified p (some (.ok (.dubious owner))))) :
    ∃ outcome, .trusted owner outcome ∈ es := by
  cases h with
  | review h => exact h.trusted_if hagreed hhead
  | untrusted _ _ owner' f =>
    obtain rfl : owner' = owner := by simpa using (Event.classified.inj (Option.some.inj hhead)).2
    exact ⟨.error f, by simp⟩
  | @submitted es _ _ h hlast o =>
    have hfirst : es.head? = some (.classified p (some (.ok (.dubious owner)))) := by
      cases es with
      | nil => cases hlast
      | cons e es => exact hhead
    obtain ⟨outcome, hmem⟩ := h.trusted_if hagreed hfirst
    exact ⟨outcome, List.mem_append_left _ hmem⟩

theorem asked_again (h : Course target agreed es) {owner : String}
    (hmem : .trusted owner (.ok ()) ∈ es) : es.countP Event.isClassified = 2 := by
  cases h with
  | review h => exact h.asked_again hmem
  | untrusted => simp at hmem
  | submitted hp h =>
    have hmem := (List.mem_append.mp hmem).resolve_right (by simp)
    rw [List.countP_append, h.asked_again hmem]
    simp [Event.isClassified]

theorem registered_once (h : Course target agreed es) : es.countP Event.isRegistered ≤ 1 := by
  cases h with
  | review h => cases h <;> simp [Event.isRegistered]
  | untrusted => simp [Event.isRegistered]
  | submitted hp h hlast outcome => cases h <;> simp [List.countP_cons, Event.isRegistered]

theorem registered_only (h : Course target agreed es) {paths : List String}
    {outcome : Except Failure (List String)} (hmem : .registered paths outcome ∈ es) :
    ∃ p, target = some p ∧ paths = [p] ∧
      (es.filter Event.isClassified).getLast? = some (.classified p (some (.ok .valid))) := by
  cases h with
  | review h => exact absurd hmem (h.not_registered paths outcome)
  | untrusted => simp at hmem
  | @submitted es p hp h hlast o =>
    have hmem := (List.mem_append.mp hmem).resolve_left (h.not_registered paths outcome)
    obtain ⟨rfl, rfl⟩ : paths = [p] ∧ outcome = o := by simpa using hmem
    refine ⟨p, hp, rfl, ?_⟩
    rw [← hlast, ← h.filter_isClassified, List.filter_append]
    simp [Event.isClassified]

theorem registered_if (h : Course target agreed es) {p : String}
    (hlast : (es.filter Event.isClassified).getLast? = some (.classified p (some (.ok .valid)))) :
    ∃ outcome, .registered [p] outcome ∈ es := by
  cases h with
  | review h hno => exact absurd (h.filter_isClassified ▸ hlast) (hno p)
  | untrusted => simp [Event.isClassified] at hlast
  | @submitted es p' hp h hvalid o =>
    have hclassified : (es.filter Event.isClassified).getLast? =
        some (.classified p (some (.ok .valid))) := by
      simpa [List.filter_append, Event.isClassified] using hlast
    rw [h.filter_isClassified, hvalid] at hclassified
    obtain ⟨rfl, -⟩ := Event.classified.inj (Option.some.inj hclassified)
    exact ⟨o, by simp⟩

end Course

namespace Run

variable {s : Setting σ} {w : σ} {path : String} {run : Run σ}

/-! ## Runs that review a path -/

/-- The run has come as far as `es` with its review of `path`. It shows an answer, other than that
nothing usable is there, if and only if that is what it was told last. -/
structure Reviewing (s : Setting σ) (w : σ) (path : String) (run : Run σ) (es : List Event) :
    Prop where
  traced : run.Traced s w es
  openFor : run.dialog.OpenFor path
  shows_iff : ∀ c, c ≠ .missing → (run.dialog.classification = .settled c ↔
    ∃ p, es.getLast? = some (.classified p (some (.ok c))))

/-- The run has ended in the middle of its review, without an answer to go on with. -/
structure Stopped (s : Setting σ) (w : σ) (run : Run σ) (finish : Finish) : Prop where
  world : run.world = s.worldAfter w run.log
  status_ne_zero : finish.status? ≠ some 0
  unanswered : ∀ p c, (s.history w run.log).getLast? ≠ some (.classified p (some (.ok c)))
  ends : finish.status? = none →
    s.limit = none ∧ ∃ p, (s.history w run.log).getLast? = some (.classified p none)

/-- The run has ended, with a status that says whether something was added. -/
structure Ended (s : Setting σ) (w : σ) (path : String) (agreed : Prop) (run : Run σ)
    (finish : Finish) : Prop where
  world : run.world = s.worldAfter w run.log
  course : Course (s.inquiry? path) agreed (s.history w run.log)
  status_zero_iff : finish.status? = some 0 ↔ Added (s.history w run.log)
  ends : finish.status? = none →
    s.limit = none ∧ ∃ p, (s.history w run.log).getLast? = some (.classified p none)

theorem Stopped.of_traced {finish : Finish} {n : Nat} (ht : run.Traced s w es)
    (hf : finish.status? = some (n + 1))
    (hlast : ∀ p c, es.getLast? ≠ some (.classified p (some (.ok c)))) :
    Stopped s w run finish where
  world := ht.world
  status_ne_zero := by simp [hf]
  unanswered := ht.events ▸ hlast
  ends := by simp [hf]

theorem Stopped.ended {finish : Finish} (h : Stopped s w run finish)
    (hreview : Review (s.inquiry? path) agreed (s.history w run.log)) :
    Ended s w path agreed run finish where
  world := h.world
  course := .review hreview fun p => h.unanswered p .valid
  status_zero_iff := by simp [h.status_ne_zero, hreview.not_added]
  ends := h.ends

theorem Ended.of_traced {finish : Finish} {n : Nat} (ht : run.Traced s w es)
    (h : Course (s.inquiry? path) agreed es) (hnot : ¬Added es)
    (hf : finish.status? = some (n + 1)) : Ended s w path agreed run finish where
  world := ht.world
  course := ht.events ▸ h
  status_zero_iff := by simp [hf, ht.events, hnot]
  ends := by simp [hf]

theorem Ended.of_submitted {p : String} {outcome : Except Failure (List String)} {finish : Finish}
    (ht : run.Traced s w (es ++ [.registered [p] outcome])) (hp : s.inquiry? path = some p)
    (h : Review (s.inquiry? path) agreed es)
    (hlast : es.getLast? = some (.classified p (some (.ok .valid))))
    (hzero : finish.status? = some 0 ↔ ∃ a as, outcome = .ok (a :: as))
    (hends : finish.status? ≠ none) : Ended s w path agreed run finish where
  world := ht.world
  course := ht.events ▸ .submitted hp h hlast outcome
  status_zero_iff := by
    rw [hzero, ht.events]
    constructor
    · rintro ⟨a, as, rfl⟩
      exact ⟨[p], a, as, by simp⟩
    · rintro ⟨paths, a, as, hmem⟩
      have hmem := (List.mem_append.mp hmem).resolve_left (h.not_registered paths _)
      simp only [List.mem_singleton, Event.registered.injEq] at hmem
      exact ⟨a, as, hmem.2.symm⟩
  ends := fun hnone => absurd hnone hends

theorem Ended.consented {finish : Finish} (h : Ended s w path agreed run finish) :
    Consented s w path agreed run finish where
  world := h.world
  asked := by
    rcases h.course.asked with ⟨hnone, hnil⟩ | ⟨p, outcome, rest, hp, hes⟩
    · rw [hnone, hnil]
      rfl
    · rw [hp, hes, Setting.outcome_of_history hes]
      rfl
  trusted_once := h.course.trusted_once
  trusted_only owner outcome hmem := by
    obtain ⟨hagreed, p, hp, hhead⟩ := h.course.trusted_only hmem
    exact ⟨hagreed, p, (Setting.inquiry?_eq_some_iff.mp hp).2.2, hhead⟩
  trusted_if hagreed _ _ := h.course.trusted_if hagreed
  asked_again _ := h.course.asked_again
  registered_once := h.course.registered_once
  registered_only paths outcome hmem := by
    obtain ⟨p, hp, hpaths, hlast⟩ := h.course.registered_only hmem
    exact ⟨p, (Setting.inquiry?_eq_some_iff.mp hp).2.2, hpaths, hlast⟩
  registered_if _ := h.course.registered_if
  status_zero_iff := h.status_zero_iff
  ends := h.ends

/-- A run that is told about its path goes on with its review. -/
theorem Reviewing.of_answer {c : Classification} (ht : run.Traced s w es)
    (hopen : run.dialog.OpenFor path)
    (hc : ∀ c', c' ≠ .missing →
      (c = c' ↔ ∃ p, es.getLast? = some (.classified p (some (.ok c'))))) :
    Reviewing s w path (run.answer c) es where
  traced := ht.of_eq rfl rfl
  openFor := by
    rw [answer_of_openFor hopen]
    exact ⟨hopen.path_eq, hopen.closed_eq, Nat.le_refl _⟩
  shows_iff := by
    intro c' hne
    rw [answer_of_openFor hopen, ← hc c' hne, Assessment.settled.injEq]

/-- An inspection, made when the last thing that the run was told is no classification. -/
theorem inspect_meets (ht : run.Traced s w es) (hopen : run.dialog.OpenFor path) (hne : path ≠ "")
    (hlast : ∀ p outcome, es.getLast? ≠ some (.classified p outcome)) :
    (run.inspect s).Meets
      (fun run _ => ∃ es', Asked (s.inquiry? path) es es' ∧ Reviewing s w path run es')
      (fun run f => Asked (s.inquiry? path) es (s.history w run.log) ∧ Stopped s w run f) := by
  obtain rfl := hopen.path_eq
  have told (p : String) := ht.told (.classify run.dialog.issued p)
  have asked {p : String} (hp : Path.canonical s.home run.dialog.path = some p)
      (hover : s.limit.any (· ≤ 0.0) = false) : s.inquiry? run.dialog.path = some p :=
    Setting.inquiry?_eq_some_iff.mpr ⟨hne, hover, hp⟩
  have hi := inspected_inspect s run
  generalize run.inspect s = o at hi
  cases hi with
  | homeless hp =>
    refine ⟨ht.events ▸ .unasked ?_, .of_traced ht rfl fun p c => hlast p _⟩
    simp [Setting.inquiry?, hp]
  | overdue hover =>
    refine ⟨es, .unasked (by simp [Setting.inquiry?, hover]), .of_answer ht hopen fun c hc => ?_⟩
    simp [hlast, hc.symm]
  | answered hp hover hc =>
    refine ⟨_, .asked (asked hp hover) _, .of_answer (told _) hopen fun c hne => ?_⟩
    simp [hc]
  | late hp hover hc =>
    refine ⟨_, .asked (asked hp hover) _, .of_answer (told _) hopen fun c hne => ?_⟩
    simp [hc, hne.symm]
  | failed hp hover hc =>
    refine ⟨(told _).events ▸ .asked (asked hp hover) _, .of_traced (told _) rfl fun p c => ?_⟩
    simp [Setting.tell, hc]
  | @hung p hp hover hc hlimit =>
    have hevents := (told p).events
    refine ⟨hevents ▸ .asked (asked hp hover) _, (told p).world, by simp [Finish.status?], ?_,
      fun _ => ⟨hlimit, p, ?_⟩⟩
    · simp [hevents, Setting.tell, hc]
    · simp [hevents, Setting.tell, hc]

/-- The run as far as its first inspection. -/
theorem validate_meets (s : Setting σ) (w : σ) (path : String) :
    (validate s { world := w } path).Meets
      (fun run _ => ∃ es, Asked (s.inquiry? path) [] es ∧ Reviewing s w path run es)
      (fun run f => Asked (s.inquiry? path) [] (s.history w run.log) ∧ Stopped s w run f) := by
  have hopen := Dialog.openFor_edit path
  unfold validate
  dsimp only
  split
  · rename_i hasks
    refine inspect_meets (traced_start s w _) hopen ?_ (by simp)
    simpa [Dialog.asks] using hasks
  · rename_i hasks
    obtain rfl : path = "" := by simpa [Dialog.asks] using hasks
    exact ⟨[], .unasked (by simp [Setting.inquiry?]), traced_start s w _, hopen,
      by simp [Dialog.edit]⟩

/-- The run as far as its submission. -/
def Reviewed (s : Setting σ) (w : σ) (path : String) (agreed : Prop) (run : Run σ) : Prop :=
  ∃ es, Review (s.inquiry? path) agreed es ∧ Reviewing s w path run es

/-- What is written is no part of a review. -/
theorem Reviewing.writing (h : Reviewing s w path run es) (output : String) :
    Reviewing s w path { run with output := output } es :=
  ⟨h.traced.of_eq rfl rfl, h.openFor, h.shows_iff⟩

theorem trust_meets {owner p : String} (hp : s.inquiry? path = some p) (hagreed : agreed)
    (h : Reviewing s w path run [.classified p (some (.ok (.dubious owner)))]) :
    (run.trust s owner).Meets (fun run _ => Reviewed s w path agreed run)
      (Ended s w path agreed) := by
  have ht := h.traced.told (.trust 0 owner)
  rw [trust_eq]
  cases hout : (s.trust owner run.world).1 with
  | error f =>
    refine .of_traced (ht.of_eq rfl rfl) ?_ ?_ rfl
    · simpa [Setting.tell, hout] using Course.untrusted hp hagreed owner f
    · simp [Added, Setting.tell]
  | ok =>
    obtain ⟨hopen, -⟩ := h.openFor.endTrust
    have hne := (Setting.inquiry?_eq_some_iff.mp hp).1
    have hasks : run.dialog.asks run.dialog.path = true := by
      simp [Dialog.asks, h.openFor.closed_eq, h.openFor.path_eq, hne]
    have htrusted : Traced s w (run.told s (.trust 0 owner))
        [.classified p (some (.ok (.dubious owner))), .trusted owner (.ok ())] := by
      simpa [Setting.tell, hout] using ht
    have hagain : Traced s w { run.told s (.trust 0 owner) with dialog := run.dialog.endTrust } _ :=
      htrusted.of_eq rfl rfl
    -- There is something to ask about, so the path is inspected again.
    have review {es : List Event}
        (hes : Asked (s.inquiry? path)
          [.classified p (some (.ok (.dubious owner))), .trusted owner (.ok ())] es) :
        Review (s.inquiry? path) agreed es := by
      cases hes with
      | unasked hnone => cases hnone.symm.trans hp
      | asked hp' outcome =>
        obtain rfl := Option.some.inj (hp.symm.trans hp')
        exact .twice hp hagreed owner outcome
    have hinspect := inspect_meets hagain hopen hne (by simp)
    dsimp only
    rw [if_pos hasks]
    refine Outcome.Meets.bind (P := fun run _ => Reviewed s w path agreed run)
      (hinspect.imp (fun run _ h => ?_) fun run f h => ?_) fun run _ h => ?_
    · obtain ⟨es, hes, h⟩ := h
      exact ⟨es, review hes, h⟩
    · obtain ⟨hes, h⟩ := h
      exact h.ended (review hes)
    · obtain ⟨es, hreview, h⟩ := h
      exact ⟨es, hreview, h.writing _⟩

theorem isYes_iff (answer : String) :
    isYes answer = true ↔ (Text.strip answer).map Char.toLower ∈ ["y", "yes"] := by
  simp [isYes]

/-- Asking the user touches what is written and nothing else. -/
theorem askConsent_spec (t : Terminal) (owner : String) (run : Run σ) :
    ∃ output, (run.askConsent t owner).1 = { run with output := output } ∧
      ((run.askConsent t owner).2 = true ↔ t.Agrees) := by
  unfold askConsent
  split
  · rename_i hthere
    obtain ⟨hin, hout⟩ := Bool.and_eq_true_iff.mp hthere
    refine ⟨_, rfl, ?_⟩
    simp [Terminal.Agrees, hin, hout, Option.any_eq_true, isYes_iff]
  · rename_i hthere
    refine ⟨_, rfl, nofun, fun ⟨hin, hout, _⟩ => ?_⟩
    exact absurd (Bool.and_eq_true_iff.mpr ⟨hin, hout⟩) hthere

theorem remedy_meets {t : Terminal} {consent : Bool} (hagreed : agreed ↔ consent = true ∨ t.Agrees)
    (hes : Asked (s.inquiry? path) [] es) (h : Reviewing s w path run es) :
    (run.remedy s t consent).Meets (fun run _ => Reviewed s w path agreed run)
      (Ended s w path agreed) := by
  unfold remedy
  split
  · rename_i howner
    refine ⟨es, ?_, h⟩
    cases hes with
    | unasked hnone => exact .unasked hnone
    | asked hp outcome =>
      refine .once hp outcome ?_
      rintro owner rfl
      have hshown := (h.shows_iff (.dubious owner) (by simp)).mpr ⟨_, rfl⟩
      cases howner.symm.trans ((run.dialog.snapshot.owner?_eq_some_iff owner).mpr hshown)
  · rename_i owner howner
    -- A dubious path is shown because the first inspection, and no other yet, has found it so.
    have hshown := (run.dialog.snapshot.owner?_eq_some_iff owner).mp howner
    obtain ⟨p, hlast⟩ := (h.shows_iff _ (by simp)).mp hshown
    cases hes with
    | unasked => cases hlast
    | asked hp outcome =>
      obtain ⟨rfl, rfl⟩ := Event.classified.inj (Option.some.inj hlast)
      have warned := h.writing (run.output ++ ("Warning: " ++ run.dialog.snapshot.describe) ++ "\n")
      cases consent with
      | true => exact trust_meets hp (hagreed.mpr (.inl rfl)) warned
      | false =>
        obtain ⟨output, hasked, hyes⟩ := askConsent_spec t owner
          (run.say ("Warning: " ++ run.dialog.snapshot.describe))
        simp only [Bool.false_eq_true, if_false, hasked]
        split
        · rename_i hanswer
          exact trust_meets hp (hagreed.mpr (.inr (hyes.mp hanswer))) (warned.writing output)
        · rename_i hanswer
          refine ⟨_, .once hp _ fun _ _ hagree => ?_, warned.writing output⟩
          exact hanswer (hyes.mpr ((hagreed.mp hagree).resolve_left nofun))

theorem submit_meets (h : Reviewed s w path agreed run) :
    (run.submit s).Meets (fun _ _ => False) (Ended s w path agreed) := by
  obtain ⟨es, hreview, h⟩ := h
  -- Whoever was told that a path is valid asked about one.
  have target {p : String} (hlast : es.getLast? = some (.classified p (some (.ok .valid)))) :
      s.inquiry? path = some p := by
    cases hreview with
    | unasked => cases hlast
    | once hp | twice hp =>
      obtain ⟨rfl, -⟩ := Event.classified.inj (Option.some.inj hlast)
      exact hp
  cases hsubmit : run.dialog.snapshot.canSubmit with
  | false =>
    have hno (p : String) : es.getLast? ≠ some (.classified p (some (.ok .valid))) := by
      intro hlast
      have hne := (Setting.inquiry?_eq_some_iff.mp (target hlast)).1
      have hvalid := (h.shows_iff .valid (by simp)).mpr ⟨p, hlast⟩
      have hcan := (Snapshot.canSubmit_iff run.dialog.snapshot).mpr
        ⟨fun hempty => hne (h.openFor.path_eq ▸ hempty), hvalid⟩
      cases hcan.symm.trans hsubmit
    unfold submit
    simp only [hsubmit, Bool.false_eq_true, if_false]
    split <;>
      exact .of_traced (h.traced.of_eq rfl rfl) (.review hreview hno) hreview.not_added rfl
  | true =>
    obtain ⟨-, hvalid⟩ := (Snapshot.canSubmit_iff _).mp hsubmit
    obtain ⟨p, hlast⟩ := (h.shows_iff .valid (by simp)).mp hvalid
    have hp := target hlast
    have hcanonical := (Setting.inquiry?_eq_some_iff.mp hp).2.2
    rw [submit_of_canSubmit hsubmit (h.openFor.path_eq ▸ hcanonical)]
    have ht := h.traced.told (.register 0 [p])
    cases hout : (s.register [p] run.world).1 with
    | error f =>
      dsimp only
      split <;> exact .of_submitted (ht.of_eq rfl rfl) hp hreview hlast
        (by simp [Finish.status?, hout]) nofun
    | ok handles =>
      cases handles with
      | nil | cons =>
        exact .of_submitted (ht.of_eq rfl rfl) hp hreview hlast (by simp [Finish.status?, hout])
          nofun

theorem add_meets (s : Setting σ) (t : Terminal) (w : σ) (path : String) {consent : Bool}
    (hagreed : agreed ↔ consent = true ∨ t.Agrees) :
    (add s t path consent { world := w }).Meets (fun _ _ => False) (Ended s w path agreed) := by
  refine ((validate_meets s w path).imp (fun _ _ => id) fun run f h => ?_).bind fun run _ h => ?_
  · -- A run that stops has been told nothing, so no owner was found.
    obtain ⟨hes, h⟩ := h
    exact h.ended (hes.review h.unanswered)
  · obtain ⟨es, hes, h⟩ := h
    exact (remedy_meets hagreed hes h).bind fun _ _ h => submit_meets h

theorem check_meets (s : Setting σ) (w : σ) (path : String) :
    (check s path { world := w }).Meets (fun _ _ => False) (Checked s w path) := by
  have told_valid {log : List Entry} (h : Asked (s.inquiry? path) [] (s.history w log)) :
      (∃ p, (s.history w log).getLast? = some (.classified p (some (.ok .valid)))) ↔
        ∃ p, s.inquiry? path = some p ∧ (s.classify p w).1 = some (.ok .valid) := by
    rw [h.history_eq]
    cases s.inquiry? path <;> simp
  refine ((validate_meets s w path).imp (fun _ _ => id) fun run f h => ?_).bind fun run _ h => ?_
  · obtain ⟨hes, h⟩ := h
    refine ⟨h.world, hes.history_eq, iff_of_false h.status_ne_zero fun hvalid => ?_, h.ends⟩
    obtain ⟨p, hlast⟩ := (told_valid hes).mpr hvalid
    exact h.unanswered p .valid hlast
  · obtain ⟨es, hes, h⟩ := h
    obtain rfl := h.traced.events
    have hshown : run.dialog.snapshot.classification.isValid = true ↔ _ :=
      (Assessment.isValid_iff _).trans ((h.shows_iff .valid (by simp)).trans (told_valid hes))
    refine ⟨h.traced.world, hes.history_eq, Iff.trans ?_ hshown, nofun⟩
    split <;> simp_all [Finish.status?]

end Run

/-- A run whose line asks for an addition or for a check: whatever the services answer, whoever
sits at the terminal, and however the path and the consent are spelled. Every path has such lines. -/
theorem runTool_consented (s : Setting σ) (t : Terminal) (w : σ) :
    (∀ path trust yes, readTool (addLine path trust yes) = .ok (.add path trust yes)) ∧
    (∀ path, readTool (checkLine path) = .ok (.check path)) ∧
    ∀ line,
      (∀ path trust yes, readTool line = .ok (.add path trust yes) →
        Consented s w path (trust = true ∨ yes = true ∨ t.Agrees) (runTool s t line w).1
          (runTool s t line w).2) ∧
      (∀ path, readTool line = .ok (.check path) →
        Checked s w path (runTool s t line w).1 (runTool s t line w).2) := by
  refine ⟨readTool_add, readTool_check, fun line => ⟨fun path trust yes hline => ?_,
    fun path hline => ?_⟩⟩
  · have hagreed : trust = true ∨ yes = true ∨ t.Agrees ↔ (trust || yes) = true ∨ t.Agrees := by
      rw [Bool.or_eq_true, or_assoc]
    have h := Run.add_meets s t w path hagreed
    simp only [runTool, hline]
    generalize Run.add s t path (trust || yes) { world := w } = o at h ⊢
    cases o with
    | more run a => exact h.elim
    | ended run f => exact h.consented
  · have h := Run.check_meets s w path
    simp only [runTool, hline]
    generalize Run.check s path { world := w } = o at h ⊢
    cases o with
    | more run a => exact h.elim
    | ended run f => exact h

/-- Services that show another user's directory until somebody trusts it, and a repository from
then on. The world says whether somebody has. -/
def guarded : Setting Bool where
  classify path w := (some (.ok (if w then .valid else .dubious path)), w)
  trustGate _ := none
  trust _ _ := (.ok (), true)
  registerGate _ := none
  register paths w := (.ok paths, w)
  registered _ := []
  home := "/home/user"

/-- A user at a terminal who says yes. -/
def willing : Terminal where
  inputIsTerminal := true
  outputIsTerminal := true
  input := " Yes\n"

/-- An addition with consent, and a check of what it has trusted. -/
theorem runTool_consented_prompted :
    (readTool ["add", "~/repo"] = .ok (.add "~/repo" false false) ∧
      (runTool guarded willing ["add", "~/repo"] false).1.log =
        [.classify 1 "/home/user/repo", .trust 0 "/home/user/repo", .classify 2 "/home/user/repo",
          .register 0 ["/home/user/repo"]] ∧
      (runTool guarded willing ["add", "~/repo"] false).2 = .exit 0 ∧
      Consented guarded false "~/repo" (false = true ∨ false = true ∨ willing.Agrees)
        (runTool guarded willing ["add", "~/repo"] false).1
        (runTool guarded willing ["add", "~/repo"] false).2) ∧
    readTool ["check", "~/repo"] = .ok (.check "~/repo") ∧
      guarded.inquiry? "~/repo" = some "/home/user/repo" ∧
      (runTool guarded willing ["check", "~/repo"] true).2 = .exit 0 ∧
      (runTool guarded willing ["check", "~/repo"] false).2 = .exit 1 ∧
      ∀ trusted, Checked guarded trusted "~/repo"
        (runTool guarded willing ["check", "~/repo"] trusted).1
        (runTool guarded willing ["check", "~/repo"] trusted).2 :=
  ⟨⟨rfl, by decide +kernel, by decide +kernel,
      ((runTool_consented guarded willing false).2.2 ["add", "~/repo"]).1 "~/repo" false false rfl⟩,
    rfl, by decide +kernel, by decide +kernel, by decide +kernel, fun trusted =>
      ((runTool_consented guarded willing trusted).2.2 ["check", "~/repo"]).2 "~/repo" rfl⟩

end CommandLine
end Admission
