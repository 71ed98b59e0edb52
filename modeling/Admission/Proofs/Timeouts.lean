import Admission.Proofs.Desk.Decisions
import Admission.Proofs.Path.Shorthand

/-!
# Time limits

With a time limit every request ends in time, and in one way: with what its probe brought, as a
missing path because its time was over, or cancelled. A request whose time is over leaves alone what
is shown of another path, and the answer of a newer request. A limit that leaves no time makes every
path missing, and the classifier is not called. How long a classifier takes is not said.
-/
namespace Admission

/-- A job by which request `r` comes nearer to its end. -/
def Job.IsOf (r : Nat) (j : Job) : Prop :=
  j = .limit r ∨ j = .request r ∨ j = .probe r ∨ j = .probeEnded r

namespace Desk

variable {σ : Type} {s : Setting σ} {d e : Desk σ} {r : Nat} {q : Request} {ms : List (Move σ)}
  {limit : Float}

/-! ## Requests whose time is over -/

/-- Request `q` counts no more for its dialog: another path is live, or the answer of a newer
request has been applied. -/
def Outdated (d : Desk σ) (q : Request) : Prop :=
  ∃ x, d.dialogs[q.dialog]? = some x ∧ (q.path ≠ x.path ∨
    ∃ (r : Nat) (newer : Request) (c : Classification), d.requests[r]? = some newer ∧
      newer.dialog = q.dialog ∧ q.number < newer.number ∧ newer.verdict? = some (.answered c true))

theorem Booked.not_accepts (hb : Booked d) (h : Outdated d q) :
    ∃ x, d.dialogs[q.dialog]? = some x ∧ ¬ x.accepts q.path (some q.number) = true := by
  obtain ⟨x, hx, hor⟩ := h
  refine ⟨x, hx, fun haccepts => ?_⟩
  obtain ⟨-, hpath, hle⟩ := (Dialog.accepts_iff ..).mp haccepts
  rcases hor with hother | ⟨r, newer, c, hnewer, hd, hlt, hv⟩
  · exact hother hpath
  · have hnewest : newer.number ≤ x.applied :=
      (hb.agrees hx).newest (issue_of_request hnewer) ⟨hd, hv⟩
    omega

/-- A request that ends as missing leaves other dialogs as they are, and its own one if it is
outdated. -/
theorem dialog_conclude_missing (hb : Booked d) (hq : d.requests[r]? = some q) {i : Nat}
    (h : i ≠ q.dialog ∨ Outdated d q) {e : Desk σ} (hr : e.requests = d.requests)
    (hd : e.dialogs = d.dialogs) :
    (conclude s e r (.ok .missing)).dialogs[i]? = d.dialogs[i]? := by
  obtain ⟨f, hf, -⟩ | ⟨c, -, hdialogs, -⟩ := conclude_spec (s := s) (hr ▸ hq) (.ok .missing)
  · cases hf
  · rw [hdialogs, hd, List.getElem?_modify]
    by_cases hi : q.dialog = i
    · subst hi
      obtain ⟨x, hx, hnot⟩ := hb.not_accepts (h.resolve_left (absurd rfl))
      have hsame := Dialog.offer_of_not_accepts hnot (.settled c)
      simp [hx, hsame]
    · simp [hi]

/-- **The time limit of a request leaves other dialogs as they are**, and its own one if the request
is outdated. -/
theorem dialog_of_timeout (hb : Booked d) {j : Job} {now : List Job}
    (hnow : d.agenda.now = j :: now) (hj : j.IsOf r) (hq : d.requests[r]? = some q)
    (htimed : q.stage.isTimed = true) (hfound : ∀ o, q.probe ≠ .found o) {i : Nat}
    (h : i ≠ q.dialog ∨ Outdated d q) : (d.move s .step).dialogs[i]? = d.dialogs[i]? := by
  rw [move_step_of_now hnow]
  obtain ⟨e, he⟩ : ∃ e, e = { d with agenda := { d.agenda with now := now } } := ⟨_, rfl⟩
  have hr : e.requests = d.requests := by rw [he]
  have hd : e.dialogs = d.dialogs := by rw [he]
  have hsame {f : Desk σ} (hf : f.dialogs = e.dialogs) : f.dialogs[i]? = d.dialogs[i]? := by
    rw [hf, hd]
  rw [← he]
  rcases hj with rfl | rfl | rfl | rfl
  · exact hsame (still_tellLimit (s := s) e r).aloof.dialogs
  · have hmissing := dialog_conclude_missing (s := s) hb hq h hr hd
    simp only [run, runRequest, hr, hq]
    cases hs : q.stage with
    | racing a =>
      cases hp : q.probe with
      | found o => exact absurd hp (hfound o)
      | stopped => exact hsame rfl
      | _ => exact hsame (still_haltProbe (s := s) _ r).aloof.dialogs
    | withdrawing late a =>
      dsimp only
      split
      · cases hp : q.probe with
        | found o => exact absurd hp (hfound o)
        | _ => exact hmissing
      · exact hsame rfl
    | _ => simp [hs, Stage.isTimed] at htimed
  · exact hsame (still_runProbe (s := s) e r).aloof.dialogs
  · exact hsame (dialogs_tellProbeEnded e r)

/-! ## No time at all -/

/-- No request races with its probe, and the classifier has not been called. -/
structure Unasked (d : Desk σ) : Prop where
  racing : ∀ r, d.phase? r ≠ some (.racing .waiting)
  callers : d.callers = []

theorem Unasked.not_racing (h : Unasked d) (hq : d.requests[r]? = some q) (a : Signal) :
    q.stage ≠ .racing a := by
  intro hs
  apply h.racing r
  rw [phase?_of_request hq, hs]
  rfl

/-- Where no request races, a probe that is to call has been halted. -/
theorem Unasked.halting_of_ready {world : σ} {paths : List String}
    (h : Unasked ((opening world paths).after s ms)) (hl : s.limit.isSome = true)
    (hq : ((opening world paths).after s ms).requests[r]? = some q) {path : String}
    (hp : q.probe = .ready path) : q.halting = true := by
  have hd := (reachable_opening (s := s) world paths).after ms
  have hbacked := hd.backed.stages hq
  cases hs : q.stage with
  | created =>
    rw [hs] at hbacked
    have hidle : q.probe = .idle := hbacked
    rw [hp] at hidle
    cases hidle
  | calling c =>
    rw [hs] at hbacked
    rw [hbacked.1] at hl
    cases hl
  | racing a => exact absurd hs (h.not_racing hq a)
  | _ =>
    cases decided_after hl world paths ms hq (by rw [hs]; rfl) with
    | taking _ hfound _ _ =>
      rw [hp] at hfound
      cases hfound
    | without hshut _ =>
      obtain ⟨q', hq', -, hshut⟩ := hshut
      obtain rfl := Option.some.inj (hq.symm.trans hq')
      rwa [hp] at hshut

/-- A first run that leaves no time neither races nor calls. -/
theorem FirstRun.unasked (h : FirstRun s d r q e) (hl : s.limit = some limit)
    (hnone : limit ≤ 0.0) : e.callers = d.callers ∧ ∃ g : Outline → Outline,
      e.outlines = d.outlines.modify r g ∧ ∀ o, (g o).phase ≠ .racing .waiting := by
  cases h with
  | refused _ h => exact ⟨h.callers, _, h.outlines, by simp⟩
  | called hl' => rw [hl] at hl'; cases hl'
  | raced hl' hpos =>
    obtain rfl := Option.some.inj (hl.symm.trans hl')
    exact absurd hnone hpos
  | expired _ _ _ ho _ hc => exact ⟨hc, _, ho, by simp⟩

/-- With its turn a request does not begin to race when there is no time. -/
theorem not_racing_of_turn (hl : s.limit = some limit) (hnone : limit ≤ 0.0) {now : List Job}
    (hnow : d.agenda.now = .request r :: now) :
    (d.move s .step).phase? r ≠ some (.racing .waiting) := by
  intro hrace
  cases hphase : d.phase? r with
  | none =>
    have hnot : d.requests[r]? = none := by
      cases hq : d.requests[r]? with
      | none => rfl
      | some q => rw [phase?_of_request hq] at hphase; cases hphase
    rw [move_step_of_now hnow] at hrace
    simp only [run, runRequest, hnot] at hrace
    obtain ⟨q, hq, -⟩ := request_of_phase? hrace
    rw [hnot] at hq
    cases hq
  | some stage =>
    by_cases hs : stage = .created
    · have hnew : d.isNew r = true := by
        obtain ⟨q, hq, hq'⟩ := request_of_phase? hphase
        exact isNew_iff.mpr ⟨q, hq, Stage.phase_eq_created.mp (hq'.trans hs)⟩
      obtain ⟨q, hq, hrun⟩ := firstRun_of_new (s := s) hnow hnew
      obtain ⟨-, g, ho, hg⟩ := hrun.unasked hl hnone
      rw [phase?_of_modify hq ho] at hrace
      exact hg _ (Option.some.inj hrace)
    · rcases phase?_of_turn hnow hphase hs hrace with ⟨v, hv⟩ | ⟨late, hv⟩
      · cases hv
      · cases hv

/-- When there is no time, no job calls where every probe that is to call has been halted. -/
theorem callers_run (hl : s.limit = some limit) (hnone : limit ≤ 0.0) (j : Job)
    (hhalting : ∀ {r : Nat} {q : Request} {path : String}, d.requests[r]? = some q →
      q.probe = .ready path → q.halting = true) : (run s d j).callers = d.callers := by
  cases j with
  | request r =>
    cases hq : d.requests[r]? with
    | none => simp only [run, runRequest, hq]
    | some q =>
      by_cases hs : q.stage = .created
      · have hbegin : run s d (.request r) = beginRequest s d r q := by
          simp only [run, runRequest, hq, hs]
        rw [hbegin]
        exact ((firstRun_beginRequest hq).unasked hl hnone).1
      · obtain ⟨phase, -, ha⟩ := advances_runRequest (s := s) hq hs
        exact ha.callers
  | probe r =>
    cases hq : d.requests[r]? with
    | none => simp only [run, runProbe, hq]
    | some q =>
      cases probeRun_runProbe (s := s) hq with
      | called hp hh =>
        rw [hhalting hq hp] at hh
        cases hh
      | silent _ _ _ hcallers => exact hcallers
  | probeEnded r => exact (steady_tellProbeEnded d r).callers
  | requestEnded r => exact (outlines_tellRequestEnded d r).2.1
  | limit r => exact (steady_tellLimit d r).callers
  | errand k => exact (issuing_runErrand d k).callers

theorem Unasked.move {world : σ} {paths : List String}
    (h : Unasked ((opening world paths).after s ms)) (hl : s.limit = some limit)
    (hnone : limit ≤ 0.0) (m : Move σ) :
    Unasked (((opening world paths).after s ms).move s m) := by
  refine ⟨fun r hrace => ?_, ?_⟩
  · rcases phase?_before hrace (by simp) with hbefore | ⟨rfl, now, hnow⟩
    · exact h.racing r hbefore
    · exact not_racing_of_turn hl hnone hnow hrace
  · by_cases hm : m = .step
    · subst hm
      cases hnow : ((opening world paths).after s ms).agenda.now with
      | nil =>
        simp only [Desk.move, step, hnow]
        cases hpass : ((opening world paths).after s ms).nextPass with
        | none => exact h.callers
        | some e => exact (nextPass_outlines hpass).2.trans h.callers
      | cons j now =>
        rw [move_step_of_now hnow]
        have hlimit : s.limit.isSome = true := by rw [hl]; rfl
        refine (callers_run hl hnone j fun hq hp => ?_).trans h.callers
        exact h.halting_of_ready hlimit hq hp
    · exact (issuing_move _ hm).callers.trans h.callers

theorem unasked_after (hl : s.limit = some limit) (hnone : limit ≤ 0.0) (world : σ)
    (paths : List String) (ms : List (Move σ)) : Unasked ((opening world paths).after s ms) := by
  induction ms using List.reverseRecOn with
  | nil =>
    refine ⟨fun r hrace => ?_, rfl⟩
    cases hrace
  | append_singleton ms m ih =>
    rw [after_concat]
    exact ih.move hl hnone m

/-- The classifier is not called when there is no time. -/
theorem Unasked.not_called (h : Unasked d) (r : Nat) (path : String) :
    .classify r path ∉ d.log := by
  intro hlog
  have hcaller : (r, path) ∈ d.callers := List.mem_filterMap.mpr ⟨_, hlog, rfl⟩
  rw [h.callers] at hcaller
  cases hcaller

/-- **With no time every path is missing**, once all is settled and if no request is cancelled. -/
theorem missing_of_rest (hl : s.limit = some limit) (hnone : limit ≤ 0.0)
    (hhome : (Path.homeLocation? s.home).isSome = true) (world : σ) (paths : List String)
    (ms : List (Move σ)) (hrest : ((opening world paths).after s ms).step s = none)
    (hheld : ∀ r, .cancelRequest r ∉ ms) {i : Nat} {x : Dialog}
    (hx : ((opening world paths).after s ms).dialogs[i]? = some x) (ho : x.closed = false)
    (hp : x.path ≠ "") : x.classification = .settled .missing := by
  have hlimit : s.limit.isSome = true := by rw [hl]; rfl
  have hd := (reachable_opening (s := s) world paths).after ms
  obtain ⟨r, l, hline, rfl, -, -, hshown⟩ := (hd.booked.agrees hx).live ho hp
  obtain ⟨q, hq, rfl⟩ := request_of_issue hline
  have hrace := (unasked_after (s := s) hl hnone world paths ms).not_racing hq
  obtain ⟨q', v, hq', hv⟩ := over_of_rest hd hrest hlimit hq hrace
  obtain rfl := Option.some.inj (hq.symm.trans hq')
  have hcanonical := Path.canonical_ne_none hhome q.path
  have hkept : v ≠ .cancelled := by
    rintro rfl
    exact not_cancelled hq hx ho (hheld r) hv
  have hmissing : ∃ applied, v = .answered .missing applied := by
    rcases decided_of_verdict hlimit hq hcanonical hv with
      ⟨o, before, later, rfl, p, a, hp', hs, -⟩ | hlate | hcancelled
    · exact absurd hs ((unasked_after hl hnone world paths before).not_racing hp' a)
    · exact (missing_of_late hlimit hq hcanonical hv hlate).resolve_left hkept
    · exact absurd hcancelled hkept
  obtain ⟨applied, rfl⟩ := hmissing
  exact (hshown hv).2

/-! ## Ends -/

/-- On the run `ms` from `d`, request `r` has ended in one way, with `v`: with what its probe
brought before its time was over, as missing because its time was over first, or cancelled, which
only happens to a request that is given up. -/
structure EndsOneWay (s : Setting σ) (d : Desk σ) (ms : List (Move σ)) (r : Nat) (v : Verdict) :
    Prop where
  ways : (∃ o, Sometime s d ms (Brings r o)) ∨ Sometime s d ms (IsLate r) ∨ v = .cancelled
  apart : Sometime s d ms (IsLate r) → ∀ o, ¬ Sometime s d ms (Brings r o)
  brought : ∀ o, Sometime s d ms (Brings r o) → v.Gives (taken s.limit o)
  late : Sometime s d ms (IsLate r) → v = .cancelled ∨ ∃ applied, v = .answered .missing applied
  cancelled : v = .cancelled → GivenUp s d ms r

theorem endsOneWay_of_verdict (hl : s.limit.isSome = true) {world : σ} {paths : List String}
    (hq : ((opening world paths).after s ms).requests[r]? = some q)
    (hp : Path.canonical s.home q.path ≠ none) {v : Verdict} (hv : q.verdict? = some v) :
    EndsOneWay s (opening world paths) ms r v where
  ways := decided_of_verdict hl hq hp hv
  apart hlate _ := not_brings_and_late hl hlate
  brought _ h := gives_of_brings hl hq hv h
  late h := missing_of_late hl hq hp hv h
  cancelled hc := givenUp_of_cancelled hq (hc ▸ hv)

/-- The answer to a call of a request whose time is over, or that has ended, changes nothing. -/
theorem answer_too_late (hl : s.limit.isSome = true) {world : σ} {paths : List String}
    (h : IsLate r ((opening world paths).after s ms) ∨ Over ((opening world paths).after s ms) r)
    {c : Nat} {k : Call} (hk : ((opening world paths).after s ms).calls[c]? = some k)
    (hr : k.request = r) (o : Except Failure Classification) :
    ((opening world paths).after s ms).move s (.answer c o) =
      (opening world paths).after s ms := by
  rcases h with ⟨q, a, hq, hs⟩ | ⟨q, v, hq, hv⟩
  · exact answer_of_done hl hq (by rw [hs]; rfl) hk hr o
  · exact answer_of_done hl hq (by rw [stage_of_verdict hv]; rfl) hk hr o

/-- **How requests end that have a time limit.** At a desk at rest no request is under way whose
deadline, counted from its first run, is past. A request ends in one way, and is offered to its
dialog once at most; the answer to its call changes nothing once its time is over. The limit of a
request leaves alone what other dialogs show, and in its own one what is shown of another path and
the answer of a newer request. With no time at all the classifier is not called, and at rest every
path is missing. -/
theorem inspections_end_in_time (s : Setting σ) (hl : s.limit = some limit) (world : σ)
    (paths : List String) (ms : List (Move σ)) (d : Desk σ)
    (hd : d = (opening world paths).after s ms) :
    (d.step s = none → ∀ (before later : List (Move σ)) (r : Nat),
      ms = before ++ .step :: later → Starts ((opening world paths).after s before) r →
      ((opening world paths).after s before).clock + limit ≤ d.clock → Over d r) ∧
    (∀ (r : Nat) (q : Request) (v : Verdict), d.requests[r]? = some q → q.verdict? = some v →
      Path.canonical s.home q.path ≠ none → EndsOneWay s (opening world paths) ms r v) ∧
    (∀ r : Nat, offers s r (opening world paths) ms ≤ 1 ∧
      (IsLate r d ∨ Over d r → ∀ (c : Nat) (k : Call) (o : Except Failure Classification),
        d.calls[c]? = some k → k.request = r → d.move s (.answer c o) = d)) ∧
    (∀ (j : Job) (now : List Job) (r : Nat) (q : Request), d.agenda.now = j :: now → j.IsOf r →
      d.requests[r]? = some q → q.stage.isTimed = true → (∀ o, q.probe ≠ .found o) →
      ∀ i : Nat, i ≠ q.dialog ∨ Outdated d q → (d.move s .step).snapshot? i = d.snapshot? i) ∧
    (limit ≤ 0.0 → (∀ (r : Nat) (path : String), .classify r path ∉ d.log) ∧
      ((Path.homeLocation? s.home).isSome = true → d.step s = none →
        (∀ r, .cancelRequest r ∉ ms) → ∀ (i : Nat) (x : Dialog), d.dialogs[i]? = some x →
        x.closed = false → x.path ≠ "" → x.classification = .settled .missing)) := by
  have hlimit : s.limit.isSome = true := by rw [hl]; rfl
  subst hd
  refine ⟨?_, ?_, ?_, ?_, ?_⟩
  · rintro hrest before later r rfl hstarts hdue
    have hbefore := (reachable_opening (s := s) world paths).after before
    have htimed := (hstarts.timed hl).after (hbefore.move .step) later
    have hafter := after_append (s := s) (opening world paths) before (.step :: later)
    rw [hafter] at hrest hdue ⊢
    exact htimed.over ((hbefore.move .step).after later) hrest hlimit hdue
  · intro r q v hq hv hp
    exact endsOneWay_of_verdict hlimit hq hp hv
  · intro r
    exact ⟨offers_le_one s r _ ms, fun h c k o hk hr => answer_too_late hlimit h hk hr o⟩
  · intro j now r q hnow hj hq htimed hfound i h
    have hb := ((reachable_opening (s := s) world paths).after ms).booked
    exact congrArg (Option.map Dialog.snapshot) (dialog_of_timeout hb hnow hj hq htimed hfound h)
  · intro hnone
    refine ⟨(unasked_after hl hnone world paths ms).not_called, ?_⟩
    intro hhome hrest hheld i x hx ho hp
    exact missing_of_rest hl hnone hhome world paths ms hrest hheld hx ho hp

/-- Patient services under a time limit. -/
def limited (home : String) (limit : Float) : Setting Unit :=
  { patient home with limit := some limit }

/-- The same path is typed twice, five seconds apart, and five more seconds go by. The first request
is about to end then. -/
def samePathTwice : List (Move Unit) :=
  [.edit 0 (.setPath "/a"), .step, .step, .step, .step, .advance 5.0, .edit 0 (.setPath "/a"),
    .step, .step, .step, .step, .advance 5.0, .step, .step, .step, .step, .step, .step, .step,
    .step, .step]

/-- The first request has ended; the second one has five seconds left. -/
def firstEnded : Desk Unit :=
  (opening () [""]).after (limited "/root" 10.0) (samePathTwice ++ [.step, .step, .step])

/-- A path is typed when there is no time, and what follows is done. -/
def typedTooLate : Desk Unit :=
  (opening () [""]).after (limited "/root" 0.0)
    (.edit 0 (.setPath "/a") :: List.replicate 10 .step)

/-- The first of two requests is over after ten seconds; with no time the path is missing. -/
theorem inspections_end_in_time_twice :
    Over firstEnded 0 ∧ ∃ x : Dialog, typedTooLate.dialogs[0]? = some x ∧
      x.classification = .settled .missing := by
  constructor
  · have h := inspections_end_in_time (limited "/root" 10.0) rfl () [""]
      (samePathTwice ++ [.step, .step, .step]) firstEnded rfl
    refine h.1 (Option.isNone_iff_eq_none.mp (by decide +kernel)) [.edit 0 (.setPath "/a"), .step]
      _ 0 rfl ⟨⟨[], rfl⟩, rfl⟩ (by decide +kernel)
  · have h := inspections_end_in_time (limited "/root" 0.0) rfl () [""]
      (.edit 0 (.setPath "/a") :: List.replicate 10 .step) typedTooLate rfl
    have hdialog : typedTooLate.dialogs[0]?.map (fun x => (x.closed, x.path)) =
        some (false, "/a") := by decide +kernel
    obtain ⟨x, hx, hopen⟩ := Option.map_eq_some_iff.mp hdialog
    obtain ⟨hclosed, hpath⟩ := Prod.mk.inj hopen
    refine ⟨x, hx, (h.2.2.2.2 (by decide +kernel)).2 (by decide +kernel)
      (Option.isNone_iff_eq_none.mp (by decide +kernel)) (by simp) 0 x hx hclosed ?_⟩
    rw [hpath]
    decide

/-- A newer request of its dialog has been made than `q`. -/
def Superseded (d : Desk σ) (q : Request) : Prop :=
  ∃ (r : Nat) (newer : Request), d.requests[r]? = some newer ∧ newer.dialog = q.dialog ∧
    q.number < newer.number

/-- The time limit of a superseded request shows while the newer one, for the same path, is under
way. -/
theorem superseded_limit_shown :
    ¬ ∀ (ms : List (Move Unit)) (d : Desk Unit) (j : Job) (now : List Job) (r : Nat) (q : Request),
      d = (opening () [""]).after (limited "/root" 10.0) ms → d.agenda.now = j :: now → j.IsOf r →
      d.requests[r]? = some q → q.stage.isTimed = true → (∀ o, q.probe ≠ .found o) →
      Superseded d q →
      (d.move (limited "/root" 10.0) .step).snapshot? q.dialog = d.snapshot? q.dialog := by
  intro h
  obtain ⟨d, hd⟩ : ∃ d, d = (opening () [""]).after (limited "/root" 10.0) samePathTwice :=
    ⟨_, rfl⟩
  have hnow : d.agenda.now = [.request 0] := by rw [hd]; decide +kernel
  have hrequests : d.requests.map (fun q =>
      (q.dialog, q.number, q.stage.isTimed, q.probe matches .stopped)) =
      [(0, 1, true, true), (0, 2, true, false)] := by rw [hd]; decide +kernel
  obtain ⟨q, rest, hrest, hq, htail⟩ := List.map_eq_cons_iff.mp hrequests
  obtain ⟨newer, _, rfl, hnewer, -⟩ := List.map_eq_cons_iff.mp htail
  simp only [Prod.mk.injEq] at hq hnewer
  obtain ⟨hdialog, hnumber, htimed, hstopped⟩ := hq
  obtain ⟨hdialog', hnumber', -, -⟩ := hnewer
  have hfound : ∀ o, q.probe ≠ .found o := by
    intro o ho
    rw [ho] at hstopped
    cases hstopped
  have hsuperseded : Superseded d q :=
    ⟨1, newer, by rw [hrest]; rfl, hdialog'.trans hdialog.symm, by omega⟩
  have hsame := h samePathTwice d _ _ 0 q hd hnow (Or.inr (Or.inl rfl)) (by rw [hrest]; rfl)
    htimed hfound hsuperseded
  rw [hdialog, hd] at hsame
  exact absurd hsame (by decide +kernel)

end Desk
end Admission
