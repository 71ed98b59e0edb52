import Admission.Proofs.Desk.Posts
import Admission.Proofs.Desk.Turns

/-!
# Why requests are cancelled

On every run requests agree with their calls and with the line of jobs. A request that was cancelled
has therefore been cancelled by whoever holds it while it was outstanding, or its dialog is closed.
Whether a request ever ends is not said.
-/
namespace Admission
namespace Desk

variable {σ : Type} {s : Setting σ} {d e : Desk σ} {b b' : Nat → Prop} {r k : Nat}

/-- All requests agree with their calls and with the line; `b` says which have been given up. -/
def Orderly (s : Setting σ) (b : Nat → Prop) (d : Desk σ) : Prop := ∀ r, (d.post r).Sound s (b r)

theorem Orderly.mono (h : Orderly s b d) (hb : ∀ r, b r → b' r) : Orderly s b' d :=
  fun r => (h r).mono (hb r)

theorem Orderly.congr (h : Orderly s b d) (he : ∀ r, e.post r = d.post r) : Orderly s b e :=
  fun r => by
    rw [he r]
    exact h r

theorem Settles.orderly (h : Settles s (b r) r d e)
    (hd : ∀ r', r' ≠ r → (d.post r').Sound s (b r')) : Orderly s b e := by
  intro r'
  by_cases hr : r' = r
  · rw [hr]
    exact h.sound
  · rw [h.beside.others r' hr]
    exact hd r' hr

theorem Orderly.settles (h : Orderly s b d) (hs : Settles s (b r) r d e) : Orderly s b e :=
  hs.orderly fun r' _ => h r'

theorem Beside.dialogs (h : Beside r d e) (r' : Nat) :
    e.requests[r']?.map Request.dialog = d.requests[r']?.map Request.dialog := by
  by_cases hr : r' = r
  · rw [hr]
    exact h.dialog
  · have hpost := congrArg Post.request (h.others r' hr)
    exact congrArg (Option.map Request.dialog) hpost

theorem Alike.post (h : Alike d e) (r : Nat) : e.post r = d.post r := by
  simp only [Desk.post, h.requests, h.calls, h.agenda]

/-! ## Closing a dialog -/

/-- What holds with the dialog closed, and goes on to hold as its requests are cancelled. -/
theorem closeDialog_induction {P : Desk σ → Prop} {i : Nat} (h : P (d.onDialog i Dialog.close))
    (hcancel : ∀ (e : Desk σ) (r : Nat), P e → e.requests[r]?.map Request.dialog = some i →
      P (e.cancelRequest r).1) : P (d.closeDialog i) := by
  have hfold (l : List Nat) (e : Desk σ) (he : P e) : P (l.foldl (fun d r =>
      if d.requests[r]?.any (·.dialog == i) then (d.cancelRequest r).1 else d) e) := by
    induction l generalizing e with
    | nil => exact he
    | cons r l ih =>
      rw [List.foldl_cons]
      split
      · rename_i hr
        refine ih _ (hcancel e r he ?_)
        cases hq : e.requests[r]? with
        | none => simp [hq] at hr
        | some q => simpa [hq] using hr
      · exact ih e he
  exact hfold _ _ h

/-- The requests of a dialog that is closed are given up. -/
theorem orderly_closeDialog {i : Nat} (h : Orderly s b d)
    (hi : ∀ r, d.requests[r]?.map Request.dialog = some i → b r) :
    Orderly s b (d.closeDialog i) := by
  refine (closeDialog_induction (P := fun (e : Desk σ) => Orderly s b e ∧
    ∀ r : Nat, e.requests[r]?.map Request.dialog = d.requests[r]?.map Request.dialog)
    ⟨h.congr fun _ => rfl, fun _ => rfl⟩ ?_).1
  rintro e r ⟨he, hsame⟩ hr
  have hs := settles_cancelRequest (hi r (hsame r ▸ hr)) (he r)
  exact ⟨he.settles hs, fun r' => (hs.beside.dialogs r').trans (hsame r')⟩

/-- The requests of other dialogs go on as they were. -/
theorem post_closeDialog {i : Nat} (h : Orderly s b d)
    (hr : d.requests[r]?.map Request.dialog ≠ some i) : (d.closeDialog i).post r = d.post r := by
  have hsound : Orderly s (fun _ => True) d := h.mono fun _ _ => trivial
  refine (closeDialog_induction
    (P := fun (e : Desk σ) => Orderly s (fun _ => True) e ∧ e.post r = d.post r)
    ⟨hsound.congr fun _ => rfl, rfl⟩ ?_).2
  rintro e r' ⟨he, hsame⟩ hr'
  have hs := settles_cancelRequest (r := r') trivial (he r')
  have hne : r ≠ r' := by
    rintro rfl
    have hrequest : e.requests[r]? = d.requests[r]? := congrArg Post.request hsame
    exact hr (hrequest ▸ hr')
  exact ⟨he.settles hs, (hs.beside.others r hne).trans hsame⟩

/-! ## Moves -/

/-- A new request has neither a call nor a probe, and is in line once. -/
theorem orderly_ask (h : Orderly s b d) (i : Nat) (x : Dialog) (path : String) :
    Orderly s b (d.ask i x path).1 := by
  unfold ask
  split
  · intro r
    have hr := h r
    dsimp only
    rw [post_enqueue]
    rcases Nat.lt_trichotomy r d.requests.length with hlt | rfl | hlt
    · have hsame (q : Request) : (d.requests ++ [q])[r]? = d.requests[r]? :=
        List.getElem?_append_left hlt
      simpa [post, hsame, Nat.ne_of_gt hlt] using hr
    · simp only [Post.Sound, post, List.getElem?_eq_none (Nat.le_refl _)] at hr
      obtain ⟨hruns, hprobes, hstate⟩ := hr
      simp only [Post.Sound, post, List.getElem?_concat_length, hruns, hprobes]
      refine ⟨Nat.le_refl _, rfl, fun c hc => ?_, fun _ => ⟨rfl, rfl⟩, by simp⟩
      rw [hstate c] at hc
      cases hc
    · have hnone (q : Request) : (d.requests ++ [q])[r]? = none :=
        List.getElem?_eq_none (by simp; omega)
      have hnone' : d.requests[r]? = none := List.getElem?_eq_none (by omega)
      simpa [Post.Sound, post, hnone, hnone', Nat.ne_of_lt hlt] using hr
  · exact h

theorem orderly_edit (h : Orderly s b d) (i : Nat) (path : String) :
    Orderly s b (d.edit i path).1 := by
  unfold edit
  split
  · exact h
  · exact (orderly_ask h i _ path).congr fun _ => rfl

theorem orderly_amend (h : Orderly s b d) (i : Nat) (x : Edit) :
    Orderly s b (d.amend i x).1 := by
  unfold amend
  split
  · exact h
  · exact orderly_edit h i _

theorem post_foldl {α : Type} {f : Desk σ → α → Desk σ}
    (hf : ∀ (d : Desk σ) a r, (f d a).post r = d.post r) (l : List α) (d : Desk σ) (r : Nat) :
    (l.foldl f d).post r = d.post r := by
  induction l generalizing d with
  | nil => rfl
  | cons a l ih => exact (ih (f d a)).trans (hf d a r)

theorem post_onErrand_enqueue (d : Desk σ) (k : Nat) (f : Errand → Errand) (r : Nat) :
    ((d.onErrand k f).enqueue (.errand k)).post r = d.post r := by
  rw [post_enqueue]
  simp [post, onErrand]

/-- Of the requests, only the one that has ended learns of it. -/
theorem post_tellRequestEnded (d : Desk σ) (r r' : Nat) :
    (d.tellRequestEnded r).post r' =
      (d.onRequest r fun q => { q with tracked := false }).post r' := by
  refine post_foldl (fun d k r => ?_) _ _ r'
  split
  · split
    · exact post_onErrand_enqueue d k _ r
    · rfl
  · rfl

theorem orderly_tellRequestEnded (h : Orderly s b d) (r : Nat) :
    Orderly s b (d.tellRequestEnded r) := by
  have hmark : Orderly s b (d.onRequest r fun q => { q with tracked := false }) := by
    cases hq : d.requests[r]? with
    | none =>
      refine h.congr fun r' => ?_
      rw [post_onRequest]
      split
      · rename_i hr
        subst hr
        simp [post, hq]
      · rfl
    | some q =>
      have hfits := (sound_iff_fits hq).mp (h r)
      exact h.settles (settles_onRequest hq (fun _ => rfl)
        ⟨hfits.stage, hfits.probe, hfits.awaited, hfits.untimed, hfits.stopping⟩)
  exact hmark.congr (post_tellRequestEnded d r)

theorem post_openGate (d : Desk σ) (service : Gated) (gate r : Nat) :
    (d.openGate service gate).post r = d.post r := by
  refine post_foldl (fun d k r => ?_) _ _ r
  split
  · exact post_onErrand_enqueue d k _ r
  · rfl

theorem post_cancelErrand (d : Desk σ) (k r : Nat) : (d.cancelErrand k).1.post r = d.post r := by
  obtain h | ⟨x, p, -, -, h⟩ | h := cancelErrand_cases d k
  · rw [h]
  · rw [h]
    exact post_onErrand_enqueue d k _ r
  · rw [h]
    rfl

/-- The next pass takes over who is in line; limits that are due are no requests. -/
theorem post_nextPass (hnow : d.agenda.now = []) (h : d.nextPass = some e) (r : Nat) :
    e.post r = d.post r := by
  obtain rfl := nextPass_of_eq_some h
  have hlimits {j : Job} (hj : ∀ r, j ≠ .limit r) (l : List Timer) :
      (l.map fun t => Job.limit t.request).count j = 0 := by
    rw [List.count_eq_zero, List.mem_map]
    rintro ⟨t, -, ht⟩
    exact hj _ ht.symm
  simp [post, Agenda.jobs, hnow, List.count_append, hlimits]

/-- With a job that is taken from the line, a request or a probe is there once less. -/
theorem post_pop {j : Job} {rest : List Job} (h : d.agenda.now = j :: rest) (r : Nat) :
    d.post r = { ({ d with agenda := { d.agenda with now := rest } } : Desk σ).post r with
      runs := (({ d with agenda := { d.agenda with now := rest } } : Desk σ).post r).runs +
        if j = .request r then 1 else 0
      probeRuns :=
        (({ d with agenda := { d.agenda with now := rest } } : Desk σ).post r).probeRuns +
          if j = .probe r then 1 else 0 } := by
  simp only [post, Agenda.jobs, h, List.cons_append, List.count_cons, beq_iff_eq]

section Pop

variable {j : Job} {rest : List Job}

/-- A job that is taken from the line leaves a request as it is, unless it is its own. -/
theorem Orderly.sound_other (h : Orderly s b d) (hnow : d.agenda.now = j :: rest)
    (he : e = { d with agenda := { d.agenda with now := rest } }) (hr : j ≠ .request r)
    (hp : j ≠ .probe r) : (e.post r).Sound s (b r) := by
  have hsound := h r
  rw [post_pop hnow r, ← he] at hsound
  simpa [hr, hp] using hsound

/-- A request that is taken from the line was there. -/
theorem Orderly.sound_request (h : Orderly s b d) (hnow : d.agenda.now = .request r :: rest)
    (he : e = { d with agenda := { d.agenda with now := rest } }) :
    ({ e.post r with runs := (e.post r).runs + 1 } : Post).Sound s (b r) := by
  have hsound := h r
  rw [post_pop hnow r, ← he] at hsound
  simpa using hsound

/-- A probe that is taken from the line was there. -/
theorem Orderly.sound_probe (h : Orderly s b d) (hnow : d.agenda.now = .probe r :: rest)
    (he : e = { d with agenda := { d.agenda with now := rest } }) :
    ({ e.post r with probeRuns := (e.post r).probeRuns + 1 } : Post).Sound s (b r) := by
  have hsound := h r
  rw [post_pop hnow r, ← he] at hsound
  simpa using hsound

theorem Orderly.pop (h : Orderly s b d) (hnow : d.agenda.now = j :: rest)
    (hj : ∀ r, j ≠ .request r ∧ j ≠ .probe r) :
    Orderly s b { d with agenda := { d.agenda with now := rest } } :=
  fun r => h.sound_other hnow rfl (hj r).1 (hj r).2

end Pop

theorem orderly_step (h : Orderly s b d) (hj : ∀ k rest, d.agenda.now ≠ .errand k :: rest) :
    Orderly s b (d.move s .step) := by
  cases hnow : d.agenda.now with
  | nil =>
    simp only [move, step, hnow]
    cases hnext : d.nextPass with
    | none => exact h
    | some e => exact h.congr (post_nextPass hnow hnext)
  | cons j rest =>
    have hmove : d.move s .step = run s { d with agenda := { d.agenda with now := rest } } j := by
      simp only [move, step, hnow, Option.getD_some]
    have hpopped := h.pop hnow
    rw [hmove]
    cases j with
    | request r =>
      exact (settles_runRequest (h.sound_request hnow rfl)).orderly fun r' hr =>
        h.sound_other hnow rfl (by simp [Ne.symm hr]) (by simp)
    | probe r =>
      exact (settles_runProbe (h.sound_probe hnow rfl)).orderly fun r' hr =>
        h.sound_other hnow rfl (by simp) (by simp [Ne.symm hr])
    | probeEnded r =>
      have he := hpopped fun r' => by simp
      exact he.settles (settles_tellProbeEnded (he r))
    | requestEnded r => exact orderly_tellRequestEnded (hpopped fun r' => by simp) r
    | limit r =>
      have he := hpopped fun r' => by simp
      exact he.settles (settles_tellLimit (he r))
    | errand k => exact absurd hnow (hj k rest)

/-! ## Errands and moves -/

theorem closed_modify_close {l : List Dialog} {i : Nat} {x : Dialog} (hx : l[i]? = some x) :
    ∃ y, (l.modify i Dialog.close)[i]? = some y ∧ y.closed = true :=
  ⟨x.close, getElem?_modify_eq_some_iff.mpr ⟨x, hx, by simp⟩, rfl⟩

/-- The dialog that was shown is closed when another one has been opened. -/
theorem closed_opened (s : Setting σ) {i : Nat} {x : Dialog} (hi : d.current = some i)
    (hx : d.dialogs[i]? = some x) (path : String) (edit : Edit) :
    ∃ y, ((d.closeCurrent.seat path).1.amend d.dialogs.length edit).1.dialogs[i]? = some y ∧
      y.closed = true := by
  have hclose : ∃ y, (d.closeCurrent.seat path).1.dialogs[i]? = some y ∧ y.closed = true := by
    obtain ⟨y, hy, hc⟩ := closed_modify_close hx
    refine ⟨y, getElem?_concat_eq_some_iff.mpr (Or.inl ?_), hc⟩
    simpa only [dialogs_closeCurrent s, hi] using hy
  obtain ⟨y, hy, hc⟩ := hclose
  rcases backstage_amend (d.closeCurrent.seat path).1 d.dialogs.length edit with h | ⟨path', h⟩
  · rw [h]
    exact ⟨y, hy, hc⟩
  · rw [h.dialogs]
    refine ⟨_, getElem?_modify_eq_some_iff.mpr ⟨y, hy, rfl⟩, ?_⟩
    split
    · rw [Dialog.closed_edit, hc]
    · exact hc

theorem orderly_closeCurrent (h : Orderly s b d)
    (hi : ∀ i r, d.current = some i → d.requests[r]?.map Request.dialog = some i → b r) :
    Orderly s b d.closeCurrent := by
  unfold closeCurrent
  split
  · rename_i i hc
    exact orderly_closeDialog h fun r => hi i r hc
  · exact h

/-- The requests of a dialog that gets closed are those of a dialog that is there. -/
theorem Booked.givenUp (hb : Booked d) {l : List Dialog} (hclosed : ∀ i r y,
      d.requests[r]?.map Request.dialog = some i → l[i]? = some y → y.closed = true → b r)
    {i : Nat} (hi : ∀ x, d.dialogs[i]? = some x → ∃ y, l[i]? = some y ∧ y.closed = true) (r : Nat)
    (hr : d.requests[r]?.map Request.dialog = some i) : b r := by
  obtain ⟨q, hq, rfl⟩ := Option.map_eq_some_iff.mp hr
  have hlt : q.dialog < d.dialogs.length := hb.homed (issue_of_request hq)
  obtain ⟨y, hy, hc⟩ := hi _ (List.getElem?_eq_getElem hlt)
  exact hclosed q.dialog r y hr hy hc

/-- What an errand does to requests: those of a dialog that it closes have been given up then. -/
theorem orderly_deed (s : Setting σ) (h : Orderly s b d) (hd : Deed d k e) (hb : Booked d)
    (hclosed : ∀ i r y, d.requests[r]?.map Request.dialog = some i → e.dialogs[i]? = some y →
      y.closed = true → b r) : Orderly s b e := by
  have hanswered {m e : Desk σ} {i : Nat} (h : Orderly s b m) (ha : StoreAnswered k i m e) :
      Orderly s b e := by
    cases ha with
    | refused hl => exact h.congr fun r => hl.post r
    | granted _ hl => exact (orderly_ask h i _ _).congr fun r => hl.post r
  have hsubmitted {m : Desk σ} {i : Nat} (hm : Alike d m)
      (hdialogs : e.dialogs = d.dialogs.modify i Dialog.close) : Orderly s b (m.closeDialog i) := by
    refine orderly_closeDialog (h.congr hm.post) fun r hr =>
      hb.givenUp hclosed (fun x hx => ?_) r (hm.requests ▸ hr)
    rw [hdialogs]
    exact closed_modify_close hx
  cases hd with
  | plain _ hl => exact h.congr fun r => hl.post r
  | edited _ hl => exact (orderly_edit h _ _).congr fun r => hl.post r
  | @opened e path _ hl =>
    have hclose : Orderly s b d.closeCurrent := by
      refine orderly_closeCurrent h fun i r hi => hb.givenUp hclosed (fun x hx => ?_) r
      rw [hl.dialogs]
      exact closed_opened s hi hx path .openInitial
    have hseat : Orderly s b (d.closeCurrent.seat path).1 := hclose.congr fun _ => rfl
    exact (orderly_amend hseat _ _).congr fun r => hl.post r
  | dismissed _ hl =>
    have hclose : Orderly s b d.closeCurrent := by
      refine orderly_closeCurrent h fun i r hi => hb.givenUp hclosed (fun x hx => ?_) r
      have hdialogs : e.dialogs = d.closeCurrent.dialogs := hl.dialogs
      rw [hdialogs, dialogs_closeCurrent s, hi]
      exact closed_modify_close hx
    exact hclose.congr fun r => hl.post r
  | @registered m e i _ hm hl =>
    have hclose := hsubmitted hm (hl.dialogs.trans (hm.dialogs_closeDialog s i))
    exact hclose.congr fun r => hl.post r
  | @putAway m e i _ hm _ _ hl =>
    have hclose := hsubmitted hm (hl.dialogs.trans (hm.dialogs_closeDialog s i))
    exact hclose.congr fun r => hl.post r
  | storeCalled _ _ hl => exact h.congr fun r => hl.post r
  | storeAnswered _ hm ha => exact hanswered (h.congr hm.post) ha
  | answeredAtOnce _ hm ha => exact hanswered (h.congr hm.post) ha

theorem Runs.post {m : Move σ} (h : Runs d m k e) (r : Nat) : e.post r = d.post r := by
  cases h with
  | inLine h =>
    rw [post_pop h r]
    simp
  | atOnce op => rfl

theorem Runs.requests {m : Move σ} (h : Runs d m k e) : e.requests = d.requests := by
  cases h <;> rfl

/-- A request that has ended is not cancelled. -/
theorem cancelRequest_of_ended {q : Request} {v : Verdict} (hq : d.requests[r]? = some q)
    (hv : q.verdict? = some v) : (d.cancelRequest r).1 = d := by
  simp [cancelRequest, hq, stage_of_verdict hv]

/-- A move gives up a request that it cancels, and those of a dialog that it closes. -/
theorem orderly_move (h : Orderly s b d) (hb : Booked d) (m : Move σ)
    (hcancel : ∀ r q, m = .cancelRequest r → d.requests[r]? = some q → q.verdict? = none → b r)
    (hclosed : ∀ i r y, d.requests[r]?.map Request.dialog = some i →
      (d.move s m).dialogs[i]? = some y → y.closed = true → b r) : Orderly s b (d.move s m) := by
  have hruns {k : Nat} {e : Desk σ} (hr : Runs d m k e) : Orderly s b (d.move s m) := by
    have hbooked : Booked e :=
      hb.congr hr.found.dialogs (by rw [issues, hr.requests, issues])
    rw [hr.move] at hclosed ⊢
    exact orderly_deed s (h.congr hr.post) (runErrand_deed e k) hbooked (hr.requests ▸ hclosed)
  cases m with
  | step =>
    by_cases hj : ∃ k rest, d.agenda.now = .errand k :: rest
    · obtain ⟨k, rest, hnow⟩ := hj
      exact hruns (.inLine hnow)
    · exact orderly_step h fun k rest hnow => hj ⟨k, rest, hnow⟩
  | edit i x => exact orderly_amend h i x
  | spawn op =>
    refine h.congr fun r => ?_
    simp only [move, spawn, post_enqueue, reduceCtorEq, if_false, Nat.add_zero]
    rfl
  | perform op => exact hruns (.atOnce op)
  | close i =>
    refine orderly_closeDialog h (hb.givenUp hclosed fun x hx => ?_)
    simp only [move, dialogs_closeDialog s]
    exact closed_modify_close hx
  | dismiss =>
    have hclose : Orderly s b d.closeCurrent := by
      refine orderly_closeCurrent h fun i r hi => hb.givenUp hclosed (fun x hx => ?_) r
      simp only [move, dismiss, dialogs_closeCurrent s, hi]
      exact closed_modify_close hx
    exact hclose.congr fun _ => rfl
  | answer c o =>
    cases hc : d.calls[c]? with
    | none => simpa only [move, answer, hc] using h
    | some call =>
      obtain ⟨r, path, a⟩ := call
      cases a with
      | waiting => exact h.settles (settles_answer hc (h r) o)
      | answered x => simpa only [move, answer, hc] using h
      | withdrawn => simpa only [move, answer, hc] using h
  | openGate service gate => exact h.congr (post_openGate d service gate)
  | cancelRequest r =>
    cases hq : d.requests[r]? with
    | none => simpa only [move, cancelRequest, hq, Option.map_none] using h
    | some q =>
      cases hv : q.verdict? with
      | none => exact h.settles (settles_cancelRequest (hcancel r q rfl hq hv) (h r))
      | some v => simpa only [move, cancelRequest_of_ended hq hv] using h
  | cancelErrand k => exact h.congr (post_cancelErrand d k)
  | advance seconds => exact h.congr fun _ => rfl
  | alter f => exact h.congr fun _ => rfl

/-! ## Runs -/

/-- A dialog that is closed stays so. -/
theorem closed_move {i : Nat} {x : Dialog} (hx : d.dialogs[i]? = some x) (hc : x.closed = true)
    (m : Move σ) : ∃ y, (d.move s m).dialogs[i]? = some y ∧ y.closed = true := by
  obtain ⟨y, hy, -⟩ := dialogsGrown_move (s := s) d m hx
  refine ⟨y, hy, ?_⟩
  rcases answered_or_turned (s := s) d m with ⟨r, q, c, applied, ha⟩ | hturned
  · rw [ha.offered.1] at hy
    obtain ⟨x', hx', rfl⟩ := getElem?_modify_eq_some_iff.mp hy
    obtain rfl := Option.some.inj (hx.symm.trans hx')
    split
    · rw [Dialog.closed_offer, hc]
    · exact hc
  · obtain ⟨x', hx' | ⟨hx', -⟩, hturn⟩ := hturned hy
    · obtain rfl := Option.some.inj (hx.symm.trans hx')
      exact hturn.closed hc
    · rw [hx] at hx'
      cases hx'

theorem closed_after {i : Nat} {x : Dialog} (hx : d.dialogs[i]? = some x) (hc : x.closed = true)
    (ms : List (Move σ)) : ∃ y, (d.after s ms).dialogs[i]? = some y ∧ y.closed = true := by
  induction ms generalizing d x with
  | nil => exact ⟨x, hx, hc⟩
  | cons m ms ih =>
    obtain ⟨y, hy, hc⟩ := closed_move (s := s) hx hc m
    exact ih hy hc

/-- In the run `ms` from `d`, request `r` was cancelled by whoever holds it while it was
outstanding. -/
def CancelledByHolder (s : Setting σ) (d : Desk σ) (ms : List (Move σ)) (r : Nat) : Prop :=
  ∃ (before later : List (Move σ)) (q : Request), ms = before ++ .cancelRequest r :: later ∧
    (d.after s before).requests[r]? = some q ∧ q.verdict? = none

/-- In the run `ms` from `d`, request `r` was cancelled by whoever holds it, or its dialog was
closed. -/
def GivenUp (s : Setting σ) (d : Desk σ) (ms : List (Move σ)) (r : Nat) : Prop :=
  CancelledByHolder s d ms r ∨ ∃ (q : Request) (x : Dialog), (d.after s ms).requests[r]? = some q ∧
    (d.after s ms).dialogs[q.dialog]? = some x ∧ x.closed = true

theorem GivenUp.concat {ms : List (Move σ)} (h : GivenUp s d ms r) (m : Move σ) :
    GivenUp s d (ms ++ [m]) r := by
  rcases h with ⟨before, later, q, rfl, hq⟩ | ⟨q, x, hq, hx, hc⟩
  · exact Or.inl ⟨before, later ++ [m], q, by simp, hq⟩
  · obtain ⟨q', hq', hdialog, -⟩ := request_kept (linesKept_move (s := s) (d.after s ms) m) hq
    obtain ⟨y, hy, hc'⟩ := closed_move (s := s) hx hc m
    rw [← after_concat] at hq' hy
    exact Or.inr ⟨q', y, hq', hdialog ▸ hy, hc'⟩

theorem orderly_opening (s : Setting σ) (b : Nat → Prop) (world : σ) (paths : List String) :
    Orderly s b (opening world paths) := fun _ => ⟨rfl, rfl, fun _ => rfl⟩

/-- On every run requests agree with their calls and with the line, and what has been given up was
given up by whoever holds it, or with its dialog. -/
theorem orderly_after (s : Setting σ) (world : σ) (paths : List String) (ms : List (Move σ)) :
    Orderly s (GivenUp s (opening world paths) ms) ((opening world paths).after s ms) := by
  induction ms using List.reverseRecOn with
  | nil => exact orderly_opening s _ world paths
  | append_singleton ms m ih =>
    have hb := ((reachable_opening (s := s) world paths).after ms).booked
    rw [after_concat]
    refine orderly_move (ih.mono fun r hr => hr.concat m) hb m (fun r q hm hq hv => ?_)
      fun i r y hr hy hc => ?_
    · exact Or.inl ⟨ms, [], q, by rw [hm], hq, hv⟩
    · obtain ⟨q, hq, rfl⟩ := Option.map_eq_some_iff.mp hr
      obtain ⟨q', hq', hdialog, -⟩ := request_kept (linesKept_move (s := s) _ m) hq
      rw [← after_concat] at hq' hy
      exact Or.inr ⟨q', y, hq', hdialog ▸ hy, hc⟩

section

variable {world : σ} {paths : List String} {ms : List (Move σ)} {q : Request}

/-- A request is cancelled only if it has been given up. -/
theorem givenUp_of_cancelled (hq : ((opening world paths).after s ms).requests[r]? = some q)
    (hv : q.verdict? = some .cancelled) : GivenUp s (opening world paths) ms r := by
  have hplaced := ((sound_iff_fits hq).mp (orderly_after s world paths ms r)).stage
  simp only [Request.Placed, stage_of_verdict hv] at hplaced
  exact hplaced

/-- A request of an open dialog is not cancelled unless whoever holds it does so. -/
theorem not_cancelled (hq : ((opening world paths).after s ms).requests[r]? = some q)
    {x : Dialog} (hx : ((opening world paths).after s ms).dialogs[q.dialog]? = some x)
    (hopen : x.closed = false) (hheld : .cancelRequest r ∉ ms) :
    q.verdict? ≠ some .cancelled := by
  intro hv
  rcases givenUp_of_cancelled hq hv with ⟨before, later, -, rfl, -⟩ | ⟨q', y, hq', hy, hc⟩
  · exact hheld (List.mem_append_right _ List.mem_cons_self)
  · obtain rfl := Option.some.inj (hq.symm.trans hq')
    obtain rfl := Option.some.inj (hx.symm.trans hy)
    rw [hopen] at hc
    cases hc

end

theorem Reachable.orderly (h : Reachable s d) : Orderly s (fun _ => True) d := by
  obtain ⟨world, paths, ms, rfl⟩ := h
  exact (orderly_after s world paths ms).mono fun _ _ => trivial

end Desk
end Admission
