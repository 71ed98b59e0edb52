import Admission.Proofs.Desk.Reviews
import Admission.Proofs.Desk.Wakeful
import Mathlib.Data.List.Sort

/-!
# The order of the calls

Requests call the classifier in the order in which they were issued, each of them once: requests
that have called come before those whose probe is in line, and these before those that are new. A
request that is on its way has called, or is to call with the next turn of its probe. This is kept
by all work that begins nothing; which work that is, and what keeps it else, is said elsewhere.
-/
namespace Admission

/-- The request that a job goes on with. -/
def Job.asRequest? : Job → Option Nat
  | .request r => some r
  | _ => none

/-- The request whose probe a job goes on with. -/
def Job.asProbe? : Job → Option Nat
  | .probe r => some r
  | _ => none

/-- Time goes on for a request: neither is it begun, nor is its probe. -/
structure Outline.Kept (o o' : Outline) : Prop where
  path : o'.path = o.path
  isNew : o'.phase.isNew = o.phase.isNew
  ready : ∀ path, o'.probe = .ready path ↔ o.probe = .ready path
  racing : o.probe.isReady = true → o'.phase = o.phase
  ended : ∀ v, o.phase = .ended v → o'.phase = .ended v

theorem Outline.Kept.refl (o : Outline) : o.Kept o :=
  ⟨rfl, rfl, fun _ => Iff.rfl, fun _ => rfl, fun _ => id⟩

theorem Stage.isNew_iff {a : Stage} : a.isNew = true ↔ a = .created := by
  cases a <;> simp [Stage.isNew]

theorem Stage.phase_eq_created {a : Stage} : a.phase = .created ↔ a = .created := by
  cases a <;> simp [Stage.phase]

/-- The phase of a request shows its verdict. -/
theorem Request.phase_eq_ended {q : Request} {v : Verdict} :
    q.outline.phase = .ended v ↔ q.verdict? = some v := by
  unfold Request.outline Request.verdict?
  cases q.stage <;> simp [Stage.phase]

theorem Probe.isReady_iff {p : Probe} : p.isReady = true ↔ ∃ path, p = .ready path := by
  cases p <;> simp [Probe.isReady]

/-- Stages that a run leads to are not new, and an end is kept. -/
theorem Stage.LeadsTo.spec {a b : Stage} (h : a.LeadsTo b) :
    b.isNew = false ∧ ∀ v, a.phase = .ended v → b = .ended v := by
  cases a with
  | created => exact h.elim
  | calling c =>
    obtain ⟨v, rfl⟩ := h
    exact ⟨rfl, by simp [Stage.phase]⟩
  | racing a =>
    obtain ⟨v, rfl⟩ | ⟨late, rfl⟩ := h
    · exact ⟨rfl, by simp [Stage.phase]⟩
    · exact ⟨rfl, by simp [Stage.phase]⟩
  | withdrawing late a =>
    obtain ⟨v, rfl⟩ := h
    exact ⟨rfl, by simp [Stage.phase]⟩
  | ended v =>
    obtain rfl : b = .ended v := h
    exact ⟨rfl, fun _ => id⟩

/-! ## Lists -/

theorem filter_sublist_filter_of_imp {α : Type} {p q : α → Bool} {l : List α}
    (h : ∀ a ∈ l, p a = true → q a = true) : (l.filter p).Sublist (l.filter q) := by
  have hboth : l.filter p = (l.filter q).filter p := by
    rw [List.filter_filter]
    refine List.filter_congr fun a ha => ?_
    cases hp : p a with
    | false => rfl
    | true => rw [h a ha hp]; rfl
  rw [hboth]
  exact List.filter_sublist

/-- Copies of what stands between two parts of an ordered list keep it in order. -/
theorem pairwise_copies {a copies b : List Nat} {r : Nat} (h : (a ++ r :: b).Pairwise (· ≤ ·))
    (hr : ∀ x ∈ copies, x = r) : (a ++ copies ++ b).Pairwise (· ≤ ·) := by
  have hcopies : copies = List.replicate copies.length r := List.eq_replicate_of_mem hr
  rw [List.append_assoc]
  obtain ⟨ha, hb, hab⟩ := List.pairwise_append.mp h
  obtain ⟨hrb, hb⟩ := List.pairwise_cons.mp hb
  refine List.pairwise_append.mpr ⟨ha, List.pairwise_append.mpr ⟨?_, hb, fun x hx => ?_⟩,
    fun x hx y hy => ?_⟩
  · rw [hcopies]
    exact List.pairwise_replicate.mpr (Or.inr (Nat.le_refl r))
  · rw [hr x hx]
    exact hrb
  · rcases List.mem_append.mp hy with hy | hy
    · rw [hr y hy]
      exact hab x hx r List.mem_cons_self
    · exact hab x hx y (List.mem_cons_of_mem r hy)

/-- What is behind a list and not in what follows is in the list. -/
theorem sublist_of_sublist_append {α : Type} {a b : α} {l more : List α} (hb : b ∉ more)
    (h : [a, b].Sublist (l ++ more)) : [a, b].Sublist l := by
  obtain ⟨l₁, l₂, he, h₁, h₂⟩ := List.sublist_append_iff.mp h
  have hl₂ : l₂ = [] := by
    rcases List.eq_nil_or_concat l₂ with hnil | ⟨l', x, rfl⟩
    · exact hnil
    · have hx : x = b := by
        have hlast := congrArg List.getLast? he
        simpa using hlast.symm
      exact absurd (h₂.subset (by simp [hx])) hb
  rw [he, hl₂, List.append_nil]
  exact h₁

namespace Desk

variable {σ : Type} {s : Setting σ} {d e : Desk σ} {r : Nat} {l pre rest more : List Job}

/-- Request `r` has not had its first run. -/
def isNew (d : Desk σ) (r : Nat) : Bool := d.outlines[r]?.any (·.phase.isNew)

/-- The probe of request `r` has not had its first run. -/
def isReady (d : Desk σ) (r : Nat) : Bool := d.outlines[r]?.any (·.probe.isReady)

/-- The new requests of a line. -/
def newIn (d : Desk σ) (l : List Job) : List Nat := (l.filterMap Job.asRequest?).filter d.isNew

/-- The requests whose probes are in a line and have not had their first run. -/
def readyIn (d : Desk σ) (l : List Job) : List Nat := (l.filterMap Job.asProbe?).filter d.isReady

theorem mem_newIn : r ∈ d.newIn l ↔ .request r ∈ l ∧ d.isNew r = true := by
  have hmem : r ∈ l.filterMap Job.asRequest? ↔ .request r ∈ l := by
    rw [List.mem_filterMap]
    constructor
    · rintro ⟨j, hj, he⟩
      cases j with
      | request r' => rwa [← Option.some.inj he]
      | _ => cases he
    · exact fun hj => ⟨_, hj, rfl⟩
  rw [newIn, List.mem_filter, hmem]

theorem mem_readyIn : r ∈ d.readyIn l ↔ .probe r ∈ l ∧ d.isReady r = true := by
  have hmem : r ∈ l.filterMap Job.asProbe? ↔ .probe r ∈ l := by
    rw [List.mem_filterMap]
    constructor
    · rintro ⟨j, hj, he⟩
      cases j with
      | probe r' => rwa [← Option.some.inj he]
      | _ => cases he
    · exact fun hj => ⟨_, hj, rfl⟩
  rw [readyIn, List.mem_filter, hmem]

theorem newIn_append (d : Desk σ) (l l' : List Job) :
    d.newIn (l ++ l') = d.newIn l ++ d.newIn l' := by
  simp only [newIn, List.filterMap_append, List.filter_append]

theorem readyIn_append (d : Desk σ) (l l' : List Job) :
    d.readyIn (l ++ l') = d.readyIn l ++ d.readyIn l' := by
  simp only [readyIn, List.filterMap_append, List.filter_append]

theorem newIn_sublist (h : ∀ r, .request r ∈ l → e.isNew r = true → d.isNew r = true) :
    (e.newIn l).Sublist (d.newIn l) := by
  refine filter_sublist_filter_of_imp fun r hr => h r ?_
  obtain ⟨j, hj, he⟩ := List.mem_filterMap.mp hr
  cases j with
  | request r' => rwa [← Option.some.inj he]
  | _ => cases he

theorem readyIn_sublist (h : ∀ r, .probe r ∈ l → e.isReady r = true → d.isReady r = true) :
    (e.readyIn l).Sublist (d.readyIn l) := by
  refine filter_sublist_filter_of_imp fun r hr => h r ?_
  obtain ⟨j, hj, he⟩ := List.mem_filterMap.mp hr
  cases j with
  | probe r' => rwa [← Option.some.inj he]
  | _ => cases he

theorem outlines_getElem? (d : Desk σ) (r : Nat) :
    d.outlines[r]? = d.requests[r]?.map Request.outline := by
  rw [outlines, List.getElem?_map]

theorem outline_of_request {q : Request} (hq : d.requests[r]? = some q) :
    d.outlines[r]? = some q.outline := by
  rw [outlines_getElem?, hq, Option.map_some]

theorem outline_of_modify {q : Request} {g : Outline → Outline} (hq : d.requests[r]? = some q)
    (ho : e.outlines = d.outlines.modify r g) : e.outlines[r]? = some (g q.outline) := by
  simp [ho, outline_of_request hq]

theorem isNew_iff : d.isNew r = true ↔ ∃ q, d.requests[r]? = some q ∧ q.stage = .created := by
  rw [isNew, outlines_getElem?]
  cases d.requests[r]? with
  | none => simp
  | some q => simp [Request.outline, Stage.isNew_iff, Stage.phase_eq_created]

theorem isReady_iff :
    d.isReady r = true ↔ ∃ q path, d.requests[r]? = some q ∧ q.probe = .ready path := by
  rw [isReady, outlines_getElem?]
  cases d.requests[r]? with
  | none => simp
  | some q => simp [Request.outline, Probe.isReady_iff]

theorem isNew_eq {o : Outline} (ho : d.outlines[r]? = some o) : d.isNew r = o.phase.isNew := by
  rw [isNew, ho, Option.any_some]

theorem isReady_eq {o : Outline} (ho : d.outlines[r]? = some o) :
    d.isReady r = o.probe.isReady := by
  rw [isReady, ho, Option.any_some]

theorem isNew_lt (h : d.isNew r = true) : r < d.outlines.length := by
  obtain ⟨q, hq, -⟩ := isNew_iff.mp h
  rw [outlines, List.length_map]
  exact (List.getElem?_eq_some_iff.mp hq).1

theorem isReady_lt (h : d.isReady r = true) : r < d.outlines.length := by
  obtain ⟨q, -, hq, -⟩ := isReady_iff.mp h
  rw [outlines, List.length_map]
  exact (List.getElem?_eq_some_iff.mp hq).1

/-! ## Turns in line -/

theorem jobs_of_now {j : Job} {now : List Job} (hnow : d.agenda.now = j :: now) :
    d.agenda.jobs = j :: (now ++ d.agenda.next) := by
  rw [Agenda.jobs, hnow, List.cons_append]

/-- A new request is in line once. -/
theorem Reachable.runs_of_new (hd : Reachable s d) (h : d.isNew r = true) :
    d.agenda.jobs.count (.request r) = 1 := by
  obtain ⟨q, hq, hs⟩ := isNew_iff.mp h
  have hwakes := hd.wakeful r q hq
  have hstage := ((sound_iff_fits hq).mp (hd.orderly r)).stage
  simp only [Request.Wakes, hs] at hwakes
  simp only [Request.Placed, hs] at hstage
  exact Nat.le_antisymm hstage hwakes.1

/-- A probe that has not had its first run is in line once at most. -/
theorem Reachable.probeRuns_le (hd : Reachable s d) (h : d.isReady r = true) :
    d.agenda.jobs.count (.probe r) ≤ 1 := by
  obtain ⟨q, path, hq, hp⟩ := isReady_iff.mp h
  have hprobe := ((sound_iff_fits hq).mp (hd.orderly r)).probe
  rwa [hp] at hprobe

/-- A new request has no probe in line. -/
theorem Reachable.no_probe_of_new (hd : Reachable s d) (h : d.isNew r = true) :
    .probe r ∉ d.agenda.jobs ∧ d.isReady r = false := by
  obtain ⟨q, hq, hs⟩ := isNew_iff.mp h
  have hfits := (sound_iff_fits hq).mp (hd.orderly r)
  have hidle := (hfits.untimed (Or.inl hs)).1
  have hprobe := hfits.probe
  rw [hidle] at hprobe
  refine ⟨List.count_eq_zero.mp hprobe, ?_⟩
  rw [isReady, outlines_getElem?, hq]
  simp [Request.outline, hidle, Probe.isReady]

/-- Requests and their probes are called for in order. -/
structure InTurn (s : Setting σ) (d : Desk σ) : Prop where
  order : (d.callers.map Prod.fst ++ d.readyIn d.agenda.jobs ++
    d.newIn d.agenda.jobs).Pairwise (· ≤ ·)
  once : (d.callers.map Prod.fst).Nodup
  /-- A request that has called is on its way, and called for its canonical path. -/
  called : ∀ {r : Nat} {path : String}, (r, path) ∈ d.callers → ∃ o, d.outlines[r]? = some o ∧
    Path.canonical s.home o.path = some path ∧ o.phase.isNew = false ∧ o.probe.isReady = false
  /-- A probe that is to call has its turn before its request does. -/
  ready : ∀ {r : Nat} {o : Outline} {path : String}, d.outlines[r]? = some o →
    o.probe = .ready path → s.limit.isSome = true ∧ Path.canonical s.home o.path = some path ∧
      o.phase = .racing .waiting ∧ ¬ [Job.request r, .probe r].Sublist d.agenda.jobs
  heard : ∀ {r : Nat} {o : Outline}, d.outlines[r]? = some o → o.phase.isNew = true ∨
    o.probe.isReady = true ∨ r ∈ d.callers.map Prod.fst ∨ o.phase = .ended .cancelled ∨
      o.phase = .ended (.failed .homeUnknown)

theorem InTurn.ready_of (h : InTurn s d) (hr : d.isReady r = true) :
    ∃ q path, d.requests[r]? = some q ∧ q.probe = .ready path ∧ s.limit.isSome = true ∧
      Path.canonical s.home q.path = some path ∧ (∃ a, q.stage = .racing a) ∧
      ¬ [Job.request r, .probe r].Sublist d.agenda.jobs := by
  obtain ⟨q, path, hq, hp⟩ := isReady_iff.mp hr
  obtain ⟨hl, hc, hphase, hsub⟩ := h.ready (outline_of_request hq) hp
  refine ⟨q, path, hq, hp, hl, hc, ?_, hsub⟩
  have hphase : q.stage.phase = .racing .waiting := hphase
  cases hs : q.stage with
  | racing a => exact ⟨a, rfl⟩
  | _ => simp [hs, Stage.phase] at hphase

/-- Such a probe is in line, and has not been halted. -/
theorem InTurn.runs_of_ready (h : InTurn s d) (hd : Reachable s d) (hr : d.isReady r = true) :
    d.agenda.jobs.count (.probe r) = 1 ∧ ∀ q, d.requests[r]? = some q → q.halting = false := by
  obtain ⟨q, path, hq, hp, -, -, ⟨a, hs⟩, -⟩ := h.ready_of hr
  have hwakes := hd.wakeful r q hq
  have hstage := ((sound_iff_fits hq).mp (hd.orderly r)).stage
  simp only [Request.Wakes, hs, hp, Probe.Wakes] at hwakes
  simp only [Request.Placed, hs] at hstage
  refine ⟨Nat.le_antisymm (hd.probeRuns_le hr) hwakes.2, fun q' hq' => ?_⟩
  obtain rfl := Option.some.inj (hq.symm.trans hq')
  exact hstage.2.2.1

/-- A request that has its turn has no probe that is still to call. -/
theorem InTurn.not_ready_of_turn (h : InTurn s d) (hd : Reachable s d) {now : List Job}
    (hnow : d.agenda.now = .request r :: now) : d.isReady r = false := by
  by_contra hr
  rw [Bool.not_eq_false] at hr
  obtain ⟨-, -, -, -, -, -, -, hsub⟩ := h.ready_of hr
  have hmem : Job.probe r ∈ d.agenda.jobs :=
    List.count_pos_iff.mp (by rw [(h.runs_of_ready hd hr).1]; exact Nat.one_pos)
  rw [jobs_of_now hnow] at hmem hsub
  have htail : Job.probe r ∈ now ++ d.agenda.next := (List.mem_cons.mp hmem).resolve_left (by simp)
  exact hsub ((List.singleton_sublist.mpr htail).cons_cons _)

/-! ## Work that begins nothing -/

/-- Work by which the classifier is not called and no request is begun; one may be issued. -/
structure Silent (d e : Desk σ) : Prop where
  callers : e.callers = d.callers
  kept : ∀ {r : Nat} {o : Outline}, d.outlines[r]? = some o →
    ∃ o', e.outlines[r]? = some o' ∧ o.Kept o'
  issued : ∀ {r : Nat} {o : Outline}, e.outlines[r]? = some o →
    r < d.outlines.length ∨ r = d.outlines.length ∧ ∃ subject, o = .fresh subject

theorem Issuing.silent {subject? : Option (Nat × String)} (h : Issuing subject?.toList d e) :
    Silent d e := by
  refine ⟨h.callers, fun {r o} ho => ⟨o, ?_, .refl o⟩, fun {r o} ho => ?_⟩
  · rw [h.outlines, List.getElem?_append_left (List.getElem?_eq_some_iff.mp ho).1, ho]
  · rw [h.outlines] at ho
    cases subject? with
    | none =>
      rw [Option.toList_none, List.map_nil, List.append_nil] at ho
      exact Or.inl (List.getElem?_eq_some_iff.mp ho).1
    | some subject =>
      rcases getElem?_concat_eq_some_iff.mp ho with ho | ⟨hr, ho⟩
      · exact Or.inl (List.getElem?_eq_some_iff.mp ho).1
      · exact Or.inr ⟨hr, subject, ho⟩

theorem silent_modify {g : Outline → Outline} (hc : e.callers = d.callers)
    (ho : e.outlines = d.outlines.modify r g)
    (hg : ∀ o, d.outlines[r]? = some o → o.Kept (g o)) : Silent d e := by
  refine ⟨hc, fun {r' o} hr' => ?_, fun {r' o} hr' => Or.inl ?_⟩
  · refine ⟨_, by rw [ho]; exact getElem?_modify_eq_some_iff.mpr ⟨o, hr', rfl⟩, ?_⟩
    split
    · rename_i hr
      exact hg o (hr ▸ hr')
    · exact .refl o
  · rw [ho] at hr'
    obtain ⟨o', hr', -⟩ := getElem?_modify_eq_some_iff.mp hr'
    exact (List.getElem?_eq_some_iff.mp hr').1

theorem silent_of (hc : e.callers = d.callers) (ho : e.outlines = d.outlines) : Silent d e := by
  refine ⟨hc, fun {r o} hr => ⟨o, ho ▸ hr, .refl o⟩, fun {r o} hr => Or.inl ?_⟩
  rw [ho] at hr
  exact (List.getElem?_eq_some_iff.mp hr).1

theorem Silent.isNew (h : Silent d e) (hr : e.isNew r = true) :
    d.isNew r = true ∨ r = d.outlines.length := by
  have ho' := List.getElem?_eq_getElem (isNew_lt hr)
  rw [isNew_eq ho'] at hr
  rcases h.issued ho' with hlt | ⟨hr, -⟩
  · obtain ⟨o'', ho'', hkept⟩ := h.kept (List.getElem?_eq_getElem hlt)
    obtain rfl := Option.some.inj (ho'.symm.trans ho'')
    refine Or.inl ?_
    rw [isNew_eq (List.getElem?_eq_getElem hlt), ← hkept.isNew, hr]
  · exact Or.inr hr

theorem Silent.ready (h : Silent d e) {o' : Outline} {path : String}
    (ho' : e.outlines[r]? = some o') (hp : o'.probe = .ready path) :
    ∃ o, d.outlines[r]? = some o ∧ o.probe = .ready path ∧ o.Kept o' := by
  rcases h.issued ho' with hlt | ⟨-, subject, rfl⟩
  · obtain ⟨o'', ho'', hkept⟩ := h.kept (List.getElem?_eq_getElem hlt)
    obtain rfl := Option.some.inj (ho'.symm.trans ho'')
    exact ⟨_, List.getElem?_eq_getElem hlt, (hkept.ready path).mp hp, hkept⟩
  · cases hp

theorem Silent.isReady (h : Silent d e) (hr : e.isReady r = true) : d.isReady r = true := by
  have ho' := List.getElem?_eq_getElem (isReady_lt hr)
  rw [isReady_eq ho'] at hr
  obtain ⟨path, hp⟩ := Probe.isReady_iff.mp hr
  obtain ⟨o, ho, hp, -⟩ := h.ready ho' hp
  rw [isReady_eq ho]
  exact Probe.isReady_iff.mpr ⟨path, hp⟩

/-- A new request that is not at its turn is not put in line again. -/
theorem Reachable.new_not_again (hd : Reachable s d) (he : Reachable s e)
    (hbefore : d.agenda.jobs = pre ++ rest) (hafter : e.agenda.jobs = rest ++ more)
    (hn : d.isNew r = true) (hn' : e.isNew r = true) (hpre : .request r ∉ pre) :
    .request r ∉ more := by
  have hcount := hd.runs_of_new hn
  have hcount' := he.runs_of_new hn'
  rw [hbefore, List.count_append, List.count_eq_zero.mpr hpre] at hcount
  rw [hafter, List.count_append] at hcount'
  exact List.count_eq_zero.mp (by omega)

/-- Nor is a probe that is to call. -/
theorem InTurn.ready_not_again (h : InTurn s d) (hd : Reachable s d) (he : Reachable s e)
    (hbefore : d.agenda.jobs = pre ++ rest) (hafter : e.agenda.jobs = rest ++ more)
    (hr : d.isReady r = true) (hr' : e.isReady r = true) (hpre : .probe r ∉ pre) :
    .probe r ∉ more := by
  have hcount := (h.runs_of_ready hd hr).1
  have hcount' := he.probeRuns_le hr'
  rw [hbefore, List.count_append, List.count_eq_zero.mpr hpre] at hcount
  rw [hafter, List.count_append] at hcount'
  exact List.count_eq_zero.mp (by omega)

theorem InTurn.order_lt (h : InTurn s d) {x : Nat}
    (hx : x ∈ d.callers.map Prod.fst ++ d.readyIn d.agenda.jobs ++ d.newIn d.agenda.jobs) :
    x < d.outlines.length := by
  rcases List.mem_append.mp hx with hx | hx
  · rcases List.mem_append.mp hx with hx | hx
    · obtain ⟨c, hc, rfl⟩ := List.mem_map.mp hx
      obtain ⟨o, ho, -⟩ := h.called (show (c.1, c.2) ∈ d.callers from hc)
      exact (List.getElem?_eq_some_iff.mp ho).1
    · exact isReady_lt (mem_readyIn.mp hx).2
  · exact isNew_lt (mem_newIn.mp hx).2

/-- A probe that is to call and is not at its turn keeps its place before its request. -/
theorem InTurn.before_kept (h : InTurn s d) (hbefore : d.agenda.jobs = pre ++ rest)
    (hafter : e.agenda.jobs = rest ++ more) (hr : d.isReady r = true) (hmore : .probe r ∉ more) :
    ¬ [Job.request r, .probe r].Sublist e.agenda.jobs := by
  intro hsub
  rw [hafter] at hsub
  obtain ⟨-, -, -, -, -, -, -, hno⟩ := h.ready_of hr
  apply hno
  rw [hbefore]
  exact (sublist_of_sublist_append hmore hsub).trans (List.sublist_append_right pre rest)

/-- A request that is not there is not in line. -/
theorem Reachable.not_in_line (hd : Reachable s d) (h : d.outlines.length ≤ r) :
    .request r ∉ d.agenda.jobs := by
  have hnone : d.requests[r]? = none := by
    rw [outlines, List.length_map] at h
    exact List.getElem?_eq_none h
  have hsound := hd.orderly r
  simp only [Post.Sound, post, hnone] at hsound
  exact List.count_eq_zero.mp hsound.1

/-- Silent work puts in line no probe that is to call, and of new requests at most the one that it
has issued. -/
theorem InTurn.more_silent (h : InTurn s d) (hd : Reachable s d) (he : Reachable s e)
    (hs : Silent d e) (hbefore : d.agenda.jobs = pre ++ rest)
    (hafter : e.agenda.jobs = rest ++ more)
    (hnew : ∀ r, .request r ∈ pre → d.isNew r = false)
    (hready : ∀ r, .probe r ∈ pre → d.isReady r = false) :
    (∀ r, e.isReady r = true → .probe r ∉ more) ∧
      ∀ r, .request r ∈ more → e.isNew r = true → r = d.outlines.length := by
  constructor
  · intro r hr
    have hrd := hs.isReady hr
    refine h.ready_not_again hd he hbefore hafter hrd hr fun hpre => ?_
    rw [hready r hpre] at hrd
    cases hrd
  · intro r hr hn
    refine (hs.isNew hn).resolve_left fun hnd => ?_
    refine hd.new_not_again he hbefore hafter hnd hn (fun hpre => ?_) hr
    rw [hnew r hpre] at hnd
    cases hnd

/-- Silent work keeps the order. -/
theorem InTurn.order_silent (h : InTurn s d) (hd : Reachable s d) (hs : Silent d e)
    (hbefore : d.agenda.jobs = pre ++ rest) (hafter : e.agenda.jobs = rest ++ more)
    (hready : ∀ r, e.isReady r = true → .probe r ∉ more)
    (hnew : ∀ r, .request r ∈ more → e.isNew r = true → r = d.outlines.length) :
    (e.callers.map Prod.fst ++ e.readyIn e.agenda.jobs ++
      e.newIn e.agenda.jobs).Pairwise (· ≤ ·) := by
  have hreadyMore : e.readyIn more = [] :=
    List.eq_nil_iff_forall_not_mem.mpr fun r hr =>
      hready r (mem_readyIn.mp hr).2 (mem_readyIn.mp hr).1
  have hreadyRest : (e.readyIn rest).Sublist (d.readyIn d.agenda.jobs) := by
    rw [hbefore, readyIn_append]
    exact (readyIn_sublist fun r _ => hs.isReady).trans (List.sublist_append_right _ _)
  have hnewRest : (e.newIn rest).Sublist (d.newIn d.agenda.jobs) := by
    rw [hbefore, newIn_append]
    refine (newIn_sublist fun r hr hn => ?_).trans (List.sublist_append_right _ _)
    refine (hs.isNew hn).resolve_right fun hlen => ?_
    refine hd.not_in_line (Nat.le_of_eq hlen.symm) ?_
    rw [hbefore]
    exact List.mem_append_right _ hr
  have hgrown := pairwise_copies (b := []) (r := d.outlines.length)
    (List.pairwise_append.mpr ⟨h.order, List.pairwise_singleton _ _, fun x hx y hy => by
      rw [List.mem_singleton.mp hy]
      exact Nat.le_of_lt (h.order_lt hx)⟩)
    fun r hr => hnew r (mem_newIn.mp hr).1 (mem_newIn.mp hr).2
  rw [List.append_nil] at hgrown
  refine hgrown.sublist ?_
  rw [hafter, readyIn_append, newIn_append, hreadyMore, List.append_nil, hs.callers,
    ← List.append_assoc]
  exact (((List.Sublist.refl _).append hreadyRest).append hnewRest).append (.refl _)

/-- **Work that begins nothing keeps requests and probes in turn.** -/
theorem InTurn.silent (h : InTurn s d) (hd : Reachable s d) (he : Reachable s e)
    (hs : Silent d e) (hbefore : d.agenda.jobs = pre ++ rest)
    (hafter : e.agenda.jobs = rest ++ more)
    (hnew : ∀ r, .request r ∈ pre → d.isNew r = false)
    (hready : ∀ r, .probe r ∈ pre → d.isReady r = false) : InTurn s e := by
  obtain ⟨hmoreReady, hmoreNew⟩ := h.more_silent hd he hs hbefore hafter hnew hready
  refine ⟨h.order_silent hd hs hbefore hafter hmoreReady hmoreNew, hs.callers ▸ h.once,
    fun {r path} hc => ?_, fun {r o path} ho hp => ?_, fun {r o} ho => ?_⟩
  · rw [hs.callers] at hc
    obtain ⟨o, ho, hp, hn, hr⟩ := h.called hc
    obtain ⟨o', ho', hkept⟩ := hs.kept ho
    refine ⟨o', ho', by rw [hkept.path, hp], by rw [hkept.isNew, hn], ?_⟩
    rw [← Bool.not_eq_true, Probe.isReady_iff] at hr ⊢
    rintro ⟨p, hp'⟩
    exact hr ⟨p, (hkept.ready p).mp hp'⟩
  · obtain ⟨o', ho', hp', hkept⟩ := hs.ready ho hp
    obtain ⟨hl, hc, hphase, -⟩ := h.ready ho' hp'
    have hr' : o'.probe.isReady = true := Probe.isReady_iff.mpr ⟨path, hp'⟩
    have hr : e.isReady r = true := by
      rw [isReady_eq ho]
      exact Probe.isReady_iff.mpr ⟨path, hp⟩
    refine ⟨hl, by rw [hkept.path, hc], by rw [hkept.racing hr', hphase], ?_⟩
    exact h.before_kept hbefore hafter (hs.isReady hr) (hmoreReady r hr)
  · rcases hs.issued ho with hlt | ⟨-, subject, rfl⟩
    · obtain ⟨o', ho', hkept⟩ := hs.kept (List.getElem?_eq_getElem hlt)
      obtain rfl := Option.some.inj (ho.symm.trans ho')
      rcases h.heard (List.getElem?_eq_getElem hlt) with hn | hr | hc | hv | hv
      · exact .inl (by rw [hkept.isNew, hn])
      · obtain ⟨path, hp⟩ := Probe.isReady_iff.mp hr
        exact .inr (.inl (Probe.isReady_iff.mpr ⟨path, (hkept.ready path).mpr hp⟩))
      · exact .inr (.inr (.inl (by rw [hs.callers]; exact hc)))
      · exact .inr (.inr (.inr (.inl (hkept.ended _ hv))))
      · exact .inr (.inr (.inr (.inr (hkept.ended _ hv))))
    · exact .inl rfl

end Desk
end Admission
