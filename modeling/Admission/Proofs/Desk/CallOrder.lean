import Admission.Proofs.Desk.Sequence

/-!
# The order of the calls on a run

With its first run a request calls the classifier, or its probe is put behind those that are to
call; with its own a probe calls. Either way the order of the calls stays that of the requests. So
it does with every move of a run, unless the time for an inspection is over before it starts.
-/
namespace Admission
namespace Desk

variable {σ : Type} {s : Setting σ} {d e : Desk σ} {r : Nat} {more : List Job}

/-! ## The turns by which the classifier is called -/

/-- The requests that have called are not at their first run, nor is their probe. -/
theorem InTurn.called_spec (h : InTurn s d) (hc : r ∈ d.callers.map Prod.fst) :
    d.isNew r = false ∧ d.isReady r = false := by
  obtain ⟨c, hmem, rfl⟩ := List.mem_map.mp hc
  obtain ⟨o, ho, -, hn, hr⟩ := h.called (show (c.1, c.2) ∈ d.callers from hmem)
  exact ⟨(isNew_eq ho).trans hn, (isReady_eq ho).trans hr⟩

/-- A new request has not called. -/
theorem InTurn.not_called_of_new (h : InTurn s d) (hn : d.isNew r = true) :
    r ∉ d.callers.map Prod.fst := by
  intro hc
  rw [(h.called_spec hc).1] at hn
  cases hn

/-- Nor has a request whose probe is to call. -/
theorem InTurn.not_called_of_ready (h : InTurn s d) (hr : d.isReady r = true) :
    r ∉ d.callers.map Prod.fst := by
  intro hc
  rw [(h.called_spec hc).2] at hr
  cases hr

theorem not_mem_callers (h : r ∉ d.callers.map Prod.fst) (path : String) :
    (r, path) ∉ d.callers :=
  fun hc => h (List.mem_map.mpr ⟨_, hc, rfl⟩)

/-- A request that calls for the first time has called once, for one path. -/
theorem InTurn.callers_concat (h : InTurn s d) (hnot : r ∉ d.callers.map Prod.fst)
    {path : String} (hc : e.callers = d.callers ++ [(r, path)]) :
    e.callers.map Prod.fst = d.callers.map Prod.fst ++ [r] ∧
      (e.callers.map Prod.fst).Nodup ∧ ∀ p, (r, p) ∈ e.callers → p = path := by
  have hmap : e.callers.map Prod.fst = d.callers.map Prod.fst ++ [r] := by
    rw [hc, List.map_append, List.map_singleton]
  refine ⟨hmap, ?_, fun p hp => ?_⟩
  · rw [hmap, List.nodup_append]
    refine ⟨h.once, List.nodup_singleton r, fun a ha b hb => ?_⟩
    rw [List.mem_singleton.mp hb]
    rintro rfl
    exact hnot ha
  · rw [hc, List.mem_append, List.mem_singleton, Prod.mk.injEq] at hp
    exact (hp.resolve_left (not_mem_callers hnot p)).2

theorem outline_of_ne {g : Outline → Outline} {r' : Nat} (ho : e.outlines = d.outlines.modify r g)
    (hr : r ≠ r') : e.outlines[r']? = d.outlines[r']? := by
  simp [ho, hr]

/-- What a turn of request `r` leaves to others: their calls, and their place in line. -/
structure Yields (s : Setting σ) (d : Desk σ) (r : Nat) (e : Desk σ) : Prop where
  outlines : ∀ ⦃r' : Nat⦄, r ≠ r' → e.outlines[r']? = d.outlines[r']?
  called : ∀ ⦃r' : Nat⦄ ⦃path : String⦄, r ≠ r' → ((r', path) ∈ e.callers ↔ (r', path) ∈ d.callers)
  unready : ∀ ⦃r' : Nat⦄, r ≠ r' → d.isReady r' = true →
    ¬ [Job.request r', .probe r'].Sublist e.agenda.jobs

theorem Yields.isNew (h : Yields s d r e) {r' : Nat} (hr : r ≠ r') : e.isNew r' = d.isNew r' := by
  rw [Desk.isNew, h.outlines hr, Desk.isNew]

theorem Yields.isReady (h : Yields s d r e) {r' : Nat} (hr : r ≠ r') :
    e.isReady r' = d.isReady r' := by
  rw [Desk.isReady, h.outlines hr, Desk.isReady]

/-- What is left to show of a turn is what concerns the request itself. -/
theorem InTurn.yields (h : InTurn s d) (hy : Yields s d r e)
    (horder : (e.callers.map Prod.fst ++ e.readyIn e.agenda.jobs ++
      e.newIn e.agenda.jobs).Pairwise (· ≤ ·))
    (honce : (e.callers.map Prod.fst).Nodup) {o : Outline} (ho : e.outlines[r]? = some o)
    (hcalled : ∀ path, (r, path) ∈ e.callers → Path.canonical s.home o.path = some path ∧
      o.phase.isNew = false ∧ o.probe.isReady = false)
    (hready : ∀ path, o.probe = .ready path → s.limit.isSome = true ∧
      Path.canonical s.home o.path = some path ∧ o.phase = .racing .waiting ∧
        ¬ [Job.request r, .probe r].Sublist e.agenda.jobs)
    (hheard : o.probe.isReady = true ∨ r ∈ e.callers.map Prod.fst ∨
      o.phase = .ended .cancelled ∨ o.phase = .ended (.failed .homeUnknown)) : InTurn s e := by
  refine ⟨horder, honce, fun {r' path} hc => ?_, fun {r' o' path} ho' hp => ?_,
    fun {r' o'} ho' => ?_⟩
  · by_cases hr : r = r'
    · subst hr
      exact ⟨o, ho, hcalled path hc⟩
    · obtain ⟨o', ho', hspec⟩ := h.called ((hy.called hr).mp hc)
      exact ⟨o', (hy.outlines hr).trans ho', hspec⟩
  · by_cases hr : r = r'
    · subst hr
      obtain rfl := Option.some.inj (ho.symm.trans ho')
      exact hready path hp
    · have hod := (hy.outlines hr).symm.trans ho'
      obtain ⟨hl, hc, hphase, -⟩ := h.ready hod hp
      refine ⟨hl, hc, hphase, hy.unready hr ?_⟩
      rw [isReady_eq hod]
      exact Probe.isReady_iff.mpr ⟨path, hp⟩
  · by_cases hr : r = r'
    · subst hr
      obtain rfl := Option.some.inj (ho.symm.trans ho')
      exact .inr hheard
    · rcases h.heard ((hy.outlines hr).symm.trans ho') with hn | hready | hc | hv
      · exact .inl hn
      · exact .inr (.inl hready)
      · obtain ⟨c, hmem, rfl⟩ := List.mem_map.mp hc
        exact .inr (.inr (.inl (List.mem_map.mpr ⟨c, (hy.called hr).mpr hmem, rfl⟩)))
      · exact .inr (.inr (.inr hv))

section Turn

variable {now : List Job} {q : Request} {g : Outline → Outline}

/-- Others are not put in line again when request `r` or its probe has had its turn. -/
theorem InTurn.others (h : InTurn s d) (hd : Reachable s d) (he : Reachable s e) {j : Job}
    (hj : j = .request r ∨ j = .probe r) (hnow : d.agenda.now = j :: now)
    (hafter : e.agenda.jobs = (now ++ d.agenda.next) ++ more)
    (ho : e.outlines = d.outlines.modify r g) {r' : Nat} (hr : r ≠ r') :
    (d.isReady r' = true → .probe r' ∉ more) ∧ (d.isNew r' = true → .request r' ∉ more) := by
  have hbefore : d.agenda.jobs = [j] ++ (now ++ d.agenda.next) := jobs_of_now hnow
  have hpre : Job.probe r' ∉ [j] ∧ Job.request r' ∉ [j] := by
    rcases hj with rfl | rfl <;> simp [Ne.symm hr]
  refine ⟨fun hready => ?_, fun hn => ?_⟩
  · have hready' : e.isReady r' = true := by rw [isReady, outline_of_ne ho hr, ← isReady, hready]
    exact h.ready_not_again hd he hbefore hafter hready hready' hpre.1
  · have hn' : e.isNew r' = true := by rw [isNew, outline_of_ne ho hr, ← isNew, hn]
    exact hd.new_not_again he hbefore hafter hn hn' hpre.2

theorem InTurn.yields_of_modify (h : InTurn s d) (hd : Reachable s d) (he : Reachable s e) {j : Job}
    (hj : j = .request r ∨ j = .probe r) (hnow : d.agenda.now = j :: now)
    (hafter : e.agenda.jobs = (now ++ d.agenda.next) ++ more)
    (ho : e.outlines = d.outlines.modify r g)
    (hc : e.callers = d.callers ∨ ∃ path, e.callers = d.callers ++ [(r, path)]) :
    Yields s d r e := by
  refine ⟨fun r' hr => outline_of_ne ho hr, fun r' path hr => ?_, fun r' hr hready => ?_⟩
  · rcases hc with hc | ⟨path', hc⟩
    · rw [hc]
    · rw [hc, List.mem_append, List.mem_singleton, Prod.mk.injEq]
      exact ⟨fun hor => hor.resolve_right fun he => hr he.1.symm, Or.inl⟩
  · have hbefore : d.agenda.jobs = [j] ++ (now ++ d.agenda.next) := jobs_of_now hnow
    exact h.before_kept hbefore hafter hready ((h.others hd he hj hnow hafter ho hr).1 hready)

/-- When `r` is not new after its turn, or that of its probe, the new requests are among those that
were new, and none is put in line. -/
theorem InTurn.newIn_turn (h : InTurn s d) (hd : Reachable s d) (he : Reachable s e) {j : Job}
    (hj : j = .request r ∨ j = .probe r) (hnow : d.agenda.now = j :: now)
    (hafter : e.agenda.jobs = (now ++ d.agenda.next) ++ more)
    (ho : e.outlines = d.outlines.modify r g) (hg : e.isNew r = false) :
    (∀ r', e.isNew r' = true → d.isNew r' = true) ∧ e.newIn more = [] := by
  have hnew {r' : Nat} (hn' : e.isNew r' = true) : r ≠ r' ∧ d.isNew r' = true := by
    have hr : r ≠ r' := by
      rintro rfl
      rw [hg] at hn'
      cases hn'
    rw [isNew, outline_of_ne ho hr] at hn'
    exact ⟨hr, hn'⟩
  refine ⟨fun r' hn' => (hnew hn').2, List.eq_nil_iff_forall_not_mem.mpr fun r' hr' => ?_⟩
  obtain ⟨hmem, hn'⟩ := mem_newIn.mp hr'
  obtain ⟨hr, hnd⟩ := hnew hn'
  exact (h.others hd he hj hnow hafter ho hr).2 hnd hmem

/-- After the first run of request `r` the line holds no new request that was not in line before,
and no probe that is to call but perhaps that of `r`, which is last. -/
theorem InTurn.line_firstRun (h : InTurn s d) (hd : Reachable s d) (he : Reachable s e)
    (hn : d.isNew r = true) (hnow : d.agenda.now = .request r :: now)
    (hafter : e.agenda.jobs = (now ++ d.agenda.next) ++ more)
    (ho : e.outlines = d.outlines.modify r g) (hg : e.isNew r = false) :
    (∃ copies, (e.readyIn e.agenda.jobs).Sublist (d.readyIn d.agenda.jobs ++ copies) ∧
      ∀ x ∈ copies, x = r ∧ e.isReady r = true) ∧
      ∃ later, d.newIn d.agenda.jobs = r :: later ∧ (e.newIn e.agenda.jobs).Sublist later := by
  have hjobs := jobs_of_now hnow
  have hothers {r' : Nat} (hr : r ≠ r') := h.others hd he (Or.inl rfl) hnow hafter ho hr
  have hready {r' : Nat} (hr : r ≠ r') (hr' : e.isReady r' = true) : d.isReady r' = true := by
    rw [isReady, outline_of_ne ho hr] at hr'
    exact hr'
  obtain ⟨hnew, hnewMore⟩ := h.newIn_turn hd he (Or.inl rfl) hnow hafter ho hg
  have hnoProbe := (hd.no_probe_of_new hn).1
  rw [hjobs] at hnoProbe
  refine ⟨⟨e.readyIn more, ?_, fun x hx => ?_⟩, d.newIn (now ++ d.agenda.next), ?_, ?_⟩
  · rw [hafter, readyIn_append, hjobs]
    refine List.Sublist.append ?_ (.refl _)
    change (e.readyIn (now ++ d.agenda.next)).Sublist (d.readyIn (now ++ d.agenda.next))
    refine readyIn_sublist fun r' hr' hr'' => ?_
    by_cases hr : r = r'
    · subst hr
      exact absurd (List.mem_cons_of_mem _ hr') hnoProbe
    · exact hready hr hr''
  · obtain ⟨hmem, hr'⟩ := mem_readyIn.mp hx
    by_cases hr : r = x
    · subst hr
      exact ⟨rfl, hr'⟩
    · exact absurd hmem ((hothers hr).1 (hready hr hr'))
  · rw [hjobs]
    simp [newIn, Job.asRequest?, hn]
  · rw [hafter, newIn_append, hnewMore, List.append_nil]
    exact newIn_sublist fun r' _ hn' => hnew r' hn'

/-- A first run without a call keeps the order. -/
theorem InTurn.order_firstRun (h : InTurn s d) (hd : Reachable s d) (he : Reachable s e)
    (hn : d.isNew r = true) (hnow : d.agenda.now = .request r :: now)
    (hafter : e.agenda.jobs = (now ++ d.agenda.next) ++ more)
    (ho : e.outlines = d.outlines.modify r g) (hg : e.isNew r = false)
    (hc : e.callers = d.callers) :
    (e.callers.map Prod.fst ++ e.readyIn e.agenda.jobs ++
      e.newIn e.agenda.jobs).Pairwise (· ≤ ·) := by
  obtain ⟨⟨copies, hready, hcopies⟩, later, hlater, hnew⟩ :=
    h.line_firstRun hd he hn hnow hafter ho hg
  have horder := h.order
  rw [hlater] at horder
  refine (pairwise_copies horder fun x hx => (hcopies x hx).1).sublist ?_
  rw [hc, List.append_assoc _ _ copies]
  exact ((List.Sublist.refl _).append hready).append hnew

/-! ### The first run of a request -/

section FirstRun

variable (h : InTurn s d) (hd : Reachable s d) (he : Reachable s e)
  (hq : d.requests[r]? = some q) (hs : q.stage = .created)
  (hnow : d.agenda.now = .request r :: now)
  (hafter : e.agenda.jobs = (now ++ d.agenda.next) ++ more)
include h hd he hq hs hnow hafter

theorem InTurn.firstRun_refused {v : Verdict} (hv : v = .cancelled ∨ v = .failed .homeUnknown)
    (ho : e.outlines = d.outlines.modify r ({ · with phase := .ended v }))
    (hc : e.callers = d.callers) : InTurn s e := by
  have hn : d.isNew r = true := isNew_iff.mpr ⟨q, hq, hs⟩
  have hself := outline_of_modify hq ho
  have hidle := (hd.no_probe_of_new hn).2
  rw [isReady_eq (outline_of_request hq)] at hidle
  refine h.yields (h.yields_of_modify hd he (Or.inl rfl) hnow hafter ho (Or.inl hc))
    (h.order_firstRun hd he hn hnow hafter ho (isNew_eq hself) hc) (hc ▸ h.once) hself
    (fun path hp => ?_) (fun path hp => ?_) (.inr (.inr ?_))
  · rw [hc] at hp
    exact absurd hp (not_mem_callers (h.not_called_of_new hn) path)
  · have hp : q.outline.probe = .ready path := hp
    rw [hp] at hidle
    cases hidle
  · rcases hv with rfl | rfl
    · exact .inl rfl
    · exact .inr rfl

/-- Without a limit nobody's probe is to call, so the request that calls is the next one. -/
theorem InTurn.firstRun_called (hl : s.limit = none) {path : String} {phase : Stage}
    (hp : Path.canonical s.home q.path = some path) (hphase : phase.isNew = false)
    (ho : e.outlines = d.outlines.modify r ({ · with phase := phase }))
    (hc : e.callers = d.callers ++ [(r, path)]) : InTurn s e := by
  have hn : d.isNew r = true := isNew_iff.mpr ⟨q, hq, hs⟩
  have hself := outline_of_modify hq ho
  have hidle := (hd.no_probe_of_new hn).2
  rw [isReady_eq (outline_of_request hq)] at hidle
  obtain ⟨hmap, honce, hpath⟩ := h.callers_concat (h.not_called_of_new hn) hc
  obtain ⟨⟨copies, hready, hcopies⟩, later, hlater, hnew⟩ :=
    h.line_firstRun hd he hn hnow hafter ho ((isNew_eq hself).trans hphase)
  have hempty : e.readyIn e.agenda.jobs = [] := by
    refine List.eq_nil_iff_forall_not_mem.mpr fun r' hr' => ?_
    rcases List.mem_append.mp (hready.subset hr') with hr' | hr'
    · obtain ⟨-, -, -, -, hsome, -⟩ := h.ready_of (mem_readyIn.mp hr').2
      rw [hl] at hsome
      cases hsome
    · have hr := (hcopies r' hr').2
      rw [isReady_eq hself, hidle] at hr
      cases hr
  refine h.yields (h.yields_of_modify hd he (Or.inl rfl) hnow hafter ho (Or.inr ⟨path, hc⟩))
    ?_ honce hself (fun p hmem => ?_) (fun p hready => ?_) (.inr (.inl ?_))
  · have horder := h.order
    rw [hlater] at horder
    rw [hmap, hempty, List.append_nil, List.append_assoc]
    refine horder.sublist ?_
    exact (List.sublist_append_left _ _).append (List.Sublist.cons_cons r hnew)
  · rw [hpath p hmem]
    exact ⟨hp, hphase, hidle⟩
  · have hready : q.outline.probe = .ready p := hready
    rw [hready] at hidle
    cases hidle
  · rw [hmap]
    exact List.mem_append_right _ (List.mem_singleton_self r)

theorem InTurn.firstRun_raced (hl : s.limit.isSome = true) {path : String}
    (hp : Path.canonical s.home q.path = some path)
    (ho : e.outlines = d.outlines.modify r
      ({ · with phase := .racing .waiting, probe := .ready path }))
    (hrace : e.requests[r]?.map Request.stage = some (.racing .waiting))
    (hc : e.callers = d.callers) : InTurn s e := by
  have hn : d.isNew r = true := isNew_iff.mpr ⟨q, hq, hs⟩
  have hself := outline_of_modify hq ho
  refine h.yields (h.yields_of_modify hd he (Or.inl rfl) hnow hafter ho (Or.inl hc))
    (h.order_firstRun hd he hn hnow hafter ho (isNew_eq hself) hc) (hc ▸ h.once) hself
    (fun p hmem => ?_) (fun p hready => ?_) (.inl rfl)
  · rw [hc] at hmem
    exact absurd hmem (not_mem_callers (h.not_called_of_new hn) p)
  · obtain rfl := Probe.ready.inj hready
    refine ⟨hl, hp, rfl, fun hsub => ?_⟩
    -- a request that waits for its probe and for its limit is not in line
    obtain ⟨q', hq', hs'⟩ := Option.map_eq_some_iff.mp hrace
    have hstage := ((sound_iff_fits hq').mp (he.orderly r)).stage
    simp only [Request.Placed, hs'] at hstage
    have hzero : e.agenda.jobs.count (.request r) = 0 := hstage.1.2 trivial
    exact List.count_eq_zero.mp hzero (hsub.subset List.mem_cons_self)

theorem InTurn.firstRun (hlimit : ∀ limit, s.limit = some limit → ¬ limit ≤ 0.0)
    (hrun : FirstRun s { d with agenda := { d.agenda with now := now } } r q e) :
    InTurn s e := by
  cases hrun with
  | refused hv ha =>
    refine h.firstRun_refused hd he hq hs hnow hafter ?_ ha.outlines ha.callers
    exact hv.imp And.left And.left
  | called hl hp hphase ho hc _ =>
    exact h.firstRun_called hd he hq hs hnow hafter hl hp hphase ho hc
  | raced hl _ hp ho hrace hc _ =>
    have hsome : s.limit.isSome = true := by rw [hl]; rfl
    exact h.firstRun_raced hd he hq hs hnow hafter hsome hp ho hrace hc
  | expired hl hpos => exact absurd hpos (hlimit _ hl)

end FirstRun

/-! ### The first run of a probe -/

/-- A call of the probe of `r` keeps the order, for it was the first of those that are to call. -/
theorem InTurn.order_probe (h : InTurn s d) (hd : Reachable s d) (he : Reachable s e)
    (hr : d.isReady r = true) (hnow : d.agenda.now = .probe r :: now)
    (hafter : e.agenda.jobs = (now ++ d.agenda.next) ++ more)
    (ho : e.outlines = d.outlines.modify r g) (hready : e.isReady r = false)
    (hnew : e.isNew r = false)
    (hmap : e.callers.map Prod.fst = d.callers.map Prod.fst ++ [r]) :
    (e.callers.map Prod.fst ++ e.readyIn e.agenda.jobs ++
      e.newIn e.agenda.jobs).Pairwise (· ≤ ·) := by
  have hothers {r' : Nat} (hne : r ≠ r') := h.others hd he (Or.inr rfl) hnow hafter ho hne
  have hready {r' : Nat} (hr' : e.isReady r' = true) : r ≠ r' ∧ d.isReady r' = true := by
    have hne : r ≠ r' := by
      rintro rfl
      rw [hready] at hr'
      cases hr'
    rw [isReady, outline_of_ne ho hne] at hr'
    exact ⟨hne, hr'⟩
  obtain ⟨hnew, hnewMore⟩ := h.newIn_turn hd he (Or.inr rfl) hnow hafter ho hnew
  have hreadyMore : e.readyIn more = [] := by
    refine List.eq_nil_iff_forall_not_mem.mpr fun r' hr' => ?_
    obtain ⟨hmem, hr'⟩ := mem_readyIn.mp hr'
    exact (hothers (hready hr').1).1 (hready hr').2 hmem
  have hreadyd : d.readyIn d.agenda.jobs = r :: d.readyIn (now ++ d.agenda.next) := by
    rw [jobs_of_now hnow]
    simp [readyIn, Job.asProbe?, hr]
  have hnewd : d.newIn d.agenda.jobs = d.newIn (now ++ d.agenda.next) := by
    rw [jobs_of_now hnow]
    rfl
  have horder := h.order
  rw [hreadyd, hnewd] at horder
  rw [hmap, hafter, readyIn_append, newIn_append, hreadyMore, hnewMore, List.append_nil,
    List.append_nil, List.append_assoc (d.callers.map Prod.fst)]
  refine horder.sublist (List.Sublist.append (List.Sublist.append (.refl _) ?_) ?_)
  · exact (readyIn_sublist fun r' _ hr' => (hready hr').2).cons_cons r
  · exact newIn_sublist fun r' _ hn' => hnew r' hn'

/-- The probe of a request calls the classifier. -/
theorem InTurn.probeCalled (h : InTurn s d) (hd : Reachable s d) (he : Reachable s e)
    (hq : d.requests[r]? = some q) {path : String} {probe : Probe} (hp : q.probe = .ready path)
    (hn : probe.isReady = false) (hnow : d.agenda.now = .probe r :: now)
    (hafter : e.agenda.jobs = (now ++ d.agenda.next) ++ more)
    (ho : e.outlines = d.outlines.modify r ({ · with probe := probe }))
    (hc : e.callers = d.callers ++ [(r, path)]) : InTurn s e := by
  have hr : d.isReady r = true := isReady_iff.mpr ⟨q, path, hq, hp⟩
  obtain ⟨-, hcanonical, hphase, -⟩ := h.ready (outline_of_request hq) hp
  have hphase : q.outline.phase.isNew = false := by rw [hphase]; rfl
  have hself := outline_of_modify hq ho
  obtain ⟨hmap, honce, hpath⟩ := h.callers_concat (h.not_called_of_ready hr) hc
  refine h.yields (h.yields_of_modify hd he (Or.inr rfl) hnow hafter ho (Or.inr ⟨path, hc⟩)) ?_
    honce hself (fun p hmem => ?_) (fun p hp' => ?_) (.inr (.inl ?_))
  · exact h.order_probe hd he hr hnow hafter ho ((isReady_eq hself).trans hn)
      ((isNew_eq hself).trans hphase) hmap
  · rw [hpath p hmem]
    exact ⟨hcanonical, hphase, hn⟩
  · have hp' : probe = .ready p := hp'
    rw [hp'] at hn
    cases hn
  · rw [hmap]
    exact List.mem_append_right _ (List.mem_singleton_self r)

end Turn

/-! ## Moves and runs -/

theorem GoingBy.jobs_eq {p : Job → Bool} (h : GoingBy p d e) :
    ∃ more, e.agenda.jobs = d.agenda.jobs ++ more := by
  obtain ⟨more, hmore, -⟩ := h.next
  exact ⟨more, by rw [Agenda.jobs, h.now, hmore, ← List.append_assoc, Agenda.jobs]⟩

theorem Issuing.silent_step {subject? : Option (Nat × String)} {now : List Job}
    (h : Issuing subject?.toList { d with agenda := { d.agenda with now := now } } e) :
    Silent d e :=
  Issuing.silent ⟨h.outlines, h.callers, h.timers⟩

theorem Issuing.silent_turn {now : List Job}
    (h : Steady { d with agenda := { d.agenda with now := now } } e) : Silent d e :=
  @Issuing.silent_step σ d e none now h

/-- The job at the front of the line leaves it, and others may come in behind. -/
theorem jobs_of_turn {j : Job} {now : List Job} (hnow : d.agenda.now = j :: now) :
    ∃ more, (d.move s .step).agenda.jobs = (now ++ d.agenda.next) ++ more := by
  rw [move_step_of_now hnow]
  exact (goingBy_run { d with agenda := { d.agenda with now := now } } j).jobs_eq

/-- A turn that begins nothing. -/
theorem InTurn.silentTurn (h : InTurn s d) (hd : Reachable s d) {j : Job} {now : List Job}
    (hnow : d.agenda.now = j :: now)
    (hs : Silent d (run s { d with agenda := { d.agenda with now := now } } j))
    (hnew : ∀ r, j = .request r → d.isNew r = false)
    (hready : ∀ r, j = .probe r → d.isReady r = false) : InTurn s (d.move s .step) := by
  have hbefore : d.agenda.jobs = [j] ++ (now ++ d.agenda.next) := jobs_of_now hnow
  obtain ⟨more, hafter⟩ := jobs_of_turn (s := s) hnow
  rw [← move_step_of_now hnow] at hs
  refine h.silent hd (hd.move .step) hs hbefore hafter (fun r hr => hnew r ?_)
    fun r hr => hready r ?_
  · exact (List.mem_singleton.mp hr).symm
  · exact (List.mem_singleton.mp hr).symm

theorem InTurn.requestTurn (h : InTurn s d)
    (hlimit : ∀ limit, s.limit = some limit → ¬ limit ≤ 0.0) (hd : Reachable s d)
    {now : List Job} (hnow : d.agenda.now = .request r :: now) : InTurn s (d.move s .step) := by
  cases hq : d.requests[r]? with
  | none =>
    refine h.silentTurn hd hnow ?_ (fun r' hr' => ?_) (by simp)
    · simp only [run, runRequest, hq]
      exact silent_of rfl rfl
    · obtain rfl := Job.request.inj hr'
      rw [isNew, outlines_getElem?, hq]
      rfl
  | some q =>
    by_cases hs : q.stage = .created
    · have hbegin : d.move s .step =
          beginRequest s { d with agenda := { d.agenda with now := now } } r q := by
        rw [move_step_of_now hnow]
        simp only [run, runRequest, hq, hs]
      obtain ⟨more, hafter⟩ := jobs_of_turn (s := s) hnow
      refine h.firstRun hd (hd.move .step) hq hs hnow hafter hlimit ?_
      rw [hbegin]
      exact firstRun_beginRequest hq
    · obtain ⟨phase, hleads, ha⟩ :=
        advances_runRequest (s := s) (d := { d with agenda := { d.agenda with now := now } }) hq hs
      obtain ⟨hphase, hended⟩ := hleads.spec
      have hod := outline_of_request hq
      have hn : q.outline.phase.isNew = false := by
        rw [← Bool.not_eq_true, Stage.isNew_iff]
        exact fun hnew => hs (Stage.phase_eq_created.mp hnew)
      have hready := h.not_ready_of_turn hd hnow
      rw [isReady_eq hod] at hready
      refine h.silentTurn hd hnow ?_ (fun r' hr' => ?_) (by simp)
      · refine silent_modify ha.callers ha.outlines fun o ho => ?_
        obtain rfl := Option.some.inj (hod.symm.trans ho)
        refine ⟨rfl, hphase.trans hn.symm, fun _ => Iff.rfl, fun hr => ?_, hended⟩
        rw [hready] at hr
        cases hr
      · obtain rfl := Job.request.inj hr'
        exact (isNew_eq hod).trans hn

theorem InTurn.probeTurn (h : InTurn s d) (hd : Reachable s d) {now : List Job}
    (hnow : d.agenda.now = .probe r :: now) : InTurn s (d.move s .step) := by
  cases hq : d.requests[r]? with
  | none =>
    refine h.silentTurn hd hnow ?_ (by simp) (fun r' hr' => ?_)
    · simp only [run, runProbe, hq]
      exact silent_of rfl rfl
    · obtain rfl := Job.probe.inj hr'
      rw [isReady, outlines_getElem?, hq]
      rfl
  | some q =>
    cases probeRun_runProbe (s := s) (d := { d with agenda := { d.agenda with now := now } })
      hq with
    | called hp _ hn ho hc _ =>
      obtain ⟨more, hafter⟩ := jobs_of_turn (s := s) hnow
      have hrun := move_step_of_now (s := s) hnow
      refine h.probeCalled hd (hd.move .step) hq hp hn hnow hafter ?_ ?_
      · rw [hrun]
        exact ho
      · rw [hrun]
        exact hc
    | @silent probe hhalt hn ho hc _ =>
      have hod := outline_of_request hq
      have hready : d.isReady r = false := by
        by_contra hr
        rw [Bool.not_eq_false] at hr
        have hhalting := (h.runs_of_ready hd hr).2 q hq
        rw [isReady_eq hod] at hr
        rw [hhalt hr] at hhalting
        cases hhalting
      have hnot : q.probe.isReady = false := (isReady_eq hod).symm.trans hready
      refine h.silentTurn hd hnow ?_ (by simp) (fun r' hr' => ?_)
      · refine silent_modify hc ho fun o ho => ?_
        obtain rfl := Option.some.inj (hod.symm.trans ho)
        refine ⟨rfl, rfl, fun path => ⟨fun hp => ?_, fun hp => ?_⟩, fun _ => rfl, fun _ => id⟩
        · have hp : probe = .ready path := hp
          rw [hp] at hn
          cases hn
        · have hp : q.probe = .ready path := hp
          rw [hp] at hnot
          cases hnot
      · obtain rfl := Job.probe.inj hr'
        exact hready

/-- The job at the front of the line has its turn. -/
theorem InTurn.job (h : InTurn s d) (hlimit : ∀ limit, s.limit = some limit → ¬ limit ≤ 0.0)
    (hd : Reachable s d) {j : Job} {now : List Job} (hnow : d.agenda.now = j :: now) :
    InTurn s (d.move s .step) := by
  cases j with
  | request r => exact h.requestTurn hlimit hd hnow
  | probe r => exact h.probeTurn hd hnow
  | probeEnded r =>
    exact h.silentTurn hd hnow (Issuing.silent_turn (steady_tellProbeEnded _ r)) (by simp)
      (by simp)
  | requestEnded r =>
    obtain ⟨ho, hc, -⟩ :=
      outlines_tellRequestEnded ({ d with agenda := { d.agenda with now := now } } : Desk σ) r
    refine h.silentTurn hd hnow (silent_modify hc ho fun o _ => ?_) (by simp) (by simp)
    exact ⟨rfl, rfl, fun _ => Iff.rfl, fun _ => rfl, fun _ => id⟩
  | limit r =>
    exact h.silentTurn hd hnow (Issuing.silent_turn (steady_tellLimit _ r)) (by simp) (by simp)
  | errand k =>
    exact h.silentTurn hd hnow (Issuing.silent_step (issuing_runErrand _ k)) (by simp) (by simp)

theorem InTurn.move (h : InTurn s d) (hlimit : ∀ limit, s.limit = some limit → ¬ limit ≤ 0.0)
    (hd : Reachable s d) (m : Move σ) : InTurn s (d.move s m) := by
  have hmore {more : List Job} (hs : Silent d (d.move s m))
      (hafter : (d.move s m).agenda.jobs = d.agenda.jobs ++ more) : InTurn s (d.move s m) :=
    h.silent hd (hd.move m) hs (List.nil_append d.agenda.jobs).symm hafter (by simp) (by simp)
  by_cases hm : m = .step
  · subst hm
    cases hnow : d.agenda.now with
    | cons j now => exact h.job hlimit hd hnow
    | nil =>
      cases hpass : d.nextPass with
      | none =>
        have hsame : d.move s .step = d := by simp only [Desk.move, step, hnow, hpass]; rfl
        rw [hsame]
        exact h
      | some e =>
        have hmove : d.move s .step = e := by simp only [Desk.move, step, hnow, hpass]; rfl
        obtain ⟨ho, hc⟩ := nextPass_outlines hpass
        obtain ⟨-, -, due, ha⟩ := nextPass_spec hpass
        have hs : Silent d (d.move s .step) := by
          rw [hmove]
          exact silent_of hc ho
        apply hmore hs
        rw [hmove, ha, Agenda.jobs, Agenda.jobs, hnow, List.append_nil, List.nil_append]
  · obtain ⟨more, hafter⟩ := (goingBy_move (s := s) d hm).jobs_eq
    exact hmore (issuing_move d hm).silent hafter

theorem Reachable.inTurn (hlimit : ∀ limit, s.limit = some limit → ¬ limit ≤ 0.0)
    (hd : Reachable s d) : InTurn s d := by
  obtain ⟨world, paths, ms, rfl⟩ := hd
  induction ms using List.reverseRecOn with
  | nil =>
    have hnil : ((opening world paths).after s []).outlines = [] := rfl
    refine ⟨List.Pairwise.nil, List.nodup_nil, fun hc => ?_, fun ho => ?_, fun ho => ?_⟩
    · exact absurd hc List.not_mem_nil
    · simp [hnil] at ho
    · simp [hnil] at ho
  | append_singleton ms m ih =>
    rw [after_concat]
    exact ih.move hlimit ((reachable_opening world paths).after ms) m

end Desk
end Admission
