import Admission.Proofs.Desk.CallOrder
import Admission.Proofs.Desk.Endings
import Admission.Proofs.Homeless

/-!
# Requests are accounted for

The calls of the classifier for a dialog are those for the paths that were put under review in it,
in order; the counter of the dialog is their number, and those that it counts as outstanding are
the requests that have not ended. What the answers are, and whether they come, is not said.
-/
namespace Admission
namespace Desk

variable {σ : Type} {s : Setting σ} {d e : Desk σ} {i r : Nat}

/-- The paths for which the classifier was called for requests of dialog `i`, in order. -/
def callsFor (d : Desk σ) (i : Nat) : List String :=
  (d.callers.filter fun c => d.subjects[c.1]?.any (·.1 == i)).map Prod.snd

/-- The paths that a run puts under review in dialog `i`, in order. -/
def reviewsOf (s : Setting σ) (d : Desk σ) (ms : List (Move σ)) (i : Nat) : List String :=
  ((d.reviews s ms).filter (·.1 == i)).map Prod.snd

/-! ## Requests that count -/

/-- A request counts as outstanding until the word of its end has been heard. -/
def Counts (d : Desk σ) : Prop :=
  ∀ ⦃r : Nat⦄ ⦃o : Outline⦄, d.outlines[r]? = some o → (o.tracked = false → Over d r) ∧
    (Over d r → o.tracked = false ∨ .requestEnded r ∈ d.agenda.jobs)

/-- Only the word of its end takes a request from those that count. -/
theorem tracked_move (d : Desk σ) (m : Move σ) {o : Outline}
    (ho : (d.move s m).outlines[r]? = some o) :
    (o.tracked = true ∧ d.outlines[r]? = none) ∨ ∃ p, d.outlines[r]? = some p ∧
      (o.tracked = p.tracked ∨
        o.tracked = false ∧ m = .step ∧ ∃ rest, d.agenda.now = .requestEnded r :: rest) := by
  cases outlines_move (s := s) d m with
  | issues h =>
    rw [h] at ho
    rcases Nat.lt_or_ge r d.outlines.length with hr | hr
    · rw [List.getElem?_append_left hr] at ho
      exact Or.inr ⟨o, ho, Or.inl rfl⟩
    · rw [List.getElem?_append_right hr] at ho
      obtain ⟨subject, -, rfl⟩ := List.mem_map.mp (List.mem_of_getElem? ho)
      exact Or.inl ⟨rfl, List.getElem?_eq_none hr⟩
  | works _ h =>
    obtain ⟨g, hout, hg⟩ := h
    rw [hout] at ho
    obtain ⟨p, hp, rfl⟩ := getElem?_modify_eq_some_iff.mp ho
    refine Or.inr ⟨p, hp, Or.inl ?_⟩
    split
    · exact (hg p).2
    · rfl
  | @told r' rest _ hm hnow hout =>
    rw [hout] at ho
    obtain ⟨p, hp, rfl⟩ := getElem?_modify_eq_some_iff.mp ho
    refine Or.inr ⟨p, hp, ?_⟩
    by_cases hr : r' = r
    · subst hr
      exact Or.inr ⟨by rw [if_pos rfl], hm, rest, hnow⟩
    · rw [if_neg hr]
      exact Or.inl rfl

theorem over_iff_outline :
    Over d r ↔ ∃ o v, d.outlines[r]? = some o ∧ o.phase = .ended v := by
  constructor
  · rintro ⟨q, v, hq, hv⟩
    exact ⟨q.outline, v, outline_of_request hq, Request.phase_eq_ended.mpr hv⟩
  · rintro ⟨o, v, ho, hv⟩
    rw [outlines_getElem?] at ho
    obtain ⟨q, hq, rfl⟩ := Option.map_eq_some_iff.mp ho
    exact ⟨q, v, hq, Request.phase_eq_ended.mp hv⟩

theorem Counts.move (h : Counts d) (hd : Reachable s d) (m : Move σ) : Counts (d.move s m) := by
  intro r o ho
  rcases tracked_move d m ho with ⟨htracked, hnone⟩ | ⟨p, hp, htracked⟩
  · refine ⟨fun hf => ?_, fun hover => ?_⟩
    · rw [htracked] at hf
      cases hf
    · refine Or.inr ((announced_move d m hover).resolve_left fun hold => ?_)
      obtain ⟨p, v, hp, -⟩ := over_iff_outline.mp hold
      rw [hnone] at hp
      cases hp
  · obtain ⟨hover, hcounts⟩ := h hp
    refine ⟨fun hf => ?_, fun hended => ?_⟩
    · rcases htracked with hsame | ⟨-, -, rest, hnow⟩
      · exact over_move m (hover (hsame ▸ hf))
      · refine over_move m (over_of_told hd ?_)
        rw [Agenda.jobs, hnow]
        exact List.mem_append_left _ List.mem_cons_self
    · rcases announced_move d m hended with hold | hmem
      · rcases htracked with hsame | ⟨hf, -⟩
        · rcases hcounts hold with hf | hmem
          · exact Or.inl (hsame.trans hf)
          · rcases jobs_move (s := s) d m hmem with hmem | ⟨hm, rest, hnow⟩
            · exact Or.inr hmem
            · refine Or.inl ?_
              subst hm
              have hout := (outlines_tellRequestEnded
                ({ d with agenda := { d.agenda with now := rest } } : Desk σ) r).1
              rw [move_step_of_now hnow, run, hout] at ho
              obtain ⟨p', -, rfl⟩ := getElem?_modify_eq_some_iff.mp ho
              rw [if_pos rfl]
        · exact Or.inl hf
      · exact Or.inr hmem

theorem Reachable.counts (hd : Reachable s d) : Counts d := by
  obtain ⟨world, paths, ms, rfl⟩ := hd
  induction ms using List.reverseRecOn with
  | nil =>
    intro r o ho
    have hnil : ((opening world paths).after s []).outlines = [] := rfl
    simp [hnil] at ho
  | append_singleton ms m ih =>
    rw [after_concat]
    exact ih.move ((reachable_opening world paths).after ms) m

/-- At rest the requests that count are those that have not ended. -/
theorem Reachable.inflight_of_rest (hd : Reachable s d) (h : d.step s = none) (i : Nat) :
    d.inflight i = d.requests.countP fun q => q.dialog == i && q.verdict?.isNone := by
  refine List.countP_congr fun q hq => ?_
  obtain ⟨r, hr⟩ := List.mem_iff_getElem?.mp hq
  have ho : d.outlines[r]? = some q.outline := by rw [outlines_getElem?, hr, Option.map_some]
  obtain ⟨hover, hcounts⟩ := hd.counts ho
  have htracked : q.tracked = q.verdict?.isNone := by
    cases hv : q.verdict? with
    | some v =>
      refine (hcounts ⟨q, v, hr, hv⟩).resolve_right fun hmem => ?_
      rw [jobs_of_rest h] at hmem
      cases hmem
    | none =>
      rw [Option.isNone_none, ← Bool.not_eq_false]
      intro hf
      obtain ⟨q', v, hq', hv'⟩ := hover hf
      obtain rfl := Option.some.inj (hr.symm.trans hq')
      rw [hv] at hv'
      cases hv'
  rw [htracked]

theorem after_of_rest (h : d.step s = none) (n : Nat) :
    d.after s (List.replicate n .step) = d := by
  induction n with
  | zero => rfl
  | succ n ih =>
    have hmove : d.move s .step = d := by rw [move, h, Option.getD_none]
    change (d.move s .step).after s (List.replicate n .step) = d
    rw [hmove, ih]

/-- At rest no request of a closed dialog counts. -/
theorem Reachable.inflight_of_closed (hd : Reachable s d) (h : d.step s = none) {x : Dialog}
    (hx : d.dialogs[i]? = some x) (hc : x.closed = true) : d.inflight i = 0 := by
  rw [hd.inflight_of_rest h, List.countP_eq_zero]
  intro q hq hcounts
  rw [Bool.and_eq_true, beq_iff_eq] at hcounts
  obtain ⟨rfl, hv⟩ := hcounts
  obtain ⟨r, hr⟩ := List.mem_iff_getElem?.mp hq
  obtain ⟨n, hover⟩ := over_of_closed hd hr hx hc
  rw [after_of_rest h] at hover
  obtain ⟨q', v, hq', hv'⟩ := hover
  obtain rfl := Option.some.inj (hr.symm.trans hq')
  rw [hv'] at hv
  cases hv

/-! ## Calls and reviews -/

/-- The part of a list that satisfies `p`, read place by place. -/
theorem map_filter_range {α β : Type} (l : List α) (p : α → Bool) (g : α → Option β) :
    ((List.range l.length).filter fun r => l[r]?.any p).map (fun r => l[r]?.bind g) =
      (l.filter p).map g := by
  induction l using List.reverseRecOn with
  | nil => rfl
  | append_singleton l a ih =>
    have hold {r : Nat} (hr : r ∈ List.range l.length) : (l ++ [a])[r]? = l[r]? :=
      List.getElem?_append_left (List.mem_range.mp hr)
    have hfilter : (List.range l.length).filter (fun r => (l ++ [a])[r]?.any p) =
        (List.range l.length).filter fun r => l[r]?.any p :=
      List.filter_congr fun r hr => by rw [hold hr]
    have hmap : ((List.range l.length).filter fun r => l[r]?.any p).map
        (fun r => (l ++ [a])[r]?.bind g) = (l.filter p).map g := by
      rw [← ih]
      exact List.map_congr_left fun r hr => by rw [hold (List.mem_of_mem_filter hr)]
    rw [List.length_append, List.length_singleton, List.range_succ, List.filter_append, hfilter,
      List.map_append, hmap, List.filter_append, List.map_append]
    cases hp : p a <;> simp [hp]

/-- The requests of dialog `i`, in the order of issue. -/
def requestsOf (d : Desk σ) (i : Nat) : List Nat :=
  (List.range d.subjects.length).filter fun r => d.subjects[r]?.any (·.1 == i)

/-- The canonical path of request `r`. -/
def target? (home : String) (d : Desk σ) (r : Nat) : Option String :=
  d.subjects[r]?.bind fun x => Path.canonical home x.2

theorem subjects_getElem? (d : Desk σ) (r : Nat) :
    d.subjects[r]? = d.outlines[r]?.map Outline.subject := by
  rw [subjects, List.getElem?_map]

theorem mem_requestsOf : r ∈ d.requestsOf i ↔ ∃ q, d.requests[r]? = some q ∧ q.dialog = i := by
  rw [requestsOf, List.mem_filter, List.mem_range, subjects_getElem?, outlines_getElem?]
  constructor
  · rintro ⟨-, hi⟩
    cases hq : d.requests[r]? with
    | none => simp [hq] at hi
    | some q => exact ⟨q, rfl, by simpa [hq, Request.outline, Outline.subject] using hi⟩
  · rintro ⟨q, hq, rfl⟩
    refine ⟨?_, by simp [hq, Request.outline, Outline.subject]⟩
    have hr := (List.getElem?_eq_some_iff.mp hq).1
    simpa [subjects, outlines] using hr

theorem reviewsOf_opening (world : σ) (paths : List String) (ms : List (Move σ)) (i : Nat) :
    reviewsOf s (opening world paths) ms i =
      (((opening world paths).after s ms).subjects.filter (·.1 == i)).map Prod.snd := by
  rw [reviewsOf, subjects_after]
  rfl

/-- The paths put under review in a dialog are those of its requests. -/
theorem map_reviewsOf (home : String) (world : σ) (paths : List String) (ms : List (Move σ))
    (i : Nat) : (reviewsOf s (opening world paths) ms i).map (Path.canonical home) =
      (((opening world paths).after s ms).requestsOf i).map
        (((opening world paths).after s ms).target? home) := by
  rw [reviewsOf_opening, List.map_map]
  exact (map_filter_range _ (fun x : Nat × String => x.1 == i)
    fun x => Path.canonical home x.2).symm

/-- The calls for a dialog are those that its requests have made. -/
theorem InTurn.map_callsFor (h : InTurn s d) (i : Nat) : (d.callsFor i).map some =
    ((d.callers.map Prod.fst).filter fun r => d.subjects[r]?.any (·.1 == i)).map
      (d.target? s.home) := by
  rw [callsFor, List.map_map, List.filter_map, List.map_map]
  refine List.map_congr_left fun c hc => ?_
  obtain ⟨o, ho, hp, -⟩ := h.called (show (c.1, c.2) ∈ d.callers from List.mem_of_mem_filter hc)
  rw [Function.comp_apply, Function.comp_apply, target?, subjects_getElem?, ho]
  exact hp.symm

/-- Each request has called once at most, in the order of issue. -/
theorem InTurn.callers_pairwise (h : InTurn s d) : (d.callers.map Prod.fst).Pairwise (· < ·) := by
  have horder := (List.pairwise_append.mp (List.pairwise_append.mp h.order).1).1
  exact horder.imp₂ (fun a b hle hne => Nat.lt_of_le_of_ne hle hne) h.once

theorem InTurn.callers_sublist (h : InTurn s d) :
    (d.callers.map Prod.fst).Sublist (List.range d.subjects.length) := by
  refine List.sublist_of_subperm_of_pairwise (r := (· ≤ ·)) ?_ ?_ ?_
  · refine h.once.subperm fun r hr => List.mem_range.mpr ?_
    have hlt := h.order_lt (List.mem_append_left _ (List.mem_append_left _ hr))
    rwa [subjects, List.length_map]
  · exact (List.pairwise_append.mp (List.pairwise_append.mp h.order).1).1
  · exact List.pairwise_le_range

/-- At rest, every request of an open dialog has called, unless its holder has cancelled it. -/
theorem called_of_rest (hhome : (Path.homeLocation? s.home).isSome = true)
    (hlimit : ∀ limit, s.limit = some limit → ¬ limit ≤ 0.0) (world : σ) (paths : List String)
    (ms : List (Move σ)) (hrest : ((opening world paths).after s ms).step s = none) {q : Request}
    (hq : ((opening world paths).after s ms).requests[r]? = some q) {x : Dialog}
    (hx : ((opening world paths).after s ms).dialogs[q.dialog]? = some x)
    (hopen : x.closed = false) (hheld : .cancelRequest r ∉ ms) :
    r ∈ ((opening world paths).after s ms).callers.map Prod.fst := by
  have hd := (reachable_opening (s := s) world paths).after ms
  have hturn := hd.inTurn hlimit
  have ho := outline_of_request hq
  rcases hturn.heard ho with hn | hready | hc | hv | hv
  · have hs := Stage.phase_eq_created.mp (Stage.isNew_iff.mp hn)
    exact absurd hs (hd.not_created_of_rest hrest hq)
  · have hcount := (hturn.runs_of_ready hd ((isReady_eq ho).trans hready)).1
    rw [jobs_of_rest hrest] at hcount
    cases hcount
  · exact hc
  · exact absurd (Request.phase_eq_ended.mp hv) (not_cancelled hq hx hopen hheld)
  · exact absurd (canonical_of_homeUnknown hd.orderly hq (Request.phase_eq_ended.mp hv))
      (Path.canonical_ne_none hhome q.path)

/-- The counter of a dialog is the number of its requests. -/
theorem Reachable.issued_eq (hd : Reachable s d) {x : Dialog} (hx : d.dialogs[i]? = some x) :
    x.issued = (d.requestsOf i).length := by
  have hb := hd.booked
  have ha := hb.agrees hx
  have hnumbers : ((d.issues.filter (·.dialog == i)).map Issue.number) =
      List.range' 1 x.issued := by
    refine List.Pairwise.eq_of_mem_iff (r := (· < ·)) ?_ List.pairwise_lt_range' fun n => ?_
    · rw [List.pairwise_map, List.pairwise_filter, List.pairwise_iff_getElem]
      intro r r' hr hr' hlt hi hi'
      rw [beq_iff_eq] at hi hi'
      exact hb.ordered hlt (List.getElem?_eq_getElem hr) (List.getElem?_eq_getElem hr')
        (hi.trans hi'.symm)
    · rw [List.mem_map, List.mem_range'_1]
      constructor
      · rintro ⟨l, hl, rfl⟩
        obtain ⟨hmem, hi⟩ := List.mem_filter.mp hl
        obtain ⟨r, hr⟩ := List.mem_iff_getElem?.mp hmem
        obtain ⟨hpos, hle, -⟩ := ha.owned hr (beq_iff_eq.mp hi)
        omega
      · intro hn
        obtain ⟨r, l, hl, hi, hnumber⟩ := ha.numbered (n := n) (by omega) (by omega)
        exact ⟨l, List.mem_filter.mpr ⟨List.mem_of_getElem? hl, beq_iff_eq.mpr hi⟩, hnumber⟩
  have hlength := congrArg List.length hnumbers
  have hsubjects := congrArg List.length
    (map_filter_range d.subjects (fun y : Nat × String => y.1 == i) fun y => some y.2)
  rw [List.length_map, List.length_range'] at hlength
  rw [List.length_map, List.length_map] at hsubjects
  have hsame : d.subjects = d.issues.map fun l => (l.dialog, l.path) := by
    rw [subjects, outlines, issues, List.map_map, List.map_map]
    rfl
  rw [← hlength, requestsOf, hsubjects, hsame, List.filter_map, List.length_map]
  rfl

/-- **Requests are accounted for.** With a home directory, and with a time limit above zero or none,
the classifier has at any time been called for paths of a dialog that were put under review on the
open dialog, each in its canonical form, in order and once at most. Once nothing is left to do, it
has been called for all of them as long as the dialog is open and no holder has cancelled a request
of it. The dialog's counter is the number of these paths. Once nothing is left to do, the requests
that it counts as outstanding are those that have not ended, and there are none if it is closed. -/
theorem requests_accounted_for (s : Setting σ)
    (hhome : (Path.homeLocation? s.home).isSome = true)
    (hlimit : ∀ limit, s.limit = some limit → ¬ limit ≤ 0.0) (world : σ) (paths : List String)
    (ms : List (Move σ)) (d : Desk σ) (hd : d = (opening world paths).after s ms) (i : Nat)
    (x : Dialog) (hx : d.dialogs[i]? = some x) :
    ((d.callsFor i).map some).Sublist
      ((reviewsOf s (opening world paths) ms i).map (Path.canonical s.home)) ∧
    (d.callers.map Prod.fst).Pairwise (· < ·) ∧
    x.issued = (reviewsOf s (opening world paths) ms i).length ∧
    (d.step s = none →
      (x.closed = false → (∀ r ∈ d.requestsOf i, Move.cancelRequest r ∉ ms) →
        (d.callsFor i).map some =
          (reviewsOf s (opening world paths) ms i).map (Path.canonical s.home)) ∧
      (d.inflight i = d.requests.countP fun q => q.dialog == i && q.verdict?.isNone) ∧
      (x.closed = true → d.inflight i = 0)) := by
  subst hd
  have hreach := (reachable_opening (s := s) world paths).after ms
  have hturn := hreach.inTurn hlimit
  have hmap := map_reviewsOf (s := s) s.home world paths ms i
  refine ⟨?_, hturn.callers_pairwise, ?_, fun hrest => ⟨fun hopen hheld => ?_,
    hreach.inflight_of_rest hrest i, hreach.inflight_of_closed hrest hx⟩⟩
  · rw [hturn.map_callsFor, hmap, requestsOf]
    exact (hturn.callers_sublist.filter _).map _
  · rw [hreach.issued_eq hx, ← List.length_map (f := target? s.home _), ← hmap, List.length_map]
  · rw [hturn.map_callsFor, hmap]
    refine congrArg (List.map _) (List.Pairwise.eq_of_mem_iff (r := (· < ·)) ?_ ?_ fun r => ?_)
    · exact hturn.callers_pairwise.filter _
    · exact List.pairwise_lt_range.filter _
    · constructor
      · intro hr
        exact (hturn.callers_sublist.filter _).subset hr
      · intro hr
        obtain ⟨q, hq, rfl⟩ := mem_requestsOf.mp hr
        refine List.mem_filter.mpr ⟨?_, (List.mem_filter.mp hr).2⟩
        exact called_of_rest hhome hlimit world paths ms hrest hq hx hopen (hheld r hr)

/-- A path of another user is put under review, and again once it is trusted. -/
def trustedOnce : List (Move Unit) :=
  [.edit 0 (.setPath "~/a"), .step, .step, .answer 0 (.ok (.dubious "/home/a")), .step, .step,
    .step, .step, .perform (.trust 0), .step, .step, .step]

/-- The classifier has been called twice for this path, and one request is outstanding. -/
theorem requests_accounted_for_trusted :
    (((opening () [""]).after (patient "/home") trustedOnce).callsFor 0).map some =
        [some "/home/a", some "/home/a"] ∧
      ((opening () [""]).after (patient "/home") trustedOnce).inflight 0 = 1 := by
  have hrest : ((opening () [""]).after (patient "/home") trustedOnce).step (patient "/home") =
      none := rfl
  have h := requests_accounted_for (patient "/home") (by decide) (by simp [patient]) () [""]
    trustedOnce _ rfl 0 _ rfl
  obtain ⟨hcalls, hcounts, -⟩ := h.2.2.2 hrest
  refine ⟨?_, hcounts.trans rfl⟩
  rw [hcalls rfl (by simp [trustedOnce])]
  decide

end Desk
end Admission
