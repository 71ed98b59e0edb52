import Admission.Proofs.Waiting
import Mathlib.Tactic.IntervalCases

/-!
# Paths that are to be classified

An errand that sets the path of the dialog that is shown, and is to wait, gives a path that has been
classified, if the dialog is left alone meanwhile and its request is answered: but only if the path
is another one than the dialog had. If it is the same, the errand ends at once with what is known,
and does not wait for the request that may be under way for it.
-/
namespace Admission
namespace Desk

variable {σ : Type} {s : Setting σ} {d e : Desk σ} {i k : Nat} {m : Move σ} {ms : List (Move σ)}
  {x : Dialog} {path : String} {v : Ending}

/-- On the run `ms` from `d`, dialog `i` stays open, keeps its path and issues no request. -/
def LeftAlone (s : Setting σ) (d : Desk σ) (ms : List (Move σ)) (i : Nat) : Prop :=
  ∀ n, ∃ x y, d.dialogs[i]? = some x ∧ (d.after s (ms.take n)).dialogs[i]? = some y ∧
    y.closed = false ∧ y.path = x.path ∧ y.issued = x.issued

theorem edit_of_asks {d : Desk σ} (hx : d.dialogs[i]? = some x) (ha : x.asks path = true) :
    (d.edit i path).2 = some d.requests.length ∧
      (d.edit i path).1.requests =
        d.requests ++ [{ dialog := i, number := x.issued + 1, path := path }] ∧
      (d.edit i path).1.dialogs[i]? = some (x.edit path) := by
  refine ⟨?_, ?_, ?_⟩
  · simp [edit, hx, ask, ha]
  · simp [edit, hx, ask, ha, onDialog, enqueue]
  · rw [dialogs_edit, List.getElem?_modify_eq, hx]
    rfl

/-- The text that is there already is no edit: the errand ends at once. -/
theorem StartsToWait.same_path (h : StartsToWait d m k i (.changePath path true) e)
    (hx : d.dialogs[i]? = some x) (hp : path = x.path) :
    (d.move s m).progress? k = some (.ended (.gave (.shown x.snapshot))) ∧
      (d.move s m).requests = d.requests := by
  obtain ⟨hruns, hk, hi⟩ := h
  have hx : e.dialogs[i]? = some x := hruns.found.dialogs ▸ hx
  have hi : e.current = some i := hruns.found.current.trans hi
  have hstart : d.move s m = e.endErrand k (.gave (.shown x.snapshot)) := by
    rw [hruns.move]
    simp [runErrand, hk, beginErrand, onCurrent, hi, amend, hx, Dialog.target?, hp, afterEdit,
      report, snapshot?]
  rw [hstart]
  exact ⟨progress?_endErrand hk _, hruns.requests⟩

/-- Another text is an edit: the errand waits for the request that it calls for. -/
theorem StartsToWait.other_path (h : StartsToWait d m k i (.changePath path true) e)
    (hx : d.dialogs[i]? = some x) (ha : x.asks path = true) (hp : path ≠ x.path) :
    (d.move s m).progress? k = some (.watching i d.requests.length .waiting) ∧
      (d.move s m).requests[d.requests.length]? =
        some { dialog := i, number := x.issued + 1, path := path } ∧
      (d.move s m).dialogs[i]? = some (x.edit path) := by
  obtain ⟨hruns, hk, hi⟩ := h
  have hx : e.dialogs[i]? = some x := hruns.found.dialogs ▸ hx
  have hi : e.current = some i := hruns.found.current.trans hi
  obtain ⟨hr, hrequests, hdialog⟩ := edit_of_asks hx ha
  have hstart : d.move s m =
      (e.edit i path).1.await k (.watching i e.requests.length .waiting) := by
    rw [hruns.move]
    simp [runErrand, hk, beginErrand, onCurrent, hi, amend, hx, Dialog.target?, hp, afterEdit, hr]
  have herrand : (e.edit i path).1.errands[k]? = some { operation := .changePath path true } :=
    (congrArg (·[k]?) (aloof_edit e i path).errands).trans hk
  rw [hstart, ← hruns.requests]
  refine ⟨progress?_onErrand herrand _, ?_, hdialog⟩
  exact (congrArg (·[e.requests.length]?) hrequests).trans List.getElem?_concat_length

/-- The answer to the newest request of an open dialog is what the dialog shows. -/
theorem Booked.classified (hb : Booked d) {r : Nat} {q : Request} {c : Classification}
    {applied : Bool} (hx : d.dialogs[i]? = some x) (ho : x.closed = false) (hp : x.path ≠ "")
    (hq : d.requests[r]? = some q) (hi : q.dialog = i) (hn : q.number = x.issued)
    (hv : q.verdict? = some (.answered c applied)) : x.classification = .settled c := by
  obtain ⟨r', l, hl, hdialog, hnumber, -, hshown⟩ := (hb.agrees hx).live ho hp
  obtain ⟨-, rfl⟩ := InOrder.unique hb.ordered (issue_of_request hq) hl (hi.trans hdialog.symm)
    (hn.trans hnumber.symm)
  exact (hshown hv).2

/-- How a request ended is known from when it is over. -/
theorem verdict_of_over {r : Nat} (ho : Over d r) (ms : List (Move σ)) {q : Request} {v : Verdict}
    (hq : (d.after s ms).requests[r]? = some q) (hv : q.verdict? = some v) :
    ∃ q', d.requests[r]? = some q' ∧ q'.verdict? = some v := by
  obtain ⟨q', w, hq', hw⟩ := ho
  obtain ⟨q'', hq'', -, -, hkept⟩ := request_kept (linesKept_after (s := s) d ms) hq'
  obtain rfl := Option.some.inj (hq.symm.trans hq'')
  exact ⟨q', hq', hw.trans ((hkept w hw).symm.trans hv)⟩

/-- Where an errand has ended that waited for request `r` after its start. -/
theorem Stands.ended_with {op : Operation} {r : Nat} {a : Signal}
    (h : Stands s d (m :: ms) k i op)
    (hstart : (d.move s m).progress? k = some (.watching i r a))
    (hv : (d.after s (m :: ms)).progress? k = some (.ended v)) :
    ∃ before n later c, ms = before ++ n :: later ∧ EndedWith s d (m :: before) n k i op v ∧
      (d.after s (m :: before)).progress? k = some (.watching i r c) := by
  rcases h with ⟨x, h⟩ | ⟨before, n, later, w, hms, hended, hw⟩
  · exact absurd hv (h.unended v)
  · obtain rfl := Progress.ended.inj (Option.some.inj (hw.symm.trans hv))
    cases before with
    | nil =>
      obtain ⟨rfl, rfl⟩ := List.cons.inj hms
      cases hstart.symm.trans hended.ended
    | cons m' before =>
      obtain ⟨rfl, rfl⟩ := List.cons.inj hms
      rcases watching_after (s := s) hstart before with ⟨c, hc⟩ | ⟨u, hu⟩
      · exact ⟨before, n, later, c, rfl, hended, hc⟩
      · exact absurd hu (hended.unended u)

/-- Once request `r` is over, the newest one of a dialog that is left alone, that dialog shows the
answer to it. -/
theorem LeftAlone.classified {before later : List (Move σ)} {n : Move σ} {r : Nat} {q q' : Request}
    {c : Classification} {applied : Bool} (h : LeftAlone s d (before ++ n :: later) i)
    (hd : Reachable s d) (hx : d.dialogs[i]? = some x) (hp : x.path ≠ "")
    (hq : d.requests[r]? = some q) (hi : q.dialog = i) (hn : q.number = x.issued)
    (hover : Over (d.after s before) r)
    (hq' : (d.after s (before ++ n :: later)).requests[r]? = some q')
    (hv : q'.verdict? = some (.answered c applied)) :
    ∃ y, ((d.after s before).move s n).dialogs[i]? = some y ∧ y.path = x.path ∧
      y.classification = .settled c := by
  obtain ⟨x', y, hx', hy, hopen, hpath, hissued⟩ := h (before.length + 1)
  obtain rfl := Option.some.inj (hx.symm.trans hx')
  have htake : (before ++ n :: later).take (before.length + 1) = before ++ [n] := by
    rw [List.append_cons]
    exact List.take_left' (by simp)
  rw [htake, after_append] at hy
  rw [after_append] at hq'
  -- the answer was there before move `n`, and stays what it is
  obtain ⟨q₁, hq₁, hv₁⟩ := verdict_of_over hover (n :: later) hq' hv
  obtain ⟨q₂, hq₂, -, -, hkept⟩ := request_kept (linesKept_after (s := s) _ [n]) hq₁
  obtain ⟨q₃, hq₃, hdialog, hnumber, -⟩ :=
    request_kept (linesKept_after (s := s) d (before ++ [n])) hq
  rw [after_append] at hq₃
  obtain rfl := Option.some.inj (hq₂.symm.trans hq₃)
  have hb : Booked ((d.after s before).move s n) := ((hd.after before).move n).booked
  exact ⟨y, hy, hpath, hb.classified hy hopen (hpath ▸ hp) hq₂ (hdialog.trans hi)
    (hnumber.trans (hn.trans hissued.symm)) (hkept _ hv₁)⟩

/-- A path that is set and waited for is classified when the errand ends, if it is another one than
the dialog had, the dialog is left alone, and the request is answered; the errand does end then. If
the path is the one that is there, the errand ends at once with what is shown, and no request is
made. -/
theorem other_path_is_classified (hd : Reachable s d) (hx : d.dialogs[i]? = some x)
    (ho : x.closed = false) (hpath : path ≠ "")
    (h : StartsToWait d m k i (.changePath path true) e) :
    (path = x.path → (d.move s m).progress? k = some (.ended (.gave (.shown x.snapshot))) ∧
      (d.move s m).requests = d.requests) ∧
    (path ≠ x.path →
      (d.move s m).requests[d.requests.length]? =
        some { dialog := i, number := x.issued + 1, path := path } ∧
      ∀ (ms : List (Move σ)) (q : Request) (c : Classification) (applied : Bool),
        LeftAlone s (d.move s m) ms i → .cancelErrand k ∉ ms →
        (d.after s (m :: ms)).requests[d.requests.length]? = some q →
        q.verdict? = some (.answered c applied) →
        (∃ n v, (d.after s (m :: ms ++ List.replicate n .step)).progress? k =
          some (.ended v)) ∧
        ∀ v, (d.after s (m :: ms)).progress? k = some (.ended v) →
          ∃ g, v = .gave (.shown g) ∧ g.path = path ∧ g.classification = .settled c) := by
  refine ⟨h.same_path hx, fun hne => ?_⟩
  have hasks : x.asks path = true := by simp [Dialog.asks, ho, hpath]
  obtain ⟨hstart, hrequest, hdialog⟩ := h.other_path (s := s) hx hasks hne
  refine ⟨hrequest, fun ms q c applied halone hcancel hq hv => ?_⟩
  have hstands : Stands s d (m :: ms) k i (.changePath path true) := (h.stands hd).append hd ms
  refine ⟨?_, fun v hended => ?_⟩
  · rcases watching_after (s := s) hstart ms with ⟨a, hw⟩ | ⟨v, hw⟩
    · exact hstands.ends hd hw ⟨q, _, hq, hv⟩
    · exact ⟨0, v, by rw [List.replicate_zero, List.append_nil]; exact hw⟩
  · obtain ⟨before, n, later, a, rfl, hwith, hw⟩ := hstands.ended_with hstart hended
    cases hwith.ends with
    | reported hreported hover =>
      obtain ⟨g, hg, rfl⟩ := hreported
      have hedit : (x.edit path).path = path := (Dialog.edit_of_asks hasks).1
      have hissued : (x.edit path).issued = x.issued + 1 := by
        rw [Dialog.issued_edit, if_pos hasks]
      obtain ⟨y, hy, hypath, hshown⟩ := halone.classified (hd.move m) hdialog
        (hedit.symm ▸ hpath) hrequest rfl hissued.symm (hover _ _ hw) hq hv
      have hsnapshot : ((d.after s (m :: before)).move s n).snapshot? i = some y.snapshot :=
        congrArg (Option.map Dialog.snapshot) hy
      obtain rfl := Option.some.inj (hg.symm.trans hsnapshot)
      exact ⟨_, rfl, hypath.trans hedit, hshown⟩
    | cancelled hc =>
      rcases List.mem_cons.mp hc with rfl | hc
      · cases h.runs
      · exact absurd (List.mem_append_left _ hc) hcancel
    | failed hw' hq' hv' =>
      cases hw.symm.trans hw'
      have hlater : d.after s (m :: (before ++ n :: later)) =
          (d.after s (m :: before)).after s (n :: later) :=
        after_append d (m :: before) (n :: later)
      rw [hlater] at hq
      obtain ⟨q'', hq'', -, -, hkept⟩ := request_kept (linesKept_after (s := s) _ (n :: later)) hq'
      obtain rfl := Option.some.inj (hq.symm.trans hq'')
      cases hv.symm.trans (hkept _ hv')
    | refused _ hop => cases hop

/-- Where a run has ended, nothing more happens. -/
theorem leftAlone_of_le (h : ∀ n ≤ ms.length, ∃ x y, d.dialogs[i]? = some x ∧
    (d.after s (ms.take n)).dialogs[i]? = some y ∧ y.closed = false ∧ y.path = x.path ∧
      y.issued = x.issued) : LeftAlone s d ms i := by
  intro n
  rcases Nat.le_total n ms.length with hn | hn
  · exact h n hn
  · have hall := h ms.length (Nat.le_refl _)
    rwa [List.take_length, ← List.take_of_length_le hn] at hall

/-- A dialog is opened without a path. -/
def noPath : Desk Unit := (opening () []).after (patient "") [.perform (.openDialog "" false)]

/-- The request is made, answered and ended, and who waits for it goes on. -/
def answeredOnce : List (Move Unit) :=
  [.step, .step, .answer 0 (.ok .valid), .step, .step, .step, .step, .step, .step]

theorem leftAlone_answeredOnce :
    LeftAlone (patient "") (noPath.move (patient "") (.perform (.changePath "/a" true)))
      answeredOnce 0 := by
  refine leftAlone_of_le fun n hn => ?_
  have hn : n ≤ 9 := hn
  interval_cases n <;> exact ⟨_, _, rfl, rfl, rfl, rfl, rfl⟩

theorem other_path_is_classified_answered :
    ∃ g, (noPath.after (patient "") (.perform (.changePath "/a" true) ::
        answeredOnce)).progress? 1 = some (.ended (.gave (.shown g))) ∧ g.path = "/a" ∧
      g.classification = .settled .valid := by
  have h := other_path_is_classified (s := patient "") (d := noPath) (k := 1) (i := 0)
    (m := .perform (.changePath "/a" true)) ⟨(), [], _, rfl⟩ rfl rfl (by decide)
    ⟨.atOnce _, rfl, rfl⟩
  obtain ⟨g, hv, hpath, hshown⟩ := ((h.2 (by decide)).2 answeredOnce _ .valid true
    leftAlone_answeredOnce (by simp [answeredOnce]) rfl rfl).2 _ rfl
  exact ⟨g, by rw [← hv]; rfl, hpath, hshown⟩

/-- Setting the path that is there already, to wait for it, gives what is not classified, though the
request for it is answered while the dialog is left alone. -/
theorem same_path_not_classified :
    ¬ ∀ (d e : Desk Unit) (m : Move Unit) (ms : List (Move Unit)) (k i : Nat) (x : Dialog)
      (path : String) (v : Ending), Reachable (patient "") d → d.dialogs[i]? = some x →
      x.closed = false → path ≠ "" → StartsToWait d m k i (.changePath path true) e →
      LeftAlone (patient "") (d.move (patient "") m) ms i → .cancelErrand k ∉ ms →
      (∀ q ∈ (d.after (patient "") (m :: ms)).requests,
        ∃ c applied, q.verdict? = some (.answered c applied)) →
      (d.after (patient "") (m :: ms)).progress? k = some (.ended v) →
      ∃ g, v = .gave (.shown g) ∧ g.path = path ∧ g.classification ≠ .pending := by
  intro h
  have halone : LeftAlone (patient "") (oneOpened.move (patient "")
      (.perform (.changePath "/a" true))) (answeredOnce.take 5) 0 := by
    refine leftAlone_of_le fun n hn => ?_
    have hn : n ≤ 5 := hn
    interval_cases n <;> exact ⟨_, _, rfl, rfl, rfl, rfl, rfl⟩
  have hanswers : (oneOpened.after (patient "") (.perform (.changePath "/a" true) ::
      answeredOnce.take 5)).requests.map Request.verdict? = [some (.answered .valid true)] := rfl
  have hall : ∀ q ∈ (oneOpened.after (patient "") (.perform (.changePath "/a" true) ::
      answeredOnce.take 5)).requests, ∃ c applied, q.verdict? = some (.answered c applied) := by
    intro q hq
    have hmem := List.mem_map_of_mem (f := Request.verdict?) hq
    rw [hanswers] at hmem
    exact ⟨_, _, List.mem_singleton.mp hmem⟩
  obtain ⟨g, hg, -, hshown⟩ := h oneOpened _ (.perform (.changePath "/a" true))
    (answeredOnce.take 5) 1 0 _ "/a" _ ⟨(), [], _, rfl⟩ rfl rfl (by decide)
    ⟨.atOnce _, rfl, rfl⟩ halone (by simp [answeredOnce]) hall rfl
  cases hg
  exact hshown rfl

end Desk
end Admission
