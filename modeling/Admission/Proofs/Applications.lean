import Admission.Proofs.Desk.Answers

/-!
# The order of application

The numbers of the applied requests of a dialog grow, the applied number is the last of them, and an
answer is applied just if the dialog is open, the path is live and nothing later was applied. So the
answer after a trust outlasts those of before. In which order answers come in is left open.
-/
namespace Admission

/-- Whether the answer of a request counted for dialog `i`. -/
def Issue.appliedTo (q : Issue) (i : Nat) : Bool :=
  match q.verdict? with
  | some (.answered _ true) => q.dialog == i
  | _ => false

/-- The numbers of the requests whose answers count for dialog `i` in the later ledger, and did not
in the earlier one. -/
def newlyApplied (i : Nat) : List Issue → List Issue → List Nat
  | _, [] => []
  | [], q :: l' => (if q.appliedTo i then [q.number] else []) ++ newlyApplied i [] l'
  | p :: l, q :: l' =>
    (if q.appliedTo i && !p.appliedTo i then [q.number] else []) ++ newlyApplied i l l'

theorem Issue.appliedTo_iff {q : Issue} {i : Nat} :
    q.appliedTo i = true ↔ ∃ c, q.IsApplied i c := by
  unfold Issue.appliedTo Issue.IsApplied
  split
  · rename_i c hv
    simp [hv]
  · rename_i hv
    refine ⟨nofun, ?_⟩
    rintro ⟨c, -, hc⟩
    exact absurd hc (hv c)

theorem mem_newlyApplied {i n : Nat} {l l' : List Issue} :
    n ∈ newlyApplied i l l' ↔ ∃ (r : Nat) (q : Issue), l'[r]? = some q ∧ q.appliedTo i = true ∧
      q.number = n ∧ l[r]?.all (!·.appliedTo i) := by
  induction l' generalizing l with
  | nil => simp [newlyApplied]
  | cons q l' ih =>
    constructor
    · intro hn
      cases l with
      | nil =>
        rcases List.mem_append.mp hn with hn | hn
        · split at hn
          · rename_i ha
            exact ⟨0, q, rfl, ha, (List.mem_singleton.mp hn).symm, rfl⟩
          · cases hn
        · obtain ⟨r, p, hp, ha, hnum, -⟩ := ih.mp hn
          exact ⟨r + 1, p, hp, ha, hnum, rfl⟩
      | cons p l =>
        rcases List.mem_append.mp hn with hn | hn
        · split at hn
          · rename_i ha
            rw [Bool.and_eq_true] at ha
            exact ⟨0, q, rfl, ha.1, (List.mem_singleton.mp hn).symm, ha.2⟩
          · cases hn
        · obtain ⟨r, p, hp, ha, hnum, hold⟩ := ih.mp hn
          exact ⟨r + 1, p, hp, ha, hnum, hold⟩
    · rintro ⟨r, p, hp, ha, hnum, hold⟩
      cases l with
      | nil =>
        refine List.mem_append.mpr ?_
        cases r with
        | zero =>
          obtain rfl := Option.some.inj hp
          exact Or.inl (by simp [ha, hnum])
        | succ r => exact Or.inr (ih.mpr ⟨r, p, hp, ha, hnum, rfl⟩)
      | cons p' l =>
        refine List.mem_append.mpr ?_
        cases r with
        | zero =>
          obtain rfl := Option.some.inj hp
          have hold : (!p'.appliedTo i) = true := hold
          exact Or.inl (by simp [ha, hold, hnum])
        | succ r => exact Or.inr (ih.mpr ⟨r, p, hp, ha, hnum, hold⟩)

theorem newlyApplied_self (i : Nat) (l : List Issue) : newlyApplied i l l = [] := by
  induction l with
  | nil => rfl
  | cons q l ih => simp [newlyApplied, ih]

/-- Nothing is applied where no answer is entered. -/
theorem newlyApplied_of_noAnswer {i : Nat} {l l' : List Issue} (h : NoAnswer l l') :
    newlyApplied i l l' = [] := by
  refine List.eq_nil_iff_forall_not_mem.mpr fun n hn => ?_
  obtain ⟨r, q, hq, ha, -, hold⟩ := mem_newlyApplied.mp hn
  obtain ⟨c, hc⟩ := Issue.appliedTo_iff.mp ha
  rw [h hq hc.2] at hold
  simp [ha] at hold

/-- The end of one request applies that one, or none. -/
theorem newlyApplied_enterVerdict {i r : Nat} {l : List Issue} {q : Issue} {v : Verdict}
    (hq : l[r]? = some q) (hn : q.verdict? = none) :
    newlyApplied i l (enterVerdict l r v) =
      if Issue.appliedTo { q with verdict? := some v } i then [q.number] else [] := by
  have hopen : q.appliedTo i = false := by simp [Issue.appliedTo, hn]
  induction l generalizing r with
  | nil => cases hq
  | cons p l ih =>
    cases r with
    | zero =>
      obtain rfl := Option.some.inj hq
      simp [enterVerdict, newlyApplied, newlyApplied_self, hopen]
    | succ r =>
      have := ih (r := r) hq
      simp only [enterVerdict] at this
      simp [enterVerdict, newlyApplied, this]

/-- The numbers `ns` are those of the requests applied to dialog `i`, in growing order. -/
structure Chronicle (i : Nat) (l : List Issue) (ns : List Nat) : Prop where
  rising : ns.Pairwise (· < ·)
  mem : ∀ {n : Nat}, n ∈ ns ↔
    ∃ (r : Nat) (q : Issue) (c : Classification), l[r]? = some q ∧ q.IsApplied i c ∧ q.number = n

/-- Later numbers go to the end of a chronicle. -/
theorem Chronicle.append {i : Nat} {l l' : List Issue} {ns : List Nat} (h : Chronicle i l ns)
    (hl : LinesKept l l') (hr : (newlyApplied i l l').Pairwise (· < ·))
    (hlt : ∀ n ∈ ns, ∀ n' ∈ newlyApplied i l l', n < n') :
    Chronicle i l' (ns ++ newlyApplied i l l') where
  rising := List.pairwise_append.mpr ⟨h.rising, hr, hlt⟩
  mem {n} := by
    rw [List.mem_append, h.mem, mem_newlyApplied]
    constructor
    · rintro (⟨r, q, c, hq, ha, hn⟩ | ⟨r, q, hq, ha, hn, -⟩)
      · obtain ⟨v, hq', hv⟩ := hl hq
        exact ⟨r, _, c, hq', ⟨ha.1, hv _ ha.2⟩, hn⟩
      · obtain ⟨c, hc⟩ := Issue.appliedTo_iff.mp ha
        exact ⟨r, q, c, hq, hc, hn⟩
    · rintro ⟨r, q, c, hq, ha, hn⟩
      have happlied := Issue.appliedTo_iff.mpr ⟨c, ha⟩
      cases hp : l[r]? with
      | none => exact Or.inr ⟨r, q, hq, happlied, hn, by simp [hp]⟩
      | some p =>
        obtain ⟨v, hq', -⟩ := hl hp
        obtain rfl := Option.some.inj (hq.symm.trans hq')
        cases hold : p.appliedTo i with
        | false => exact Or.inr ⟨r, _, hq, happlied, hn, by simp [hp, hold]⟩
        | true =>
          obtain ⟨c', hc'⟩ := Issue.appliedTo_iff.mp hold
          exact Or.inl ⟨r, p, c', hp, hc', hn⟩

/-- The applied number of a dialog is the last of its chronicle. -/
theorem Agrees.applied_eq_last {i : Nat} {x : Dialog} {l : List Issue} {ns : List Nat}
    (h : Agrees i x l) (hc : Chronicle i l ns) : x.applied = ns.getLast?.getD 0 := by
  have hle {n : Nat} (hn : n ∈ ns) : 0 < n ∧ n ≤ x.applied := by
    obtain ⟨r, q, c, hq, ha, rfl⟩ := hc.mem.mp hn
    exact ⟨(h.owned hq ha.1).1, h.newest hq ha⟩
  cases hlast : ns.getLast? with
  | none =>
    rcases h.applied with h0 | ⟨r, q, c, hq, ha, hn⟩
    · exact h0
    · have hmem := hc.mem.mpr ⟨r, q, c, hq, ha, hn⟩
      rw [List.getLast?_eq_none_iff.mp hlast] at hmem
      cases hmem
  | some n =>
    obtain ⟨ms, rfl⟩ := List.getLast?_eq_some_iff.mp hlast
    obtain ⟨h0, hn⟩ := hle (List.mem_append_right ms (List.mem_singleton.mpr rfl))
    rcases h.applied with hz | ⟨r, q, c, hq, ha, hnum⟩
    · omega
    · have hmem := hc.mem.mpr ⟨r, q, c, hq, ha, hnum⟩
      rcases List.mem_append.mp hmem with hmem | hmem
      · have := (List.pairwise_append.mp hc.rising).2.2 _ hmem n (List.mem_singleton.mpr rfl)
        change x.applied = n
        omega
      · exact List.mem_singleton.mp hmem

/-- Nothing after a request has been applied if its number is not below the applied one. -/
theorem Agrees.applied_le_iff {i n : Nat} {x : Dialog} {l : List Issue} {ns : List Nat}
    (h : Agrees i x l) (hc : Chronicle i l ns) : x.applied ≤ n ↔ ∀ k ∈ ns, k ≤ n := by
  constructor
  · intro hle k hk
    obtain ⟨r, q, c, hq, ha, rfl⟩ := hc.mem.mp hk
    exact Nat.le_trans (h.newest hq ha) hle
  · intro hall
    rcases h.applied with h0 | ⟨r, q, c, hq, ha, hn⟩
    · omega
    · exact hall _ (hc.mem.mpr ⟨r, q, c, hq, ha, hn⟩)

namespace Desk

variable {σ : Type} {s : Setting σ} {d : Desk σ}

/-- The numbers of the requests of dialog `i` in the order in which a run applies their answers. -/
def applications (s : Setting σ) (i : Nat) : Desk σ → List (Move σ) → List Nat
  | _, [] => []
  | d, m :: ms => newlyApplied i d.issues (d.move s m).issues ++ applications s i (d.move s m) ms

theorem applications_concat (i : Nat) (d : Desk σ) (ms : List (Move σ)) (m : Move σ) :
    applications s i d (ms ++ [m]) = applications s i d ms ++
      newlyApplied i (d.after s ms).issues ((d.after s ms).move s m).issues := by
  induction ms generalizing d with
  | nil => simp [applications, after]
  | cons k ms ih =>
    rw [List.cons_append, applications, ih, applications, List.append_assoc]
    rfl

/-- What a move applies to a dialog is at most one request, later than all that were applied. -/
theorem newlyApplied_move (hb : Booked d) (m : Move σ) (i : Nat) {ns : List Nat}
    (hc : Chronicle i d.issues ns) :
    (newlyApplied i d.issues (d.move s m).issues).Pairwise (· < ·) ∧
      ∀ n ∈ ns, ∀ n' ∈ newlyApplied i d.issues (d.move s m).issues, n < n' := by
  have hnone {l : List Nat} (h : l = []) :
      l.Pairwise (· < ·) ∧ ∀ n ∈ ns, ∀ n' ∈ l, n < n' := by
    subst h
    exact ⟨.nil, fun _ _ _ hn => absurd hn List.not_mem_nil⟩
  rcases move_changes d m with h | ⟨r, e, q, o, hm, hr, hq, ho, he⟩
  · exact hnone (newlyApplied_of_noAnswer h.lines.2)
  · have hi : e.issues = d.issues := by rw [issues, hr, issues]
    have hline : d.issues[r]? = some q.issue := hi ▸ issue_of_request hq
    have hn : q.issue.verdict? = none := ho.verdict
    rw [he]
    rcases conclude_spec (s := s) hq o with ⟨f, -, -, hf⟩ | ⟨c, -, -, hv⟩
    · rw [hf, hi, newlyApplied_enterVerdict hline hn]
      exact hnone rfl
    · rw [hv, hi, hm.aloof.dialogs, newlyApplied_enterVerdict hline hn]
      split
      · rename_i happlied
        obtain ⟨c', hdialog, hverdict⟩ := Issue.appliedTo_iff.mp happlied
        obtain ⟨-, hacc⟩ := Verdict.answered.inj (Option.some.inj hverdict)
        obtain ⟨x, hx, hacc⟩ := (Option.any_eq_true _ _).mp hacc
        have hdialog : q.dialog = i := hdialog
        rw [hdialog] at hx
        refine ⟨List.pairwise_singleton _ _, fun n hns n' hn' => ?_⟩
        obtain rfl := List.mem_singleton.mp hn'
        obtain ⟨r', p, c'', hp, ha, rfl⟩ := hc.mem.mp hns
        have hle : p.number ≤ q.number :=
          Nat.le_trans ((hb.agrees hx).newest hp ha) ((Dialog.accepts_iff ..).mp hacc).2.2
        refine Nat.lt_of_le_of_ne hle fun hnum => ?_
        -- with the same number it would be the very request that had not ended
        obtain ⟨-, rfl⟩ := InOrder.unique hb.ordered hp hline (ha.1.trans hdialog.symm) hnum
        rw [ha.2] at hn
        cases hn
      · exact hnone rfl

/-- The applications of a run are the chronicle of the dialog. -/
theorem chronicle_applications (s : Setting σ) (world : σ) (paths : List String)
    (ms : List (Move σ)) (i : Nat) :
    Chronicle i ((opening world paths).after s ms).issues
      (applications s i (opening world paths) ms) := by
  induction ms using List.reverseRecOn with
  | nil =>
    refine ⟨List.Pairwise.nil, fun {n} => ⟨nofun, ?_⟩⟩
    rintro ⟨r, q, c, hq, -⟩
    cases hq
  | append_singleton ms m ih =>
    have hb := ((reachable_opening world paths).after ms).booked (s := s)
    obtain ⟨hrising, hlt⟩ := newlyApplied_move (s := s) hb m i ih
    rw [applications_concat, after_concat]
    exact ih.append (linesKept_move _ m) hrising hlt

/-- With move `m`, a trust for dialog `i` succeeds and calls for re-validation `n`. -/
def Revalidates (s : Setting σ) (d : Desk σ) (m : Move σ) (i n : Nat) : Prop :=
  ∃ x y, d.dialogs[i]? = some x ∧ (d.move s m).dialogs[i]? = some y ∧
    x.revalidation ≠ some n ∧ y.revalidation = some n

/-- The number of a re-validation is above those of all requests before it. -/
theorem Revalidates.lt {m : Move σ} {i n r : Nat} {q : Request} (h : Revalidates s d m i n)
    (hb : Booked d) (hq : d.requests[r]? = some q) (hd : q.dialog = i) : q.number < n := by
  obtain ⟨x, y, hx, hy, hne, he⟩ := h
  obtain ⟨y', hy', hgrown⟩ := dialogsGrown_move (s := s) d m hx
  obtain rfl := Option.some.inj (hy.symm.trans hy')
  have hle := ((hb.agrees hx).owned (issue_of_request hq) hd).2.1
  rcases hgrown.revalidation with hsame | hnone | ⟨k, hk, hlt⟩
  · exact absurd (hsame.symm.trans he) hne
  · rw [hnone] at he
    cases he
  · obtain rfl := Option.some.inj (hk.symm.trans he)
    exact Nat.lt_of_le_of_lt hle hlt

/-- The requests of a run are applied in the order of their numbers, and the applied number is the
last of these. An answer is applied just if its dialog is open, its path is live, and no later
request has been applied; once the re-validation of a trust has been, no answer to a request from
before that trust changes the dialog. -/
theorem applications_in_order (s : Setting σ) (world : σ) (paths : List String)
    (ms : List (Move σ)) {i : Nat} {x : Dialog}
    (hx : ((opening world paths).after s ms).dialogs[i]? = some x) :
    (applications s i (opening world paths) ms).Pairwise (· < ·) ∧
    x.applied = (applications s i (opening world paths) ms).getLast?.getD 0 ∧
    x.applied ≤ x.issued ∧
    (∀ (m : Move σ) (r : Nat) (q : Request) (c : Classification) (applied : Bool),
      Answered s ((opening world paths).after s ms) m r q c applied → q.dialog = i →
      (applied = true ↔ x.closed = false ∧ q.path = x.path ∧
        ∀ n ∈ applications s i (opening world paths) ms, n ≤ q.number) ∧
      (((opening world paths).after s ms).move s m).dialogs[i]? = some
        (if applied then
          { x with classification := .settled c, warning := .settled c, applied := q.number }
        else x)) ∧
    ∀ (before later : List (Move σ)) (trust : Move σ) (n : Nat), ms = before ++ trust :: later →
      Revalidates s ((opening world paths).after s before) trust i n →
      n ∈ applications s i (opening world paths) ms →
      ∀ (m : Move σ) (r : Nat) (q : Request) (c : Classification) (applied : Bool),
        Answered s ((opening world paths).after s ms) m r q c applied → q.dialog = i →
        r < ((opening world paths).after s before).requests.length →
        applied = false ∧ (((opening world paths).after s ms).move s m).dialogs[i]? = some x := by
  have hb := ((reachable_opening world paths).after ms).booked (s := s)
  have hc := chronicle_applications s world paths ms i
  have ha := hb.agrees hx
  refine ⟨hc.rising, ha.applied_eq_last hc, ha.applied_le, fun m r q c applied hans hd => ?_,
    fun before later trust n hms htrust hn m r q c applied hans hd hr => ?_⟩
  · obtain ⟨happlied, hdialog⟩ := hans.dialog hx hd
    refine ⟨?_, hdialog⟩
    rw [happlied, Dialog.accepts_iff, ha.applied_le_iff hc]
  · obtain ⟨happlied, hdialog⟩ := hans.dialog hx hd
    have hb' := ((reachable_opening world paths).after before).booked (s := s)
    -- the request was there before the trust, under the number that it has now
    have hp := List.getElem?_eq_getElem hr
    obtain ⟨v, hline, -⟩ :=
      linesKept_after (s := s) _ (trust :: later) (issue_of_request hp)
    rw [← after_append, ← hms, issue_of_request hans.before] at hline
    have hline := Option.some.inj hline
    have hlt := htrust.lt hb' hp ((congrArg Issue.dialog hline).symm.trans hd)
    have hnum : q.number < n := lt_of_eq_of_lt (congrArg Issue.number hline) hlt
    have hle : n ≤ x.applied := (ha.applied_le_iff hc).mp (Nat.le_refl _) n hn
    have hnot : applied = false := by
      rw [happlied, ← Bool.not_eq_true]
      intro hacc
      have := ((Dialog.accepts_iff ..).mp hacc).2.2
      omega
    rw [hnot] at hdialog
    exact ⟨hnot, hdialog⟩

/-- The second of two requests for a path finds another owner. -/
def beforeTrust : List (Move Unit) :=
  [.edit 0 (.setPath "/a"), .edit 0 .revalidate, .step, .step, .step,
    .answer 1 (.ok (.dubious "/o")), .step, .step]

/-- The re-validation is answered, and then the first request. -/
def sinceTrust : List (Move Unit) :=
  [.step, .step, .step, .answer 2 (.ok .valid), .step, .step, .answer 0 (.ok .bare), .step, .step]

/-- The run with the trust between the two. -/
def aroundTrust : List (Move Unit) := beforeTrust ++ .perform (.trust 0) :: sinceTrust

/-- The late answer to the first request is dropped. -/
theorem applications_in_order_around_trust :
    (∃ x, ((opening () [""]).after (patient "/root") aroundTrust).dialogs[0]? = some x ∧
      x.applied = 3 ∧ x.classification = .settled .valid ∧
      (((opening () [""]).after (patient "/root") aroundTrust).move (patient "/root")
        .step).dialogs[0]? = some x) ∧
    applications (patient "/root") 0 (opening () [""]) aroundTrust = [2, 3] := by
  have h := applications_in_order (patient "/root") () [""] aroundTrust (i := 0) rfl
  refine ⟨⟨_, rfl, h.2.1, rfl, ?_⟩, rfl⟩
  exact (h.2.2.2.2 beforeTrust sinceTrust (.perform (.trust 0)) 3 rfl
    ⟨_, _, rfl, rfl, by decide, rfl⟩ (by decide) .step 0 _ .bare false
    ⟨rfl, rfl, _, rfl, rfl⟩ rfl (by decide)).2

end Desk
end Admission
