import Admission.Proofs.Desk.Waits

/-!
# What waiting ends with

An errand that is to wait keeps the dialog that it worked on in hand, whatever becomes of that
dialog meanwhile, and it ends once the request has ended that it waits for. What it then gives is
what that dialog shows, with one exception: an errand that opened the dialog gives what the current
one shows, and fails if there is none. When the request ends is not said.
-/
namespace Admission

/-- The dialog that an operation has in hand if it is to wait; `fresh` is the next new one. -/
def Operation.waitsFor? (current : Option Nat) (fresh : Nat) : Operation → Option Nat
  | .openDialog _ true => some fresh
  | .changePath _ true | .choosePath _ true | .trustCurrent true _ => current
  | _ => none

namespace Desk

variable {σ : Type} {s : Setting σ} {d e : Desk σ} {b : Prop} {op : Operation} {i k r : Nat}
  {a : Signal} {m : Move σ} {ms : List (Move σ)} {x : Errand} {v : Ending}

/-- With move `m` errand `k` starts, which is to wait for dialog `i`. `e` is the desk that it
finds. -/
structure StartsToWait (d : Desk σ) (m : Move σ) (k i : Nat) (op : Operation) (e : Desk σ) :
    Prop where
  runs : Runs d m k e
  fresh : e.errands[k]? = some { operation := op }
  dialog : op.waitsFor? d.current d.dialogs.length = some i

/-- What errand `k` may end with that has dialog `i` in hand and ends with move `m`; `b` says that
it may have been cancelled. -/
inductive Ends (s : Setting σ) (b : Prop) (d : Desk σ) (m : Move σ) (k i : Nat) (op : Operation) :
    Ending → Prop
  /-- A request that it has waited for has ended. -/
  | reported {v : Ending} (h : Reported (d.move s m) i op v)
      (ho : ∀ r a, d.progress? k = some (.watching i r a) → Over d r) : Ends s b d m k i op v
  | cancelled (h : b) : Ends s b d m k i op .cancelled
  | failed {r : Nat} {a : Signal} {q : Request} {error : Error}
      (hw : d.progress? k = some (.watching i r a)) (hq : d.requests[r]? = some q)
      (hv : q.verdict? = some (.failed error)) : Ends s b d m k i op (.failed error)
  /-- There was nothing to trust when it started. -/
  | refused {e : Desk σ} {wait : Bool} {g : Snapshot} (h : StartsToWait d m k i op e)
      (hop : op = .trustCurrent wait true) (hg : d.snapshot? i = some g) (ho : g.owner? = none) :
      Ends s b d m k i op (.failed (.notDubious g))

/-- After `before`, errand `k`, which had dialog `i` in hand, has ended with move `m`. -/
structure EndedWith (s : Setting σ) (d : Desk σ) (before : List (Move σ)) (m : Move σ) (k i : Nat)
    (op : Operation) (v : Ending) : Prop where
  unended : ∀ w, (d.after s before).progress? k ≠ some (.ended w)
  ended : (d.after s (before ++ [m])).progress? k = some (.ended v)
  ends : Ends s (.cancelErrand k ∈ before) (d.after s before) m k i op v

/-- On the run `ms` from `d`, errand `k` has dialog `i` in hand until it ends. -/
def Stands (s : Setting σ) (d : Desk σ) (ms : List (Move σ)) (k i : Nat) (op : Operation) : Prop :=
  (∃ x, Waits (.cancelErrand k ∈ ms) op i (d.after s ms) k x) ∨
    ∃ before m later v, ms = before ++ m :: later ∧ EndedWith s d before m k i op v ∧
      (d.after s ms).progress? k = some (.ended v)

/-! ## The start -/

theorem amend_goes {y : Edit} {wait : Bool} (hx : d.errands[k]? = some { operation := op })
    (hd : Seated d) (hi : i < d.dialogs.length) :
    Goes b op i ((d.amend i y).1.afterEdit k i op wait (d.amend i y).2) k := by
  have hsame : (d.amend i y).1.current = d.current ∧
      (d.amend i y).1.dialogs.length = d.dialogs.length := by
    rcases backstage_amend d i y with h | ⟨path, h⟩
    · rw [h]
      exact ⟨rfl, rfl⟩
    · rw [h.current, h.dialogs]
      simp [onDialog]
  have hseated : Seated (d.amend i y).1 := by
    intro j hj
    rw [hsame.2]
    exact hd j (hsame.1 ▸ hj)
  exact afterEdit_goes ((congrArg (·[k]?) (errands_amend d i y)).trans hx) rfl rfl hseated
    (hsame.2 ▸ hi) wait fun r hr => outstanding_amend hr

theorem seat_goes (s : Setting σ) {path : String} {wait : Bool}
    (hx : d.errands[k]? = some { operation := op }) :
    Goes b op d.dialogs.length
      (((d.closeCurrent.seat path).1.amend d.dialogs.length .openInitial).1.afterEdit k
        d.dialogs.length op wait
        ((d.closeCurrent.seat path).1.amend d.dialogs.length .openInitial).2) k := by
  have hlen := closeCurrent_length s d
  have herrands := errands_closeCurrent s d
  have hlt : d.dialogs.length < (d.closeCurrent.seat path).1.dialogs.length := by
    simp [seat, hlen]
  refine amend_goes ?_ ?_ hlt
  · exact (congrArg (·[k]?) herrands).trans hx
  · intro j hj
    obtain rfl : d.closeCurrent.dialogs.length = j := Option.some.inj hj
    exact hlen ▸ hlt

theorem StartsToWait.goes (h : StartsToWait d m k i op e) (hd : Reachable s d) :
    Goes b op i (d.move s m) k ∨ ∃ wait g, op = .trustCurrent wait true ∧
      d.snapshot? i = some g ∧ g.owner? = none ∧
      (d.move s m).progress? k = some (.ended (.failed (.notDubious g))) := by
  obtain ⟨hruns, hx, hi⟩ := h
  have hfound := hruns.found
  rw [← hfound.current, ← hfound.dialogs] at hi
  have hseated : Seated e := hfound.seated hd.seated
  have hstart : d.move s m = beginErrand s e k op := by
    rw [hruns.move]
    simp [runErrand, hx]
  have hshown := hfound.snapshot?_eq i
  rw [hstart]
  cases op with
  | openDialog path wait =>
    cases wait with
    | false => cases hi
    | true =>
      obtain rfl := Option.some.inj hi
      refine Or.inl ?_
      have hseat : (e.closeCurrent.seat path).2 = e.dialogs.length := closeCurrent_length s e
      simp only [beginErrand, hseat]
      exact seat_goes s hx
  | changePath path wait =>
    cases wait with
    | false => cases hi
    | true =>
      have hi : e.current = some i := hi
      simp only [beginErrand, onCurrent, hi]
      exact Or.inl (amend_goes hx hseated (hseated i hi))
  | choosePath selected wait =>
    cases wait with
    | false => cases hi
    | true =>
      have hi : e.current = some i := hi
      simp only [beginErrand, onCurrent, hi]
      exact Or.inl (amend_goes hx hseated (hseated i hi))
  | trustCurrent wait strict =>
    cases wait with
    | false => cases hi
    | true =>
      have hi : e.current = some i := hi
      have htrust : Goes b (.trustCurrent true strict) i (beginTrust s e k i) k :=
        beginTrust_goes hx rfl rfl hseated (hseated i hi)
      simp only [beginErrand, onCurrent, hi]
      split
      · rename_i g hg
        split
        · exact Or.inl htrust
        · rename_i ho
          exact Or.inr ⟨true, g, rfl, hshown ▸ hg, by simpa using ho, progress?_endErrand hx _⟩
      · exact Or.inl htrust
  | _ => cases hi

/-- Before its start an errand has neither waited nor ended. -/
theorem StartsToWait.created (h : StartsToWait d m k i op e) {p : Progress}
    (hp : d.progress? k = some p) : p = .created := by
  obtain ⟨hruns, hx, -⟩ := h
  cases hruns with
  | inLine _ =>
    have hx : d.errands[k]? = some { operation := op } := hx
    rw [progress?, hx] at hp
    exact (Option.some.inj hp).symm
  | atOnce op => simp [progress?] at hp

theorem StartsToWait.unended (h : StartsToWait d m k i op e) (w : Ending) :
    d.progress? k ≠ some (.ended w) := fun hp => by cases h.created hp

theorem StartsToWait.not_watching (h : StartsToWait d m k i op e) (j r : Nat) (a : Signal) :
    d.progress? k ≠ some (.watching j r a) := fun hp => by cases h.created hp

theorem StartsToWait.stands (h : StartsToWait d m k i op e) (hd : Reachable s d) :
    Stands s d [m] k i op := by
  rcases h.goes (s := s) (b := .cancelErrand k ∈ [m]) hd with
    (h' | ⟨hv, hreported⟩) | ⟨wait, g, hop, hg, ho, hv⟩
  · exact Or.inl ⟨_, h'⟩
  · refine Or.inr ⟨[], m, [], _, rfl, ⟨h.unended, hv, .reported hreported ?_⟩, hv⟩
    exact fun r a hw => absurd hw (h.not_watching i r a)
  · exact Or.inr ⟨[], m, [], _, rfl, ⟨h.unended, hv, .refused h hop hg ho⟩, hv⟩

/-! ## Runs -/

theorem Waits.unended (h : Waits b op i d k x) (w : Ending) :
    d.progress? k ≠ some (.ended w) := by
  intro hw
  have hawaits := h.awaits
  rw [progress?, h.found, Option.map_some] at hw
  rw [Option.some.inj hw] at hawaits
  cases hawaits

theorem Stands.concat (h : Stands s d ms k i op) (hd : Reachable s d) (m : Move σ) :
    Stands s d (ms ++ [m]) k i op := by
  rcases h with ⟨x, h⟩ | ⟨before, n, later, v, rfl, hended, hv⟩
  · by_cases hruns : ∃ e, Runs (d.after s ms) m k e
    · obtain ⟨e, hruns⟩ := hruns
      have hends {v : Ending} (hv : ((d.after s ms).move s m).progress? k = some (.ended v))
          (hends : Ends s (.cancelErrand k ∈ ms) (d.after s ms) m k i op v) :
          Stands s d (ms ++ [m]) k i op := by
        rw [← after_concat] at hv
        exact Or.inr ⟨ms, m, [], v, rfl, ⟨h.unended, hv, hends⟩, hv⟩
      rcases h.run (hd.after ms) hruns with ⟨h' | ⟨hv, hreported⟩, ho⟩ | ⟨hc, hv⟩ |
        ⟨r, a, q, error, hp, hq, hverdict, hv⟩
      · rw [← after_concat] at h'
        exact Or.inl ⟨_, h'.mono (List.mem_append_left _)⟩
      · exact hends hv (.reported hreported ho)
      · exact hends hv (.cancelled hc)
      · exact hends hv (.failed hp hq hverdict)
    · have hw : Waits (.cancelErrand k ∈ ms ++ [m]) op i (d.after s ms) k x :=
        h.mono (List.mem_append_left _)
      refine Or.inl ?_
      rw [after_concat]
      refine hw.move (hd.after ms) (fun hm => ?_) fun e he => hruns ⟨e, he⟩
      exact List.mem_append_right _ (List.mem_singleton.mpr hm.symm)
  · refine Or.inr ⟨before, n, later ++ [m], v, ?_, hended, ?_⟩
    · rw [List.append_assoc, List.cons_append]
    · rw [after_concat]
      exact progress?_move_of_ended hv m

theorem Stands.append (h : Stands s d ms k i op) (hd : Reachable s d) (ns : List (Move σ)) :
    Stands s d (ms ++ ns) k i op := by
  induction ns using List.reverseRecOn with
  | nil => rwa [List.append_nil]
  | append_singleton ns n ih =>
    rw [← List.append_assoc]
    exact ih.concat hd n

/-! ## The end -/

/-- An errand that waits for a request and runs comes to its end. -/
theorem ends_of_watching (h : d.progress? k = some (.watching i r a)) :
    ∃ v, (runErrand s d k).progress? k = some (.ended v) := by
  obtain ⟨x, hx, hp⟩ := Option.map_eq_some_iff.mp h
  unfold runErrand
  rw [hx]
  simp only [hp]
  split
  · exact ⟨_, progress?_endErrand hx _⟩
  · split <;> exact ⟨_, progress?_endErrand hx _⟩

/-- An errand that waits for a request goes on waiting for just that. -/
theorem watching_move (h : d.progress? k = some (.watching i r a)) (m : Move σ) :
    (∃ c, (d.move s m).progress? k = some (.watching i r c)) ∨
      ∃ v, (d.move s m).progress? k = some (.ended v) := by
  obtain ⟨x, hx, hp⟩ := Option.map_eq_some_iff.mp h
  have hsame (hslot : (d.move s m).slot k = d.slot k) :
      ∃ c, (d.move s m).progress? k = some (.watching i r c) :=
    ⟨a, by rw [progress?, (slot_eq_iff.mp hslot).1]; exact h⟩
  have hwoken {f : Errand → Option Progress}
      (hslot : (d.move s m).slot k = (d.slot k).wake f)
      (hf : ∀ p, f x = some p → ∃ c, p = .watching i r c) :
      ∃ c, (d.move s m).progress? k = some (.watching i r c) := by
    cases hfx : f x with
    | none => exact hsame (slot_of_not_wake hx hslot hfx)
    | some p =>
      obtain ⟨c, rfl⟩ := hf p hfx
      exact ⟨c, by rw [progress?, (slot_of_wake hx hslot hfx).1]; rfl⟩
  cases slot_move (s := s) d k m with
  | runs hruns =>
    refine Or.inr ?_
    rw [hruns.move]
    cases hruns with
    | inLine _ => exact ends_of_watching h
    | atOnce op => exact absurd (List.getElem?_eq_some_iff.mp hx).1 (Nat.lt_irrefl _)
  | told _ hslot =>
    refine Or.inl (hwoken hslot fun p hheard => ?_)
    unfold Errand.heard at hheard
    rw [hp] at hheard
    split at hheard
    · rename_i hw
      cases hw
      split at hheard <;> cases hheard
      exact ⟨_, rfl⟩
    · cases hheard
  | passed hslot =>
    refine Or.inl (hwoken hslot fun p hpass => ?_)
    simp only [hp, passing] at hpass
    cases hpass
  | cancelled hslot =>
    refine Or.inl ?_
    rcases slot_of_cancel hx (by simp [hp]) hslot with ⟨p, hgone, hy, -⟩ | ⟨-, hy, -⟩
    · refine ⟨.withdrawn, ?_⟩
      rw [hp] at hgone
      cases a <;> cases hgone
      rw [progress?, hy]
      rfl
    · refine ⟨a, ?_⟩
      rw [progress?, hy, ← hp]
      rfl
  | spawned hk _ => exact absurd (List.getElem?_eq_some_iff.mp hx).1 (by omega)
  | still _ hslot => exact Or.inl (hsame hslot)

theorem watching_after (h : d.progress? k = some (.watching i r a)) (ms : List (Move σ)) :
    (∃ c, (d.after s ms).progress? k = some (.watching i r c)) ∨
      ∃ v, (d.after s ms).progress? k = some (.ended v) := by
  induction ms using List.reverseRecOn with
  | nil => exact Or.inl ⟨a, h⟩
  | append_singleton ms m ih =>
    rw [after_concat]
    rcases ih with ⟨c, hc⟩ | ⟨v, hv⟩
    · exact watching_move hc m
    · exact Or.inr ⟨v, progress?_move_of_ended hv m⟩

/-- Once it is in line, it has its turn. -/
theorem ends_in_turn (h : d.progress? k = some (.watching i r a)) (hk : 0 < d.turns k) :
    ∃ n v, (d.after s (List.replicate n .step)).progress? k = some (.ended v) := by
  obtain ⟨n, rest, hnow⟩ := turn_comes (s := s) (List.count_pos_iff.mp hk)
  rcases watching_after (s := s) h (List.replicate n .step) with ⟨c, hc⟩ | ⟨v, hv⟩
  · obtain ⟨v, hv⟩ := ends_of_watching (s := s)
      (d := { d.after s (List.replicate n .step) with
        agenda := { (d.after s (List.replicate n .step)).agenda with now := rest } }) hc
    refine ⟨n + 1, v, ?_⟩
    rw [List.replicate_succ', after_concat, move_step_of_now hnow]
    exact hv
  · exact ⟨n, v, hv⟩

/-- When the end of the request is told, the errand is put in line. -/
theorem told_watching (hp : d.progress? k = some (.watching i r .waiting)) {rest : List Job}
    (hnow : d.agenda.now = .requestEnded r :: rest) :
    (d.move s .step).progress? k = some (.watching i r .given) ∧
      0 < (d.move s .step).turns k := by
  obtain ⟨x, hx, hp⟩ := Option.map_eq_some_iff.mp hp
  have hheard : x.heard r = some (.watching i r .given) := by simp [Errand.heard, hp]
  obtain ⟨hy, hturns⟩ := slot_of_wake hx (slot_told (s := s) hnow k) hheard
  exact ⟨by rw [progress?, hy]; rfl, by rw [hturns]; exact Nat.succ_pos _⟩

theorem Stands.signalled (h : Stands s d ms k i op)
    (hp : (d.after s ms).progress? k = some (.watching i r a)) :
    Signalled (.cancelErrand k ∈ ms) (d.after s ms) k r a := by
  rcases h with ⟨x, h⟩ | ⟨-, -, -, v, -, -, hv⟩
  · have hawaits := h.awaits
    rw [progress?, h.found, Option.map_some] at hp
    rw [Option.some.inj hp] at hawaits
    cases hawaits with
    | request _ _ hs => exact hs
  · cases hp.symm.trans hv

/-- Once the request has ended, the word of it has its turn, and then the errand. -/
theorem Stands.ends (h : Stands s d ms k i op) (hd : Reachable s d)
    (hp : (d.after s ms).progress? k = some (.watching i r a)) (ho : Over (d.after s ms) r) :
    ∃ n v, (d.after s (ms ++ List.replicate n .step)).progress? k = some (.ended v) := by
  have hturn {n : Nat} {c : Signal}
      (hp : (d.after s (ms ++ List.replicate n .step)).progress? k = some (.watching i r c))
      (hk : 0 < (d.after s (ms ++ List.replicate n .step)).turns k) : ∃ n v,
        (d.after s (ms ++ List.replicate n .step)).progress? k = some (.ended v) := by
    obtain ⟨n', v, hv⟩ := ends_in_turn (s := s) hp hk
    refine ⟨n + n', v, ?_⟩
    rwa [← List.replicate_append_replicate, ← List.append_assoc, after_append]
  cases h.signalled hp with
  | given _ hk => exact hturn (n := 0) (by simpa using hp) (by simpa using hk)
  | withdrawn _ hk => exact hturn (n := 0) (by simpa using hp) (by simpa using hk)
  | waiting hj =>
    obtain ⟨n, rest, hnow⟩ := turn_comes (s := s) (hj ho)
    have hstands := h.append hd (List.replicate n .step)
    rcases watching_after (s := s) hp (List.replicate n .step) with ⟨c, hc⟩ | ⟨v, hv⟩
    · rw [← after_append] at hc hnow
      cases hstands.signalled hc with
      | given _ hk => exact hturn hc hk
      | withdrawn _ hk => exact hturn hc hk
      | waiting _ =>
        have htold := told_watching (s := s) hc hnow
        rw [← after_concat, List.append_assoc, ← List.replicate_succ'] at htold
        exact hturn htold.1 htold.2
    · exact ⟨n, v, by rwa [after_append]⟩

/-- An errand that starts to wait for a dialog keeps it in hand: on every run it waits, for the
trust store or for a request of that dialog, until it ends with what is shown, with the failure of
the request, or cancelled because it was cancelled itself; or it was refused when it started. Once
the request has ended, it ends after finitely many steps. -/
theorem waiting_errand_keeps_its_dialog (hd : Reachable s d) (h : StartsToWait d m k i op e)
    (ms : List (Move σ)) :
    Stands s d (m :: ms) k i op ∧
      ∀ r a, (d.after s (m :: ms)).progress? k = some (.watching i r a) →
        Over (d.after s (m :: ms)) r →
        ∃ n v, (d.after s (m :: ms ++ List.replicate n .step)).progress? k = some (.ended v) := by
  have hstands : Stands s d (m :: ms) k i op := (h.stands hd).append hd ms
  exact ⟨hstands, fun r a hp ho => hstands.ends hd hp ho⟩

/-- A desk that shows a dialog whose request is under way. -/
def oneOpened : Desk Unit := (opening () []).after (patient "") [.perform (.openDialog "/a" false)]

/-- The dialog is dismissed, and its requests end. -/
def dismissal : List (Move Unit) := [.dismiss, .step, .step, .step]

theorem waiting_errand_keeps_its_dialog_dismissed :
    Stands (patient "") oneOpened (.perform (.changePath "/b" true) :: dismissal) 1 0
        (.changePath "/b" true) ∧
      ∃ n v, (oneOpened.after (patient "") (.perform (.changePath "/b" true) :: dismissal ++
        List.replicate n .step)).progress? 1 = some (.ended v) := by
  have h := waiting_errand_keeps_its_dialog (s := patient "") (d := oneOpened) (k := 1) (i := 0)
    (m := .perform (.changePath "/b" true)) ⟨(), [], _, rfl⟩ ⟨.atOnce _, rfl, rfl⟩ dismissal
  exact ⟨h.1, h.2 1 .waiting rfl ⟨_, .cancelled, rfl, rfl⟩⟩

/-- What waits for an opened dialog does not always end with what that dialog shows: once the dialog
has been dismissed it fails, and once another one has been opened it gives what that one shows. -/
theorem opened_dialog_not_kept :
    (¬ ∀ (d e : Desk Unit) (m n : Move Unit) (ms : List (Move Unit)) (k i : Nat) (op : Operation)
      (v : Ending), Reachable (patient "") d → StartsToWait d m k i op e → .cancelErrand k ∉ ms →
      (∀ q ∈ (d.after (patient "") (m :: ms)).requests, ∀ error,
        q.verdict? ≠ some (.failed error)) →
      (∀ w, (d.after (patient "") (m :: ms)).progress? k ≠ some (.ended w)) →
      (d.after (patient "") (m :: ms ++ [n])).progress? k = some (.ended v) →
      ∃ g, (d.after (patient "") (m :: ms ++ [n])).snapshot? i = some g ∧
        (v = .gave (.shown g) ∨ ∃ granted, v = .gave (.trustShown granted g))) ∧
    ∃ g, ((opening () []).after (patient "") ([.perform (.openDialog "/a" true),
      .perform (.openDialog "/b" false)] ++ List.replicate 7 .step)).progress? 0 =
        some (.ended (.gave (.shown g))) ∧ g.path = "/b" := by
  refine ⟨fun h => ?_, _, rfl, rfl⟩
  have hcancelled : ((opening () []).after (patient "") (.perform (.openDialog "/a" true) ::
      .dismiss :: List.replicate 5 .step)).requests.map Request.verdict? = [some .cancelled] := rfl
  have hcalm : ∀ q ∈ ((opening () []).after (patient "") (.perform (.openDialog "/a" true) ::
      .dismiss :: List.replicate 5 .step)).requests, ∀ error,
        q.verdict? ≠ some (.failed error) := by
    intro q hq error hv
    have hmem := List.mem_map_of_mem (f := Request.verdict?) hq
    rw [hcancelled, hv] at hmem
    cases List.mem_singleton.mp hmem
  obtain ⟨g, -, hg | ⟨_, hg⟩⟩ := h (opening () []) _ (.perform (.openDialog "/a" true)) .step
    (.dismiss :: List.replicate 5 .step) 0 0 _ (.failed .dialogGone) ⟨(), [], [], rfl⟩
    ⟨.atOnce _, rfl, rfl⟩ (by simp) hcalm nofun rfl
  · cases hg
  · cases hg

end Desk
end Admission
