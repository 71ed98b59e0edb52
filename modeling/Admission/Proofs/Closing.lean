import Admission.Proofs.CurrentDialog
import Admission.Proofs.Trust

/-!
# Dialogs that are closed

A dialog that is closed stays closed and shows for good what it showed, and no request is issued for
it. That does not keep submissions and trust away: they go by what is shown. A dialog that shows a
valid answer when it is closed can still be submitted, any number of times, and one that shows a
dubious answer can still be trusted. Those that wait in front of a gate are not followed here.
-/
namespace Admission

/-- What is left of a closed dialog: whether it is being trusted may change, what it shows and the
number of its requests may not. -/
structure Dialog.Frozen (x y : Dialog) : Prop where
  closed : y.closed = true
  path : y.path = x.path
  classification : y.classification = x.classification
  warning : y.warning = x.warning
  issued : y.issued = x.issued

/-- All that a closed dialog keeps: its counters, too. -/
structure Dialog.Sealed (x y : Dialog) : Prop extends Dialog.Frozen x y where
  requested : y.requested = x.requested
  applied : y.applied = x.applied

variable {x y z : Dialog}

theorem Dialog.Frozen.trans (h : x.Frozen y) (h' : y.Frozen z) : x.Frozen z where
  closed := h'.closed
  path := h'.path.trans h.path
  classification := h'.classification.trans h.classification
  warning := h'.warning.trans h.warning
  issued := h'.issued.trans h.issued

theorem Dialog.Frozen.canSubmit (h : x.Frozen y) :
    y.snapshot.canSubmit = x.snapshot.canSubmit := by
  simp [Snapshot.canSubmit, Dialog.snapshot, h.path, h.classification]

theorem Dialog.Sealed.refl (h : x.closed = true) : x.Sealed x := ⟨⟨h, rfl, rfl, rfl, rfl⟩, rfl, rfl⟩

theorem Dialog.Sealed.trans (h : x.Sealed y) (h' : y.Sealed z) : x.Sealed z where
  toFrozen := h.toFrozen.trans h'.toFrozen
  requested := h'.requested.trans h.requested
  applied := h'.applied.trans h.applied

theorem Dialog.sealed_edit (h : x.closed = true) (path : String) : x.Sealed (x.edit path) := by
  rw [Dialog.edit_of_closed h]
  exact .refl h

theorem Dialog.sealed_offer (h : x.closed = true) (path : String) (a : Assessment)
    (number : Option Int) : x.Sealed (x.offer path a number) := by
  rw [Dialog.offer_of_closed h]
  exact .refl h

theorem Dialog.sealed_endTrust (h : x.closed = true) : x.Sealed x.endTrust := by
  have hedit := Dialog.sealed_edit h x.path
  exact ⟨⟨hedit.closed, hedit.path, hedit.classification, hedit.warning, hedit.issued⟩,
    hedit.requested, hedit.applied⟩

theorem sealed_modify {l : List Dialog} {i j : Nat} {f : Dialog → Dialog} (hx : l[i]? = some x)
    (hc : x.closed = true) (h : x.Sealed (f x)) :
    ∃ y, (l.modify j f)[i]? = some y ∧ x.Sealed y := by
  refine ⟨_, getElem?_modify_eq_some_iff.mpr ⟨x, hx, rfl⟩, ?_⟩
  split
  · exact h
  · exact .refl hc

theorem LogGrown.getElem?_length {p : Entry → Bool} {l l' : List Entry} {a : Entry}
    (h : LogGrown p (l ++ [a]) l') : l'[l.length]? = some a := by
  obtain ⟨more, rfl, -⟩ := h
  simp

namespace Desk

variable {σ : Type} {s : Setting σ} {d e : Desk σ} {i k : Nat}

/-! ## What is left of a closed dialog -/

theorem Change.sealed (h : Change s d e) (hx : d.dialogs[i]? = some x) (hc : x.closed = true) :
    ∃ y, e.dialogs[i]? = some y ∧ x.Sealed y := by
  have hsame (hd : e.dialogs = d.dialogs) : ∃ y, e.dialogs[i]? = some y ∧ x.Sealed y :=
    ⟨x, hd ▸ hx, .refl hc⟩
  cases h with
  | around hd => exact hsame hd
  | seat path => exact ⟨x, getElem?_concat_eq_some_iff.mpr (Or.inl hx), .refl hc⟩
  | aside j hf =>
    refine sealed_modify hx hc ?_
    rcases hf with rfl | rfl | rfl
    · exact ⟨⟨hc, rfl, rfl, rfl, rfl⟩, rfl, rfl⟩
    · exact ⟨⟨hc, rfl, rfl, rfl, rfl⟩, rfl, rfl⟩
    · exact ⟨⟨rfl, rfl, rfl, rfl, rfl⟩, rfl, rfl⟩
  | edit j path =>
    rw [dialogs_edit]
    exact sealed_modify hx hc (Dialog.sealed_edit hc path)
  | endTrust =>
    simp only [onDialog, dialogs_ask]
    exact sealed_modify hx hc (Dialog.sealed_endTrust hc)
  | call => exact hsame rfl
  | endCall => exact hsame rfl
  | pace => exact hsame rfl
  | endProbe => exact hsame rfl
  | probeTold => exact hsame (dialogs_tellProbeEnded _ _)

theorem sealed_move (hx : d.dialogs[i]? = some x) (hc : x.closed = true) (m : Move σ) :
    ∃ y, (d.move s m).dialogs[i]? = some y ∧ x.Sealed y := by
  refine invariant_move (P := fun d => ∃ y, d.dialogs[i]? = some y ∧ x.Sealed y)
    (fun hchange h => ?_) (fun {d r q o} hq _ h => ?_) ⟨x, hx, .refl hc⟩ m
  · obtain ⟨y, hy, hxy⟩ := h
    obtain ⟨z, hz, hyz⟩ := hchange.sealed hy hxy.closed
    exact ⟨z, hz, hxy.trans hyz⟩
  · obtain ⟨y, hy, hxy⟩ := h
    rcases conclude_spec (s := s) hq o with ⟨f, -, hd, -⟩ | ⟨c, -, hd, -⟩
    · exact ⟨y, hd ▸ hy, hxy⟩
    · rw [hd]
      obtain ⟨z, hz, hyz⟩ := sealed_modify (j := q.dialog)
        (f := (·.offer q.path (.settled c) (some q.number))) hy hxy.closed
        (Dialog.sealed_offer hxy.closed _ _ _)
      exact ⟨z, hz, hxy.trans hyz⟩

theorem sealed_after (hx : d.dialogs[i]? = some x) (hc : x.closed = true) (ms : List (Move σ)) :
    ∃ y, (d.after s ms).dialogs[i]? = some y ∧ x.Sealed y := by
  induction ms generalizing d x with
  | nil => exact ⟨x, hx, .refl hc⟩
  | cons m ms ih =>
    obtain ⟨y, hy, hxy⟩ := sealed_move (s := s) hx hc m
    obtain ⟨z, hz, hyz⟩ := ih hy hxy.closed
    exact ⟨z, hz, hxy.trans hyz⟩

theorem frozen_move (hx : d.dialogs[i]? = some x) (hc : x.closed = true) (m : Move σ) :
    ∃ y, (d.move s m).dialogs[i]? = some y ∧ x.Frozen y := by
  obtain ⟨y, hy, hxy⟩ := sealed_move (s := s) hx hc m
  exact ⟨y, hy, hxy.toFrozen⟩

theorem frozen_after (hx : d.dialogs[i]? = some x) (hc : x.closed = true) (ms : List (Move σ)) :
    ∃ y, (d.after s ms).dialogs[i]? = some y ∧ x.Frozen y := by
  obtain ⟨y, hy, hxy⟩ := sealed_after (s := s) hx hc ms
  exact ⟨y, hy, hxy.toFrozen⟩

/-- A request of a closed dialog has a number that was given before, so it is that request. -/
theorem issued_before_of_closed (hd : Reachable s d) (hx : d.dialogs[i]? = some x)
    (hc : x.closed = true) (ms : List (Move σ)) {r : Nat} {q : Request}
    (hq : (d.after s ms).requests[r]? = some q) (hi : q.dialog = i) : r < d.requests.length := by
  obtain ⟨y, hy, hxy⟩ := frozen_after (s := s) hx hc ms
  have hb := (hd.after ms).booked
  have hline := issue_of_request hq
  have howned := (hb.agrees hy).owned hline hi
  obtain ⟨r', l, hl, hdialog, hnumber⟩ := (hd.booked.agrees hx).numbered howned.1
    (hxy.issued ▸ howned.2.1)
  obtain ⟨v, hl', -⟩ := linesKept_after (s := s) d ms hl
  have hr := (InOrder.unique hb.ordered hline hl' (hi.trans hdialog.symm) hnumber.symm).1
  obtain ⟨q', hq', -⟩ := request_of_issue hl
  rw [hr]
  exact (List.getElem?_eq_some_iff.mp hq').1

/-! ## What still reaches the services -/

theorem registered_of_closed (hx : d.dialogs[i]? = some x) (hc : x.closed = true)
    (ms : List (Move σ)) {n : Nat} {given : List String} (hn : d.log.length ≤ n)
    (h : (d.after s ms).log[n]? = some (.register i given)) :
    x.snapshot.canSubmit = true ∧
      ∃ target, Path.canonical s.home x.path = some target ∧ given = [target] := by
  induction ms using List.reverseRecOn with
  | nil =>
    have h : d.log[n]? = some (.register i given) := h
    rw [List.getElem?_eq_none hn] at h
    cases h
  | append_singleton ms m ih =>
    rw [after_concat] at h
    rcases log_move (s := s) (d.after s ms) m with
      hgrown | ⟨k, j, e, y, target, -, hy, hcan, hp, -, hgrown⟩
    · exact ih (hgrown.register h)
    · rcases getElem?_concat_eq_some_iff.mp (hgrown.register h) with hold | ⟨-, he⟩
      · exact ih hold
      · obtain ⟨rfl, rfl⟩ := Entry.register.inj he
        obtain ⟨y', hy', hxy⟩ := frozen_after (s := s) hx hc ms
        obtain rfl := Option.some.inj (hy.symm.trans hy')
        exact ⟨hxy.canSubmit ▸ hcan, target, hxy.path ▸ hp, rfl⟩

theorem trusted_of_closed (hx : d.dialogs[i]? = some x) (hc : x.closed = true)
    (ms : List (Move σ)) {n : Nat} {owner : String} (hn : d.log.length ≤ n)
    (h : (d.after s ms).log[n]? = some (.trust i owner)) :
    x.classification = .settled (.dubious owner) := by
  induction ms using List.reverseRecOn with
  | nil =>
    have h : d.log[n]? = some (.trust i owner) := h
    rw [List.getElem?_eq_none hn] at h
    cases h
  | append_singleton ms m ih =>
    rw [after_concat] at h
    rcases calls_move (s := s) (d.after s ms) m with
      ⟨hgrown, -⟩ | ⟨k, j, owner', e, y, -, hy, ht, hgrown, -⟩
    · exact ih (hgrown.of_getElem? rfl h)
    · rcases getElem?_concat_eq_some_iff.mp (hgrown.of_getElem? rfl h) with hold | ⟨-, he⟩
      · exact ih hold
      · obtain ⟨rfl, rfl⟩ := Entry.trust.inj he
        obtain ⟨y', hy', hxy⟩ := frozen_after (s := s) hx hc ms
        obtain rfl := Option.some.inj (hy.symm.trans hy')
        exact hxy.classification ▸ (Dialog.trustTarget?_eq_some_iff.mp ht).2

/-- A submission that sets out calls the registrar just if what is shown may be added. -/
theorem SetsOut.registers_iff {m : Move σ} (h : SetsOut d m k i e) (hx : d.dialogs[i]? = some x) :
    (∃ given, (d.move s m).log[d.log.length]? = some (.register i given)) ↔
      x.snapshot.canSubmit = true ∧ (Path.canonical s.home x.path).isSome = true := by
  have hsilent (hl : (d.move s m).log = d.log) :
      ¬∃ given, (d.move s m).log[d.log.length]? = some (.register i given) := by
    rintro ⟨given, hgiven⟩
    rw [hl, List.getElem?_eq_none (Nat.le_refl _)] at hgiven
    cases hgiven
  rcases h.spec (s := s) hx with ⟨hno, hl, -⟩ | ⟨-, hl, -, hp⟩ | ⟨hcan, target, hp, hl, -⟩
  · exact ⟨fun h => absurd h (hsilent hl), fun h => absurd h.1 (by simp [hno])⟩
  · exact ⟨fun h => absurd h (hsilent hl), fun h => absurd h.2 (by simp [hp])⟩
  · exact ⟨fun _ => ⟨hcan, by rw [hp]; rfl⟩, fun _ => ⟨[target], hl.getElem?_length⟩⟩

/-- An errand that asks for trust calls the trust store just if trust is possible then. -/
theorem AsksTrust.trusts_iff {m : Move σ} (h : AsksTrust d m k i e) (hx : d.dialogs[i]? = some x) :
    (∃ owner, (d.move s m).log[d.log.length]? = some (.trust i owner)) ↔ x.canTrust = true := by
  obtain ⟨hcalls, hcannot⟩ := h.calls_iff (s := s) hx
  constructor
  · rintro ⟨owner, howner⟩
    by_contra hno
    have hold := (hcannot (by simpa using hno)).of_getElem? rfl howner
    rw [List.getElem?_eq_none (Nat.le_refl _)] at hold
    cases hold
  · intro hcan
    obtain ⟨owner, hl⟩ := hcalls.mpr hcan
    exact ⟨owner, hl.getElem?_length⟩

/-! ## How a dialog is finished -/

/-- With move `m`, errand `k` ends a submission of dialog `i`, for which the registrar has added
what it was given. -/
structure Submitted (s : Setting σ) (d : Desk σ) (m : Move σ) (k i : Nat) : Prop where
  submits : (∃ e, SetsOut d m k i e) ∨
    ∃ target gate a, d.progress? k = some (.registering i target gate a)
  added : ∃ handle, (d.move s m).progress? k = some (.ended (.gave (.added handle)))

/-- The move finishes dialog `i`. -/
inductive Finishes (s : Setting σ) (d : Desk σ) (i : Nat) : Move σ → Prop
  | closed : Finishes s d i (.close i)
  | dismissed (h : d.current = some i) : Finishes s d i .dismiss
  | submitted {m : Move σ} {k : Nat} (h : Submitted s d m k i) : Finishes s d i m

/-- The registrar's answer closes the dialog if it is given back. -/
theorem dialogs_passRegister {y : Errand} {path : String} {handle : Option String}
    (hy : d.errands[k]? = some y)
    (h : (passRegister s d k i path).progress? k = some (.ended (.gave (.added handle)))) :
    (passRegister s d k i path).dialogs = d.dialogs.modify i Dialog.close := by
  rw [progress?_passRegister hy path] at h
  cases hout : (s.register [path] d.world).1 with
  | error f =>
    rw [hout] at h
    cases h
  | ok handles =>
    rw [passRegister_of_ok hy hout]
    exact dialogs_submitted s _ i y.operation

theorem dialogs_beginSubmit {y : Errand} {handle : Option String} (hy : d.errands[k]? = some y)
    (h : (beginSubmit s d k i).progress? k = some (.ended (.gave (.added handle)))) :
    (beginSubmit s d k i).dialogs = d.dialogs.modify i Dialog.close := by
  obtain ⟨error, hx⟩ | ⟨path, gate, hx⟩ | ⟨path, hx⟩ := beginSubmit_cases s d k i
  · rw [hx, progress?_endErrand hy] at h
    cases h
  · rw [hx, await, progress?_onErrand (d := d.note _) hy] at h
    cases h
  · rw [hx] at h ⊢
    exact dialogs_passRegister (d := d.note _) hy h

/-- A submission that is completed closes its dialog, and no other. -/
theorem Submitted.dialogs {m : Move σ} (h : Submitted s d m k i) :
    (d.move s m).dialogs = d.dialogs.modify i Dialog.close := by
  obtain ⟨hsubmits, handle, hadded⟩ := h
  rcases hsubmits with ⟨e, hout⟩ | ⟨target, gate, a, hp⟩
  · obtain ⟨op, hop, -⟩ := hout.2
    rw [hout.move] at hadded ⊢
    rw [dialogs_beginSubmit hop hadded, hout.1.found.dialogs]
  · obtain ⟨e, b, hruns, hb⟩ := runs_of_registering hp hadded
    obtain ⟨y, hy, -⟩ := Option.map_eq_some_iff.mp hb
    rw [hruns.move] at hadded ⊢
    rw [← hruns.found.dialogs]
    obtain hrun | hrun := runErrand_of_registering (s := s) hb <;> rw [hrun] at hadded ⊢
    · rw [progress?_endErrand hy] at hadded
      cases hadded
    · exact dialogs_passRegister hy hadded

theorem Finishes.dialog_closed {m : Move σ} (h : Finishes s d i m) (hx : d.dialogs[i]? = some x) :
    ∃ y, (d.move s m).dialogs[i]? = some y ∧ y.closed = true := by
  have hdialogs : (d.move s m).dialogs = d.dialogs.modify i Dialog.close := by
    cases h with
    | closed => exact dialogs_closeDialog s d i
    | dismissed hi => simp only [move, dismiss, dialogs_closeCurrent s, hi]
    | submitted h => exact h.dialogs
  rw [hdialogs]
  exact closed_modify_close hx

/-- A dialog that is closed by its holder, dismissed, or submitted is closed, and stays so on every
run. What it shows does not change any more, and no request is issued for it. The registrar is
called for it with the canonical path that it shows, by every submission that sets out while a valid
answer is shown, and by no other. The trust store is called for it with the owner that it shows, by
every errand that asks for trust while a dubious answer is shown and nobody else asks, and by no
other. -/
theorem closed_dialog_goes_by_what_it_shows (s : Setting σ) (world : σ) (paths : List String)
    (before : List (Move σ)) {d : Desk σ} (hd : d = (opening world paths).after s before) {i : Nat}
    {x : Dialog} (hx : d.dialogs[i]? = some x) :
    (∀ m, Finishes s d i m → ∃ y, (d.move s m).dialogs[i]? = some y ∧ y.closed = true) ∧
    (x.closed = true → ∀ (ms : List (Move σ)) (e : Desk σ), e = d.after s ms →
      (∃ y, e.dialogs[i]? = some y ∧ x.Frozen y) ∧
      (∀ (r : Nat) (q : Request), e.requests[r]? = some q → q.dialog = i →
        r < d.requests.length) ∧
      (∀ (n : Nat) (given : List String), d.log.length ≤ n →
        e.log[n]? = some (.register i given) → x.snapshot.canSubmit = true ∧
          ∃ target, Path.canonical s.home x.path = some target ∧ given = [target]) ∧
      (∀ (n : Nat) (owner : String), d.log.length ≤ n → e.log[n]? = some (.trust i owner) →
        x.classification = .settled (.dubious owner)) ∧
      (∀ (m : Move σ) (k : Nat) (f : Desk σ), SetsOut e m k i f →
        ((∃ given, (e.move s m).log[e.log.length]? = some (.register i given)) ↔
          x.snapshot.canSubmit = true ∧ (Path.canonical s.home x.path).isSome = true)) ∧
      ∀ (m : Move σ) (k : Nat) (f : Desk σ) (y : Dialog), AsksTrust e m k i f →
        e.dialogs[i]? = some y →
        ((∃ owner, (e.move s m).log[e.log.length]? = some (.trust i owner)) ↔
          x.classification.isDubious = true ∧ y.trusting = false)) := by
  have hreach : Reachable s d := hd ▸ (reachable_opening world paths).after before
  refine ⟨fun m h => h.dialog_closed hx, fun hc ms e he => ?_⟩
  subst he
  obtain ⟨y, hy, hxy⟩ := frozen_after (s := s) hx hc ms
  refine ⟨⟨y, hy, hxy⟩, fun r q hq hi => issued_before_of_closed hreach hx hc ms hq hi,
    fun n given hn h => registered_of_closed hx hc ms hn h,
    fun n owner hn h => trusted_of_closed hx hc ms hn h, fun m k f hout => ?_,
    fun m k f y' hasks hy' => ?_⟩
  · rw [hout.registers_iff hy, hxy.canSubmit, hxy.path]
  · obtain rfl := Option.some.inj (hy.symm.trans hy')
    rw [hasks.trusts_iff hy]
    simp [Dialog.canTrust, hxy.classification]

/-- A valid answer, and the dialog is closed. -/
def validClosed : List (Move Unit) :=
  [.edit 0 (.setPath "/a"), .step, .step, .answer 0 (.ok .valid), .step, .step, .close 0]

/-- The dialog is submitted after it was closed: the registrar is called. -/
theorem closed_dialog_goes_by_what_it_shows_valid :
    ∃ given, ((opening () [""]).after (patient "/root")
      (validClosed ++ [.perform (.submit 0)])).log[1]? = some (.register 0 given) := by
  have h := (closed_dialog_goes_by_what_it_shows (patient "/root") () [""] validClosed
    (i := 0) rfl rfl).2 rfl [] _ rfl
  obtain ⟨-, -, -, -, hregisters, -⟩ := h
  exact (hregisters (.perform (.submit 0)) 0 _ ⟨.atOnce (.submit 0), .submit 0, rfl, rfl⟩).mpr
    ⟨rfl, by decide⟩

/-- A dubious answer, and the dialog is closed. -/
def dubiousClosed : List (Move Unit) :=
  [.edit 0 (.setPath "/a"), .step, .step, .answer 0 (.ok (.dubious "/o")), .step, .step, .close 0]

/-- Two submissions are kept waiting by the registrar. -/
def overlappingSubmissions : List (Move Unit) :=
  [.edit 0 (.setPath "/a"), .step, .step, .answer 0 (.ok .valid), .step, .step,
    .perform (.submit 0), .perform (.submit 0), .openGate .registrar 0, .step, .step, .step, .step]

/-- A finished dialog is not left alone by the registrar and by the trust store, and two submissions
of a dialog may both be completed. -/
theorem finished_dialog_still_reaches :
    (¬ ∀ (before : List (Move Unit)) (i : Nat) (m : Move Unit) (ms : List (Move Unit)) (n : Nat)
      (given : List String), Finishes (patient "/root") ((opening () [""]).after
        (patient "/root") before) i m →
      ((opening () [""]).after (patient "/root") (before ++ [m])).log.length ≤ n →
      ((opening () [""]).after (patient "/root") (before ++ m :: ms)).log[n]? ≠
        some (.register i given)) ∧
    (¬ ∀ (before : List (Move Unit)) (i : Nat) (m : Move Unit) (ms : List (Move Unit)) (n : Nat)
      (owner : String), Finishes (patient "/root") ((opening () [""]).after
        (patient "/root") before) i m →
      ((opening () [""]).after (patient "/root") (before ++ [m])).log.length ≤ n →
      ((opening () [""]).after (patient "/root") (before ++ m :: ms)).log[n]? ≠
        some (.trust i owner)) ∧
    ¬ ∀ (ms : List (Move Unit)) (k k' : Nat) (handle handle' : Option String),
      ((opening () [""]).after gated ms).progress? k = some (.ended (.gave (.added handle))) →
      ((opening () [""]).after gated ms).progress? k' = some (.ended (.gave (.added handle'))) →
      k = k' := by
  refine ⟨fun h => ?_, fun h => ?_, fun h => ?_⟩
  · exact h validClosed.dropLast 0 (.close 0) [.perform (.submit 0)] 1 ["/a"] .closed
      (by decide) rfl
  · exact h dubiousClosed.dropLast 0 (.close 0) [.perform (.trust 0)] 1 "/o" .closed
      (by decide) rfl
  · exact absurd (h overlappingSubmissions 0 1 (some "/a") (some "/a") rfl rfl) (by decide)

end Desk
end Admission
