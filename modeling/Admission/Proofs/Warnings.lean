import Admission.Proofs.Desk.Turns

/-!
# What a dialog shows

The warning of a dialog is the answer that it took last since its path was last cleared. From this
and from the ledger follows how the path, what is known about it, the warning and what depends on
them go together at any time. When an answer comes in is not said.
-/
namespace Admission

/-- A dialog shows no owner, no warning and nothing to submit as long as nothing is known. -/
theorem Snapshot.flags_of_blank {x : Snapshot} (hp : x.path = "") (hc : x.classification = .blank) :
    x.showWarning = false ∧ x.canSubmit = false ∧ x.ownerDiffers = false := by
  refine ⟨?_, ?_, ?_⟩
  · simp [showWarning, hp]
  · simp [canSubmit, hp]
  · simp [ownerDiffers, owner?, hc, Assessment.owner?, Assessment.settled?]

/-- A settled answer is shown as a warning, unless the path may be added. -/
theorem Snapshot.showWarning_of_settled {x : Snapshot} {c : Classification} (hp : x.path ≠ "")
    (hc : x.classification = .settled c) (hw : x.warning = .settled c) :
    x.showWarning = !x.canSubmit := by
  have hthere : (x.path != "") = true := bne_iff_ne.mpr hp
  have hsettled : (Assessment.settled c != .blank) = true := bne_iff_ne.mpr nofun
  simp only [showWarning, canSubmit, hc, hw, hthere, hsettled, Bool.true_and]

/-- A turn leaves the warning alone, or it clears the path. -/
theorem Dialog.Turn.warning {x y : Dialog} (h : x.Turn y) :
    y.warning = x.warning ∨ y.path = "" := by
  cases h with
  | aside h => exact Or.inl h.warning
  | @edited path h =>
    rw [h.warning, h.path]
    unfold edit
    split
    · exact Or.inl rfl
    · split
      · exact Or.inr rfl
      · exact Or.inl rfl

namespace Desk

variable {σ : Type} {s : Setting σ} {d : Desk σ} {m : Move σ} {i : Nat}

/-- The warning of dialog `i`; as long as there is no such dialog, none. -/
def warning (d : Desk σ) (i : Nat) : Assessment := (d.dialogs[i]?.map Dialog.warning).getD .blank

/-- With move `m`, dialog `i` takes an answer. -/
def Applies (s : Setting σ) (d : Desk σ) (m : Move σ) (i : Nat) (c : Classification) : Prop :=
  ∃ (r : Nat) (q : Request), Answered s d m r q c true ∧ q.dialog = i

/-- With move `m`, the path of dialog `i` is cleared. -/
def Clears (s : Setting σ) (d : Desk σ) (m : Move σ) (i : Nat) : Prop :=
  ∃ x y : Dialog, d.dialogs[i]? = some x ∧ (d.move s m).dialogs[i]? = some y ∧ x.path ≠ "" ∧
    y.path = ""

/-- Move `m` has no part in what dialog `i` has for a warning. -/
def Spares (s : Setting σ) (d : Desk σ) (m : Move σ) (i : Nat) : Prop :=
  ¬ Clears s d m i ∧ ∀ c, ¬ Applies s d m i c

/-- On the run `ms` from `d`, dialog `i` took the answer `c`, and no answer since then; nor has its
path been cleared. -/
def LatestAnswer (s : Setting σ) (d : Desk σ) (ms : List (Move σ)) (i : Nat)
    (c : Classification) : Prop :=
  ∃ before m later, ms = before ++ m :: later ∧ Applies s (d.after s before) m i c ∧
    ∀ between n rest, later = between ++ n :: rest →
      Spares s (d.after s (before ++ m :: between)) n i

theorem not_latestAnswer_nil (d : Desk σ) (i : Nat) (c : Classification) :
    ¬ LatestAnswer s d [] i c := by
  rintro ⟨before, m, later, h, -⟩
  simp at h

theorem latestAnswer_concat (d : Desk σ) (ms : List (Move σ)) (m : Move σ) (i : Nat)
    (c : Classification) :
    LatestAnswer s d (ms ++ [m]) i c ↔ Applies s (d.after s ms) m i c ∨
      LatestAnswer s d ms i c ∧ Spares s (d.after s ms) m i := by
  constructor
  · rintro ⟨before, n, later, h, ha, hs⟩
    rcases concat_eq_append_cons h with ⟨rfl, rfl, -⟩ | ⟨later', rfl, rfl⟩
    · exact Or.inl ha
    · refine Or.inr ⟨⟨before, n, later', rfl, ha, fun between n' rest hb => ?_⟩, hs later' m [] rfl⟩
      exact hs between n' (rest ++ [m]) (by simp [hb])
  · rintro (ha | ⟨⟨before, n, later, rfl, ha, hs⟩, hm⟩)
    · exact ⟨ms, m, [], rfl, ha, fun between n rest h => by simp at h⟩
    · refine ⟨before, n, later ++ [m], by simp, ha, fun between n' rest h => ?_⟩
      rcases concat_eq_append_cons h with ⟨rfl, rfl, -⟩ | ⟨rest', -, hb⟩
      · exact hm
      · exact hs between n' rest' hb

/-! ## One move -/

theorem warning_of_applies {c : Classification} (h : Applies s d m i c) :
    (d.move s m).warning i = .settled c := by
  obtain ⟨r, q, ha, rfl⟩ := h
  have hoff := ha.offered.2
  cases hx : d.dialogs[q.dialog]? with
  | none => simp [hx] at hoff
  | some x =>
    have hy := (ha.dialog hx rfl).2
    simp [warning, hy]

theorem Clears.warning (hd : Reachable s d) (h : Clears s d m i) :
    (d.move s m).warning i = .blank := by
  obtain ⟨x, y, -, hy, -, hp⟩ := h
  have hblank := ((hd.move m).booked.agrees hy).cleared hp
  simp [Desk.warning, hy, hblank]

/-- Whether it answers or not, a move that spares the warning of a dialog leaves it. -/
theorem Spares.warning (hd : Reachable s d) (h : Spares s d m i) :
    (d.move s m).warning i = d.warning i := by
  rcases answered_or_turned (s := s) d m with ⟨r, q, c, applied, ha⟩ | hturned
  · by_cases hi : q.dialog = i
    · cases hx : d.dialogs[i]? with
      | none => simp [Desk.warning, ha.offered.1, hi, hx]
      | some x =>
        have hnot : applied ≠ true := by
          rintro rfl
          exact h.2 c ⟨r, q, ha, hi⟩
        have hy := (ha.dialog hx hi).2
        simp [Desk.warning, hx, hy, hnot]
    · simp [Desk.warning, ha.offered.1, hi]
  · cases hy : (d.move s m).dialogs[i]? with
    | none =>
      have hx : d.dialogs[i]? = none := by
        rw [Option.eq_none_iff_forall_ne_some]
        intro x hx
        obtain ⟨y, hy', -⟩ := dialogsGrown_move (s := s) d m hx
        rw [hy] at hy'
        cases hy'
      simp [Desk.warning, hx, hy]
    | some y =>
      have hcleared := ((hd.move m).booked.agrees hy).cleared
      obtain ⟨x, hx | ⟨hx, path, rfl⟩, hturn⟩ := hturned hy
      · rcases hturn.warning with hw | hp
        · simp [Desk.warning, hx, hy, hw]
        · have hx' : x.path = "" := by
            by_contra hne
            exact h.1 ⟨x, y, hx, hy, hne, hp⟩
          simp [Desk.warning, hx, hy, hcleared hp, (hd.booked.agrees hx).cleared hx']
      · rcases hturn.warning with hw | hp
        · simp [Desk.warning, hx, hy, hw]
        · simp [Desk.warning, hx, hy, hcleared hp]

/-- What is outstanding is no warning. -/
theorem Reachable.warning_ne_pending (hd : Reachable s d) {x : Dialog}
    (hx : d.dialogs[i]? = some x) : x.warning ≠ .pending := by
  rcases (hd.booked.agrees hx).warned with hw | ⟨-, -, c, -, -, -, hw⟩
  · simp [hw]
  · simp [hw]

/-! ## Runs -/

/-- On a run that starts without warnings, the warning of a dialog is the answer it took last,
unless its path has been cleared since. -/
theorem warning_eq_settled_iff (hd : Reachable s d) (hw : d.warning i = .blank)
    (ms : List (Move σ)) (c : Classification) :
    (d.after s ms).warning i = .settled c ↔ LatestAnswer s d ms i c := by
  induction ms using List.reverseRecOn with
  | nil => simp [after, hw, not_latestAnswer_nil]
  | append_singleton ms m ih =>
    have hms := hd.after ms
    rw [latestAnswer_concat, after_concat]
    by_cases hs : Spares s (d.after s ms) m i
    · have hnone := hs.2 c
      rw [hs.warning hms, ih]
      simp [hs, hnone]
    · simp only [hs, and_false, or_false]
      constructor
      · intro hc
        rcases not_and_or.mp hs with hclears | hsome
        · rw [Clears.warning hms (not_not.mp hclears)] at hc
          cases hc
        · obtain ⟨c', ha⟩ := not_forall_not.mp hsome
          rw [warning_of_applies ha] at hc
          cases hc
          exact ha
      · exact warning_of_applies

/-- On every run a dialog's warning is the answer that it took last since its path was last cleared,
and there is none if it took none. There is no path just when nothing is known, and then nothing is
shown. A settled answer is the warning too, so a path may be added or has a warning, never both, and
one of the two unless an answer is outstanding. -/
theorem snapshot_consistent (s : Setting σ) (world : σ) (paths : List String)
    (ms : List (Move σ)) {i : Nat} {shown : Snapshot}
    (h : ((opening world paths).after s ms).snapshot? i = some shown) :
    (∀ c, shown.warning = .settled c ↔ LatestAnswer s (opening world paths) ms i c) ∧
    (shown.warning = .blank ↔ ∀ c, ¬ LatestAnswer s (opening world paths) ms i c) ∧
    (shown.path = "" ↔ shown.classification = .blank) ∧
    (shown.path = "" → shown.warning = .blank ∧ shown.showWarning = false ∧
      shown.canSubmit = false ∧ shown.ownerDiffers = false) ∧
    (∀ c, shown.classification = .settled c → shown.warning = .settled c) ∧
    ¬ (shown.canSubmit = true ∧ shown.showWarning = true) ∧
    (shown.path ≠ "" → shown.isPending = false → shown.showWarning = !shown.canSubmit) := by
  have hd := reachable_opening (s := s) world paths
  obtain ⟨x, hx, rfl⟩ := Option.map_eq_some_iff.mp h
  have ha := (hd.after ms).booked.agrees hx
  have hnew : (opening world paths).warning i = .blank := by
    simp only [warning, opening, List.getElem?_map]
    cases paths[i]? <;> rfl
  have hlatest (c : Classification) :
      x.warning = .settled c ↔ LatestAnswer s (opening world paths) ms i c := by
    rw [← warning_eq_settled_iff hd hnew]
    simp [warning, hx]
  have hexcl {c : Classification} (hp : x.path ≠ "") (hc : x.classification = .settled c) :
      x.snapshot.showWarning = !x.snapshot.canSubmit :=
    Snapshot.showWarning_of_settled hp hc (ha.shown hc).1
  refine ⟨hlatest, ⟨fun hw c hl => ?_, fun hno => ?_⟩, ha.blank, fun hp => ⟨ha.cleared hp, ?_⟩,
    fun c hc => (ha.shown hc).1, fun hboth => ?_, fun hp hn => ?_⟩
  · have hw : x.warning = .blank := hw
    rw [(hlatest c).mpr hl] at hw
    cases hw
  · rcases ha.warned with hb | ⟨r, q, c, -, -, -, hw⟩
    · exact hb
    · exact absurd ((hlatest c).mp hw) (hno c)
  · exact Snapshot.flags_of_blank hp (ha.blank.mp hp)
  · obtain ⟨hp, hvalid⟩ := (Snapshot.canSubmit_iff _).mp hboth.1
    rw [hexcl hp hvalid, hboth.1] at hboth
    cases hboth.2
  · cases hc : x.classification with
    | blank => exact absurd (ha.blank.mpr hc) hp
    | pending => simp [Snapshot.isPending, Dialog.snapshot, hc] at hn
    | settled c => exact hexcl hp hc

/-- An answer for a first path, a second path that has none yet, and then no path. -/
def clearedLater : List (Move Unit) := threePaths.take 7 ++ [.edit 0 (.setPath "")]

/-- The warning outlives the path that it was an answer for, but not a path that is cleared. -/
theorem snapshot_consistent_cleared_later :
    LatestAnswer (patient "/root") (opening () [""]) (threePaths.take 7) 0 .bare ∧
      ∀ c, ¬ LatestAnswer (patient "/root") (opening () [""]) clearedLater 0 c :=
  have hlatest := snapshot_consistent (patient "/root") () [""] (threePaths.take 7) (i := 0) rfl
  have hnone := snapshot_consistent (patient "/root") () [""] clearedLater (i := 0) rfl
  ⟨(hlatest.1 .bare).mp rfl, hnone.2.1.mp rfl⟩

end Desk
end Admission
