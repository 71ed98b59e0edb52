import Admission.Proofs.Desk.Moves

/-!
# The ledger of a dialog

What a dialog shows is tied to the requests it has issued and to how these ended. The requests of
a dialog are numbered without gaps in the order of issue; the last applied number is the greatest
applied one; a settled classification is the answer of that very request, for the live path; and
the newest request of an open dialog is for the live path. Where answers come from is not said.
-/
namespace Admission

/-- What the ledger keeps of a request. -/
structure Issue where
  dialog : Nat
  number : Nat
  path : String
  verdict? : Option Verdict
  deriving DecidableEq, Repr

/-- A request's line in the ledger. -/
def Request.issue (q : Request) : Issue := ⟨q.dialog, q.number, q.path, q.verdict?⟩

/-- A request of dialog `i` whose answer, `c`, has been applied. -/
def Issue.IsApplied (q : Issue) (i : Nat) (c : Classification) : Prop :=
  q.dialog = i ∧ q.verdict? = some (.answered c true)

/-- Dialog `i`, which is `x`, agrees with the requests. -/
structure Agrees (i : Nat) (x : Dialog) (issues : List Issue) : Prop where
  owned : ∀ {r : Nat} {q : Issue}, issues[r]? = some q → q.dialog = i →
    0 < q.number ∧ q.number ≤ x.issued ∧ q.path ≠ ""
  numbered : ∀ {n : Nat}, 0 < n → n ≤ x.issued →
    ∃ (r : Nat) (q : Issue), issues[r]? = some q ∧ q.dialog = i ∧ q.number = n
  applied : x.applied = 0 ∨ ∃ (r : Nat) (q : Issue) (c : Classification),
    issues[r]? = some q ∧ q.IsApplied i c ∧ q.number = x.applied
  newest : ∀ {r : Nat} {q : Issue} {c : Classification}, issues[r]? = some q →
    q.IsApplied i c → q.number ≤ x.applied
  blank : x.path = "" ↔ x.classification = .blank
  cleared : x.path = "" → x.warning = .blank
  warned : x.warning = .blank ∨ ∃ (r : Nat) (q : Issue) (c : Classification),
    issues[r]? = some q ∧ q.IsApplied i c ∧ q.number = x.applied ∧ x.warning = .settled c
  shown : ∀ {c : Classification}, x.classification = .settled c →
    x.warning = .settled c ∧ ∃ (r : Nat) (q : Issue),
      issues[r]? = some q ∧ q.IsApplied i c ∧ q.number = x.applied ∧ q.path = x.path
  live : x.closed = false → x.path ≠ "" → ∃ (r : Nat) (q : Issue),
    issues[r]? = some q ∧ q.dialog = i ∧ q.number = x.issued ∧ q.path = x.path ∧
      ∀ {c : Classification} {applied : Bool}, q.verdict? = some (.answered c applied) →
        applied = true ∧ x.classification = .settled c

/-- The numbers of a dialog's requests grow in the order of issue. -/
def InOrder (issues : List Issue) : Prop :=
  ∀ {r r' : Nat} {q q' : Issue}, r < r' → issues[r]? = some q → issues[r']? = some q' →
    q.dialog = q'.dialog → q.number < q'.number

/-- All dialogs agree with the requests. -/
structure Ledger (dialogs : List Dialog) (issues : List Issue) : Prop where
  homed : ∀ {r : Nat} {q : Issue}, issues[r]? = some q → q.dialog < dialogs.length
  ordered : InOrder issues
  agrees : ∀ {i : Nat} {x : Dialog}, dialogs[i]? = some x → Agrees i x issues

/-- A request is told by its dialog and its number. -/
theorem InOrder.unique {issues : List Issue} (h : InOrder issues) {r r' : Nat} {q q' : Issue}
    (hq : issues[r]? = some q) (hq' : issues[r']? = some q') (hd : q.dialog = q'.dialog)
    (hn : q.number = q'.number) : r = r' ∧ q = q' := by
  rcases Nat.lt_trichotomy r r' with hlt | rfl | hlt
  · have := h hlt hq hq' hd
    omega
  · exact ⟨rfl, Option.some.inj (hq.symm.trans hq')⟩
  · have := h hlt hq' hq hd.symm
    omega

theorem Agrees.applied_le {i : Nat} {x : Dialog} {issues : List Issue} (h : Agrees i x issues) :
    x.applied ≤ x.issued := by
  rcases h.applied with h0 | ⟨r, q, c, hq, ha, hn⟩
  · omega
  · have := (h.owned hq ha.1).2.1
    omega

/-! ## One dialog -/

/-- Only the lines of the dialog itself count. -/
theorem Agrees.congr {i : Nat} {x : Dialog} {issues issues' : List Issue} (h : Agrees i x issues)
    (hl : ∀ {r : Nat} {q : Issue}, q.dialog = i → (issues'[r]? = some q ↔ issues[r]? = some q)) :
    Agrees i x issues' where
  owned hq hd := h.owned ((hl hd).mp hq) hd
  numbered h0 hn := by
    obtain ⟨r, q, hq, hd, he⟩ := h.numbered h0 hn
    exact ⟨r, q, (hl hd).mpr hq, hd, he⟩
  applied := by
    rcases h.applied with h0 | ⟨r, q, c, hq, ha, hn⟩
    · exact Or.inl h0
    · exact Or.inr ⟨r, q, c, (hl ha.1).mpr hq, ha, hn⟩
  newest hq ha := h.newest ((hl ha.1).mp hq) ha
  blank := h.blank
  cleared := h.cleared
  warned := by
    rcases h.warned with hb | ⟨r, q, c, hq, ha, hrest⟩
    · exact Or.inl hb
    · exact Or.inr ⟨r, q, c, (hl ha.1).mpr hq, ha, hrest⟩
  shown hc := by
    obtain ⟨hw, r, q, hq, ha, hrest⟩ := h.shown hc
    exact ⟨hw, r, q, (hl ha.1).mpr hq, ha, hrest⟩
  live ho hp := by
    obtain ⟨r, q, hq, hd, hrest⟩ := h.live ho hp
    exact ⟨r, q, (hl hd).mpr hq, hd, hrest⟩

/-- What neither edits the path nor applies an answer is of no account, closing included. -/
theorem Agrees.aside {i : Nat} {x y : Dialog} {issues : List Issue} (h : Agrees i x issues)
    (hp : y.path = x.path) (hc : y.classification = x.classification)
    (hw : y.warning = x.warning) (hi : y.issued = x.issued) (ha : y.applied = x.applied)
    (ho : y.closed = false → x.closed = false) : Agrees i y issues where
  owned hq hd := hi ▸ h.owned hq hd
  numbered h0 hn := h.numbered h0 (hi ▸ hn)
  applied := ha ▸ h.applied
  newest hq hq' := ha ▸ h.newest hq hq'
  blank := by rw [hp, hc]; exact h.blank
  cleared hy := by rw [hw]; exact h.cleared (hp ▸ hy)
  warned := by rw [hw, ha]; exact h.warned
  shown hy := by rw [hw, ha, hp]; exact h.shown (hc ▸ hy)
  live hy hy' := by rw [hi, hp, hc]; exact h.live (ho hy) (hp ▸ hy')

/-- A dialog that has issued nothing agrees with requests that are all of other dialogs. -/
theorem Agrees.new {i : Nat} {x : Dialog} {issues : List Issue} (hp : x.path = "")
    (hc : x.classification = .blank) (hw : x.warning = .blank) (hi : x.issued = 0)
    (ha : x.applied = 0)
    (hn : ∀ {r : Nat} {q : Issue}, issues[r]? = some q → q.dialog ≠ i) : Agrees i x issues where
  owned hq hd := absurd hd (hn hq)
  numbered h0 hle := by omega
  applied := Or.inl ha
  newest hq hq' := absurd hq'.1 (hn hq)
  blank := by simp [hp, hc]
  cleared _ := hw
  warned := Or.inl hw
  shown hy := by rw [hc] at hy; cases hy
  live _ hy := absurd hp hy

/-- The path is cleared, and what was known goes with it; the numbers stay. -/
theorem Agrees.clear {i : Nat} {x y : Dialog} {issues : List Issue} (h : Agrees i x issues)
    (hp : y.path = "") (hc : y.classification = .blank) (hw : y.warning = .blank)
    (hi : y.issued = x.issued) (ha : y.applied = x.applied) : Agrees i y issues where
  owned hq hd := hi ▸ h.owned hq hd
  numbered h0 hn := h.numbered h0 (hi ▸ hn)
  applied := ha ▸ h.applied
  newest hq hq' := ha ▸ h.newest hq hq'
  blank := by simp [hp, hc]
  cleared _ := hw
  warned := Or.inl hw
  shown hy := by rw [hc] at hy; cases hy
  live _ hy := absurd hp hy

/-- A new request, with the next number, for what is now the live path. -/
theorem Agrees.ask {i : Nat} {x y : Dialog} {issues : List Issue} (h : Agrees i x issues)
    (hp : y.path ≠ "") (hc : y.classification = .pending) (hw : y.warning = x.warning)
    (hi : y.issued = x.issued + 1)
    (ha : y.applied = x.applied) :
    Agrees i y (issues ++ [⟨i, x.issued + 1, y.path, none⟩]) := by
  have hold {r : Nat} {q : Issue} (hq : issues[r]? = some q) :
      (issues ++ [⟨i, x.issued + 1, y.path, none⟩])[r]? = some q :=
    getElem?_concat_eq_some_iff.mpr (Or.inl hq)
  have hnew : (issues ++ [⟨i, x.issued + 1, y.path, none⟩])[issues.length]? =
      some ⟨i, x.issued + 1, y.path, none⟩ :=
    getElem?_concat_eq_some_iff.mpr (Or.inr ⟨rfl, rfl⟩)
  constructor
  · intro r q hq hd
    rcases getElem?_concat_eq_some_iff.mp hq with hq | ⟨-, rfl⟩
    · obtain ⟨h0, hn, hpath⟩ := h.owned hq hd
      exact ⟨h0, by omega, hpath⟩
    · exact ⟨by simp, by simp [hi], hp⟩
  · intro n h0 hn
    by_cases hlt : n ≤ x.issued
    · obtain ⟨r, q, hq, hd, he⟩ := h.numbered h0 hlt
      exact ⟨r, q, hold hq, hd, he⟩
    · exact ⟨_, _, hnew, rfl, by simp; omega⟩
  · rcases h.applied with h0 | ⟨r, q, c, hq, hap, hn⟩
    · exact Or.inl (ha.trans h0)
    · exact Or.inr ⟨r, q, c, hold hq, hap, hn.trans ha.symm⟩
  · intro r q c hq hap
    rcases getElem?_concat_eq_some_iff.mp hq with hq | ⟨-, rfl⟩
    · exact ha ▸ h.newest hq hap
    · cases hap.2
  · simp [hp, hc]
  · exact fun hy => absurd hy hp
  · rcases h.warned with hb | ⟨r, q, c, hq, hap, hn, he⟩
    · exact Or.inl (hw.trans hb)
    · exact Or.inr ⟨r, q, c, hold hq, hap, hn.trans ha.symm, hw.trans he⟩
  · intro c hy
    rw [hc] at hy
    cases hy
  · exact fun _ _ => ⟨_, _, hnew, rfl, hi.symm, rfl, nofun⟩

/-- An edit, and the request that it calls for. -/
theorem Agrees.edit {i : Nat} {x : Dialog} {issues : List Issue} (h : Agrees i x issues)
    (path : String) :
    Agrees i (x.edit path)
      (issues ++ if x.asks path then [⟨i, x.issued + 1, path, none⟩] else []) := by
  by_cases hc : x.closed = true
  · simp [Dialog.asks, Dialog.edit, hc, h]
  · by_cases hp : path = ""
    · have hask : x.asks path = false := by simp [Dialog.asks, hp]
      have hedit : x.edit path =
          { x with path := "", classification := .blank, warning := .blank } := by
        simp [Dialog.edit, hc, hp]
      have hclear : Agrees i (x.edit path) issues := by
        rw [hedit]
        exact h.clear rfl rfl rfl rfl rfl
      simpa [hask] using hclear
    · have hask : x.asks path = true := by simp [Dialog.asks, hc, hp]
      obtain ⟨hpath, hclass, -⟩ := Dialog.edit_of_asks hask
      have happlied : (x.edit path).applied = x.applied := by simp [Dialog.edit, hc, hp]
      have hwarning : (x.edit path).warning = x.warning := by simp [Dialog.edit, hc, hp]
      have hnew := h.ask (y := x.edit path) (by rwa [hpath]) hclass hwarning
        (by simp [Dialog.issued_edit, hask]) happlied
      rw [hpath] at hnew
      simpa [hask] using hnew

/-! ## The end of a request -/

/-- The end of request `r` entered. -/
def enterVerdict (issues : List Issue) (r : Nat) (v : Verdict) : List Issue :=
  issues.modify r fun q => { q with verdict? := some v }

theorem getElem?_enterVerdict_of_ne {issues : List Issue} {r r' : Nat} {v : Verdict} (h : r ≠ r') :
    (enterVerdict issues r v)[r']? = issues[r']? := by
  simp [enterVerdict, h]

theorem getElem?_enterVerdict {issues : List Issue} {r : Nat} {q : Issue} {v : Verdict}
    (h : issues[r]? = some q) :
    (enterVerdict issues r v)[r]? = some { q with verdict? := some v } := by
  simp [enterVerdict, h]

/-- A line stays, but for the verdict of the one request that ends. -/
theorem of_getElem?_enterVerdict {issues : List Issue} {r r' : Nat} {q q' : Issue} {v : Verdict}
    (h : issues[r]? = some q) (h' : (enterVerdict issues r v)[r']? = some q') :
    (r = r' ∧ q' = { q with verdict? := some v }) ∨ (r ≠ r' ∧ issues[r']? = some q') := by
  by_cases he : r = r'
  · subst he
    exact Or.inl ⟨rfl, Option.some.inj (h'.symm.trans (getElem?_enterVerdict h))⟩
  · exact Or.inr ⟨he, getElem?_enterVerdict_of_ne he ▸ h'⟩

theorem getElem?_enterVerdict_isSome {issues : List Issue} {r r' : Nat} {q : Issue} (v : Verdict)
    (h : issues[r']? = some q) :
    ∃ q', (enterVerdict issues r v)[r']? = some q' ∧ q'.dialog = q.dialog ∧ q'.number = q.number ∧
      q'.path = q.path := by
  by_cases he : r = r'
  · subst he
    exact ⟨_, getElem?_enterVerdict h, rfl, rfl, rfl⟩
  · exact ⟨q, (getElem?_enterVerdict_of_ne he).trans h, rfl, rfl, rfl⟩

/-- A request that has an answer is not the one that ends. -/
theorem getElem?_enterVerdict_of_verdict {issues : List Issue} {r r' : Nat} {q q' : Issue}
    {v w : Verdict} (h : issues[r]? = some q) (hv : q.verdict? = none) (h' : issues[r']? = some q')
    (hw : q'.verdict? = some w) : (enterVerdict issues r v)[r']? = some q' := by
  by_cases he : r = r'
  · subst he
    obtain rfl := Option.some.inj (h.symm.trans h')
    rw [hv] at hw
    cases hw
  · exact (getElem?_enterVerdict_of_ne he).trans h'

/-- A request ends and its dialog stays: there was no answer, or it did not count. -/
theorem Agrees.dropped {i r : Nat} {x : Dialog} {issues : List Issue} {q : Issue} {v : Verdict}
    (h : Agrees i x issues) (hq : issues[r]? = some q) (hn : q.verdict? = none)
    (hv : ∀ c applied, v = .answered c applied →
      applied = false ∧ (q.dialog = i → ¬ x.accepts q.path (some q.number) = true)) :
    Agrees i x (enterVerdict issues r v) where
  owned hq' hd := by
    rcases of_getElem?_enterVerdict hq hq' with ⟨-, rfl⟩ | ⟨-, hq'⟩
    · have howned := h.owned hq hd
      exact howned
    · exact h.owned hq' hd
  numbered h0 hle := by
    obtain ⟨r', q', hq', hd, he⟩ := h.numbered h0 hle
    obtain ⟨q'', hq'', hd', he', -⟩ := getElem?_enterVerdict_isSome v hq'
    exact ⟨r', q'', hq'', hd'.trans hd, he'.trans he⟩
  applied := by
    rcases h.applied with h0 | ⟨r', q', c, hq', ha, he⟩
    · exact Or.inl h0
    · exact Or.inr ⟨r', q', c, getElem?_enterVerdict_of_verdict hq hn hq' ha.2, ha, he⟩
  newest hq' ha := by
    rcases of_getElem?_enterVerdict hq hq' with ⟨-, rfl⟩ | ⟨-, hq'⟩
    · cases (hv _ _ (Option.some.inj ha.2)).1
    · exact h.newest hq' ha
  blank := h.blank
  cleared := h.cleared
  warned := by
    rcases h.warned with hb | ⟨r', q', c, hq', ha, hrest⟩
    · exact Or.inl hb
    · exact Or.inr ⟨r', q', c, getElem?_enterVerdict_of_verdict hq hn hq' ha.2, ha, hrest⟩
  shown hc := by
    obtain ⟨hw, r', q', hq', ha, hrest⟩ := h.shown hc
    exact ⟨hw, r', q', getElem?_enterVerdict_of_verdict hq hn hq' ha.2, ha, hrest⟩
  live ho hp := by
    obtain ⟨r', q', hq', hd, hnum, hpath, hans⟩ := h.live ho hp
    by_cases he : r = r'
    · -- the newest request is for the live path, so an answer of it would have counted
      subst he
      obtain rfl := Option.some.inj (hq.symm.trans hq')
      refine ⟨r, _, getElem?_enterVerdict hq, hd, hnum, hpath, fun {c applied} hverdict => ?_⟩
      have hnot := (hv c applied (Option.some.inj hverdict)).2 hd
      exact absurd ((Dialog.accepts_iff ..).mpr ⟨ho, hpath, hnum ▸ h.applied_le⟩) hnot
    · exact ⟨r', q', (getElem?_enterVerdict_of_ne he).trans hq', hd, hnum, hpath, hans⟩

/-- A request of the dialog ends with an answer that counts. -/
theorem Agrees.counted {i r : Nat} {x : Dialog} {issues : List Issue} {q : Issue}
    {c : Classification} (h : Agrees i x issues) (ho : InOrder issues) (hq : issues[r]? = some q)
    (hd : q.dialog = i) (ha : x.accepts q.path (some q.number) = true) :
    Agrees i { x with classification := .settled c, warning := .settled c, applied := q.number }
      (enterVerdict issues r (.answered c true)) := by
  obtain ⟨hopen, hlive, hle⟩ := (Dialog.accepts_iff ..).mp ha
  obtain ⟨-, hissued, hpath⟩ := h.owned hq hd
  have hself := getElem?_enterVerdict (v := .answered c true) hq
  constructor
  · intro r' q' hq' hd'
    rcases of_getElem?_enterVerdict hq hq' with ⟨-, rfl⟩ | ⟨-, hq'⟩
    · have howned := h.owned hq hd'
      exact howned
    · exact h.owned hq' hd'
  · intro n h0 hn
    obtain ⟨r', q', hq', hd', he⟩ := h.numbered h0 hn
    obtain ⟨q'', hq'', hd'', he', -⟩ := getElem?_enterVerdict_isSome (.answered c true) hq'
    exact ⟨r', q'', hq'', hd''.trans hd', he'.trans he⟩
  · exact Or.inr ⟨r, _, c, hself, ⟨hd, rfl⟩, rfl⟩
  · intro r' q' c' hq' ha'
    rcases of_getElem?_enterVerdict hq hq' with ⟨-, rfl⟩ | ⟨-, hq'⟩
    · exact Nat.le_refl _
    · exact Nat.le_trans (h.newest hq' ha') hle
  · simp [← hlive, hpath]
  · exact fun hy => absurd (hlive.trans hy) hpath
  · exact Or.inr ⟨r, _, c, hself, ⟨hd, rfl⟩, rfl, rfl⟩
  · intro c' hc'
    cases hc'
    exact ⟨rfl, r, _, hself, ⟨hd, rfl⟩, rfl, hlive⟩
  · intro _ hp
    obtain ⟨r', q', hq', hd', hnum, hpath', hans⟩ := h.live hopen hp
    by_cases he : r = r'
    · subst he
      obtain rfl := Option.some.inj (hq.symm.trans hq')
      refine ⟨r, _, hself, hd, hnum, hlive, fun {c' applied} hverdict => ?_⟩
      cases hverdict
      exact ⟨rfl, rfl⟩
    · refine ⟨r', q', (getElem?_enterVerdict_of_ne he).trans hq', hd', hnum, hpath',
        fun {c' applied} hverdict => ?_⟩
      -- had the newest request been answered, nothing else would count
      obtain ⟨rfl, -⟩ := hans hverdict
      have := h.newest hq' ⟨hd', hverdict⟩
      exact absurd (ho.unique hq hq' (hd.trans hd'.symm) (by omega)).1 he

/-! ## All dialogs -/

/-- What happens to one dialog and to its requests is of no account to the others. -/
theorem Ledger.onDialog {dialogs : List Dialog} {issues issues' : List Issue} {i : Nat}
    {f : Dialog → Dialog} (h : Ledger dialogs issues)
    (hhome : ∀ {r : Nat} {q : Issue}, issues'[r]? = some q → q.dialog < dialogs.length)
    (hord : InOrder issues')
    (hself : ∀ {x : Dialog}, dialogs[i]? = some x → Agrees i x issues → Agrees i (f x) issues')
    (hrest : ∀ {r : Nat} {q : Issue}, q.dialog ≠ i → (issues'[r]? = some q ↔ issues[r]? = some q)) :
    Ledger (dialogs.modify i f) issues' where
  homed hq := by simpa using hhome hq
  ordered := hord
  agrees {j} y hy := by
    obtain ⟨x, hx, rfl⟩ := getElem?_modify_eq_some_iff.mp hy
    split
    · rename_i he
      subst he
      exact hself hx (h.agrees hx)
    · rename_i he
      exact (h.agrees hx).congr fun hd => hrest (hd ▸ Ne.symm he)

end Admission
