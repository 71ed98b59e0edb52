import Admission.Premises
import Admission.Proofs.Additions
import Admission.Proofs.Desk.Gates
import Admission.Proofs.Trust

/-!
# What comes of a submission

A submission is refused when it sets out, or it hands the path over to the registrar. What the
registrar adds closes the dialog; where it fails, or the errand has been cancelled, the dialogs stay
as they are. With the list of repositories for registrar, the path is on the list to the letter after
a success. A failure leaves the file alone unless it comes after the file was opened, or the place of
the file is a directory that was made on the way to it. When the registrar answers is not said.
-/
namespace Admission

namespace Registry

/-- The file holds JSON, and `path` is on the list there, to the letter. -/
def Lists (r : Registry) (path : String) : Prop :=
  ∃ (text : String) (v : Json.Value) (items : List Json.Value), r.storage = .file text.toUTF8 ∧
    Json.read text = .ok v ∧ v.field? listKey = some (.list items) ∧ .text path ∈ items

theorem lists_of_storage {r : Registry} {paths : List String}
    (h : r.storage = .file (listText paths).toUTF8) {path : String} (hp : path ∈ paths) :
    r.Lists path :=
  ⟨_, _, _, h, (plain_listValue paths).read_render (.indented 2), rfl,
    List.mem_map.mpr ⟨path, hp, rfl⟩⟩

/-- Nothing is read from an empty file. -/
theorem repositories_of_empty {r : Registry} (h : r.storage = .file ByteArray.empty) :
    r.repositories = [] := by
  have hlisted : r.repositories = entries "" := repositories_of_text h
  exact hlisted.trans (by decide)

end Registry

namespace Desk

variable {σ : Type} {s : Setting σ} {d e : Desk σ} {b : Prop} {op : Operation} {i k : Nat}
  {target : String} {m : Move σ} {x : Dialog} {y : Errand}

/-- What desk `d` becomes when errand `k`, which runs `op`, goes on that has called the registrar
with `target` for dialog `i`; `b` says whether the errand has been cancelled. -/
inductive SubmitEnds (s : Setting σ) (b : Prop) (d : Desk σ) (k i : Nat) (target : String)
    (op : Operation) (e : Desk σ) : Prop
  | added {handles : List String} (hb : ¬b) (h : (s.register [target] d.world).1 = .ok handles)
      (he : SaveFor k ((d.alter fun world => (s.register [target] world).2).submitted i op) e)
      (hdialogs : e.dialogs = d.dialogs.modify i Dialog.close)
      (hk : e.progress? k = some (.ended (.gave (.added handles.head?))))
  | failed {f : Failure} (hb : ¬b) (h : (s.register [target] d.world).1 = .error f)
      (he : SaveFor k (d.alter fun world => (s.register [target] world).2) e)
      (hk : e.progress? k = some (.ended (.failed (.failure f))))
  | cancelled (hb : b) (he : SaveFor k d e) (hk : e.progress? k = some (.ended .cancelled))

/-- With move `m` errand `k`, which runs `op`, hands `target` over to the registrar for dialog `i`.
`e` is the desk that it finds. -/
inductive HandsOver (s : Setting σ) (d : Desk σ) (m : Move σ) (k i : Nat) (target : String)
    (op : Operation) (e : Desk σ) : Prop
  | atOnce (hg : s.registerGate d.world = none)
      (h : SubmitEnds s False (e.note (.register i [target])) k i target op (d.move s m))
  | waits {gate : Nat} (hg : s.registerGate d.world = some gate)
      (he : SaveFor k (e.note (.register i [target])) (d.move s m))
      (hk : AtGate .registrar False (d.move s m) k i target op)

/-! ## What the errand changes -/

theorem world_cancelRequest (d : Desk σ) (r : Nat) : (d.cancelRequest r).1.world = d.world := by
  have hwithdraw (c : Nat) (j : Job) : (d.withdrawCall c j).1.world = d.world := by
    unfold withdrawCall
    split <;> rfl
  unfold cancelRequest
  dsimp only
  split
  · rfl
  · rfl
  · split
    · rename_i h
      exact (congrArg (·.1.world) h).symm.trans (hwithdraw _ _)
    · rename_i h
      exact (congrArg (·.1.world) h).symm.trans (hwithdraw _ _)
  · rfl
  · rfl
  · rfl

/-- To close a dialog needs no service. -/
theorem world_closeDialog (d : Desk σ) (i : Nat) : (d.closeDialog i).world = d.world := by
  unfold closeDialog
  refine List.foldlRecOn _ _ (motive := fun n : Desk σ => n.world = d.world) rfl fun n hn r _ => ?_
  split
  · rw [world_cancelRequest, hn]
  · exact hn

theorem world_submitted (d : Desk σ) (i : Nat) (op : Operation) :
    (d.submitted i op).world = d.world := by
  unfold submitted
  split <;> exact world_closeDialog d i

theorem passRegister_ends (hy : d.errands[k]? = some y) (hb : ¬b) :
    SubmitEnds s b d k i target y.operation (passRegister s d k i target) := by
  have hends := progress?_passRegister (s := s) (i := i) hy target
  cases h : (s.register [target] d.world).1 with
  | error f =>
    rw [h] at hends
    refine .failed hb h ?_ hends
    rw [passRegister_of_error h]
    exact saveFor_onErrand _ k _
  | ok handles =>
    rw [h] at hends
    have hrest := saveFor_onErrand
      ((d.alter fun world => (s.register [target] world).2).submitted i y.operation) k
      fun q => { q with progress := .ended (.gave (.added handles.head?)), stopping := false }
    rw [passRegister_of_ok hy h] at hends ⊢
    exact .added hb h hrest (hrest.dialogs.trans (dialogs_submitted s _ i y.operation)) hends

/-! ## When the errand sets out -/

/-- A valid answer is for a path that has a canonical one. -/
theorem Reachable.canonical_of_valid (hd : Reachable s d) (hx : d.dialogs[i]? = some x)
    (hc : x.classification = .settled .valid) :
    ∃ target, Path.canonical s.home x.path = some target := by
  obtain ⟨-, r, q, -, -, hcame⟩ := hd.answer_of_settled hx hc
  obtain ⟨-, target, htarget, -⟩ := hcame.told_of_ne_missing nofun
  exact ⟨target, htarget⟩

theorem SetsOut.refused (h : SetsOut d m k i e) (hx : d.dialogs[i]? = some x)
    (hno : x.snapshot.canSubmit = false) :
    SaveFor k e (d.move s m) ∧
      (d.move s m).progress? k = some (.ended (.failed (.notAdmissible x.snapshot))) := by
  obtain ⟨op, hop, -⟩ := h.2
  have hshown : e.snapshot? i = some x.snapshot := by
    simp [snapshot?, h.1.found.dialogs, hx]
  have hends : d.move s m = e.endErrand k (.failed (.notAdmissible x.snapshot)) := by
    simp [h.move, beginSubmit, hshown, hno]
  rw [hends]
  exact ⟨saveFor_onErrand e k _, progress?_endErrand hop _⟩

theorem SetsOut.handsOver (h : SetsOut d m k i e) (hop : e.errands[k]? = some { operation := op })
    (hx : d.dialogs[i]? = some x) (hcan : x.snapshot.canSubmit = true)
    (htarget : Path.canonical s.home x.path = some target) :
    HandsOver s d m k i target op e := by
  have hshown : e.snapshot? i = some x.snapshot := by
    simp [snapshot?, h.1.found.dialogs, hx]
  have hpath : Path.canonical s.home x.snapshot.path = some target := htarget
  have hgate : s.registerGate (e.note (.register i [target])).world = s.registerGate d.world := by
    rw [← h.1.found.world]
    rfl
  cases hg : s.registerGate d.world with
  | some gate =>
    have hbegin : d.move s m =
        (e.note (.register i [target])).await k (.registering i target gate .waiting) := by
      simp only [h.move, beginSubmit, hshown, hcan, if_true, hpath, hgate, hg]
    refine .waits hg (hbegin ▸ saveFor_onErrand _ k _) ?_
    rw [hbegin]
    exact atGate_await (d := e.note (.register i [target])) hop
  | none =>
    have hbegin : d.move s m = passRegister s (e.note (.register i [target])) k i target := by
      simp only [h.move, beginSubmit, hshown, hcan, if_true, hpath, hgate, hg]
    refine .atOnce hg ?_
    rw [hbegin]
    exact passRegister_ends (y := { operation := op }) hop not_false

/-- The errand has been cancelled, or it goes on with the registrar's answer. -/
theorem AtGate.submitEnds (h : AtGate .registrar b d k i target op) (hd : Reachable s d)
    (hruns : Runs d m k e) : SubmitEnds s b e k i target op (d.move s m) := by
  obtain ⟨gate, a, stopping, hy, hb⟩ := h.turn hd hruns
  rw [hruns.move]
  simp only [runErrand, hy, Gated.progress]
  split
  · rename_i hs
    exact .cancelled (hb.mpr hs) (saveFor_onErrand _ k _) (progress?_endErrand hy _)
  · rename_i hs
    exact passRegister_ends hy fun hc => hs (hb.mp hc)

/-- A dialog that shows a valid answer can be submitted, whatever became of it before. -/
theorem submit_again (hx : d.dialogs[i]? = some x) (hcan : x.snapshot.canSubmit = true)
    (htarget : Path.canonical s.home x.path = some target)
    (hg : s.registerGate d.world = none) {handles : List String}
    (h : (s.register [target] d.world).1 = .ok handles) :
    (d.move s (.perform (.submit i))).progress? d.errands.length =
      some (.ended (.gave (.added handles.head?))) := by
  have hop : (d.errands ++ [{ operation := .submit i }])[d.errands.length]? =
      some { operation := .submit i } := List.getElem?_concat_length
  have hout : SetsOut d (.perform (.submit i)) d.errands.length i
      { d with errands := d.errands ++ [{ operation := .submit i }] } :=
    ⟨.atOnce (.submit i), .submit i, hop, rfl⟩
  cases hout.handsOver hop hx hcan htarget with
  | waits hgate => cases hg.symm.trans hgate
  | atOnce _ hends =>
    cases hends with
    | added _ h' _ _ hk =>
      obtain rfl := Except.ok.inj (h.symm.trans h')
      exact hk
    | failed _ h' => cases h.symm.trans h'
    | cancelled hc => exact hc.elim

end Desk

/-! ## The list of repositories -/

namespace Premises

variable {σ : Type} {host : Git.Host σ} {git : String} {s : Setting (Premises σ)}
  {d e : Desk (Premises σ)} {m : Move (Premises σ)} {i k : Nat} {op : Operation} {target : String}

/-- A call that fails has changed nothing but the place of the file. -/
theorem register_error {p : Premises σ} {paths : List String} {f : Failure}
    (h : (p.register paths).1 = .error f) :
    (p.register paths).2.host = p.host ∧
      Registry.Saves p.registry (paths.foldl Registry.enlist p.registry.repositories) (p.disk 0)
        (.error f) (p.register paths).2.registry := by
  have hsaves := p.registry.saves_save (paths.foldl Registry.enlist p.registry.repositories)
    (p.disk 0)
  refine ⟨rfl, ?_⟩
  cases hout : (p.registry.add paths (p.disk 0)).1 with
  | error g =>
    obtain rfl : g = f := by simpa [register, hout, Except.map] using h
    exact hout ▸ hsaves
  | ok => simp [register, hout, Except.map] at h

/-- How a submission ends whose registrar is the list of repositories. It is refused, and nothing
has changed; the list cannot be saved, and nothing has changed but the place of the file; or the path
is on the list and the dialog is closed. -/
inductive Submitted (d : Desk (Premises σ)) (k i : Nat) (path : Option String)
    (e : Desk (Premises σ)) : Prop
  | refused {x : Snapshot} (hk : e.progress? k = some (.ended (.failed (.notAdmissible x))))
      (hworld : e.world = d.world) (hdialogs : e.dialogs = d.dialogs)
  | failed {target : String} {f : Failure} (hpath : path = some target)
      (hk : e.progress? k = some (.ended (.failed (.failure f))))
      (hhost : e.world.host = d.world.host)
      (hfile : Registry.Saves d.world.registry
        (Registry.enlist d.world.registry.repositories target) (d.world.disk 0) (.error f)
        e.world.registry)
      (hdialogs : e.dialogs = d.dialogs)
  | added {target : String} (hpath : path = some target)
      (hk : e.progress? k = some (.ended (.gave (.added (some target)))))
      (hhost : e.world.host = d.world.host)
      (hlocation : e.world.registry.location = d.world.registry.location)
      (hlists : e.world.registry.Lists target)
      (hdialogs : e.dialogs = d.dialogs.modify i Dialog.close)

theorem Submitted.congr {f : Desk (Premises σ)} {path : Option String} (h : Submitted e k i path f)
    (hworld : e.world = d.world) (hdialogs : e.dialogs = d.dialogs) : Submitted d k i path f := by
  cases h with
  | refused hk hw hx => exact .refused hk (hw.trans hworld) (hx.trans hdialogs)
  | failed hpath hk hh hfile hx =>
    rw [hworld] at hh hfile
    exact .failed hpath hk hh hfile (hx.trans hdialogs)
  | added hpath hk hh hl hlists hx =>
    rw [hworld] at hh hl
    rw [hdialogs] at hx
    exact .added hpath hk hh hl hlists hx

theorem submitted_of_submitEnds (wired : s.toServices = services host git)
    (h : Desk.SubmitEnds s False d k i target op e) : Submitted d k i (some target) e := by
  have hregister (p : Premises σ) : s.register [target] p = p.register [target] := by
    rw [wired]
    rfl
  cases h with
  | @added handles _ h he hdialogs hk =>
    rw [hregister] at h
    obtain ⟨rfl, hsaved⟩ := eq_of_register (Prod.ext h rfl)
    have hworld : e.world =
        d.world.saved ([target].foldl Registry.enlist d.world.registry.repositories) := by
      rw [he.world, Desk.world_submitted, ← hsaved, ← hregister]
      rfl
    refine .added rfl hk (by rw [hworld]; rfl) (by rw [hworld]; rfl) ?_ hdialogs
    rw [hworld]
    exact Registry.lists_of_storage rfl
      (Registry.mem_foldl_enlist.mpr (.inr (List.mem_singleton_self target)))
  | failed _ h he hk =>
    rw [hregister] at h
    have hworld : e.world = (d.world.register [target]).2 := by
      rw [he.world, ← hregister]
      rfl
    obtain ⟨hhost, hsaves⟩ := register_error h
    exact .failed rfl hk (hworld ▸ hhost) (hworld ▸ hsaves) he.dialogs
  | cancelled hc => exact hc.elim

theorem submitted_of_setsOut (wired : s.toServices = services host git) (hd : Desk.Reachable s d)
    (h : Desk.SetsOut d m k i e) {x : Dialog} (hx : d.dialogs[i]? = some x) :
    Submitted d k i (Path.canonical s.home x.path) (d.move s m) := by
  have hfound := h.1.found
  obtain ⟨op, hop, -⟩ := id h.2
  cases hcan : x.snapshot.canSubmit with
  | false =>
    obtain ⟨he, hk⟩ := h.refused (s := s) hx hcan
    exact .refused hk (he.world.trans hfound.world) (he.dialogs.trans hfound.dialogs)
  | true =>
    have hvalid := ((Snapshot.canSubmit_iff _).mp hcan).2
    obtain ⟨target, htarget⟩ := hd.canonical_of_valid hx hvalid
    rw [htarget]
    cases h.handsOver hop hx hcan htarget with
    | waits hg =>
      rw [wired] at hg
      cases hg
    | atOnce _ hends =>
      exact (submitted_of_submitEnds wired hends).congr hfound.world hfound.dialogs

end Premises

namespace Desk

/-- **What comes of a submission.** It is refused when it sets out just if the path is empty or no
valid answer is shown; the registrar is not called then, and nothing has changed but the errand.
Otherwise it hands the canonical path over to the registrar, and on every run it stays there until
its turn comes. If the registrar has added the path, the errand gives the first handle, if there is
one, and the dialog is closed. If the registrar fails, the errand ends with that failure, and if it
has been cancelled, it ends so; the desk is otherwise as it was, and the dialog can be submitted
again as long as it shows a valid answer. Where the registrar is the list of repositories, after a
submission that succeeds the canonical path is on the list that the file holds. One that fails leaves
the file as it was, whatever stands in its place, unless the writing broke off, or no file was there
and the way to the place of the file leads through it. -/
theorem submission_outcomes :
    (∀ (σ : Type) (s : Setting σ) (d : Desk σ), Reachable s d →
      (∀ (m : Move σ) (k i : Nat) (e : Desk σ) (op : Operation) (x : Dialog),
        SetsOut d m k i e → e.errands[k]? = some { operation := op } → d.dialogs[i]? = some x →
        (x.path = "" ∨ x.classification ≠ .settled .valid →
          SaveFor k e (d.move s m) ∧ (d.move s m).progress? k =
            some (.ended (.failed (.notAdmissible x.snapshot)))) ∧
        (x.path ≠ "" → x.classification = .settled .valid →
          ∃ target, Path.canonical s.home x.path = some target ∧
            HandsOver s d m k i target op e)) ∧
      (∀ (b : Prop) (k i : Nat) (target : String) (op : Operation),
        AtGate .registrar b d k i target op → ∀ ms : List (Move σ),
          AtGate .registrar (b ∨ .cancelErrand k ∈ ms) (d.after s ms) k i target op ∨
          ∃ before later e, ms = before ++ .step :: later ∧ Runs (d.after s before) .step k e ∧
            SubmitEnds s (b ∨ .cancelErrand k ∈ before) e k i target op
              ((d.after s before).move s .step)) ∧
      ∀ (i : Nat) (x : Dialog) (target : String) (handles : List String),
        d.dialogs[i]? = some x → x.path ≠ "" → x.classification = .settled .valid →
        Path.canonical s.home x.path = some target → s.registerGate d.world = none →
        (s.register [target] d.world).1 = .ok handles →
        (d.move s (.perform (.submit i))).progress? d.errands.length =
          some (.ended (.gave (.added handles.head?)))) ∧
    ∀ (σ : Type) (host : Git.Host σ) (git : String) (s : Setting (Premises σ)),
      s.toServices = Premises.services host git → ∀ d : Desk (Premises σ), Reachable s d →
      ∀ (m : Move (Premises σ)) (k i : Nat) (e : Desk (Premises σ)) (x : Dialog),
        SetsOut d m k i e → d.dialogs[i]? = some x →
        Premises.Submitted d k i (Path.canonical s.home x.path) (d.move s m) := by
  refine ⟨fun σ s d hd => ⟨fun m k i e op x hout hop hx => ⟨fun hno => ?_, fun hp hc => ?_⟩,
    fun b k i target op hgate ms => ?_, fun i x target handles hx hp hc htarget hg h => ?_⟩,
    fun σ host git s wired d hd m k i e x hout => Premises.submitted_of_setsOut wired hd hout⟩
  · refine hout.refused hx (Bool.not_eq_true _ ▸ fun hcan => ?_)
    obtain ⟨hp, hc⟩ := (Snapshot.canSubmit_iff _).mp hcan
    exact hno.elim hp (· hc)
  · obtain ⟨target, htarget⟩ := hd.canonical_of_valid hx hc
    exact ⟨target, htarget,
      hout.handsOver hop hx ((Snapshot.canSubmit_iff _).mpr ⟨hp, hc⟩) htarget⟩
  · rcases hgate.after (s := s) ms with hstill | ⟨before, later, e, hms, hthere, hruns⟩
    · exact .inl hstill
    · exact .inr ⟨before, later, e, hms, hruns, hthere.submitEnds (hd.after before) hruns⟩
  · exact submit_again hx ((Snapshot.canSubmit_iff x.snapshot).mpr ⟨hp, hc⟩) htarget hg h

/-- A host on which every path is a repository. -/
def obliging : Git.Host Unit where
  isDirectory _ _ := .ok true
  run _ world := (.ok {}, world)

def agreeable : Setting (Premises Unit) := { Premises.services obliging "git" with home := "/root" }

/-- A dialog that shows a valid answer, over a registry that was found so. -/
def shown (location : String) (storage : Storage) (disk : Disk) : Desk (Premises Unit) :=
  (opening ⟨(), ⟨Path.Location.ofText location, storage⟩, disk⟩ [""]).after agreeable
    [.edit 0 (.setPath "/a"), .step, .step]

/-- The dialog submitted. -/
def handedIn (location : String) (storage : Storage) (disk : Disk) : Desk (Premises Unit) :=
  (shown location storage disk).move agreeable (.perform (.submit 0))

theorem setsOut_shown (location : String) (storage : Storage) (disk : Disk) :
    SetsOut (shown location storage disk) (.perform (.submit 0)) 0 0
      { shown location storage disk with errands := [{ operation := .submit 0 }] } :=
  ⟨.atOnce (.submit 0), .submit 0, rfl, rfl⟩

/-- With a directory in the place of the file a submission fails, and so it does where the file
cannot be opened; over bytes that are no text it succeeds. -/
theorem submission_outcomes_stored :
    (handedIn "/list.json" .directory Disk.sound).world.registry.storage = .directory ∧
    (handedIn "/list.json" .absent
      fun _ => .refused ⟨.permission, "read-only"⟩).world.registry.storage = .absent ∧
    (handedIn "/list.json" (.file ⟨#[255]⟩) Disk.sound).world.registry.Lists "/a" := by
  have h (storage : Storage) (disk : Disk) := submission_outcomes.2 Unit obliging "git" agreeable
    rfl (shown "/list.json" storage disk) ((reachable_opening _ [""]).after _)
    (.perform (.submit 0)) 0 0 _ _ (setsOut_shown _ storage disk) rfl
  refine ⟨?_, ?_, ?_⟩
  · cases h .directory Disk.sound with
    | refused hk => cases hk
    | failed _ _ _ hfile => exact congrArg Registry.storage (hfile.eq_self nofun nofun)
    | added _ hk => cases hk
  · cases h .absent fun _ => .refused ⟨.permission, "read-only"⟩ with
    | refused hk => cases hk
    | failed _ _ _ hfile =>
      exact congrArg Registry.storage (hfile.eq_self (fun _ => by decide) nofun)
    | added _ hk => cases hk
  · cases h (.file ⟨#[255]⟩) Disk.sound with
    | refused hk => cases hk
    | failed _ hk => cases hk
    | added hpath _ _ _ hlists =>
      cases hpath
      exact hlists

/-- A disk that has no room for a text, but lets the file be opened. -/
def crowded : Disk := fun _ => .broken ⟨.system, "[Errno 28] No space left on device"⟩ 0

/-- A place that has to be a directory before a file can stand there. -/
def detour : String := "cfg/config.json/../config.json"

/-- A file with a path on the list. -/
def oneListed : Storage := .file (Registry.listText ["/b"]).toUTF8

/-- A submission that fails may leave a directory where no file was, and on a crowded disk it loses
the list that was in the file. -/
theorem failed_submission_changes_file :
    ((handedIn detour .absent Disk.sound).progress? 0 = some (.ended (.failed (.failure
        ⟨.isDirectory, "[Errno 21] Is a directory: 'cfg/config.json/../config.json'"⟩))) ∧
      (shown detour .absent Disk.sound).world.registry.storage = .absent ∧
      (handedIn detour .absent Disk.sound).world.registry.storage = .directory) ∧
    ((handedIn "/list.json" oneListed crowded).progress? 0 =
        some (.ended (.failed (.failure ⟨.system, "[Errno 28] No space left on device"⟩))) ∧
      (shown "/list.json" oneListed crowded).world.registry.repositories = ["/b"] ∧
      (handedIn "/list.json" oneListed crowded).world.registry.repositories = []) := by
  refine ⟨⟨by decide +kernel, rfl, rfl⟩, rfl, ?_, ?_⟩
  · exact (Registry.repositories_of_storage rfl).trans (by decide)
  · have wired : agreeable.toServices = Premises.services obliging "git" := rfl
    have hends := Premises.submitted_of_setsOut wired ((reachable_opening _ [""]).after _)
      (setsOut_shown "/list.json" oneListed crowded) rfl
    cases hends with
    | refused hk => cases hk
    | failed _ _ _ hfile =>
      have hstorage := hfile.storage_of_broken (Registry.writable_of_file rfl) rfl
      rw [ByteArray.extract_eq_empty_iff.mpr (by simp)] at hstorage
      exact Registry.repositories_of_empty hstorage
    | added _ hk => cases hk

end Desk
end Admission
