import Admission.Premises
import Admission.Proofs.Desk.Orderly
import Admission.Proofs.Desk.Provenance

/-!
# Failures of an inspection

An inspection runs git at most once, and takes a failure of the system for a missing path. Any other
failure gets through, whether the look at the directory fails or the run: a request of a dialog that
works with git then ends with an error, and the dialog has no answer. When git fails so is not said.
-/
namespace Admission

variable {σ : Type}

namespace Git

variable {host : Host σ} {git path : String} {s : σ} {f : Failure}

/-- The host, with the commands that are run on it written down. -/
def Host.recorded (host : Host σ) : Host (σ × List (List String)) where
  isDirectory path s := host.isDirectory path s.1
  run words s := ((host.run words s.1).1, (host.run words s.1).2, s.2 ++ [words])

/-- A failure that an inspection does not absorb: it is not the system's, and the look at the
directory ended with it, or the run of git did. -/
structure Passes (host : Host σ) (git path : String) (s : σ) (f : Failure) : Prop where
  foreign : f.kind.isSystem = false
  raised : host.isDirectory (Path.locationText path) s = .error f ∨
    host.isDirectory (Path.locationText path) s = .ok true ∧
      (host.run (inspection git path) s).1 = .error f

theorem absorb_eq_error_iff {g : Failure} :
    absorb g = .error f ↔ g.kind.isSystem = false ∧ g = f := by
  unfold absorb
  split
  · rename_i h
    simp [h]
  · rename_i h
    simp [h]

theorem classify_eq_error_iff :
    (classify host git path s).1 = .error f ↔ Passes host git path s f := by
  have hpasses : Passes host git path s f ↔ f.kind.isSystem = false ∧
      (host.isDirectory (Path.locationText path) s = .error f ∨
        host.isDirectory (Path.locationText path) s = .ok true ∧
          (host.run (inspection git path) s).1 = .error f) :=
    ⟨fun h => ⟨h.foreign, h.raised⟩, fun h => ⟨h.1, h.2⟩⟩
  have habsorbed (g : Failure) :
      absorb g = .error f ↔ f.kind.isSystem = false ∧ g = f := by
    rw [absorb_eq_error_iff]
    constructor <;> rintro ⟨hg, rfl⟩ <;> exact ⟨hg, rfl⟩
  rw [hpasses, classify]
  rcases hlook : host.isDirectory (Path.locationText path) s with g | found
  · simp [habsorbed]
  · cases found with
    | false => simp
    | true =>
      rcases hrun : host.run (inspection git path) s with ⟨g | e, t⟩
      · simp [habsorbed]
      · simp

/-- The directory that another user owns has a name. -/
theorem owner_ne_empty {owner : String}
    (h : (classify host git path s).1 = .ok (.dubious owner)) : owner ≠ "" := by
  have habsorbed (g : Failure) : absorb g ≠ .ok (.dubious owner) := by
    unfold absorb
    split <;> simp
  unfold classify at h
  split at h
  · exact absurd h (habsorbed _)
  · cases h
  · split at h
    · rename_i e _ _
      simp only [Except.ok.injEq, Exit.classification] at h
      split at h
      · split at h <;> cases h
      · split at h
        · rename_i name hname
          obtain rfl := Classification.dubious.inj h
          obtain ⟨cs, hcs, rfl⟩ := Option.map_eq_some_iff.mp hname
          exact fun hempty => flaggedDirectory?_ne_nil hcs (String.ofList_eq_empty_iff.mp hempty)
        · cases h
    · exact absurd h (habsorbed _)

/-- An inspection is the same on a host that writes the commands down. -/
theorem classify_recorded (host : Host σ) (git path : String) (s : σ)
    (before : List (List String)) :
    classify host.recorded git path (s, before) =
      ((classify host git path s).1, (classify host git path s).2,
        before ++ if host.isDirectory (Path.locationText path) s = .ok true then
          [inspection git path] else []) := by
  simp only [classify, Host.recorded]
  rcases host.isDirectory (Path.locationText path) s with g | found
  · simp
  · cases found with
    | false => simp
    | true => rcases host.run (inspection git path) s with ⟨g | e, t⟩ <;> rfl

end Git

namespace Desk

variable {s : Setting σ} {d e : Desk σ}

/-- Every call has been answered with what the classifier gives for its path. -/
def Told (s : Setting σ) (d : Desk σ) : Prop :=
  ∀ ⦃c : Nat⦄ ⦃k : Call⦄, d.calls[c]? = some k →
    ∃ world o, (s.classify k.path world).1 = some o ∧ k.state = .answered o

theorem Told.change (prompt : ∀ path world, (s.classify path world).1 ≠ none) (hc : Change s d e)
    (h : Told s d) : Told s e := by
  have hsame (he : e.calls = d.calls) : Told s e := fun c k hk => h (he ▸ hk)
  cases hc with
  | around _ _ hc _ => exact hsame hc
  | seat path => exact hsame rfl
  | aside i _ => exact hsame rfl
  | edit i path =>
    refine hsame ?_
    unfold Desk.edit
    split
    · rfl
    · exact calls_ask d i _ path
  | endTrust _ => exact hsame (calls_ask d _ _ _)
  | @call r q path _ _ =>
    intro c k hk
    rcases getElem?_concat_eq_some_iff.mp hk with hk | ⟨-, rfl⟩
    · exact h hk
    · obtain ⟨o, ho⟩ := Option.ne_none_iff_exists'.mp (prompt path d.world)
      exact ⟨d.world, o, ho, by simp [ho]⟩
  | endCall hc =>
    obtain ⟨world, o, -, hstate⟩ := h hc
    cases hstate
  | pace _ => exact hsame rfl
  | endProbe _ _ => exact hsame rfl
  | probeTold _ => exact hsame (calls_tellProbeEnded _ _)

/-- Where the classifier answers every call at once, nobody else does. -/
theorem Reachable.told (prompt : ∀ path world, (s.classify path world).1 ≠ none)
    (h : Reachable s d) : Told s d := by
  refine h.invariant (fun _ _ => nofun) (fun hc => Told.change prompt hc) fun {d r q o} _ _ ht => ?_
  have hcalls : (conclude s d r o).calls = d.calls := by
    unfold conclude
    split <;> rfl
  exact fun c k hk => ht (hcalls ▸ hk)

end Desk

namespace Premises

variable {host : Git.Host σ} {git : String} {s : Setting (Premises σ)} {d : Desk (Premises σ)}

theorem classify_eq (wired : s.toServices = services host git) (path : String) (p : Premises σ) :
    (s.classify path p).1 = some (Git.classify host git path p.host).1 := by
  rw [wired]
  rfl

/-- A failure that a request ended with came through from the host. -/
theorem passes_of_raised (wired : s.toServices = services host git) (hd : Desk.Reachable s d)
    {r : Nat} {q : Request} (hq : d.requests[r]? = some q) {c : Nat} {f : Failure}
    (h : stateOf d.calls r c = some (.answered (.error f))) :
    ∃ target state, Path.canonical s.home q.path = some target ∧
      Git.Passes host git target state f := by
  have prompt (path : String) (p : Premises σ) : (s.classify path p).1 ≠ none := by
    simp [classify_eq wired]
  obtain ⟨target, hc⟩ := Desk.stateOf_eq_some_iff.mp h
  obtain ⟨p, o, ho, hstate⟩ := hd.told prompt hc
  obtain rfl : .error f = o := CallState.answered.inj hstate
  rw [classify_eq wired] at ho
  exact ⟨target, p.host, hd.backed.canonical hq hc,
    Git.classify_eq_error_iff.mp (Option.some.inj ho)⟩

/-- On every host an inspection fails just with a failure that is not the system's, of the look at
the directory or of git; otherwise it gives a classification, and an owner that it names has a name.
Git is run once, for the path, if that is a directory, and not at all if it is none. So a request of
a dialog that works with git ends with an error only if there is no canonical path, for want of a
home directory, or if the inspection of the canonical path failed in that way. -/
theorem inspection_fails_iff (host : Git.Host σ) (git : String) (s : Setting (Premises σ))
    (wired : s.toServices = services host git) :
    (∀ (path : String) (state : σ),
      (∀ f, (Git.classify host git path state).1 = .error f ↔ Git.Passes host git path state f) ∧
      (∀ owner, (Git.classify host git path state).1 = .ok (.dubious owner) → owner ≠ "") ∧
      ∀ before, Git.classify host.recorded git path (state, before) =
        ((Git.classify host git path state).1, (Git.classify host git path state).2,
          before ++ if host.isDirectory (Path.locationText path) state = .ok true then
            [[git, "-C", path, "rev-parse", "--is-bare-repository"]] else [])) ∧
    ∀ (d : Desk (Premises σ)) (r : Nat) (q : Request) (e : Error), Desk.Reachable s d →
      d.requests[r]? = some q → q.verdict? = some (.failed e) →
      (e = .homeUnknown ∧ Path.canonical s.home q.path = none) ∨
      ∃ target state f, Path.canonical s.home q.path = some target ∧ e = .failure f ∧
        Git.Passes host git target state f := by
  refine ⟨fun path state => ⟨fun f => Git.classify_eq_error_iff, fun owner => Git.owner_ne_empty,
    Git.classify_recorded host git path state⟩, fun d r q e hd hq hv => ?_⟩
  have hstage := ((Desk.sound_iff_fits hq).mp (hd.orderly r)).stage
  simp only [Request.Placed, Desk.stage_of_verdict hv] at hstage
  rcases hstage with hhome | ⟨c, f, he, hstate⟩
  · exact .inl hhome
  · obtain ⟨target, state, htarget, hpasses⟩ := passes_of_raised wired hd hq hstate
    exact .inr ⟨target, state, f, htarget, he, hpasses⟩

/-- Dialogs that work with the git of a script. -/
def scripted : Setting (Premises Git.Script) :=
  { services Git.Script.host "git" with home := "/root" }

/-- A script in which the first run of git fails because what it wrote is no text. -/
def garbled : Premises Git.Script where
  host := { directories := ["/a"], outcomes := [.error ⟨.value, "no text"⟩] }
  registry := ⟨Path.Location.ofText "/list.json", .absent⟩
  disk := Disk.sound

/-- A request, and its first run. -/
def requested : List (Move (Premises Git.Script)) := [.edit 0 (.setPath "/a"), .step, .step]

/-- The request fails, and so the inspection did; on a host that has no git it would not have. -/
theorem inspection_fails_iff_garbled :
    (∃ target state f, Path.canonical "/root" "/a" = some target ∧
      Error.failure ⟨.value, "no text"⟩ = .failure f ∧
      Git.Passes Git.Script.host "git" target state f) ∧
    ∀ f, (Git.classify Git.Script.host "git" "/a" { directories := ["/a"] }).1 ≠ .error f := by
  have h := inspection_fails_iff Git.Script.host "git" scripted rfl
  constructor
  · rcases h.2 ((Desk.opening garbled [""]).after scripted requested) 0 _
      (.failure ⟨.value, "no text"⟩) ((Desk.reachable_opening garbled [""]).after requested) rfl rfl
      with ⟨he, -⟩ | hpasses
    · cases he
    · exact hpasses
  · intro f hf
    have hpasses := ((h.1 "/a" { directories := ["/a"] }).1 f).mp hf
    obtain ⟨hforeign, hlook | ⟨-, hrun⟩⟩ := hpasses
    · cases hlook
    · cases hrun
      cases hforeign

/-- An inspection may fail, and a dialog that works with git may be left without an answer. -/
theorem foreign_failure_gets_through :
    (¬ ∀ (path : String) (state : Git.Script),
      ∃ c, (Git.classify Git.Script.host "git" path state).1 = .ok c) ∧
    ¬ ∀ (p : Premises Git.Script) (ms : List (Move (Premises Git.Script))) (r : Nat) (q : Request)
        (f : Failure), ((Desk.opening p [""]).after scripted ms).requests[r]? = some q →
      q.verdict? ≠ some (.failed (.failure f)) := by
  constructor
  · intro h
    obtain ⟨c, hc⟩ := h "/a" garbled.host
    cases hc
  · intro h
    exact h garbled requested 0 _ ⟨.value, "no text"⟩ rfl rfl

end Premises

end Admission
