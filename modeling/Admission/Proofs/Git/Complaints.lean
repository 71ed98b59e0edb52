import Admission.Premises
import Admission.Proofs.Git.Inspections
import Admission.Proofs.TrustOutcomes
import Mathlib.Data.List.Basic
import Mathlib.Data.List.TakeWhile

/-!
# Reading git's complaint

Git's output is searched for the marker, and a directory is read from there to the last quote of the
line. No marker begins within another, so the first one is the first to be looked at, and no line
matters to what is read off another. So a directory without line feed is read back from git's
complaint about it, and from there it goes unchanged to git's list of trusted directories. What is
read off a complaint about a directory with a line feed is not said here.
-/
namespace Admission

namespace Git

variable {cs before rest name : List Char}

/-! ## A name between quotes -/

theorem takeWhile_append_lineFeed (cs ds : List Char) :
    (cs ++ '\n' :: ds).takeWhile (· ≠ '\n') = cs.takeWhile (· ≠ '\n') := by
  induction cs with
  | nil => simp
  | cons c cs ih => by_cases hc : c = '\n' <;> simp_all

theorem takeWhile_of_not_mem (h : '\n' ∉ cs) : cs.takeWhile (· ≠ '\n') = cs := by
  rw [List.takeWhile_eq_self_iff]
  intro c hc
  simpa using fun he : c = '\n' => h (he ▸ hc)

/-- Only the first line matters. -/
theorem quotedName?_append_lineFeed (cs ds : List Char) :
    quotedName? (cs ++ '\n' :: ds) = quotedName? cs := by
  simp only [quotedName?, takeWhile_append_lineFeed]

theorem quotedName?_of_not_mem (h : '\'' ∉ cs.takeWhile (· ≠ '\n')) : quotedName? cs = none := by
  have hdrop : (cs.takeWhile (· ≠ '\n')).reverse.dropWhile (· ≠ '\'') = [] := by
    rw [List.dropWhile_eq_nil_iff]
    intro c hc
    simpa using fun he : c = '\'' => h (he ▸ List.mem_reverse.mp hc)
  simp only [quotedName?, hdrop]

/-- The name ends at the last quote of the line. -/
theorem quotedName?_of_last {after : List Char}
    (h : cs.takeWhile (· ≠ '\n') = name ++ '\'' :: after) (hlast : '\'' ∉ after) :
    quotedName? cs = if name = [] then none else some name := by
  have hdrop : (cs.takeWhile (· ≠ '\n')).reverse.dropWhile (· ≠ '\'') = '\'' :: name.reverse := by
    rw [h, List.reverse_append, List.reverse_cons, List.append_assoc,
      List.dropWhile_append_of_pos]
    · simp
    · intro c hc
      simpa using fun he : c = '\'' => hlast (he ▸ List.mem_reverse.mp hc)
  simp only [quotedName?, hdrop]
  simp

theorem exists_last_quote (h : '\'' ∈ cs) :
    ∃ name after, cs = name ++ '\'' :: after ∧ '\'' ∉ after := by
  obtain ⟨as, bs, hcs, hnot⟩ := List.eq_append_cons_of_mem (List.mem_reverse.mpr h)
  refine ⟨bs.reverse, as.reverse, ?_, by simpa using hnot⟩
  rw [← List.reverse_reverse cs, hcs]
  simp

/-- On a line, nothing is named just if a quote stands nowhere but at the front. -/
theorem quotedName?_eq_none_iff (h : '\n' ∉ cs) :
    quotedName? cs = none ↔ ∀ name after, cs = name ++ '\'' :: after → name = [] := by
  have hline := takeWhile_of_not_mem h
  constructor
  · rintro hnone name after rfl
    obtain ⟨more, last, hsplit, hlast⟩ := exists_last_quote (List.mem_cons_self : '\'' ∈ '\'' :: after)
    rw [quotedName?_of_last (hline.trans (by rw [hsplit, ← List.append_assoc])) hlast] at hnone
    simp at hnone
    exact hnone.1
  · intro hfront
    by_cases hq : '\'' ∈ cs
    · obtain ⟨name, after, hcs, hlast⟩ := exists_last_quote hq
      rw [quotedName?_of_last (hline.trans hcs) hlast, if_pos (hfront name after hcs)]
    · exact quotedName?_of_not_mem (hline.symm ▸ hq)

/-! ## The marker -/

/-- The directory that is named at the front, if the marker stands there. -/
def namedHere? (cs : List Char) : Option (List Char) :=
  (ownershipMarker.isPrefixOf? cs).bind quotedName?

theorem namedHere?_marker (rest : List Char) :
    namedHere? (ownershipMarker ++ rest) = quotedName? rest := by
  rw [namedHere?, List.isPrefixOf?_eq_some_iff_append_eq.mpr rfl, Option.bind_some]

theorem namedHere?_of_not_isPrefix (h : ¬ownershipMarker <+: cs) : namedHere? cs = none := by
  cases hp : ownershipMarker.isPrefixOf? cs with
  | none => rw [namedHere?, hp, Option.bind_none]
  | some rest => exact absurd ⟨rest, List.isPrefixOf?_eq_some_iff_append_eq.mp hp⟩ h

theorem flaggedDirectory?_cons (c : Char) (rest : List Char) :
    flaggedDirectory? (c :: rest) = (namedHere? (c :: rest)).or (flaggedDirectory? rest) := by
  rw [flaggedDirectory?]
  cases hhere : namedHere? (c :: rest) with
  | none =>
    rw [namedHere?] at hhere
    simp only [hhere, Option.none_or]
  | some name =>
    rw [namedHere?] at hhere
    simp only [hhere, Option.some_or]

theorem flaggedDirectory?_of_namedHere? (h : namedHere? cs = some name) :
    flaggedDirectory? cs = some name := by
  cases cs with
  | nil => cases h
  | cons c rest => rw [flaggedDirectory?_cons, h, Option.some_or]

theorem isPrefix_append_cases {l ds : List Char} (h : l <+: cs ++ ds) :
    l <+: cs ∨ ∃ tail, tail ≠ [] ∧ tail <+: ds ∧ l = cs ++ tail := by
  rcases List.prefix_or_prefix_of_prefix h (List.prefix_append cs ds) with hl | ⟨tail, rfl⟩
  · exact .inl hl
  · by_cases htail : tail = []
    · exact .inl (by simp [htail])
    · exact .inr ⟨tail, htail, (List.prefix_append_right_inj cs).mp h, rfl⟩

/-- No marker begins within another: its last character is a quote, and no other is. -/
theorem not_isPrefix_append_marker (hne : before ≠ []) (h : ¬ownershipMarker <+: before)
    (rest : List Char) : ¬ownershipMarker <+: before ++ (ownershipMarker ++ rest) := by
  intro hp
  obtain ⟨tail, htail, hp, hmarker⟩ := (isPrefix_append_cases hp).resolve_left h
  have hlength : tail.length < ownershipMarker.length := by
    have := List.length_pos_iff.mpr hne
    rw [hmarker, List.length_append]
    omega
  have hinit : tail <+: ownershipMarker.dropLast := by
    have := List.prefix_of_prefix_length_le hp (List.prefix_append _ rest) hlength.le
    refine (List.prefix_concat_iff.mp this).resolve_left fun he => ?_
    rw [he] at hlength
    exact hlength.ne rfl
  have hquote : tail.getLast? = some '\'' := by
    rw [← List.getLast?_append_of_ne_nil before htail, ← hmarker]
    rfl
  exact absurd (hinit.subset (List.mem_of_getLast? hquote)) (by decide)

/-- The first marker is the first to be looked at. -/
theorem flaggedDirectory?_append_marker (h : ¬ownershipMarker <:+: before) (rest : List Char) :
    flaggedDirectory? (before ++ (ownershipMarker ++ rest)) =
      flaggedDirectory? (ownershipMarker ++ rest) := by
  induction before with
  | nil => rfl
  | cons c before ih =>
    rw [List.infix_cons_iff, not_or] at h
    have hnone := namedHere?_of_not_isPrefix
      (not_isPrefix_append_marker (List.cons_ne_nil c before) h.1 rest)
    rw [List.cons_append] at hnone ⊢
    rw [flaggedDirectory?_cons, hnone, Option.none_or, ih h.2]

theorem isPrefix_of_append_lineFeed {ds : List Char} (h : ownershipMarker <+: cs ++ '\n' :: ds) :
    ownershipMarker <+: cs := by
  refine (isPrefix_append_cases h).resolve_right ?_
  rintro ⟨tail, htail, hp, hmarker⟩
  obtain ⟨c, tail, rfl⟩ := List.exists_cons_of_ne_nil htail
  obtain ⟨rfl, -⟩ := List.cons_prefix_cons.mp hp
  have hmem : '\n' ∈ ownershipMarker := by simp [hmarker]
  exact absurd hmem (by decide)

theorem namedHere?_append_lineFeed (cs ds : List Char) :
    namedHere? (cs ++ '\n' :: ds) = namedHere? cs := by
  by_cases h : ownershipMarker <+: cs
  · obtain ⟨rest, rfl⟩ := h
    rw [List.append_assoc, namedHere?_marker, namedHere?_marker, quotedName?_append_lineFeed]
  · rw [namedHere?_of_not_isPrefix h,
      namedHere?_of_not_isPrefix fun hp => h (isPrefix_of_append_lineFeed hp)]

/-! ## Lines -/

/-- What stands before a line feed is searched before what stands after it. -/
theorem flaggedDirectory?_append_lineFeed (cs ds : List Char) :
    flaggedDirectory? (cs ++ '\n' :: ds) = (flaggedDirectory? cs).or (flaggedDirectory? ds) := by
  induction cs with
  | nil =>
    have hnone : namedHere? ('\n' :: ds) = none := namedHere?_append_lineFeed [] ds
    rw [List.nil_append, flaggedDirectory?_cons, hnone, Option.none_or, flaggedDirectory?,
      Option.none_or]
  | cons c cs ih =>
    have hhere := namedHere?_append_lineFeed (c :: cs) ds
    rw [List.cons_append] at hhere ⊢
    rw [flaggedDirectory?_cons, flaggedDirectory?_cons, hhere, ih, Option.or_assoc]

/-- Nothing is flagged just if nothing is named after any marker. -/
theorem flaggedDirectory?_eq_none_iff :
    flaggedDirectory? cs = none ↔
      ∀ before rest, cs = before ++ (ownershipMarker ++ rest) → quotedName? rest = none := by
  induction cs with
  | nil =>
    refine iff_of_true rfl fun before rest h => ?_
    obtain ⟨-, hrest⟩ := List.nil_eq_append_iff.mp h
    exact absurd (List.append_eq_nil_iff.mp hrest).1 (by decide)
  | cons c cs ih =>
    rw [flaggedDirectory?_cons, Option.or_eq_none_iff, ih]
    constructor
    · rintro ⟨hhere, hlater⟩ before rest hcs
      cases before with
      | nil =>
        rw [hcs, List.nil_append, namedHere?_marker] at hhere
        exact hhere
      | cons b before =>
        exact hlater before rest (List.cons.inj hcs).2
    · intro h
      constructor
      · by_cases hp : ownershipMarker <+: c :: cs
        · obtain ⟨rest, hrest⟩ := hp
          rw [← hrest, namedHere?_marker]
          exact h [] rest hrest.symm
        · exact namedHere?_of_not_isPrefix hp
      · intro before rest hcs
        exact h (c :: before) rest (by rw [hcs, List.cons_append])

/-- The line holds the marker, after it a name, and after this a quote. -/
def Flags (line : List Char) : Prop :=
  ∃ before name after, name ≠ [] ∧ line = before ++ ownershipMarker ++ name ++ '\'' :: after

theorem flaggedDirectory?_eq_none_iff_of_line (h : '\n' ∉ cs) :
    flaggedDirectory? cs = none ↔ ¬Flags cs := by
  have hrest {before rest : List Char} (hcs : cs = before ++ (ownershipMarker ++ rest)) :
      '\n' ∉ rest := fun hmem => h (by simp [hcs, hmem])
  rw [flaggedDirectory?_eq_none_iff]
  constructor
  · rintro hnone ⟨before, name, after, hname, hcs⟩
    have hcs : cs = before ++ (ownershipMarker ++ (name ++ '\'' :: after)) := by
      simpa [List.append_assoc] using hcs
    exact hname ((quotedName?_eq_none_iff (hrest hcs)).mp (hnone _ _ hcs) name after rfl)
  · intro hflags before rest hcs
    refine (quotedName?_eq_none_iff (hrest hcs)).mpr fun name after hsplit => ?_
    by_contra hname
    exact hflags ⟨before, name, after, hname, by simp [hcs, hsplit]⟩

/-- Line by line: nothing is flagged just if no line flags. -/
theorem flaggedDirectory?_eq_none_iff_lines :
    flaggedDirectory? cs = none ↔ ∀ line ∈ cs.splitOn '\n', ¬Flags line := by
  induction hn : cs.length using Nat.strong_induction_on generalizing cs with
  | h n ih =>
    by_cases hline : '\n' ∈ cs
    · obtain ⟨first, later, rfl, hfirst⟩ := List.eq_append_cons_of_mem hline
      have hlater := ih later.length (by simp [← hn]; omega) rfl
      rw [flaggedDirectory?_append_lineFeed, Option.or_eq_none_iff,
        flaggedDirectory?_eq_none_iff_of_line hfirst, hlater,
        List.splitOn_append_cons_self_of_not_mem hfirst, List.forall_mem_cons]
    · rw [List.splitOn_eq_singleton hline, flaggedDirectory?_eq_none_iff_of_line hline]
      simp

/-! ## Complaints -/

/-- What git writes when it refuses a directory, with other text before and after. -/
def complaint (before directory after : String) : String :=
  before ++ "detected dubious ownership in repository at '" ++ directory ++ "'" ++ after

theorem toList_complaint (before directory after : String) :
    (complaint before directory after).toList =
      before.toList ++ (ownershipMarker ++ (directory.toList ++ '\'' :: after.toList)) := by
  have hmarker : "detected dubious ownership in repository at '".toList = ownershipMarker := rfl
  have hquote : "'".toList = ['\''] := rfl
  rw [complaint, String.toList_append, String.toList_append, String.toList_append,
    String.toList_append, hmarker, hquote]
  simp only [List.append_assoc, List.singleton_append]

theorem dubiousOwner?_eq_none_iff {errors : String} :
    dubiousOwner? errors = none ↔ ∀ line ∈ errors.toList.splitOn '\n', ¬Flags line := by
  rw [dubiousOwner?, Option.map_eq_none_iff, flaggedDirectory?_eq_none_iff_lines]

/-- The name ends with the line's last quote, and the line with the first line feed. -/
theorem quotedName?_append_quote {after : List Char} (hline : '\n' ∉ name)
    (hlast : '\'' ∉ after.takeWhile (· ≠ '\n')) :
    quotedName? (name ++ '\'' :: after) = if name = [] then none else some name := by
  have hfirst : (name ++ '\'' :: after).takeWhile (· ≠ '\n') =
      name ++ '\'' :: after.takeWhile (· ≠ '\n') := by
    rw [List.takeWhile_append_of_pos]
    · simp
    · intro c hc
      simpa using fun he : c = '\n' => hline (he ▸ hc)
  exact quotedName?_of_last hfirst hlast

theorem dubiousOwner?_complaint {before directory after : String}
    (first : ¬ownershipMarker <:+: before.toList) (named : directory ≠ "")
    (line : '\n' ∉ directory.toList) (last : '\'' ∉ after.toList.takeWhile (· ≠ '\n')) :
    dubiousOwner? (complaint before directory after) = some directory := by
  have hname : directory.toList ≠ [] := fun h => named (String.toList_eq_nil_iff.mp h)
  have hread : flaggedDirectory? (ownershipMarker ++ (directory.toList ++ '\'' :: after.toList)) =
      some directory.toList := by
    refine flaggedDirectory?_of_namedHere? ?_
    rw [namedHere?_marker, quotedName?_append_quote line last, if_neg hname]
  rw [dubiousOwner?, toList_complaint, flaggedDirectory?_append_marker first, hread,
    Option.map_some, String.ofList_toList]

theorem classification_of_dubiousOwner? {e : Exit} {owner : String} (hstatus : e.status ≠ 0)
    (hread : dubiousOwner? e.errors = some owner) : e.classification = .dubious owner := by
  rw [Exit.classification, if_neg hstatus, hread]

/-! ## Trust for the directory that was read -/

section Trust

variable {σ : Type}

theorem commands_storeRun (host : Host σ) (git : String) (words : List String)
    (s : σ × List (List String)) :
    (storeRun host.recorded git words s).2.2 = s.2 ++ [words] := by
  simp only [storeRun, Host.recorded]
  rcases host.run words s.1 with ⟨f | e, t⟩
  · dsimp only
    split <;> rfl
  · rfl

theorem commands_trustedPaths (host : Host σ) (git : String) (s : σ × List (List String)) :
    (trustedPaths host.recorded git s).2.2 = s.2 ++ [listing git] := by
  have hran := commands_storeRun host git (listing git) s
  unfold trustedPaths
  rcases hrun : storeRun host.recorded git (listing git) s with ⟨f | e, t⟩ <;> rw [hrun] at hran
  · exact hran
  · dsimp only
    split
    · exact hran
    · split <;> exact hran

/-- To trust a directory is to list the trusted ones, and then to add it at most. -/
theorem commands_trust (host : Host σ) (git path : String) (s : σ × List (List String)) :
    ∃ wrote, (trust host.recorded git path s).2.2 = s.2 ++ listing git :: wrote ∧
      (wrote = [] ∨ wrote = [addition git path]) := by
  have hlisted := commands_trustedPaths host git s
  unfold trust
  rcases hread : trustedPaths host.recorded git s with ⟨f | paths, t⟩ <;> rw [hread] at hlisted
  · exact ⟨[], hlisted, .inl rfl⟩
  · dsimp only at hlisted ⊢
    split
    · exact ⟨[], hlisted, .inl rfl⟩
    · have hran := commands_storeRun host git (addition git path) t
      rw [hlisted, List.append_assoc, List.singleton_append] at hran
      refine ⟨[addition git path], ?_, .inr rfl⟩
      rcases hrun : storeRun host.recorded git (addition git path) t with ⟨f | e, u⟩ <;>
        rw [hrun] at hran
      · exact hran
      · dsimp only
        split <;> exact hran

/-- A dialog that is asked for trust passes on the owner that it shows. -/
theorem commands_of_asksTrust {host : Host σ} {git : String}
    {s : Setting (Premises (σ × List (List String)))} {d e : Desk (Premises (σ × List (List String)))}
    {m : Move (Premises (σ × List (List String)))} {k i : Nat} {x : Dialog} {owner : String}
    (wired : s.toServices = Premises.services host.recorded git) (h : Desk.AsksTrust d m k i e)
    (hx : d.dialogs[i]? = some x) (ht : x.trustTarget? = some owner) :
    ∃ wrote, (d.move s m).world.host.2 = d.world.host.2 ++ listing git :: wrote ∧
      (wrote = [] ∨ wrote = [addition git owner]) := by
  have hgate : s.trustGate d.world = none := by rw [wired]; rfl
  have hstore : (s.trust owner d.world).2.host = (trust host.recorded git owner d.world.host).2 := by
    rw [wired]
    rfl
  rw [h.world hx ht hgate, hstore]
  exact commands_trust host git owner d.world.host

end Trust

/-- Git's complaint about a directory is read back. What comes before it does not hold the marker,
the directory has a name without line feed, and no quote follows on the line; the name may hold
quotes, blanks, and the marker itself. So an inspection that git ends with the complaint says that
this directory is another user's, and a dialog that shows it and is asked for trust has git list the
trusted directories, and then add just this one, as one word, if it has git add any. Nothing is read
from an output just if none of its lines holds the marker, then a name, and then a quote. -/
theorem complaint_read_back (before directory after : String)
    (first : ¬ownershipMarker <:+: before.toList) (named : directory ≠ "")
    (line : '\n' ∉ directory.toList) (last : '\'' ∉ after.toList.takeWhile (· ≠ '\n')) :
    dubiousOwner? (complaint before directory after) = some directory ∧
    (∀ (σ : Type) (host : Host σ) (git path : String) (s t : σ) (e : Exit),
      host.isDirectory (Path.locationText path) s = .ok true →
      host.run (inspection git path) s = (.ok e, t) → e.status ≠ 0 →
      e.errors = complaint before directory after →
      classify host git path s = (.ok (.dubious directory), t)) ∧
    (∀ (σ : Type) (host : Host σ) (git : String) (s : Setting (Premises (σ × List (List String))))
      (d e : Desk (Premises (σ × List (List String)))) (m : Move (Premises (σ × List (List String))))
      (k i : Nat) (x : Dialog), s.toServices = Premises.services host.recorded git →
      Desk.AsksTrust d m k i e → d.dialogs[i]? = some x → x.trusting = false →
      x.classification = .settled (.dubious directory) →
      ∃ wrote, (d.move s m).world.host.2 = d.world.host.2 ++ listing git :: wrote ∧
        (wrote = [] ∨
          wrote = [[git, "config", "--global", "--add", "safe.directory", directory]])) ∧
    ∀ errors : String, dubiousOwner? errors = none ↔
      ∀ line ∈ errors.toList.splitOn '\n', ¬Flags line := by
  have hread := dubiousOwner?_complaint first named line last
  refine ⟨hread, fun σ host git path s t e hlook hrun hstatus herrors => ?_,
    fun σ host git s d e m k i x wired h hx ht hc => ?_, fun errors => dubiousOwner?_eq_none_iff⟩
  · rw [classify, hlook]
    simp only [hrun, classification_of_dubiousOwner? hstatus (herrors ▸ hread)]
  · exact commands_of_asksTrust wired h hx (Dialog.trustTarget?_eq_some_iff.mpr ⟨ht, hc⟩)

/-- A name that holds a quote, and the marker. -/
def markedName : String := "/it's detected dubious ownership in repository at 'b"

/-- A host on which git refuses a directory with an output, and then lists nothing and adds. -/
def refusing (errors : String) : Script where
  directories := ["/a"]
  outcomes := [.ok { status := 128, errors }, .ok { status := 1 }, .ok {}]

/-- Dialogs on a host whose commands are written down. -/
def onRefusing : Setting (Premises (Script × List (List String))) :=
  { Premises.services Script.host.recorded "git" with home := "/root" }

/-- The desk once a path has been entered and git has refused its directory. -/
def refusedDesk (errors : String) : Desk (Premises (Script × List (List String))) :=
  let registry : Registry := ⟨Path.Location.ofText "/list.json", .absent⟩
  (Desk.opening ⟨(refusing errors, []), registry, Disk.sound⟩ [""]).after onRefusing
    [.edit 0 (.setPath "/a"), .step, .step]

/-- A complaint about this name, after another one and before a line with a quote. -/
def markedComplaint : String := complaint "note: 'x'\nfatal: " markedName "\nIt's not safe."

theorem complaint_read_back_marked :
    dubiousOwner? markedComplaint = some markedName ∧
    (classify Script.host "git" "/a" (refusing markedComplaint)).1 = .ok (.dubious markedName) ∧
    ∃ wrote, ((refusedDesk markedComplaint).move onRefusing (.perform (.trust 0))).world.host.2 =
        (refusedDesk markedComplaint).world.host.2 ++ listing "git" :: wrote ∧
      (wrote = [] ∨
        wrote = [["git", "config", "--global", "--add", "safe.directory", markedName]]) := by
  obtain ⟨hread, hclassify, htrust, -⟩ := complaint_read_back "note: 'x'\nfatal: " markedName
    "\nIt's not safe." (by decide +kernel) (by decide +kernel) (by decide +kernel) (by decide +kernel)
  refine ⟨hread, ?_, ?_⟩
  · rw [hclassify Script Script.host "git" "/a" (refusing markedComplaint) _ _ rfl rfl (by decide) rfl]
  · exact htrust Script Script.host "git" onRefusing (refusedDesk markedComplaint) _
      (.perform (.trust 0)) 0 0 _ rfl ⟨.atOnce (.trust 0), .trust 0, rfl, rfl⟩ rfl rfl
      (by decide +kernel)

example : dubiousOwner? "fatal: detected dubious ownership in repository at ''\n'" = none := by
  decide +kernel

end Git
end Admission
