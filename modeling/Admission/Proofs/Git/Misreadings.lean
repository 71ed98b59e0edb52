import Admission.Proofs.Git.Complaints

/-!
# Directories with line feeds

Git writes a directory as it is, so a directory with a line feed is on more than one line of the
complaint, and what is read is on one. It is never read back: nothing is read, or another directory,
which is then offered for trust and added to the trusted ones. The latter happens just if a quote in
the directory ends a name too early, on its first line or after a marker on a later one.
-/
namespace Admission

namespace Git

variable {cs name : List Char} {directory rest errors : String}

/-- A name that is read is on one line. -/
theorem lineFeed_not_mem_of_quotedName? (h : quotedName? cs = some name) : '\n' ∉ name := by
  by_cases hq : '\'' ∈ cs.takeWhile (· ≠ '\n')
  · obtain ⟨front, after, hline, hlast⟩ := exists_last_quote hq
    rw [quotedName?_of_last hline hlast] at h
    split at h
    · cases h
    · cases h
      intro hmem
      have hmem : '\n' ∈ cs.takeWhile (· ≠ '\n') := hline ▸ List.mem_append_left _ hmem
      simpa using List.mem_takeWhile_imp hmem
  · rw [quotedName?_of_not_mem hq] at h
    cases h

theorem lineFeed_not_mem_of_flaggedDirectory? (h : flaggedDirectory? cs = some name) :
    '\n' ∉ name := by
  induction cs with
  | nil => cases h
  | cons c cs ih =>
    rw [flaggedDirectory?_cons, Option.or_eq_some_iff] at h
    rcases h with hhere | ⟨-, hlater⟩
    · obtain ⟨tail, -, hread⟩ := Option.bind_eq_some_iff.mp hhere
      exact lineFeed_not_mem_of_quotedName? hread
    · exact ih hlater

theorem lineFeed_not_mem_of_dubiousOwner? (h : dubiousOwner? errors = some directory) :
    '\n' ∉ directory.toList := by
  obtain ⟨name, hread, rfl⟩ := Option.map_eq_some_iff.mp h
  rw [String.toList_ofList]
  exact lineFeed_not_mem_of_flaggedDirectory? hread

theorem flaggedDirectory?_of_not_isInfix (h : ¬ownershipMarker <:+: cs) :
    flaggedDirectory? cs = none :=
  flaggedDirectory?_eq_none_iff.mpr fun before rest hcs =>
    absurd ⟨before, rest, by rw [hcs, List.append_assoc]⟩ h

/-- The part of a complaint from its marker to the quote that git has written behind the directory. -/
def passage (directory : String) : List Char := ownershipMarker ++ (directory.toList ++ ['\''])

section Passage

variable {before : String} (first : ¬ownershipMarker <:+: before.toList)
  (quiet : ¬ownershipMarker <:+: rest.toList)
include first quiet

/-- If the quote ends its line, and no marker is before the passage or on a later line, then all that
is read is read off the passage. -/
theorem dubiousOwner?_of_passage :
    dubiousOwner? (complaint before directory ("\n" ++ rest)) =
      (flaggedDirectory? (passage directory)).map String.ofList := by
  have htext : ownershipMarker ++ (directory.toList ++ '\'' :: ("\n" ++ rest).toList) =
      passage directory ++ '\n' :: rest.toList := by
    simp [passage]
  rw [dubiousOwner?, toList_complaint, flaggedDirectory?_append_marker first, htext,
    flaggedDirectory?_append_lineFeed, flaggedDirectory?_of_not_isInfix quiet, Option.or_none]

theorem unread_iff_passage :
    dubiousOwner? (complaint before directory ("\n" ++ rest)) = none ↔
      ∀ line ∈ (passage directory).splitOn '\n', ¬Flags line := by
  rw [dubiousOwner?_of_passage first quiet, Option.map_eq_none_iff,
    flaggedDirectory?_eq_none_iff_lines]

end Passage

theorem read_back_iff {before : String} (first : ¬ownershipMarker <:+: before.toList)
    (named : directory ≠ "") (rest : String) :
    dubiousOwner? (complaint before directory ("\n" ++ rest)) = some directory ↔
      '\n' ∉ directory.toList :=
  ⟨lineFeed_not_mem_of_dubiousOwner?, fun hline => dubiousOwner?_complaint first named hline (by simp)⟩

/-- What is read off git's message about a directory. The directory is read back just if it has no
line feed. Otherwise nothing is read if no line of the passage flags, and another directory if one
does. A dialog that shows what was read and is asked for trust has git add this, and so the directory
that git has refused only if that has no line feed. -/
theorem message_read_iff (directory rest errors : String) (named : directory ≠ "")
    (quiet : ¬ownershipMarker <:+: rest.toList)
    (whole : errors = complaint "fatal: " directory ("\n" ++ rest)) :
    (dubiousOwner? errors = some directory ↔ '\n' ∉ directory.toList) ∧
    (dubiousOwner? errors = none ↔
      '\n' ∈ directory.toList ∧ ∀ line ∈ (passage directory).splitOn '\n', ¬Flags line) ∧
    ((∃ other, other ≠ directory ∧ dubiousOwner? errors = some other) ↔
      '\n' ∈ directory.toList ∧ ∃ line ∈ (passage directory).splitOn '\n', Flags line) ∧
    ∀ (σ : Type) (host : Host σ) (git : String) (s : Setting (Premises (σ × List (List String))))
      (d e : Desk (Premises (σ × List (List String)))) (m : Move (Premises (σ × List (List String))))
      (k i : Nat) (x : Dialog) (refusal : Exit) (owner : String),
      s.toServices = Premises.services host.recorded git →
      Desk.AsksTrust d m k i e → d.dialogs[i]? = some x → x.trusting = false →
      refusal.status ≠ 0 → refusal.errors = errors → dubiousOwner? errors = some owner →
      x.classification = .settled refusal.classification →
      ∃ wrote, (d.move s m).world.host.2 = d.world.host.2 ++ listing git :: wrote ∧
        (wrote = [] ∨
          wrote = [[git, "config", "--global", "--add", "safe.directory", owner]]) ∧
        (owner = directory ↔ '\n' ∉ directory.toList) := by
  have hfirst : ¬ownershipMarker <:+: "fatal: ".toList := by decide +kernel
  have hback : dubiousOwner? errors = some directory ↔ '\n' ∉ directory.toList :=
    whole ▸ read_back_iff hfirst named rest
  have hnone : dubiousOwner? errors = none ↔
      ∀ line ∈ (passage directory).splitOn '\n', ¬Flags line :=
    whole ▸ unread_iff_passage hfirst quiet
  refine ⟨hback, ?_, ?_, fun σ host git s d e m k i x refusal owner wired h hx ht hstatus herrors
    hread hc => ?_⟩
  · rw [hnone, iff_and_self]
    intro hlines
    by_contra hline
    have hread := hback.mpr hline
    rw [hnone.mpr hlines] at hread
    cases hread
  · constructor
    · rintro ⟨other, hne, hread⟩
      refine ⟨?_, ?_⟩
      · by_contra hline
        exact hne (Option.some.inj (hread.symm.trans (hback.mpr hline)))
      · by_contra hlines
        cases hread.symm.trans (hnone.mpr fun line hmem hflags => hlines ⟨line, hmem, hflags⟩)
    · rintro ⟨hline, line, hmem, hflags⟩
      cases hread : dubiousOwner? errors with
      | none => exact absurd hflags (hnone.mp hread line hmem)
      | some other => exact ⟨other, fun he => hback.mp (hread.trans (he ▸ rfl)) hline, rfl⟩
  · rw [classification_of_dubiousOwner? hstatus (herrors ▸ hread)] at hc
    obtain ⟨wrote, hwrote, hadded⟩ := commands_of_asksTrust wired h hx
      (Dialog.trustTarget?_eq_some_iff.mpr ⟨ht, hc⟩)
    refine ⟨wrote, hwrote, hadded, fun he => hback.mp (he ▸ hread), fun hline => ?_⟩
    exact Option.some.inj (hread.symm.trans (hback.mpr hline))

/-- The message about a directory, with the advice that git gives. -/
def message (directory : String) : String :=
  complaint "fatal: " directory "\nTo add an exception for this directory, call:\n"

/-- A directory with a quote is read back, one with a line feed is not; if it has a quote before the
line feed, what is before the quote is offered for trust. -/
theorem message_read_iff_three :
    dubiousOwner? (message "/it's") = some "/it's" ∧
    dubiousOwner? (message "/a\nb") = none ∧
    (∃ other, other ≠ "/a'\nb" ∧ dubiousOwner? (message "/a'\nb") = some other) ∧
    ∃ wrote, ((refusedDesk (message "/a'\nb")).move onRefusing (.perform (.trust 0))).world.host.2 =
        (refusedDesk (message "/a'\nb")).world.host.2 ++ listing "git" :: wrote ∧
      (wrote = [] ∨ wrote = [["git", "config", "--global", "--add", "safe.directory", "/a"]]) ∧
      ("/a" = "/a'\nb" ↔ '\n' ∉ "/a'\nb".toList) := by
  have hquiet : ¬ownershipMarker <:+: "To add an exception for this directory, call:\n".toList := by
    decide +kernel
  have hflags : Flags (ownershipMarker ++ ['/', 'a', '\'']) :=
    ⟨[], ['/', 'a'], [], by decide, rfl⟩
  obtain ⟨hback, -, -, -⟩ := message_read_iff "/it's" _ (message "/it's") (by decide) hquiet rfl
  obtain ⟨-, hnone, -, -⟩ := message_read_iff "/a\nb" _ (message "/a\nb") (by decide) hquiet rfl
  obtain ⟨-, -, hother, htrust⟩ :=
    message_read_iff "/a'\nb" _ (message "/a'\nb") (by decide) hquiet rfl
  refine ⟨hback.mpr (by decide), hnone.mpr ⟨by decide, ?_⟩,
    hother.mpr ⟨by decide, _, by decide +kernel, hflags⟩, ?_⟩
  · exact flaggedDirectory?_eq_none_iff_lines.mp (by decide +kernel)
  · exact htrust Script Script.host "git" onRefusing (refusedDesk (message "/a'\nb")) _
      (.perform (.trust 0)) 0 0 _ { status := 128, errors := message "/a'\nb" } "/a" rfl
      ⟨.atOnce (.trust 0), .trust 0, rfl, rfl⟩ rfl rfl (by decide) rfl (by decide +kernel)
      (by decide +kernel)

/-- Another directory than the one that git has refused is read, and added to the trusted ones. -/
theorem early_quote_misread :
    (¬ ∀ directory rest : String, directory ≠ "" → ¬ownershipMarker <:+: rest.toList →
      dubiousOwner? (complaint "fatal: " directory ("\n" ++ rest)) = none ∨
      dubiousOwner? (complaint "fatal: " directory ("\n" ++ rest)) = some directory) ∧
    ¬ ∀ directory : String, directory ≠ "" →
      ∀ words ∈ ((refusedDesk (message directory)).move onRefusing
        (.perform (.trust 0))).world.host.2,
      ∀ owner, words = addition "git" owner → owner = directory := by
  constructor
  · intro h
    have hread := h "/a'\nb" "To add an exception for this directory, call:\n" (by decide)
      (by decide +kernel)
    revert hread
    decide +kernel
  · intro h
    have howner := h "/a'\nb" (by decide) (addition "git" "/a") (by decide +kernel) "/a" rfl
    revert howner
    decide

end Git
end Admission
