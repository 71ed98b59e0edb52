import Admission.Classification

/-!
# The ownership complaint

Git refuses a repository of another user with a message that names the directory between quotes.
The directory ends at the last quote of its line, so it may hold quotes itself; it holds at least
one character and no line feed.
-/
namespace Admission.Git

/-- What git writes before the directory. -/
def ownershipMarker : List Char := "detected dubious ownership in repository at '".toList

/-- The characters before the last quote of the first line, if there is one and something
precedes it. -/
def quotedName? (cs : List Char) : Option (List Char) :=
  match ((cs.takeWhile (· ≠ '\n')).reverse.dropWhile (· ≠ '\'')) with
  | [] => none
  | _ :: name => if name.isEmpty then none else some name.reverse

/-- The directory after the first marker that names one. -/
def flaggedDirectory? : List Char → Option (List Char)
  | [] => none
  | c :: rest =>
    match (ownershipMarker.isPrefixOf? (c :: rest)).bind quotedName? with
    | some name => some name
    | none => flaggedDirectory? rest

/-- The directory that git's error output names as owned by another user. -/
def dubiousOwner? (errors : String) : Option String :=
  (flaggedDirectory? errors.toList).map String.ofList

theorem quotedName?_ne_nil {cs name : List Char} (h : quotedName? cs = some name) :
    name ≠ [] := by
  unfold quotedName? at h
  split at h
  · simp at h
  · split at h
    · simp at h
    · rename_i hn
      simp at h
      rintro rfl
      simp at h
      exact hn (by simp [h])

/-- A directory that is named is never the empty text. -/
theorem flaggedDirectory?_ne_nil {cs name : List Char} (h : flaggedDirectory? cs = some name) :
    name ≠ [] := by
  induction cs with
  | nil => simp [flaggedDirectory?] at h
  | cons c rest ih =>
    unfold flaggedDirectory? at h
    split at h
    · rename_i found hf
      obtain ⟨tail, _, hq⟩ := Option.bind_eq_some_iff.mp hf
      cases h
      exact quotedName?_ne_nil hq
    · exact ih h

end Admission.Git
