import Admission.Path.Location

/-!
# The home directory

The home directory comes from the text of one variable, and only where it is needed. A text that
starts with a tilde names no directory, so a path that needs it has no meaning then.
-/
namespace Admission.Path

/-- The characters without the slashes at the end. -/
def dropTrailingSlashes (cs : List Char) : List Char := (cs.reverse.dropWhile (· == '/')).reverse

/-- The home directory that the variable's text names, if it names one. -/
def homeLocation? (home : String) : Option Location :=
  let cs := dropTrailingSlashes home.toList
  if cs.head? = some '~' then none
  else some (Location.ofText (if cs.isEmpty then "/" else String.ofList cs))

/-- Whether what follows a leading tilde ends the name: nothing, one final line feed, or a
separator. -/
def endsShorthand : List Char → Bool
  | [] => true
  | ['\n'] => true
  | c :: _ => c == '/' || c == '\\'

/-- The text with a leading home shorthand replaced, or `none` if it has one and the home
directory is unknown. -/
def expandHome (home raw : String) : Option String :=
  match raw.toList with
  | '~' :: rest =>
    if endsShorthand rest then
      (homeLocation? home).map fun l => String.ofList (l.toText.toList ++ rest)
    else some raw
  | _ => some raw

/-- A text without a leading tilde stays as it is. -/
theorem expandHome_of_head_ne {home raw : String} (h : raw.toList.head? ≠ some '~') :
    expandHome home raw = some raw := by
  unfold expandHome
  split
  · rename_i hr; simp [hr] at h
  · rfl

end Admission.Path
