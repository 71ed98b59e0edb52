import Admission.Path.Canonical
import Mathlib.Data.List.DropRight

/-!
# The home shorthand

A text that starts with the home shorthand needs the home directory, which stands in place of the
tilde then, and no other text does. The directory is unknown if the text of the variable starts with
a tilde, and only then has a text no canonical path.
-/
namespace Admission.Path

variable {home raw : String}

/-- A text that starts with the home shorthand. -/
def NeedsHome (raw : String) : Prop := ∃ rest, raw.toList = '~' :: rest ∧ endsShorthand rest = true

/-- The variable names no home directory just if its text starts with a tilde. -/
theorem homeLocation?_eq_none_iff :
    homeLocation? home = none ↔ home.toList.head? = some '~' := by
  have hhead : (dropTrailingSlashes home.toList).head? = some '~' ↔
      home.toList.head? = some '~' := by
    obtain ⟨more, hmore⟩ := home.toList.rdropWhile_prefix (· == '/')
    have hmore : dropTrailingSlashes home.toList ++ more = home.toList := hmore
    constructor
    · intro h
      rw [← hmore, List.head?_append, h, Option.some_or]
    · intro h
      cases hkept : dropTrailingSlashes home.toList with
      | nil =>
        have hall := List.rdropWhile_eq_nil_iff.mp hkept
        have hslash := hall '~' (List.mem_of_mem_head? h)
        exact absurd hslash (by decide)
      | cons c cs => rw [← hmore, hkept] at h; exact h
  unfold homeLocation?
  simp only
  rw [← hhead]
  split
  · rename_i htilde
    exact iff_of_true rfl htilde
  · rename_i hno
    exact iff_of_false nofun hno

/-- The tilde is replaced, and what follows it stays. -/
theorem expandHome_of_needsHome (h : NeedsHome raw) :
    expandHome home raw =
      (homeLocation? home).map fun l => l.toText ++ String.ofList raw.toList.tail := by
  obtain ⟨rest, hraw, hends⟩ := h
  simp [expandHome, hraw, hends, String.ofList_append]

theorem expandHome_of_not_needsHome (h : ¬ NeedsHome raw) : expandHome home raw = some raw := by
  unfold expandHome
  split
  · rename_i rest hraw
    rw [if_neg fun hends => h ⟨rest, hraw, hends⟩]
  · rfl

theorem expandHome_eq_none_iff :
    expandHome home raw = none ↔ NeedsHome raw ∧ home.toList.head? = some '~' := by
  by_cases h : NeedsHome raw
  · rw [expandHome_of_needsHome h, Option.map_eq_none_iff, homeLocation?_eq_none_iff,
      and_iff_right h]
  · rw [expandHome_of_not_needsHome h]
    exact iff_of_false nofun fun hboth => h hboth.1

theorem canonical_eq_none_iff :
    canonical home raw = none ↔ NeedsHome raw ∧ home.toList.head? = some '~' := by
  rw [canonical, Option.map_eq_none_iff, expandHome_eq_none_iff]

/-- With a home directory every path has a canonical form. -/
theorem canonical_ne_none (h : (homeLocation? home).isSome = true) (raw : String) :
    canonical home raw ≠ none := by
  intro hnone
  rw [homeLocation?_eq_none_iff.mpr (canonical_eq_none_iff.mp hnone).2] at h
  cases h

end Admission.Path
