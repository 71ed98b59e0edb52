import Admission.Proofs.Path.FixedPoints

/-!
# Paths below a directory

To resolve a text is to walk its pieces one after the other, so a walk may pause at the names that
the first pieces lead to. A path below a directory denotes what is reached from the canonical path
of the directory, whatever dots, empty pieces and steps upwards the two texts have. Of a directory
whose text starts with a tilde nothing is said.
-/
namespace Admission.Path

variable {home dir raw : String}

theorem canonical_of_head_ne (h : raw.toList.head? ≠ some '~') :
    canonical home raw = some (String.ofList (canonicalChars raw.toList)) := by
  rw [canonical, expandHome_of_head_ne h, Option.map_some]

/-- The pieces of the directory come first, and those of the text below it go on from there. -/
theorem canonical_below (plain : dir.toList.head? ≠ some '~') (rest : String) :
    canonical home (dir ++ "/" ++ rest) = some (String.ofList
      (absolute ((pieces rest.toList).foldl descend (resolve (pieces dir.toList))))) := by
  have htext : (dir ++ "/" ++ rest).toList = dir.toList ++ '/' :: rest.toList := by simp
  have hhead : (dir.toList ++ '/' :: rest.toList).head? ≠ some '~' := by
    cases hdir : dir.toList with
    | nil => simp
    | cons c cs => simpa [hdir] using plain
  rw [canonical_of_head_ne (htext ▸ hhead), htext, canonicalChars, pieces_append_slash,
    resolve_append]

/-- A directory whose text does not start with a tilde has a canonical path, and every text below it
has one too. This is the canonical path also of the same text below the directory's canonical path,
wherever the home directory is then: that to which the text leads from the names of the
directory. -/
theorem directory_replaced (home dir rest : String) (plain : dir.toList.head? ≠ some '~') :
    ∃ p q, canonical home dir = some p ∧ canonical home (dir ++ "/" ++ rest) = some q ∧
      (∀ other, canonical other (p ++ "/" ++ rest) = some q) ∧
      ∃ names : List Piece, (∀ n ∈ names, IsName n) ∧ p.toList = absolute names ∧
        q.toList = absolute ((pieces rest.toList).foldl descend names) := by
  have hnames : ∀ n ∈ resolve (pieces dir.toList), IsName n := isName_of_mem_resolve
  refine ⟨_, _, canonical_of_head_ne plain, canonical_below plain rest, fun other => ?_,
    resolve (pieces dir.toList), hnames, by rw [String.toList_ofList, canonicalChars],
    String.toList_ofList⟩
  obtain ⟨cs, hcs, -⟩ := (isCanonical_ofList_canonicalChars dir.toList).single_slash
  rw [canonical_below (by simp [hcs]) rest, String.toList_ofList, canonicalChars,
    resolve_pieces_absolute hnames]

/-- The text below the directory climbs above it, and both have empty pieces and dots. -/
theorem directory_replaced_climbing :
    canonical "/root" "//a/./b/" = some "/a/b" ∧
    canonical "/root" ("//a/./b/" ++ "/" ++ "/.././../~/.") = some "/~" ∧
    canonical "~" ("/a/b" ++ "/" ++ "/.././../~/.") = some "/~" := by
  have hdir : canonical "/root" "//a/./b/" = some "/a/b" := by decide
  have hwhole : canonical "/root" ("//a/./b/" ++ "/" ++ "/.././../~/.") = some "/~" := by decide
  obtain ⟨p, q, hp, hq, hother, -⟩ :=
    directory_replaced "/root" "//a/./b/" "/.././../~/." (by decide)
  obtain rfl := Option.some.inj (hdir.symm.trans hp)
  obtain rfl := Option.some.inj (hwhole.symm.trans hq)
  exact ⟨hdir, hwhole, hother "~"⟩

end Admission.Path
