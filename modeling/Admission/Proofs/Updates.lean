import Admission.Proofs.Saving

/-!
# Updating any list

Paths are added to the list as it is read, whatever stands in the file and whoever wrote it. What is
listed already stays as it is and where it is, for it has been trimmed by the reading; behind it come
the paths that are new, and these are trimmed only when they are read again. What else the old file
said is lost with it.
-/
namespace Admission

namespace Registry

variable {listed paths : List String} {r : Registry}

/-- The paths that are not listed, each of them once, in the order of their first occurrences. -/
def newcomers (listed paths : List String) : List String :=
  (paths.filter (· ∉ listed)).eraseDups

theorem newcomers_cons_of_mem {path : String} (h : path ∈ listed) (paths : List String) :
    newcomers listed (path :: paths) = newcomers listed paths := by
  simp [newcomers, h]

/-- A path that is new comes first, and is listed for those behind it. -/
theorem newcomers_cons_of_not_mem {path : String} (h : path ∉ listed) (paths : List String) :
    newcomers listed (path :: paths) = path :: newcomers (listed ++ [path]) paths := by
  have hrest : (paths.filter (· ∉ listed)).filter (fun other => !other == path) =
      paths.filter (· ∉ listed ++ [path]) := by
    rw [List.filter_filter]
    refine List.filter_congr fun other _ => ?_
    by_cases hpath : other = path <;> simp [hpath]
  rw [newcomers, List.filter_cons_of_pos (by simpa using h), List.eraseDups_cons, hrest, newcomers]

/-- The list grows while it is searched: what was added by an earlier turn counts as listed. -/
theorem foldl_enlist_eq (listed paths : List String) :
    paths.foldl enlist listed = listed ++ newcomers listed paths := by
  induction paths generalizing listed with
  | nil => simp [newcomers]
  | cons path paths ih =>
    rw [List.foldl_cons, ih]
    by_cases h : path ∈ listed
    · rw [newcomers_cons_of_mem h, enlist, if_pos (by simpa using h)]
    · rw [newcomers_cons_of_not_mem h, enlist, if_neg (by simpa using h), List.append_assoc,
        List.singleton_append]

theorem nodup_foldl_enlist (h : listed.Nodup) (paths : List String) :
    (paths.foldl enlist listed).Nodup := by
  induction paths generalizing listed with
  | nil => exact h
  | cons path paths ih =>
    refine ih ?_
    unfold enlist
    split
    · exact h
    · rename_i hnew
      exact h.append (List.nodup_singleton path) (by simpa using hnew)

theorem isEntry_of_mem_entriesOf {v : Json.Value} {e : String} (h : e ∈ entriesOf v) :
    IsEntry e := by
  unfold entriesOf at h
  split at h
  · obtain ⟨item, -, hitem⟩ := List.mem_filterMap.mp h
    obtain ⟨s, -, hs⟩ := Option.bind_eq_some_iff.mp hitem
    exact isEntry_of_entryOf? hs
  · cases h

/-- Whatever stands in the file, entries are read from it. -/
theorem isEntry_of_mem_repositories {e : String} (h : e ∈ r.repositories) : IsEntry e := by
  unfold repositories at h
  split at h
  · unfold entries at h
    split at h
    · exact isEntry_of_mem_entriesOf h
    · cases h
  · cases h

end Registry

namespace Premises

open Registry

variable {σ : Type}

/-- Paths are added whatever the file held before, if the call succeeds. Every path that was given is
given back. The file then holds the list as it was read before and, behind it, the paths that were
not on it, each once and in the order of their first occurrences; to read it is to find the old list
again and then, of the new paths, those that are not blank, without their outer blanks. No path is on
the new list twice if none was on the old one. -/
theorem additions_to_any_list (p q : Premises σ) (paths given : List String)
    (run : p.register paths = (.ok given, q)) :
    let listed := p.registry.repositories
    let new := newcomers listed paths
    given = paths ∧
    q.registry.storage = .file (listText (listed ++ new)).toUTF8 ∧
    Json.read (listText (listed ++ new)) =
      .ok (.object [("repositories", .list ((listed ++ new).map .text))]) ∧
    q.registry.repositories =
      listed ++ (new.filter fun path => Text.strip path ≠ "").map Text.strip ∧
    (listed.Nodup → (listed ++ new).Nodup) := by
  obtain ⟨hgiven, rfl⟩ := eq_of_register run
  rw [foldl_enlist_eq]
  have hold : p.registry.repositories.filterMap entryOf? = p.registry.repositories :=
    filterMap_entryOf?_eq_self_iff.mpr fun _ => isEntry_of_mem_repositories
  refine ⟨hgiven, rfl, (plain_listValue _).read_render _, ?_, fun hnodup => ?_⟩
  · rw [repositories_of_storage rfl, List.filterMap_append, hold, filterMap_entryOf?]
  · rw [← foldl_enlist_eq]
    exact nodup_foldl_enlist hnodup paths

/-- A file that somebody else has written: it has other fields and values, and a path twice. -/
def handwritten : Premises Unit where
  host := ()
  disk := Disk.sound
  registry :=
    { location := Path.Location.ofText "/list.json"
      storage := .file
        "\x7b\"x\": null, \"repositories\": [\" /a\", 1, \"/b\", \"/a\"]\x7d".toUTF8 }

/-- Of the paths that are added one is listed, one comes twice, and one is blank. -/
theorem additions_to_any_list_handwritten :
    ∃ q, handwritten.register ["/c ", "/b", " ", "/c "] = (.ok ["/c ", "/b", " ", "/c "], q) ∧
      q.registry.storage =
        .file (listText ["/a", "/b", "/a", "/c ", " "]).toUTF8 ∧
      q.registry.repositories = ["/a", "/b", "/a", "/c"] := by
  have hlisted : handwritten.registry.repositories = ["/a", "/b", "/a"] := by
    rw [repositories_of_text rfl]
    decide +kernel
  have hrun := register_of_writable (p := handwritten) (writable_of_file rfl) rfl
    ["/c ", "/b", " ", "/c "]
  generalize handwritten.saved _ = q at hrun
  obtain ⟨-, hstorage, -, hread, -⟩ := additions_to_any_list handwritten _ _ _ hrun
  have hnew : newcomers ["/a", "/b", "/a"] ["/c ", "/b", " ", "/c "] = ["/c ", " "] := by decide
  rw [hlisted, hnew] at hstorage hread
  exact ⟨_, hrun, hstorage, hread.trans (by decide)⟩

end Premises
end Admission
