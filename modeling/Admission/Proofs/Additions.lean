import Admission.Premises
import Admission.Proofs.Json.RoundTrip
import Admission.Proofs.Writing
import Mathlib.Data.List.DropRight

/-!
# Adding repositories

The registrar reads the list, puts on it what is not there yet, and saves it. What it reads is what
was saved, but without the blanks at the ends of an entry. So a path that ends in a blank is never
found on the list again: it is listed under another name, and each time that it is added the list
grows. On all other paths the list holds just what was added, in the order of the first additions.
Nothing is said of a call that fails.
-/
namespace Admission

/-! ## Blanks around a path -/

namespace Text

/-- The last character of the text is blank. -/
def EndsBlank (s : String) : Prop := ∃ c, s.toList.getLast? = some c ∧ isBlank c = true

theorem rdropWhile_isBlank_eq_self_iff {s : String} :
    s.toList.rdropWhile isBlank = s.toList ↔ ¬EndsBlank s := by
  rw [List.rdropWhile_eq_self_iff]
  simp only [EndsBlank, not_exists, not_and]
  constructor
  · intro hlast c hc
    have hne : s.toList ≠ [] := fun hnil => by simp [hnil] at hc
    rw [List.getLast?_eq_some_getLast hne] at hc
    rw [← Option.some.inj hc]
    exact hlast hne
  · intro hlast hne
    exact hlast _ (List.getLast?_eq_some_getLast hne)

theorem trim_eq_rdropWhile (cs : List Char) :
    trim cs = (cs.dropWhile isBlank).rdropWhile isBlank := rfl

theorem dropWhile_of_prefix {p : Char → Bool} {cs ds : List Char} (hp : ds <+: cs)
    (h : cs.dropWhile p = cs) : ds.dropWhile p = ds := by
  cases ds with
  | nil => rfl
  | cons d ds =>
    obtain ⟨rest, rfl⟩ := hp
    have hd : p d = false := by
      by_contra hd
      have hlen := congrArg List.length h
      rw [List.cons_append, List.dropWhile_cons_of_pos (by simpa using hd)] at hlen
      have := (List.dropWhile_suffix (l := ds ++ rest) p).length_le
      simp only [List.length_cons] at hlen
      omega
    exact List.dropWhile_cons_of_neg (by simp [hd])

/-- A text that is trimmed twice is trimmed. -/
theorem trim_trim (cs : List Char) : trim (trim cs) = trim cs := by
  have hfront : (trim cs).dropWhile isBlank = trim cs :=
    dropWhile_of_prefix (List.rdropWhile_prefix isBlank _) (List.dropWhile_idempotent _ _)
  rw [trim_eq_rdropWhile (trim cs), hfront, trim_eq_rdropWhile cs, List.rdropWhile_idempotent]

theorem strip_strip (s : String) : strip (strip s) = strip s := by
  rw [strip, strip, String.toList_ofList, trim_trim]

theorem map_strip_eq_self {texts : List String} (h : ∀ s ∈ texts, strip s = s) :
    texts.map strip = texts :=
  (List.map_congr_left h).trans (List.map_id texts)

end Text

namespace Path

/-- The text starts at the root. -/
def Rooted (s : String) : Prop := ∃ cs, s.toList = '/' :: cs

theorem rooted_canonical {home raw s : String} (h : canonical home raw = some s) : Rooted s := by
  obtain ⟨t, -, rfl⟩ := Option.map_eq_some_iff.mp h
  simp only [Rooted, String.toList_ofList, canonicalChars, absolute]
  cases resolve (pieces t.toList) with
  | nil => exact ⟨[], rfl⟩
  | cons name names => exact ⟨name ++ names.flatMap ('/' :: ·), rfl⟩

variable {s : String}

/-- A slash is no blank, so only the end of the path can lose blanks. -/
theorem Rooted.strip_toList (h : Rooted s) :
    (Text.strip s).toList = s.toList.rdropWhile Text.isBlank := by
  obtain ⟨cs, hcs⟩ := h
  rw [Text.strip, String.toList_ofList, Text.trim, hcs,
    List.dropWhile_cons_of_neg (by decide : ¬Text.isBlank '/' = true), List.rdropWhile]

theorem Rooted.strip (h : Rooted s) : Rooted (Text.strip s) := by
  have htoList := h.strip_toList
  obtain ⟨cs, hcs⟩ := h
  have hne : s.toList.rdropWhile Text.isBlank ≠ [] := by
    intro hnil
    have := List.rdropWhile_eq_nil_iff.mp hnil '/' (by simp [hcs])
    exact absurd this (by decide)
  obtain ⟨c, more, hmore⟩ := List.exists_cons_of_ne_nil hne
  have hprefix := List.rdropWhile_prefix Text.isBlank s.toList
  rw [hmore, hcs, List.cons_prefix_cons] at hprefix
  exact ⟨more, by rw [htoList, hmore, hprefix.1]⟩

theorem Rooted.ne_empty (h : Rooted s) : s ≠ "" := by
  rintro rfl
  obtain ⟨cs, hcs⟩ := h
  cases hcs

theorem Rooted.strip_eq_iff (h : Rooted s) : Text.strip s = s ↔ ¬Text.EndsBlank s := by
  rw [← String.toList_inj, h.strip_toList, Text.rdropWhile_isBlank_eq_self_iff]

/-- A path from the root is listed without the blanks at its end. -/
theorem Rooted.entryOf? (h : Rooted s) : Registry.entryOf? s = some (Text.strip s) := by
  simp [Registry.entryOf?, h.strip.ne_empty]

end Path

/-! ## The list -/

namespace Registry

theorem plain_listValue (paths : List String) : (listValue paths).Plain := by
  refine .object (by simp) fun f hf => ?_
  obtain rfl : f = (listKey, .list (paths.map .text)) := by simpa using hf
  refine .list fun v hv => ?_
  obtain ⟨s, -, rfl⟩ := List.mem_map.mp hv
  exact .text s

/-- What is read from a list that was written. -/
theorem entries_listText (paths : List String) :
    entries (listText paths) = paths.filterMap entryOf? := by
  rw [entries, listText, (plain_listValue paths).read_render]
  simp [entriesOf, listValue, Json.Value.field?, Json.Fields.get?, Json.Value.items?,
    List.filterMap_map, Json.Value.text?]

theorem repositories_of_text {r : Registry} {text : String} (h : r.storage = .file text.toUTF8) :
    r.repositories = entries text := by
  have htext : String.fromUTF8? text.toUTF8 = some text := by
    rw [String.fromUTF8?, String.toUTF8_eq_toByteArray, dif_pos text.isValidUTF8]
    rfl
  simp only [repositories, text?, h, htext]

theorem repositories_of_storage {r : Registry} {paths : List String}
    (h : r.storage = .file (listText paths).toUTF8) :
    r.repositories = paths.filterMap entryOf? := by
  rw [repositories_of_text h, entries_listText]

theorem mem_enlist {paths : List String} {path e : String} :
    e ∈ enlist paths path ↔ e ∈ paths ∨ e = path := by
  unfold enlist
  split
  · rename_i hc
    have : path ∈ paths := by simpa using hc
    constructor
    · exact .inl
    · rintro (he | rfl) <;> assumption
  · simp

theorem mem_foldl_enlist {listed paths : List String} {e : String} :
    e ∈ paths.foldl enlist listed ↔ e ∈ listed ∨ e ∈ paths := by
  induction paths generalizing listed with
  | nil => simp
  | cons path paths ih => simp [ih, mem_enlist, or_assoc]

/-- Adding leaves what is listed in its place. -/
theorem prefix_foldl_enlist (listed paths : List String) :
    listed <+: paths.foldl enlist listed := by
  induction paths generalizing listed with
  | nil => exact List.prefix_rfl
  | cons path paths ih =>
    refine List.IsPrefix.trans ?_ (ih (enlist listed path))
    unfold enlist
    split
    · exact List.prefix_rfl
    · exact List.prefix_append listed [path]

theorem foldl_enlist_of_subset {listed paths : List String} (h : ∀ path ∈ paths, path ∈ listed) :
    paths.foldl enlist listed = listed := by
  induction paths with
  | nil => rfl
  | cons path paths ih =>
    have hpath : enlist listed path = listed := by simp [enlist, h path (by simp)]
    rw [List.foldl_cons, hpath, ih fun p hp => h p (by simp [hp])]

/-- A list of first occurrences, and what is added to it. -/
theorem foldl_enlist_eraseDups (added paths : List String) :
    paths.foldl enlist added.eraseDups = (added ++ paths).eraseDups := by
  induction paths generalizing added with
  | nil => simp
  | cons path paths ih =>
    have hpath : enlist added.eraseDups path = (added ++ [path]).eraseDups := by
      rw [List.eraseDups_append]
      by_cases hm : path ∈ added
      · simp [enlist, hm, List.removeAll]
      · simp [enlist, hm, List.removeAll, List.eraseDups_cons]
    rw [List.foldl_cons, hpath, ih, List.append_assoc, List.singleton_append]

end Registry

/-! ## Calls of the registrar -/

namespace Premises

variable {σ : Type} {p q : Premises σ} {calls : List (List String)}

/-- Calls of the registrar one after the other: what each of them gives, and the premises then. -/
def registerAll (p : Premises σ) :
    List (List String) → List (Except Failure (List String)) × Premises σ
  | [] => ([], p)
  | paths :: calls =>
    let (given, p) := p.register paths
    let (more, p) := p.registerAll calls
    (given :: more, p)

theorem registerAll_concat (p : Premises σ) (calls : List (List String)) (paths : List String) :
    p.registerAll (calls ++ [paths]) =
      ((p.registerAll calls).1 ++ [((p.registerAll calls).2.register paths).1],
        ((p.registerAll calls).2.register paths).2) := by
  induction calls generalizing p with
  | nil => rfl
  | cons call calls ih => simp [registerAll, ih]

/-- The premises with a list saved. -/
def saved (p : Premises σ) (paths : List String) : Premises σ where
  host := p.host
  registry := { p.registry with storage := .file (Registry.listText paths).toUTF8 }
  disk := p.disk.next

/-- A call that succeeds gives what it was given, and the list has been saved. -/
theorem eq_of_register {paths given : List String} (h : p.register paths = (.ok given, q)) :
    given = paths ∧ q = p.saved (paths.foldl Registry.enlist p.registry.repositories) := by
  unfold register at h
  cases hadd : p.registry.add paths (p.disk 0) with
  | mk outcome r =>
    rw [hadd] at h
    cases outcome with
    | error f => cases h
    | ok =>
      obtain ⟨rfl, rfl⟩ : paths = given ∧ { p with registry := r, disk := p.disk.next } = q := by
        simpa [Except.map] using h
      exact ⟨rfl, by rw [saved, ← Registry.eq_of_save hadd]⟩

theorem register_of_writable (h : p.registry.Writable) (hdisk : p.disk 0 = .done)
    (paths : List String) :
    p.register paths =
      (.ok paths, p.saved (paths.foldl Registry.enlist p.registry.repositories)) := by
  rw [register, hdisk, Registry.add, Registry.save_of_writable h]
  rfl

theorem writable_saved (p : Premises σ) (paths : List String) : (p.saved paths).registry.Writable :=
  Registry.writable_of_file rfl

/-- On a sound disk every call succeeds. -/
theorem registerAll_sound (h : p.registry.Writable) (hdisk : p.disk = Disk.sound)
    (calls : List (List String)) : (p.registerAll calls).1 = calls.map .ok := by
  induction calls generalizing p with
  | nil => rfl
  | cons call calls ih =>
    have hcall := register_of_writable h (by rw [hdisk]; rfl) call
    have hrest := ih (p.writable_saved (call.foldl Registry.enlist p.registry.repositories))
      (by rw [saved, hdisk]; rfl)
    simp only [registerAll, hcall, hrest, List.map_cons]

/-- What is true of the premises after the calls: what the file holds, and what it holds of the
calls. -/
structure Holds (q : Premises σ) (calls : List (List String)) (kept : List String) : Prop where
  storage : q.registry.storage =
    if calls = [] then .absent else .file (Registry.listText kept).toUTF8
  listed : q.registry.repositories = kept.map Text.strip
  mem : ∀ e, e ∈ q.registry.repositories ↔ ∃ path ∈ calls.flatten, Text.strip path = e
  exact : (∀ path ∈ calls.flatten, Text.strip path = path) → kept = calls.flatten.eraseDups

theorem Holds.register {kept paths given : List String} {q' : Premises σ} (h : Holds q calls kept)
    (rooted : ∀ path ∈ (calls ++ [paths]).flatten, Path.Rooted path)
    (hcall : q.register paths = (.ok given, q')) :
    given = paths ∧
      Holds q' (calls ++ [paths]) (paths.foldl Registry.enlist q.registry.repositories) := by
  obtain ⟨hgiven, rfl⟩ := eq_of_register hcall
  generalize hnow : paths.foldl Registry.enlist q.registry.repositories = now
  have hrooted : ∀ e ∈ now, Path.Rooted e := by
    intro e he
    rw [← hnow] at he
    rcases Registry.mem_foldl_enlist.mp he with he | he
    · obtain ⟨path, hpath, rfl⟩ := (h.mem e).mp he
      exact (rooted path (by simp_all)).strip
    · exact rooted e (by simp [he])
  have hlisted : (q.saved now).registry.repositories = now.map Text.strip := by
    rw [Registry.repositories_of_storage rfl, ← List.filterMap_eq_map]
    exact List.filterMap_congr fun e he => (hrooted e he).entryOf?
  refine ⟨hgiven, ⟨by simp [saved], hlisted, fun e => ?_, fun hstrip => ?_⟩⟩
  · rw [hlisted, List.mem_map, ← hnow]
    simp only [Registry.mem_foldl_enlist, List.flatten_append, List.flatten_singleton,
      List.mem_append]
    constructor
    · rintro ⟨x, hx | hx, rfl⟩
      · obtain ⟨path, hpath, rfl⟩ := (h.mem x).mp hx
        exact ⟨path, .inl hpath, (Text.strip_strip path).symm⟩
      · exact ⟨x, .inr hx, rfl⟩
    · rintro ⟨path, hpath | hpath, rfl⟩
      · exact ⟨_, .inl ((h.mem _).mpr ⟨path, hpath, rfl⟩), Text.strip_strip path⟩
      · exact ⟨path, .inr hpath, rfl⟩
  · have hadded : q.registry.repositories = calls.flatten.eraseDups := by
      rw [h.listed, h.exact fun path hpath => hstrip path (by simp_all)]
      exact Text.map_strip_eq_self fun path hpath => hstrip path (by simp_all)
    rw [← hnow, hadded, Registry.foldl_enlist_eraseDups]
    simp

/-- All calls have succeeded. -/
def Succeed (p : Premises σ) (calls : List (List String)) : Prop :=
  ∀ outcome ∈ (p.registerAll calls).1, ∃ given, outcome = .ok given

theorem succeed_of_sound (h : p.registry.Writable) (hdisk : p.disk = Disk.sound) :
    p.Succeed calls := by
  intro outcome hmem
  rw [registerAll_sound h hdisk] at hmem
  obtain ⟨call, -, rfl⟩ := List.mem_map.mp hmem
  exact ⟨call, rfl⟩

theorem holds_registerAll (fresh : p.registry.storage = .absent)
    (rooted : ∀ path ∈ calls.flatten, Path.Rooted path) (succeed : p.Succeed calls) :
    (p.registerAll calls).1 = calls.map .ok ∧ ∃ kept, Holds (p.registerAll calls).2 calls kept := by
  induction calls using List.reverseRecOn with
  | nil =>
    have hnone : p.registry.repositories = [] := by
      simp [Registry.repositories, Registry.text?, fresh]
    exact ⟨rfl, [], ⟨fresh, hnone, by simp [registerAll, hnone], fun _ => rfl⟩⟩
  | append_singleton calls paths ih =>
    simp only [Succeed, registerAll_concat] at succeed
    obtain ⟨hgiven, kept, h⟩ := ih (fun path hpath => rooted path (by simp_all))
      fun outcome hmem => succeed outcome (List.mem_append_left _ hmem)
    obtain ⟨given, hok⟩ := succeed _ (List.mem_append_right _ (List.mem_singleton_self _))
    obtain ⟨rfl, h⟩ := h.register rooted (Prod.ext hok rfl)
    rw [registerAll_concat]
    exact ⟨by simp [hgiven, hok], _, h⟩

/-- What is listed never ends in a blank. -/
theorem Holds.not_endsBlank {kept : List String} {path : String} (h : Holds q calls kept)
    (rooted : ∀ path ∈ calls.flatten, Path.Rooted path) (hin : path ∈ q.registry.repositories) :
    ¬Text.EndsBlank path := by
  obtain ⟨path, hpath, rfl⟩ := (h.mem _).mp hin
  have hrooted := rooted path hpath
  exact hrooted.strip.strip_eq_iff.mp (Text.strip_strip _)

/-- A path that ends in a blank is not found on the list, however often it was added. -/
theorem Holds.grows {kept call given : List String} {path : String} {q' : Premises σ}
    (h : Holds q calls kept) (rooted : ∀ path ∈ calls.flatten, Path.Rooted path)
    (hcall : call ∈ calls) (hpath : path ∈ call) (hblank : Text.EndsBlank path)
    (hagain : q.register call = (.ok given, q')) :
    q.registry.repositories.length < q'.registry.repositories.length := by
  have hmem (path : String) (hp : path ∈ call) : path ∈ calls.flatten :=
    List.mem_flatten.mpr ⟨call, hcall, hp⟩
  have hrooted : ∀ path ∈ (calls ++ [call]).flatten, Path.Rooted path := by
    intro path hp
    rw [List.flatten_append, List.flatten_singleton, List.mem_append] at hp
    exact rooted path (hp.elim id (hmem path))
  have hafter := (h.register hrooted hagain).2.listed
  have hnew : path ∉ q.registry.repositories := fun hin => h.not_endsBlank rooted hin hblank
  obtain ⟨new, hlist⟩ := Registry.prefix_foldl_enlist q.registry.repositories call
  have hin : path ∈ q.registry.repositories ++ new := by
    rw [hlist]
    exact Registry.mem_foldl_enlist.mpr (.inr hpath)
  rw [hafter, List.length_map, ← hlist, List.length_append]
  have := List.length_pos_of_mem ((List.mem_append.mp hin).resolve_left hnew)
  omega

theorem Holds.storage_of_mem {kept call : List String} (h : Holds q calls kept)
    (hcall : call ∈ calls) : q.registry.storage = .file (Registry.listText kept).toUTF8 := by
  rw [h.storage, if_neg (List.ne_nil_of_mem hcall)]

/-- Without such a path, a call that was made before changes nothing. -/
theorem Holds.register_again {kept call given : List String} {q' : Premises σ}
    (h : Holds q calls kept) (hstrip : ∀ path ∈ calls.flatten, Text.strip path = path)
    (hcall : call ∈ calls) (hagain : q.register call = (.ok given, q')) :
    given = call ∧ q'.registry = q.registry := by
  have hkept : q.registry.repositories = kept := by
    rw [h.listed, h.exact hstrip]
    exact Text.map_strip_eq_self fun path hpath => hstrip path (List.mem_eraseDups.mp hpath)
  have hsub : ∀ path ∈ call, path ∈ q.registry.repositories := fun path hp =>
    (h.mem path).mpr ⟨path, List.mem_flatten.mpr ⟨call, hcall, hp⟩,
      hstrip path (List.mem_flatten.mpr ⟨call, hcall, hp⟩)⟩
  obtain ⟨rfl, rfl⟩ := eq_of_register hagain
  refine ⟨rfl, ?_⟩
  rw [Registry.foldl_enlist_of_subset hsub, saved, hkept, ← h.storage_of_mem hcall]

/-- What the calls have come to does not depend on how the disk goes on. -/
theorem Holds.on_disk {kept : List String} (h : Holds q calls kept) (disk : Disk) :
    Holds { q with disk } calls kept := ⟨h.storage, h.listed, h.mem, h.exact⟩

/-- Canonical paths are added to a registry that has no file yet, by any calls that succeed. Every
call gives the paths as it was given them, and what is listed are the added paths without the blanks
at their ends. If no added path ends in a blank, then each is listed once, as it was added and in the
order of the first additions, and each of the calls, made again and succeeding, leaves the file as it
is. If one does, then neither is the case, and the calls that add it lengthen the list each time. -/
theorem additions_listed_iff (p q : Premises σ) (calls : List (List String))
    (fresh : p.registry.storage = .absent)
    (canonical : ∀ path ∈ calls.flatten, ∃ home raw, Path.canonical home raw = some path)
    (succeed : p.Succeed calls) (run : (p.registerAll calls).2 = q) :
    (p.registerAll calls).1 = calls.map .ok ∧
    (∀ e, e ∈ q.registry.repositories ↔ ∃ path ∈ calls.flatten, Text.strip path = e) ∧
    (q.registry.repositories = calls.flatten.eraseDups ↔
      ∀ path ∈ calls.flatten, ¬Text.EndsBlank path) ∧
    ((∀ call ∈ calls, ∀ disk given q', { q with disk }.register call = (.ok given, q') →
        given = call ∧ q'.registry = q.registry) ↔
      ∀ path ∈ calls.flatten, ¬Text.EndsBlank path) ∧
    ∀ call ∈ calls, (∃ path ∈ call, Text.EndsBlank path) →
      ∀ disk given q', { q with disk }.register call = (.ok given, q') →
        q.registry.repositories.length < q'.registry.repositories.length := by
  have rooted (path : String) (hpath : path ∈ calls.flatten) : Path.Rooted path := by
    obtain ⟨home, raw, h⟩ := canonical path hpath
    exact Path.rooted_canonical h
  obtain ⟨hgiven, kept, h⟩ := holds_registerAll fresh rooted succeed
  rw [run] at h
  have strip_of_end (hend : ∀ path ∈ calls.flatten, ¬Text.EndsBlank path) :
      ∀ path ∈ calls.flatten, Text.strip path = path :=
    fun path hpath => (rooted path hpath).strip_eq_iff.mpr (hend path hpath)
  refine ⟨hgiven, h.mem, ⟨fun hlist path hpath => ?_, fun hend => ?_⟩,
    ⟨fun hagain path hpath hblank => ?_, fun hend call hcall disk given q' hcalled => ?_⟩, ?_⟩
  · exact h.not_endsBlank rooted (by simpa [hlist] using hpath)
  · have hexact := h.exact (strip_of_end hend)
    rw [h.listed, hexact]
    exact Text.map_strip_eq_self fun path hpath => strip_of_end hend path (by simpa using hpath)
  · obtain ⟨call, hcall, hin⟩ := List.mem_flatten.mp hpath
    -- On a sound disk the call succeeds.
    have hcalled := register_of_writable (p := { q with disk := Disk.sound })
      (Registry.writable_of_file (h.storage_of_mem hcall)) rfl call
    have hgrows := (h.on_disk Disk.sound).grows rooted hcall hin hblank hcalled
    rw [(hagain call hcall _ _ _ hcalled).2] at hgrows
    exact lt_irrefl _ hgrows
  · exact (h.on_disk disk).register_again (strip_of_end hend) hcall hcalled
  · rintro call hcall ⟨path, hpath, hblank⟩ disk given q' hcalled
    exact (h.on_disk disk).grows rooted hcall hpath hblank hcalled

/-- Premises without a list of repositories. -/
def bare : Premises Unit := ⟨(), ⟨Path.Location.ofText "/list.json", .absent⟩, Disk.sound⟩

theorem writable_bare : bare.registry.Writable := Registry.writable_of_absent rfl (by decide)

/-- Two calls with a path in common. -/
theorem additions_listed_iff_two_calls :
    (bare.registerAll [["/b", "/a"], ["/c", "/b"]]).2.registry.repositories = ["/b", "/a", "/c"] ∧
    ((bare.registerAll [["/b", "/a"], ["/c", "/b"]]).2.register ["/b", "/a"]).1 =
      .ok ["/b", "/a"] ∧
    ((bare.registerAll [["/b", "/a"], ["/c", "/b"]]).2.register ["/b", "/a"]).2.registry =
      (bare.registerAll [["/b", "/a"], ["/c", "/b"]]).2.registry := by
  have hcanonical : ∀ path ∈ [["/b", "/a"], ["/c", "/b"]].flatten,
      ∃ home raw, Path.canonical home raw = some path := by
    intro path hpath
    refine ⟨"/", path, ?_⟩
    fin_cases hpath <;> decide
  have hend : ∀ path ∈ [["/b", "/a"], ["/c", "/b"]].flatten, ¬Text.EndsBlank path := by
    rintro path hpath ⟨c, hc, hblank⟩
    fin_cases hpath <;> cases hc <;> revert hblank <;> decide
  obtain ⟨-, -, hlist, hagain, -⟩ := additions_listed_iff bare _ [["/b", "/a"], ["/c", "/b"]] rfl
    hcanonical (succeed_of_sound writable_bare rfl) rfl
  have hwritable : (bare.registerAll [["/b", "/a"], ["/c", "/b"]]).2.registry.Writable :=
    (bare.registerAll [["/b", "/a"]]).2.writable_saved _
  have hcalled := register_of_writable hwritable rfl ["/b", "/a"]
  refine ⟨(hlist.mpr hend).trans (by decide), congrArg Prod.fst hcalled, ?_⟩
  exact (hagain.mpr hend _ (by simp) _ _ _ (Prod.ext (congrArg Prod.fst hcalled) rfl)).2

/-- A path that ends in a blank is not listed as it was added, and adding it again changes the
list. -/
theorem trailing_blank_lost :
    (¬ ∀ calls : List (List String),
      (∀ path ∈ calls.flatten, ∃ home raw, Path.canonical home raw = some path) →
      (bare.registerAll calls).2.registry.repositories = calls.flatten.eraseDups) ∧
    ¬ ∀ calls : List (List String),
      (∀ path ∈ calls.flatten, ∃ home raw, Path.canonical home raw = some path) →
      ∀ call ∈ calls, (bare.registerAll calls).2.register call =
        (.ok call, (bare.registerAll calls).2) := by
  have hcanonical : ∀ path ∈ [["/repo "]].flatten,
      ∃ home raw, Path.canonical home raw = some path := by
    intro path hpath
    refine ⟨"/", path, ?_⟩
    fin_cases hpath
    decide
  have hblank : Text.EndsBlank "/repo " := ⟨' ', by decide, by decide⟩
  have rooted (path : String) (hpath : path ∈ [["/repo "]].flatten) : Path.Rooted path := by
    obtain ⟨home, raw, h⟩ := hcanonical path hpath
    exact Path.rooted_canonical h
  have fresh : bare.registry.storage = .absent := rfl
  obtain ⟨-, kept, holds⟩ := holds_registerAll fresh rooted (succeed_of_sound writable_bare rfl)
  constructor
  · intro h
    have hin : "/repo " ∈ (bare.registerAll [["/repo "]]).2.registry.repositories := by
      rw [h _ hcanonical]
      decide
    exact holds.not_endsBlank rooted hin hblank
  · intro h
    have hagain := h _ hcanonical ["/repo "] (by simp)
    exact lt_irrefl _ (holds.grows rooted (by simp) (by simp) hblank hagain)

end Premises
end Admission
