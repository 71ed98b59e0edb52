import Admission.Proofs.Additions
import Admission.Proofs.Json.Ascii

/-!
# Saving the list

A list that is saved is read back as its entries: the texts that are not blank, without their outer
blanks. Nothing else is lost, whatever characters a text has and whatever was kept before, so a list
of entries is read back as it is. Where the list cannot be saved nothing is said.
-/
namespace Admission

/-! ## Blanks around a text -/

namespace Text

/-- The first character of the text is blank. -/
def StartsBlank (s : String) : Prop := ∃ c, s.toList.head? = some c ∧ isBlank c = true

theorem dropWhile_isBlank_eq_self_iff {s : String} :
    s.toList.dropWhile isBlank = s.toList ↔ ¬StartsBlank s := by
  simp only [StartsBlank]
  cases s.toList with
  | nil => simp
  | cons c cs =>
    by_cases hc : isBlank c = true
    · have := (List.dropWhile_suffix (l := cs) isBlank).length_le
      have hne : cs.dropWhile isBlank ≠ c :: cs := by
        intro h
        rw [h, List.length_cons] at this
        omega
      simp [hc, hne]
    · simp [hc]

theorem strip_eq_self_iff {s : String} : strip s = s ↔ ¬StartsBlank s ∧ ¬EndsBlank s := by
  rw [← String.toList_inj, strip, String.toList_ofList, trim_eq_rdropWhile,
    ← dropWhile_isBlank_eq_self_iff, ← rdropWhile_isBlank_eq_self_iff]
  constructor
  · intro h
    have hfront : s.toList.dropWhile isBlank = s.toList := by
      have hle := (List.rdropWhile_prefix isBlank (s.toList.dropWhile isBlank)).length_le
      rw [h] at hle
      exact (List.dropWhile_suffix isBlank).eq_of_length_le hle
    rw [hfront] at h
    exact ⟨hfront, h⟩
  · rintro ⟨hfront, hend⟩
    rw [hfront, hend]

end Text

/-! ## Entries -/

namespace Registry

/-- A text that is an entry as it stands. -/
structure IsEntry (s : String) : Prop where
  filled : s ≠ ""
  start : ¬Text.StartsBlank s
  finish : ¬Text.EndsBlank s

theorem entryOf?_eq_self_iff {s : String} : entryOf? s = some s ↔ IsEntry s := by
  have hstrip : entryOf? s = some s ↔ s ≠ "" ∧ Text.strip s = s := by
    simp only [entryOf?]
    split
    · rename_i hs
      constructor
      · intro heq
        cases heq
      · rintro ⟨hne, heq⟩
        exact absurd (heq.symm.trans hs) hne
    · rename_i hs
      constructor
      · intro heq
        have heq := Option.some.inj heq
        exact ⟨fun hempty => hs (heq.trans hempty), heq⟩
      · rintro ⟨-, heq⟩
        rw [heq]
  rw [hstrip, Text.strip_eq_self_iff]
  constructor
  · rintro ⟨hne, hs, he⟩
    exact ⟨hne, hs, he⟩
  · intro h
    exact ⟨h.filled, h.start, h.finish⟩

/-- What is made an entry is one. -/
theorem isEntry_of_entryOf? {s e : String} (h : entryOf? s = some e) : IsEntry e := by
  refine entryOf?_eq_self_iff.mp ?_
  simp only [entryOf?] at h ⊢
  split at h
  · cases h
  · rename_i hs
    obtain rfl := Option.some.inj h
    rw [Text.strip_strip, if_neg hs]

theorem filterMap_entryOf? (texts : List String) :
    texts.filterMap entryOf? = (texts.filter fun s => Text.strip s ≠ "").map Text.strip := by
  induction texts with
  | nil => rfl
  | cons s texts ih => by_cases hs : Text.strip s = "" <;> simp [entryOf?, hs, ih]

theorem filterMap_entryOf?_eq_self_iff {texts : List String} :
    texts.filterMap entryOf? = texts ↔ ∀ s ∈ texts, IsEntry s := by
  constructor
  · intro h s hs
    rw [← h] at hs
    obtain ⟨t, -, ht⟩ := List.mem_filterMap.mp hs
    exact isEntry_of_entryOf? ht
  · intro h
    have hsome := List.filterMap_congr fun s hs => entryOf?_eq_self_iff.mpr (h s hs)
    rw [hsome, List.filterMap_some]

/-! ## Saving -/

/-- Any texts are saved, over whatever was kept before. What is read back are, in order, those that
are not blank, without their outer blanks; these are the texts themselves just if each of them is
filled and has no outer blank. The list that was read can be saved, and then it is read back as it
is. What is written is ASCII. -/
theorem saved_list_read_back (r r' : Registry) (texts : List String) (w : Writing)
    (saved : r.save texts w = (.ok (), r')) :
    r'.repositories = (texts.filter fun s => Text.strip s ≠ "").map Text.strip ∧
    (r'.repositories = texts ↔ ∀ s ∈ texts, IsEntry s) ∧
    (r'.save r'.repositories .done).1 = .ok () ∧
    (∀ w r'', r'.save r'.repositories w = (.ok (), r'') → r''.repositories = r'.repositories) ∧
    ∃ written : String, r'.storage = .file written.toUTF8 ∧ Json.IsAscii written.toList := by
  obtain rfl := eq_of_save saved
  generalize hr : ({ r with storage := .file (listText texts).toUTF8 } : Registry) = r'
  have hstorage : r'.storage = .file (listText texts).toUTF8 := by rw [← hr]
  have hread : r'.repositories = texts.filterMap entryOf? := repositories_of_storage hstorage
  refine ⟨hread.trans (filterMap_entryOf? texts), ?_, ?_, fun w r'' hagain => ?_, listText texts,
    hstorage, ?_⟩
  · rw [hread]
    exact filterMap_entryOf?_eq_self_iff
  · rw [save_of_writable (writable_of_file hstorage)]
  · rw [eq_of_save hagain, repositories_of_storage rfl]
    refine filterMap_entryOf?_eq_self_iff.mpr fun e he => ?_
    rw [hread] at he
    obtain ⟨s, -, hs⟩ := List.mem_filterMap.mp he
    exact isEntry_of_entryOf? hs
  · rw [listText, Json.Value.render, String.toList_ofList]
    exact (plain_listValue texts).isAscii_write _ 0

/-- A registry without a file. -/
def unwritten : Registry := ⟨Path.Location.ofText "cfg/config.json", .absent⟩

/-- A quote, a backslash, a control character, DEL, a character outside the basic plane, and a blank
text between them. -/
def oddTexts : List String := [" \"\\\t", "\u3000\n", "\x7f\x01😀"]

theorem saved_list_read_back_odd :
    ∃ r', unwritten.save oddTexts .done = (.ok (), r') ∧ r'.repositories = ["\"\\", "\x7f\x01😀"] ∧
      r'.repositories ≠ oddTexts := by
  have hsaved := save_of_writable (writable_of_absent (r := unwritten) rfl (by decide)) oddTexts
  have h := saved_list_read_back unwritten _ oddTexts .done hsaved
  refine ⟨_, hsaved, h.1.trans (by decide), ?_⟩
  rw [Ne, h.2.1]
  exact fun hentries => (hentries "\u3000\n" (by simp [oddTexts])).start ⟨'\u3000', rfl, by decide⟩

end Registry
end Admission
