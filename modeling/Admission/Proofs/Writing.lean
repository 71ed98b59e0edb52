import Admission.Registry.Storage

/-!
# What comes of saving a list

A list is saved in three steps, each of which may fail. Before the file is opened a failure leaves
what is there, but for a directory that was made in the place of the file itself; afterwards it
leaves the part of the new text that was written, and nothing of the old one.
-/
namespace Admission

namespace Registry

variable {r : Registry} {paths : List String} {w : Writing}

/-- The file can be written if the disk goes along with it. -/
structure Writable (r : Registry) : Prop where
  free : r.storage ≠ .blocked
  clear : r.reached.storage ≠ .directory

theorem writable_of_file {bytes : ByteArray} (h : r.storage = .file bytes) : r.Writable := by
  constructor <;> simp [reached, h]

theorem writable_of_absent (h : r.storage = .absent) (hpass : r.location.passesItself = false) :
    r.Writable := by
  constructor <;> simp [reached, h, hpass]

/-- Either way the location is what it was. -/
theorem reached_eq (r : Registry) :
    r.reached = r ∨ r.storage = .absent ∧ r.location.passesItself = true ∧
      r.reached = { r with storage := .directory } := by
  unfold reached
  split
  · rename_i habsent
    split
    · rename_i hpass
      exact .inr ⟨habsent, hpass, rfl⟩
    · exact .inl rfl
  · exact .inl rfl

/-- What a list that is saved, or could not be saved, leaves of registry `r`. -/
inductive Saves (r : Registry) (paths : List String) (w : Writing) :
    Except Failure Unit → Registry → Prop
  | done (hr : r.Writable) (hw : w = .done) :
    Saves r paths w (.ok ()) { r with storage := .file (listText paths).toUTF8 }
  /-- Nothing has been written, and nothing has been made at the place of the file. -/
  | untouched (f : Failure)
    (hw : r.Writable → w ≠ .done ∧ ∀ g kept, w ≠ .broken g kept) :
    Saves r paths w (.error f) r
  /-- The place of the file was made a directory on the way to the file. -/
  | passed (f : Failure) (habsent : r.storage = .absent)
    (hpass : r.location.passesItself = true) :
    Saves r paths w (.error f) { r with storage := .directory }
  /-- The writing broke off: what was in the file is lost. -/
  | torn {f : Failure} {kept : Nat} (hr : r.Writable) (hw : w = .broken f kept) :
    Saves r paths w (.error f)
      { r with storage := .file ((listText paths).toUTF8.extract 0 kept) }

/-- The way to the file leads past no file and not through its own place. -/
theorem saves_put (hfree : r.storage ≠ .blocked) (hreached : r.reached = r) :
    Saves r paths w (r.put (listText paths) w).1 (r.put (listText paths) w).2 := by
  cases hs : r.storage with
  | directory =>
    simp only [put, hs]
    exact .untouched _ fun hr => absurd (hreached.symm ▸ hs) hr.clear
  | blocked => exact absurd hs hfree
  | absent | file =>
    have hr : r.Writable := ⟨hfree, by simp [hreached, hs]⟩
    cases w with
    | done =>
      simp only [put, hs]
      exact .done hr rfl
    | broken f kept =>
      simp only [put, hs]
      exact .torn hr rfl
    | refused f | unreached f _ =>
      simp only [put, hs]
      exact .untouched f fun _ => ⟨nofun, nofun⟩

theorem saves_save (r : Registry) (paths : List String) (w : Writing) :
    Saves r paths w (r.save paths w).1 (r.save paths w).2 := by
  unfold save
  split
  · rename_i hs
    exact .untouched _ fun hr => absurd hs hr.free
  · rename_i f passed hs
    rcases r.reached_eq with heq | ⟨habsent, hpass, heq⟩
    · rw [heq, ite_self]
      exact .untouched f fun _ => ⟨nofun, nofun⟩
    · rw [heq]
      cases passed with
      | false => exact .untouched f fun _ => ⟨nofun, nofun⟩
      | true => exact .passed f habsent hpass
  · rename_i hfree _
    rcases r.reached_eq with heq | ⟨habsent, hpass, heq⟩
    · rw [heq]
      exact saves_put hfree heq
    · simp only [heq, put]
      exact .passed _ habsent hpass

/-- A failure leaves everything as it is, but for the two cases in which something was made or
opened before. -/
theorem Saves.eq_self {f : Failure} {r' : Registry} (h : Saves r paths w (.error f) r')
    (hpass : r.storage = .absent → r.location.passesItself = false)
    (hw : ∀ g kept, w ≠ .broken g kept) : r' = r := by
  cases h with
  | untouched => rfl
  | passed _ habsent hpasses => cases (hpass habsent).symm.trans hpasses
  | torn _ hbroken => exact absurd hbroken (hw _ _)

/-- Of a file that was opened only the new text is left, as far as it was written. -/
theorem Saves.storage_of_broken {f g : Failure} {kept : Nat} {r' : Registry}
    (h : Saves r paths w (.error f) r') (hr : r.Writable) (hw : w = .broken g kept) :
    r'.storage = .file ((listText paths).toUTF8.extract 0 kept) := by
  cases h with
  | untouched _ hno => exact absurd hw ((hno hr).2 g kept)
  | passed _ habsent hpass => exact absurd (by simp [reached, habsent, hpass]) hr.clear
  | torn _ hbroken =>
    cases hbroken.symm.trans hw
    rfl

/-- A list that was saved holds nothing but what was given. -/
theorem eq_of_save {r' : Registry} (h : r.save paths w = (.ok (), r')) :
    r' = { r with storage := .file (listText paths).toUTF8 } := by
  have hs := r.saves_save paths w
  rw [h] at hs
  cases hs
  rfl

theorem save_of_writable (h : r.Writable) (paths : List String) :
    r.save paths .done = (.ok (), { r with storage := .file (listText paths).toUTF8 }) := by
  obtain ⟨hfree, hclear⟩ := h
  have hreached : r.reached = r :=
    r.reached_eq.resolve_right fun ⟨_, _, heq⟩ => hclear (congrArg storage heq)
  rw [hreached] at hclear
  cases hs : r.storage with
  | blocked => exact absurd hs hfree
  | directory => exact absurd hs hclear
  | absent | file => simp [save, put, hreached, hs]

end Registry

end Admission
