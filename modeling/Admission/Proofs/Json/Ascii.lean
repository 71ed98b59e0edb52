import Admission.Proofs.Json.RoundTrip

/-!
# Written values are ASCII

Whatever characters a text has, its written form is ASCII: the few that stand for themselves are,
and the others are escaped. Numbers are left out here as they are in what is read back.
-/
namespace Admission.Json

/-- All characters are ASCII. -/
def IsAscii (cs : List Char) : Prop := ∀ c ∈ cs, c.toNat < 0x80

@[simp] theorem isAscii_nil : IsAscii [] := by simp [IsAscii]

@[simp] theorem isAscii_cons {c : Char} {cs : List Char} :
    IsAscii (c :: cs) ↔ c.toNat < 0x80 ∧ IsAscii cs := by
  simp [IsAscii]

@[simp] theorem isAscii_append {cs ds : List Char} :
    IsAscii (cs ++ ds) ↔ IsAscii cs ∧ IsAscii ds := by
  simp only [IsAscii, List.mem_append]
  constructor
  · intro h
    exact ⟨fun c hc => h c (Or.inl hc), fun c hc => h c (Or.inr hc)⟩
  · rintro ⟨h, h'⟩ c (hc | hc)
    · exact h c hc
    · exact h' c hc

theorem isAscii_unitEscape (n : Nat) : IsAscii (unitEscape n) := by
  have digit (m : Nat) : (Nat.digitChar (m % 16)).toNat < 0x80 := by
    have hm : m % 16 < 16 := Nat.mod_lt m (by decide)
    interval_cases m % 16 <;> decide
  simp [unitEscape, hexDigits_four, digit]

theorem isAscii_writeChar (c : Char) : IsAscii (writeChar c) := by
  have short {d e : Char} {cs : List Char} (he : e.toNat < 0x80) (h : IsAscii cs) :
      IsAscii (if c = d then ['\\', e] else cs) := by
    split
    · exact isAscii_cons.mpr ⟨by decide, isAscii_cons.mpr ⟨he, isAscii_nil⟩⟩
    · exact h
  unfold writeChar
  iterate 7 refine short (by decide) ?_
  split
  · rename_i hprint
    exact isAscii_cons.mpr ⟨by omega, isAscii_nil⟩
  · split
    · exact isAscii_unitEscape _
    · exact isAscii_append.mpr ⟨isAscii_unitEscape _, isAscii_unitEscape _⟩

theorem isAscii_writeText (s : String) : IsAscii (writeText s) := by
  have hchars : IsAscii (s.toList.flatMap writeChar) := by
    intro c hc
    obtain ⟨d, -, hd⟩ := List.mem_flatMap.mp hc
    exact isAscii_writeChar d c hd
  simp [writeText, hchars]

theorem isAscii_lineBreak (layout : Layout) (depth : Nat) : IsAscii (layout.lineBreak depth) := by
  cases layout with
  | line => exact isAscii_nil
  | indented width =>
    refine isAscii_cons.mpr ⟨by decide, fun c hc => ?_⟩
    rw [List.eq_of_mem_replicate hc]
    decide

theorem isAscii_colon (layout : Layout) : IsAscii layout.colon := by
  cases layout <;> simp [Layout.colon, IsAscii]

section

variable {layout : Layout} {depth : Nat}

theorem isAscii_writeItems {items : List Value}
    (h : ∀ v ∈ items, IsAscii (write layout depth v)) :
    IsAscii (writeItems layout depth items) := by
  induction items with
  | nil => exact isAscii_nil
  | cons v items ih =>
    have hv := h v (by simp)
    have hitems := ih fun w hw => h w (by simp [hw])
    simp [writeItems, isAscii_lineBreak, hv, hitems]

theorem isAscii_writePairs {fields : Fields}
    (h : ∀ f ∈ fields, IsAscii (write layout depth f.2)) :
    IsAscii (writePairs layout depth fields) := by
  induction fields with
  | nil => exact isAscii_nil
  | cons f fields ih =>
    have hf := h f (by simp)
    have hfields := ih fun g hg => h g (by simp [hg])
    simp [writePairs, isAscii_lineBreak, isAscii_writeText, isAscii_colon, hf, hfields]

end

/-- A written value is ASCII, whatever texts are in it. -/
theorem Value.Plain.isAscii_write {v : Value} (h : v.Plain) (layout : Layout) (depth : Nat) :
    IsAscii (write layout depth v) := by
  induction h generalizing depth with
  | null => simp [write, IsAscii]
  | bool b => cases b <;> simp [write, IsAscii]
  | text s => simpa [write] using isAscii_writeText s
  | @list items _ ih =>
    cases items with
    | nil => simp [write]
    | cons v items =>
      have hv := ih v (by simp) (depth + 1)
      have hitems := isAscii_writeItems fun w hw => ih w (List.mem_cons_of_mem v hw) (depth + 1)
      simp [write, isAscii_lineBreak, hv, hitems]
  | @object fields _ _ ih =>
    cases fields with
    | nil => simp [write]
    | cons f fields =>
      have hf := ih f (by simp) (depth + 1)
      have hfields := isAscii_writePairs fun g hg => ih g (List.mem_cons_of_mem f hg) (depth + 1)
      simp [write, isAscii_lineBreak, isAscii_writeText, isAscii_colon, hf, hfields]

end Admission.Json
