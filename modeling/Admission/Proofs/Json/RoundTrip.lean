import Admission.Json.Reader
import Admission.Json.Writer
import Mathlib.Data.List.Induction
import Mathlib.Tactic.FinCases
import Mathlib.Tactic.IntervalCases

/-!
# Writing and reading JSON

A text that is written is read back character by character: what is escaped comes back as itself,
surrogate pairs included. From there on the reader takes from a written value just what the writer
put there, whatever the layout and whatever follows. Numbers are left out: a whole number can be too
long to be read, and `NaN` has no place among values that are compared.
-/
namespace Admission.Json

/-! ## Texts -/

/-- The code units of a character: itself, or a surrogate pair. -/
def unitsOf (c : Char) : List Nat :=
  if c.toNat < 0x10000 then [c.toNat]
  else [0xd800 + (c.toNat - 0x10000) / 0x400, 0xdc00 + (c.toNat - 0x10000) % 0x400]

theorem hexDigit?_digitChar {n : Nat} (h : n < 16) : hexDigit? (Nat.digitChar n) = some n := by
  interval_cases n <;> decide

theorem hexDigits_four (n : Nat) :
    Text.hexDigits 4 n = [Nat.digitChar (n / 4096 % 16), Nat.digitChar (n / 256 % 16),
      Nat.digitChar (n / 16 % 16), Nat.digitChar (n % 16)] := by
  simp [Text.hexDigits, Nat.div_div_eq_div_mul]

/-- Four digits hold a code unit. -/
theorem hexQuad?_hexDigits {n : Nat} (h : n < 0x10000) :
    hexQuad? (Nat.digitChar (n / 4096 % 16)) (Nat.digitChar (n / 256 % 16))
      (Nat.digitChar (n / 16 % 16)) (Nat.digitChar (n % 16)) = some n := by
  have digit (m : Nat) : hexDigit? (Nat.digitChar (m % 16)) = some (m % 16) :=
    hexDigit?_digitChar (Nat.mod_lt m (by decide))
  simp only [hexQuad?, digit, Option.bind_eq_bind, Option.bind_some, Option.pure_def]
  congr 1
  omega

/-- An escape is never the last of the characters, because a quote has to follow. -/
theorem readUnits_unitEscape (opened : Nat) {n : Nat} (h : n < 0x10000) {rest : List Char}
    (hr : rest ≠ []) :
    readUnits opened (unitEscape n ++ rest) = consUnit n (readUnits opened rest) := by
  rw [unitEscape, hexDigits_four]
  simp only [List.cons_append, List.nil_append, readUnits, hexQuad?_hexDigits h]
  simp [hr]

/-- Code units put in front of what the rest of a text reads as. -/
def consUnits (units : List Nat) (r : Read (List Nat)) : Read (List Nat) :=
  units.foldr consUnit r

theorem readUnits_plain (opened : Nat) {c : Char} (hq : c ≠ '"') (hb : c ≠ '\\')
    (hc : 0x20 ≤ c.toNat) (rest : List Char) :
    readUnits opened (c :: rest) = consUnit c.toNat (readUnits opened rest) := by
  rw [readUnits]
  · exact if_neg (by omega)
  · exact hq
  all_goals
    intros
    contradiction

/-- A short escape reads as the character it stands for. -/
theorem readUnits_shortEscape (opened : Nat) {e c : Char} (hu : e ≠ 'u')
    (he : shortEscape? e = some c) (rest : List Char) :
    readUnits opened ('\\' :: e :: rest) = consUnit c.toNat (readUnits opened rest) := by
  rw [readUnits]
  · rw [he]
  all_goals
    intros
    contradiction

theorem readUnits_writeChar (opened : Nat) (c : Char) {rest : List Char} (hr : rest ≠ []) :
    readUnits opened (writeChar c ++ rest) = consUnits (unitsOf c) (readUnits opened rest) := by
  have escaped {d e : Char} {cs : List Char} (hu : e ≠ 'u') (he : shortEscape? e = some d)
      (hd : d.toNat < 0x10000) (h : c ≠ d →
        readUnits opened (cs ++ rest) = consUnits (unitsOf c) (readUnits opened rest)) :
      readUnits opened ((if c = d then ['\\', e] else cs) ++ rest) =
        consUnits (unitsOf c) (readUnits opened rest) := by
    by_cases hc : c = d
    · subst hc
      rw [if_pos rfl]
      simpa [unitsOf, hd, consUnits] using readUnits_shortEscape opened hu he rest
    · rw [if_neg hc]
      exact h hc
  have valid : c.toNat < 0xd800 ∨ 0xdfff < c.toNat ∧ c.toNat < 0x110000 := c.valid
  unfold writeChar
  refine escaped (by decide) rfl (by decide) fun hq => ?_
  refine escaped (by decide) rfl (by decide) fun hb => ?_
  iterate 5 refine escaped (by decide) rfl (by decide) fun _ => ?_
  by_cases hp : 0x20 ≤ c.toNat ∧ c.toNat ≤ 0x7e
  · have hw : c.toNat < 0x10000 := by omega
    rw [if_pos hp]
    simpa [unitsOf, hw, consUnits] using readUnits_plain opened hq hb hp.1 rest
  rw [if_neg hp]
  by_cases hw : c.toNat < 0x10000
  · rw [if_pos hw]
    simpa [unitsOf, hw, consUnits] using readUnits_unitEscape opened hw hr
  · rw [if_neg hw]
    simp only [unitsOf, hw, if_false, consUnits, List.foldr_cons, List.foldr_nil,
      List.append_assoc]
    rw [readUnits_unitEscape opened (by omega) (by simp [unitEscape]),
      readUnits_unitEscape opened (by omega) hr]

/-- A written text reads as the units of its characters, up to the closing quote. -/
theorem readUnits_flatMap_writeChar (opened : Nat) (cs rest : List Char) :
    readUnits opened (cs.flatMap writeChar ++ '"' :: rest) = .ok (cs.flatMap unitsOf, rest) := by
  induction cs with
  | nil => simp [readUnits]
  | cons c cs ih =>
    have consUnits_ok (units more : List Nat) :
        consUnits units (.ok (more, rest)) = .ok (units ++ more, rest) := by
      induction units with
      | nil => rfl
      | cons n units ih => simp_all [consUnits, consUnit]
    rw [List.flatMap_cons, List.append_assoc, readUnits_writeChar opened c (by simp), ih,
      consUnits_ok, List.flatMap_cons]

/-- The units of a character are joined to it, whatever follows. -/
theorem joinUnits_unitsOf (c : Char) (units : List Nat) :
    joinUnits (unitsOf c ++ units) = c :: joinUnits units := by
  have valid : c.toNat < 0xd800 ∨ 0xdfff < c.toNat ∧ c.toNat < 0x110000 := c.valid
  unfold unitsOf
  split_ifs with hw
  · have single : unitChar c.toNat = c := by
      simp [unitChar, show ¬(0xd800 ≤ c.toNat ∧ c.toNat < 0xe000) by omega]
    cases units with
    | nil => simp [joinUnits, single]
    | cons n units =>
      have apart : pairChar? c.toNat n = none := by
        simp only [pairChar?]
        exact if_neg (by omega)
      simp [joinUnits, apart, single]
  · have pair : pairChar? (0xd800 + (c.toNat - 0x10000) / 0x400)
        (0xdc00 + (c.toNat - 0x10000) % 0x400) = some c := by
      rw [pairChar?, if_pos (by omega)]
      rw [show 0x10000 + (0xd800 + (c.toNat - 0x10000) / 0x400 - 0xd800) * 0x400 +
        (0xdc00 + (c.toNat - 0x10000) % 0x400 - 0xdc00) = c.toNat by omega, Char.ofNat_toNat]
    simp [joinUnits, pair]

/-- A text is read as it was written. -/
theorem readText_writeText (s : String) (rest : List Char) :
    readText (s.toList.flatMap writeChar ++ '"' :: rest) = .ok (s, rest) := by
  have joined (cs : List Char) : joinUnits (cs.flatMap unitsOf) = cs := by
    induction cs with
    | nil => rfl
    | cons c cs ih => rw [List.flatMap_cons, joinUnits_unitsOf, ih]
  simp only [readText, readUnits_flatMap_writeChar, joined, String.ofList_toList]

/-! ## Values -/

/-- A value without numbers, whose objects name no field twice. -/
inductive Value.Plain : Value → Prop
  | null : Plain .null
  | bool (b : Bool) : Plain (.bool b)
  | text (s : String) : Plain (.text s)
  | list {items : List Value} (items_plain : ∀ v ∈ items, Plain v) : Plain (.list items)
  | object {fields : Fields} (keys : (fields.map Prod.fst).Nodup)
      (fields_plain : ∀ f ∈ fields, Plain f.2) : Plain (.object fields)

/-- Whatever follows a written value, reading takes just the value. The length of what was written
is enough fuel. -/
def ReadsBack (layout : Layout) (v : Value) : Prop :=
  ∀ (depth fuel : Nat) (rest : List Char), (write layout depth v).length ≤ fuel →
    readValue fuel (write layout depth v ++ rest) = .ok (v, rest)

theorem skip_lineBreak (layout : Layout) (depth : Nat) (cs : List Char) :
    skip (layout.lineBreak depth ++ cs) = skip cs := by
  cases layout with
  | line => rfl
  | indented width =>
    have spaces (n : Nat) : skip (List.replicate n ' ' ++ cs) = skip cs := by
      induction n with
      | zero => rfl
      | succ n ih => rw [List.replicate_succ, List.cons_append, ← ih]; simp [skip]
    simpa [Layout.lineBreak, skip] using spaces (width * depth)

theorem skip_comma (cs : List Char) : skip (',' :: cs) = ',' :: cs := by simp [skip]

theorem skip_writeText (s : String) (cs : List Char) :
    skip (writeText s ++ cs) = writeText s ++ cs := by
  simp [writeText, skip]

/-- A written value starts with no blank and with no bracket that closes. -/
theorem Value.Plain.write_head {v : Value} (h : v.Plain) (layout : Layout) (depth : Nat) :
    ∃ c cs, write layout depth v = c :: cs ∧ c ∈ ['n', 't', 'f', '"', '[', '\x7b'] := by
  cases h with
  | null => simp [write]
  | bool b => cases b <;> simp [write]
  | text s => simp [write, writeText]
  | @list items _ => cases items <;> simp [write]
  | @object fields _ _ => cases fields <;> simp [write]

theorem Value.Plain.skip_write {v : Value} (h : v.Plain) (layout : Layout) (depth : Nat)
    (rest : List Char) : skip (write layout depth v ++ rest) = write layout depth v ++ rest := by
  obtain ⟨c, cs, hw, hc⟩ := h.write_head layout depth
  fin_cases hc <;> simp [hw, skip]

theorem Value.Plain.write_pos {v : Value} (h : v.Plain) (layout : Layout) (depth : Nat) :
    0 < (write layout depth v).length := by
  obtain ⟨c, cs, hw, -⟩ := h.write_head layout depth
  simp [hw]

section

variable {layout : Layout}

/-- The items of a list are read up to its closing bracket. -/
theorem readItems_write {items : List Value} (depth : Nat) (rest : List Char) :
    ∀ {v : Value} (fuel : Nat), (∀ w ∈ v :: items, w.Plain) →
      (∀ w ∈ v :: items, ReadsBack layout w) →
      (write layout (depth + 1) v).length + (writeItems layout (depth + 1) items).length < fuel →
      readItems fuel (write layout (depth + 1) v ++ (writeItems layout (depth + 1) items ++
        (layout.lineBreak depth ++ ']' :: rest))) = .ok (v :: items, rest) := by
  induction items with
  | nil =>
    intro v fuel plain back hf
    obtain ⟨fuel, rfl⟩ := Nat.exists_eq_add_one_of_ne_zero (by omega : fuel ≠ 0)
    rw [readItems, back v (by simp) _ _ _ (by omega)]
    simp only [writeItems, List.nil_append, skip_lineBreak]
    simp [skip]
  | cons w items ih =>
    intro v fuel plain back hf
    obtain ⟨fuel, rfl⟩ := Nat.exists_eq_add_one_of_ne_zero (by omega : fuel ≠ 0)
    have hv := (plain v (by simp)).write_pos layout (depth + 1)
    rw [readItems, back v (by simp) _ _ _ (by omega)]
    simp only [writeItems, List.append_assoc, List.cons_append]
    simp only [skip_comma, skip_lineBreak, (plain w (by simp)).skip_write]
    simp only [writeItems, List.length_append, List.length_cons] at hf
    rw [ih fuel (fun u hu => plain u (by simp_all)) (fun u hu => back u (by simp_all)) (by omega)]

theorem skip_colon (layout : Layout) (cs : List Char) :
    ∃ more, skip (layout.colon ++ cs) = ':' :: more ∧ skip more = skip cs := by
  cases layout <;> simp [Layout.colon, skip]

section

variable {key : String} {v : Value} {depth fuel : Nat} {tail : List Char}

/-- One field is read, and it was the last. -/
theorem readPairs_last (plain : v.Plain) (back : ReadsBack layout v)
    (hf : (write layout depth v).length ≤ fuel) {rest : List Char}
    (htail : skip tail = '\x7d' :: rest) :
    readPairs (fuel + 1) (writeText key ++ (layout.colon ++ (write layout depth v ++ tail))) =
      .ok ([(key, v)], rest) := by
  obtain ⟨more, hc, hm⟩ := skip_colon layout (write layout depth v ++ tail)
  simp only [writeText, List.append_assoc, List.cons_append, List.nil_append, readPairs,
    readText_writeText, hc, hm, plain.skip_write, back depth fuel tail hf, htail]

/-- One field is read, and others follow. -/
theorem readPairs_more (plain : v.Plain) (back : ReadsBack layout v)
    (hf : (write layout depth v).length ≤ fuel) {next rest : List Char} {pairs : Fields}
    (htail : skip tail = ',' :: next) (hnext : readPairs fuel (skip next) = .ok (pairs, rest)) :
    readPairs (fuel + 1) (writeText key ++ (layout.colon ++ (write layout depth v ++ tail))) =
      .ok ((key, v) :: pairs, rest) := by
  obtain ⟨more, hc, hm⟩ := skip_colon layout (write layout depth v ++ tail)
  simp only [writeText, List.append_assoc, List.cons_append, List.nil_append, readPairs,
    readText_writeText, hc, hm, plain.skip_write, back depth fuel tail hf, htail, hnext]

end

/-- The fields of an object are read up to its closing brace. -/
theorem readPairs_write {fields : Fields} (depth : Nat) (rest : List Char) :
    ∀ {key : String} {v : Value} (fuel : Nat), (∀ f ∈ (key, v) :: fields, f.2.Plain) →
      (∀ f ∈ (key, v) :: fields, ReadsBack layout f.2) →
      (write layout (depth + 1) v).length + (writePairs layout (depth + 1) fields).length < fuel →
      readPairs fuel (writeText key ++ (layout.colon ++ (write layout (depth + 1) v ++
        (writePairs layout (depth + 1) fields ++ (layout.lineBreak depth ++ '\x7d' :: rest)))))
        = .ok ((key, v) :: fields, rest) := by
  induction fields with
  | nil =>
    intro key v fuel plain back hf
    obtain ⟨fuel, rfl⟩ := Nat.exists_eq_add_one_of_ne_zero (by omega : fuel ≠ 0)
    have hl : (write layout (depth + 1) v).length ≤ fuel := by omega
    refine readPairs_last (plain (key, v) (by simp)) (back (key, v) (by simp)) hl ?_
    simp only [writePairs, List.nil_append, skip_lineBreak]
    simp [skip]
  | cons f fields ih =>
    obtain ⟨k, w⟩ := f
    intro key v fuel plain back hf
    obtain ⟨fuel, rfl⟩ := Nat.exists_eq_add_one_of_ne_zero (by omega : fuel ≠ 0)
    have hv := (plain (key, v) (by simp)).write_pos layout (depth + 1)
    simp only [writePairs, List.length_append, List.length_cons] at hf
    have hl : (write layout (depth + 1) v).length ≤ fuel := by omega
    simp only [writePairs, List.append_assoc, List.cons_append]
    refine readPairs_more (plain (key, v) (by simp)) (back (key, v) (by simp)) hl
      (skip_comma _) ?_
    rw [skip_lineBreak, skip_writeText]
    exact ih fuel (fun g hg => plain g (by simp_all)) (fun g hg => back g (by simp_all)) (by omega)

end

/-- The pairs of an object that names no field twice are its fields. -/
theorem Fields.ofPairs_of_nodup {fields : Fields} (h : (fields.map Prod.fst).Nodup) :
    Fields.ofPairs fields = fields := by
  have put_new {fields : Fields} {key : String} (v : Value) (hn : key ∉ fields.map Prod.fst) :
      Fields.put fields key v = fields ++ [(key, v)] := by
    induction fields with
    | nil => rfl
    | cons f fields ih => simp_all [Fields.put, eq_comm]
  induction fields using List.reverseRecOn with
  | nil => rfl
  | append_singleton fields f ih =>
    rw [List.map_append, List.nodup_append] at h
    have hf : f.1 ∉ fields.map Prod.fst := fun hm => h.2.2 _ hm _ (by simp) rfl
    rw [Fields.ofPairs, List.foldl_append]
    exact (congrArg (fun fs => Fields.put fs f.1 f.2) (ih h.1)).trans (put_new f.2 hf)

/-- **What is written is read back**, with whatever follows it left over. -/
theorem Value.Plain.readsBack {v : Value} (h : v.Plain) (layout : Layout) :
    ReadsBack layout v := by
  induction h with
  | null =>
    intro depth fuel rest hf
    have pos := Plain.null.write_pos layout depth
    obtain ⟨fuel, rfl⟩ := Nat.exists_eq_add_one_of_ne_zero (by omega : fuel ≠ 0)
    rfl
  | bool b =>
    intro depth fuel rest hf
    have pos := (Plain.bool b).write_pos layout depth
    obtain ⟨fuel, rfl⟩ := Nat.exists_eq_add_one_of_ne_zero (by omega : fuel ≠ 0)
    cases b <;> rfl
  | text s =>
    intro depth fuel rest hf
    have pos := (Plain.text s).write_pos layout depth
    obtain ⟨fuel, rfl⟩ := Nat.exists_eq_add_one_of_ne_zero (by omega : fuel ≠ 0)
    simp [write, writeText, readValue, readText_writeText]
  | @list items plain ih =>
    intro depth fuel rest hf
    have pos := (Plain.list plain).write_pos layout depth
    obtain ⟨fuel, rfl⟩ := Nat.exists_eq_add_one_of_ne_zero (by omega : fuel ≠ 0)
    cases items with
    | nil => simp [write, readValue, skip]
    | cons v items =>
      simp only [write, List.length_append, List.length_cons] at hf
      obtain ⟨c, cs, hw, hc⟩ := (plain v (by simp)).write_head layout (depth + 1)
      have hn : c ≠ ']' := by fin_cases hc <;> decide
      have items := readItems_write depth rest fuel plain ih (by omega)
      simp only [write, List.append_assoc, List.cons_append, readValue, skip_lineBreak,
        (plain v (by simp)).skip_write, List.nil_append]
      rw [hw] at items ⊢
      simp only [List.cons_append] at items ⊢
      simp [hn, items]
  | @object fields keys plain ih =>
    intro depth fuel rest hf
    have pos := (Plain.object keys plain).write_pos layout depth
    obtain ⟨fuel, rfl⟩ := Nat.exists_eq_add_one_of_ne_zero (by omega : fuel ≠ 0)
    cases fields with
    | nil => simp [write, readValue, skip]
    | cons f fields =>
      obtain ⟨key, v⟩ := f
      simp only [write, List.length_append, List.length_cons] at hf
      have pairs := readPairs_write depth rest fuel plain ih (by omega)
      simp only [write, List.append_assoc, List.cons_append, readValue, skip_lineBreak,
        List.nil_append]
      rw [skip_writeText]
      simp only [writeText, List.append_assoc, List.cons_append, List.nil_append] at pairs ⊢
      simp [pairs, Fields.ofPairs_of_nodup keys]

theorem Value.Plain.read_render {v : Value} (h : v.Plain) (layout : Layout) :
    read (v.render layout) = .ok v := by
  have back := h.readsBack layout 0 (2 * (write layout 0 v).length + 2) [] (by omega)
  have start := h.skip_write layout 0 []
  simp only [List.append_nil] at back start
  simp only [read, readAll, Value.render, String.toList_ofList, start, back]
  rfl

end Admission.Json
