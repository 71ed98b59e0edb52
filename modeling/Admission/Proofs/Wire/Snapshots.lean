import Admission.Wire.Record
import Mathlib.Data.List.Basic

/-!
# Snapshots that are read back

A form reads an object that has just its fields, field by field. So each record is read back from
the value that it is written as; and what a dialog shows follows from that value alone, since the
flag for a pending answer and the optional classification tell the three kinds of assessment apart.
-/
namespace Admission

/-! ## What follows from the kinds -/

namespace Snapshot

variable (s : Snapshot)

theorem canSubmit_iff_kind :
    s.canSubmit = true ↔
      s.path ≠ "" ∧ s.classification.settled?.map Classification.kind = some .valid := by
  rw [canSubmit_iff]
  refine and_congr_right fun _ => ?_
  cases s.classification with
  | settled c => cases c <;> simp [Assessment.settled?, Classification.kind]
  | _ => simp [Assessment.settled?]

theorem showWarning_iff_kind (h : s.warning ≠ .pending) :
    s.showWarning = true ↔ s.path ≠ "" ∧
      s.warning.settled?.map Classification.kind ≠ none ∧
      s.warning.settled?.map Classification.kind ≠ some .valid := by
  revert h
  simp only [showWarning, Assessment.isValid]
  cases s.warning with
  | settled c => cases c <;> simp [Assessment.settled?, Classification.kind, Classification.isValid]
  | _ => simp [Assessment.settled?]

theorem kind_of_ownerDiffers (h : s.ownerDiffers = true) :
    s.classification.settled?.map Classification.kind = some .dubious := by
  unfold ownerDiffers at h
  split at h
  · next owner howner =>
    rw [(s.owner?_eq_some_iff owner).mp howner]
    rfl
  · cases h

theorem settled?_of_isPending (h : s.isPending = true) : s.classification.settled? = none := by
  rw [show s.classification = .pending by simpa [isPending] using h]
  rfl

end Snapshot

namespace Wire

open Json (Value Fields)
open Classification (Kind TagError)

/-! ## Forms -/

section Form

variable {α β : Type} {f : Form (α → β)} {g : Form α} {fields : Fields} {name : String} {r : Reader α}

/-- A field that is there is read, whatever the form says of one that is not. -/
theorem Form.read_field {absent : Fields → Checked α} {h : α → β} {a : α}
    (hf : f.read fields = .ok h) (ha : (fields.get? name).map r = some (.ok a)) :
    (f.field name absent r).read fields = .ok (h a) := by
  obtain ⟨v, hv, ha⟩ := Option.map_eq_some_iff.mp ha
  simp [Form.field, hf, hv, ha, Checked.under, Checked.both]

theorem Form.read_required {h : α → β} {a : α} (hf : f.read fields = .ok h)
    (ha : (fields.get? name).map r = some (.ok a)) :
    (f.required name r).read fields = .ok (h a) :=
  read_field hf ha

theorem Form.read_optional {default : α} {h : α → β} {a : α} (hf : f.read fields = .ok h)
    (ha : (fields.get? name).map r = some (.ok a)) :
    (f.optional name default r).read fields = .ok (h a) :=
  read_field hf ha

/-- An object whose fields are all named is read as its fields are. -/
theorem Form.reader_object {cause : Cause} {a : α} (hread : g.read fields = .ok a)
    (hnamed : ∀ field ∈ fields, field.1 ∈ g.names) :
    g.reader cause (.object fields) = .ok a := by
  have hextras : g.extras fields = [] := by
    simpa [Form.extras] using fun name v hmem => hnamed (name, v) hmem
  simp [Form.reader, Form.readFields, hextras, hread]

end Form

/-- An optional part is read back if a part that is there is, and is not written as nothing. -/
theorem nullable_orNull {α : Type} {r : Reader α} {toValue : α → Value} (o : Option α)
    (hread : ∀ a, r (toValue a) = .ok a) (hnull : ∀ a, toValue a ≠ .null) :
    nullable r (orNull toValue o) = .ok o := by
  cases o with
  | none => rfl
  | some a =>
    unfold nullable
    split
    · next h => exact absurd h (hnull a)
    · simp [orNull, hread]

theorem kind_kindValue (k : Kind) : kind (kindValue k) = .ok k := by
  simp [kind, kindValue, Kind.ofText?_text]

/-! ## Records -/

namespace ClassificationRecord

theorem reader_toValue (c : ClassificationRecord) : reader c.toValue = .ok c := by
  refine Form.reader_object ?_ (by simp [form, Form.required, Form.optional, Form.field, Form.done])
  have howner : nullable text (orNull .text c.owner) = .ok c.owner :=
    nullable_orNull _ (fun _ => rfl) (by simp)
  change form.read _ = .ok (mk c.kind c.owner)
  refine Form.read_optional (a := c.owner) ?_ (by simp [Fields.get?, howner])
  exact Form.read_required (h := mk) (a := c.kind) rfl (by simp [Fields.get?, kind_kindValue])

@[simp] theorem kind_ofClassification (c : Classification) : (ofClassification c).kind = c.kind := rfl

/-- The record of a classification tells which one it is. -/
theorem ofClassification_injective : Function.Injective ofClassification := by
  intro c d h
  cases c <;> cases d <;> simp_all [ofClassification, Classification.kind, Classification.owner?]

end ClassificationRecord

namespace SnapshotRecord

theorem reader_toValue (r : SnapshotRecord) : reader r.toValue = .ok r := by
  have hclassification : nullable ClassificationRecord.reader
      (orNull ClassificationRecord.toValue r.classification) = .ok r.classification :=
    nullable_orNull _ ClassificationRecord.reader_toValue nofun
  have hwarning : nullable kind (orNull kindValue r.warningKind) = .ok r.warningKind :=
    nullable_orNull _ kind_kindValue nofun
  refine Form.reader_object ?_ (by simp [form, Form.required, Form.optional, Form.field, Form.done])
  change form.read _ = .ok (mk r.path r.classification r.pending r.trusting r.canSubmit
    r.showWarning r.warningKind r.ownerDiffers)
  refine Form.read_optional (a := r.ownerDiffers) ?_ (by simp [Fields.get?, flag])
  refine Form.read_optional (a := r.warningKind) ?_ (by simp [Fields.get?, hwarning])
  refine Form.read_optional (a := r.showWarning) ?_ (by simp [Fields.get?, flag])
  refine Form.read_optional (a := r.canSubmit) ?_ (by simp [Fields.get?, flag])
  refine Form.read_optional (a := r.trusting) ?_ (by simp [Fields.get?, flag])
  refine Form.read_optional (a := r.pending) ?_ (by simp [Fields.get?, flag])
  refine Form.read_optional (a := r.classification) ?_ (by simp [Fields.get?, hclassification])
  exact Form.read_required (h := mk) (a := r.path) rfl (by simp [Fields.get?, text])

theorem toValue_injective : Function.Injective toValue := by
  intro r r' h
  have hread := r.reader_toValue
  rw [h, reader_toValue] at hread
  exact (Except.ok.inj hread).symm

/-- What a record says of the path: that an answer is outstanding, what the path turned out to be, or
nothing. -/
def assessment (r : SnapshotRecord) : Except TagError Assessment :=
  if r.pending then .ok .pending
  else
    match r.classification with
    | some c => c.toClassification.map .settled
    | none => .ok .blank

/-- The tag in the classification of a value. -/
theorem field?_classification (r : SnapshotRecord) (k : Kind) :
    (∃ c, r.toValue.field? "classification" = some c ∧ c.field? "kind" = some (.text k.text)) ↔
      r.classification.map (·.kind) = some k := by
  have hlook : r.toValue.field? "classification" =
      some (orNull ClassificationRecord.toValue r.classification) := by
    simp [toValue, Value.field?, Fields.get?]
  rw [hlook]
  cases r.classification with
  | none => simp [orNull, Value.field?]
  | some c =>
    have htag : c.kind.text = k.text ↔ c.kind = k := ⟨Kind.text_injective, fun h => by rw [h]⟩
    simp [orNull, ClassificationRecord.toValue, kindValue, Value.field?, Fields.get?, htag]

/-- The tag of the warning of a value. -/
theorem field?_warningKind (r : SnapshotRecord) :
    (r.toValue.field? "warning_kind" = some .null ↔ r.warningKind = none) ∧
      ∀ k : Kind, r.toValue.field? "warning_kind" = some (.text k.text) ↔ r.warningKind = some k := by
  have hlook : r.toValue.field? "warning_kind" = some (orNull kindValue r.warningKind) := by
    simp [toValue, Value.field?, Fields.get?]
  rw [hlook]
  cases r.warningKind with
  | none => simp [orNull]
  | some j =>
    have htag (k : Kind) : j.text = k.text ↔ j = k := ⟨Kind.text_injective, fun h => by rw [h]⟩
    simp [orNull, kindValue, htag]

variable {s : Snapshot} {r : SnapshotRecord}

theorem ofSnapshot_eq_ok_iff : ofSnapshot s = .ok r ↔ s.warning ≠ .pending ∧
    r = { path := s.path, classification := s.classification.settled?.map .ofClassification,
          pending := s.isPending, trusting := s.trusting, canSubmit := s.canSubmit,
          showWarning := s.showWarning, warningKind := s.warning.settled?.map Classification.kind,
          ownerDiffers := s.ownerDiffers } := by
  obtain ⟨path, classification, trusting, warning⟩ := s
  cases warning <;> simp [ofSnapshot, warningKindOf, Except.map, Assessment.settled?, eq_comm]

theorem assessment_ofSnapshot (h : ofSnapshot s = .ok r)
    (howner : s.classification ≠ .settled (.dubious "")) :
    r.assessment = .ok s.classification := by
  obtain ⟨-, rfl⟩ := ofSnapshot_eq_ok_iff.mp h
  obtain ⟨path, classification, trusting, warning⟩ := s
  cases classification with
  | settled c =>
    have hc : c ≠ .dubious "" := fun he => howner (by rw [he])
    simp [assessment, Snapshot.isPending, Assessment.settled?, ClassificationRecord.toClassification,
      ClassificationRecord.ofClassification, Classification.ofKind_kind hc, Except.map]
  | _ => rfl

end SnapshotRecord

/-! ## What a snapshot shows -/

/-- The part of a snapshot that does not follow from the rest of it: all of it, but of the warning
only its kind. -/
structure Essence where
  path : String
  classification : Assessment
  trusting : Bool
  warningKind : Option Kind
  deriving DecidableEq, Repr

namespace Essence

def ofSnapshot (s : Snapshot) : Essence :=
  ⟨s.path, s.classification, s.trusting, s.warning.settled?.map Classification.kind⟩

/-- The essence of a value that came over the wire. -/
def ofValue? (v : Value) : Option Essence :=
  match SnapshotRecord.reader v with
  | .ok r => r.assessment.toOption.map (⟨r.path, ·, r.trusting, r.warningKind⟩)
  | .error _ => none

variable {s t : Snapshot} {r : SnapshotRecord}

theorem ofValue?_ofSnapshot (h : SnapshotRecord.ofSnapshot s = .ok r)
    (howner : s.classification ≠ .settled (.dubious "")) :
    ofValue? r.toValue = some (ofSnapshot s) := by
  have hassessment := SnapshotRecord.assessment_ofSnapshot h howner
  simp only [ofValue?, SnapshotRecord.reader_toValue, hassessment, Except.toOption]
  obtain ⟨-, rfl⟩ := SnapshotRecord.ofSnapshot_eq_ok_iff.mp h
  rfl

/-- Snapshots with one record have one essence, also if they name no owner. -/
theorem ofSnapshot_eq (hs : SnapshotRecord.ofSnapshot s = .ok r)
    (ht : SnapshotRecord.ofSnapshot t = .ok r) : ofSnapshot s = ofSnapshot t := by
  obtain ⟨-, rfl⟩ := SnapshotRecord.ofSnapshot_eq_ok_iff.mp hs
  obtain ⟨-, heq⟩ := SnapshotRecord.ofSnapshot_eq_ok_iff.mp ht
  simp only [SnapshotRecord.mk.injEq] at heq
  obtain ⟨hpath, hclassification, hpending, htrusting, -, -, hwarning, -⟩ := heq
  have hassessment : s.classification = t.classification := by
    have hsettled := Option.map_injective ClassificationRecord.ofClassification_injective
      hclassification
    revert hsettled hpending
    simp only [Snapshot.isPending]
    cases s.classification <;> cases t.classification <;> simp [Assessment.settled?]
  simp [ofSnapshot, hpath, hassessment, htrusting, hwarning]

end Essence

/-- A snapshot over the wire, with an owner that is not empty. It has a record, the record is read
back from its value, and so is the essence of the snapshot; snapshots of one value have one essence.
The flags in the value follow from its other fields. -/
theorem snapshot_read_back (s : Snapshot) (howner : s.classification ≠ .settled (.dubious ""))
    (hwarning : s.warning ≠ .pending) :
    ∃ r, SnapshotRecord.ofSnapshot s = .ok r ∧
      SnapshotRecord.reader r.toValue = .ok r ∧
      Essence.ofValue? r.toValue = some (Essence.ofSnapshot s) ∧
      (∀ t r', SnapshotRecord.ofSnapshot t = .ok r' → r'.toValue = r.toValue →
        Essence.ofSnapshot t = Essence.ofSnapshot s) ∧
      (r.toValue.field? "can_submit" = some (.bool true) ↔
        r.toValue.field? "path" ≠ some (.text "") ∧
        ∃ c, r.toValue.field? "classification" = some c ∧ c.field? "kind" = some (.text "valid")) ∧
      (r.toValue.field? "show_warning" = some (.bool true) ↔
        r.toValue.field? "path" ≠ some (.text "") ∧
        r.toValue.field? "warning_kind" ≠ some .null ∧
        r.toValue.field? "warning_kind" ≠ some (.text "valid")) ∧
      (r.toValue.field? "owner_path_differs" = some (.bool true) →
        ∃ c, r.toValue.field? "classification" = some c ∧ c.field? "kind" = some (.text "unsafe")) ∧
      (r.toValue.field? "pending" = some (.bool true) →
        r.toValue.field? "classification" = some .null) := by
  have hrecord := SnapshotRecord.ofSnapshot_eq_ok_iff.mpr ⟨hwarning, rfl⟩
  refine ⟨_, hrecord, SnapshotRecord.reader_toValue _, Essence.ofValue?_ofSnapshot hrecord howner,
    fun t r' ht hvalue => ?_, ?_, ?_, ?_, ?_⟩
  · obtain rfl := SnapshotRecord.toValue_injective hvalue
    exact Essence.ofSnapshot_eq ht hrecord
  · refine Iff.trans ?_ (and_congr_right fun _ => (SnapshotRecord.field?_classification _ .valid).symm)
    simpa [SnapshotRecord.toValue, Value.field?, Fields.get?] using s.canSubmit_iff_kind
  · refine Iff.trans ?_ (and_congr_right fun _ => and_congr
      (not_congr (SnapshotRecord.field?_warningKind _).1.symm)
      (not_congr ((SnapshotRecord.field?_warningKind _).2 .valid).symm))
    simpa [SnapshotRecord.toValue, Value.field?, Fields.get?] using s.showWarning_iff_kind hwarning
  · intro h
    have hdiffers : s.ownerDiffers = true := by
      simpa [SnapshotRecord.toValue, Value.field?, Fields.get?] using h
    refine (SnapshotRecord.field?_classification _ .dubious).mpr ?_
    simpa using s.kind_of_ownerDiffers hdiffers
  · intro h
    have hpending : s.isPending = true := by
      simpa [SnapshotRecord.toValue, Value.field?, Fields.get?] using h
    simp [SnapshotRecord.toValue, Value.field?, Fields.get?, s.settled?_of_isPending hpending, orNull]

/-- A snapshot with an owner, while trust is given and an older warning still stands. -/
theorem snapshot_read_back_trusting : ∃ r,
    SnapshotRecord.ofSnapshot ⟨"C:\\repo", .settled (.dubious "C:/repo/sub"), true, .settled .bare⟩ =
      .ok r ∧
    SnapshotRecord.reader r.toValue = .ok r ∧
    Essence.ofValue? r.toValue =
      some ⟨"C:\\repo", .settled (.dubious "C:/repo/sub"), true, some .bare⟩ := by
  obtain ⟨r, hrecord, hread, hessence, -⟩ := snapshot_read_back
    ⟨"C:\\repo", .settled (.dubious "C:/repo/sub"), true, .settled .bare⟩ (by decide) (by decide)
  exact ⟨r, hrecord, hread, hessence⟩

end Wire
end Admission
