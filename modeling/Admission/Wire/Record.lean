import Admission.Wire.Form
import Admission.Failure

/-!
# Wire records

The requests and replies of the interface, each with its form and the value it is written as.
A form refuses fields that it does not name, so what is read is what was written.
-/
namespace Admission.Wire

open Json (Value)
open Classification (Kind)

/-- The value of an optional part. -/
def orNull {α : Type} (f : α → Value) : Option α → Value
  | some a => f a
  | none => .null

def kindValue (k : Kind) : Value := .text k.text

/-- A classification as a tag and an owner. -/
structure ClassificationRecord where
  kind : Kind
  owner : Option String
  deriving DecidableEq, Repr

namespace ClassificationRecord

/-- The record of a classification; only a dubious one has an owner. -/
def ofClassification (c : Classification) : ClassificationRecord := ⟨c.kind, c.owner?⟩

/-- The classification of a record. -/
def toClassification (c : ClassificationRecord) :
    Except Classification.TagError Classification :=
  Classification.ofKind c.kind c.owner

def toValue (c : ClassificationRecord) : Value :=
  .object [("kind", kindValue c.kind), ("owner_path", orNull .text c.owner)]

def form : Form ClassificationRecord :=
  ((Form.done mk).required "kind" Wire.kind).optional "owner_path" none (nullable text)

def reader : Reader ClassificationRecord := form.reader (.notRecord "ClassificationContract")

end ClassificationRecord

/-- A snapshot with all that follows from it. -/
structure SnapshotRecord where
  path : String
  classification : Option ClassificationRecord
  pending : Bool
  trusting : Bool
  canSubmit : Bool
  showWarning : Bool
  warningKind : Option Kind
  ownerDiffers : Bool
  deriving DecidableEq, Repr

namespace SnapshotRecord

/-- The tag of a warning; an outstanding warning has none. -/
def warningKindOf : Assessment → Except Error (Option Kind)
  | .blank => .ok none
  | .settled c => .ok (some c.kind)
  | .pending => .error .warningPending

/-- The record of a snapshot. -/
def ofSnapshot (s : Snapshot) : Except Error SnapshotRecord :=
  (warningKindOf s.warning).map fun warningKind =>
    { path := s.path
      classification := s.classification.settled?.map .ofClassification
      pending := s.isPending
      trusting := s.trusting
      canSubmit := s.canSubmit
      showWarning := s.showWarning
      warningKind := warningKind
      ownerDiffers := s.ownerDiffers }

def toValue (s : SnapshotRecord) : Value :=
  .object [("path", .text s.path),
    ("classification", orNull ClassificationRecord.toValue s.classification),
    ("pending", .bool s.pending), ("is_trusting", .bool s.trusting),
    ("can_submit", .bool s.canSubmit), ("show_warning", .bool s.showWarning),
    ("warning_kind", orNull kindValue s.warningKind),
    ("owner_path_differs", .bool s.ownerDiffers)]

def form : Form SnapshotRecord :=
  (Form.done mk
    |>.required "path" text
    |>.optional "classification" none (nullable ClassificationRecord.reader)
    |>.optional "pending" false flag
    |>.optional "is_trusting" false flag
    |>.optional "can_submit" false flag
    |>.optional "show_warning" false flag
    |>.optional "warning_kind" none (nullable Wire.kind)
    |>.optional "owner_path_differs" false flag)

def reader : Reader SnapshotRecord := form.reader (.notRecord "SnapshotContract")

end SnapshotRecord

/-- Asks for a fresh dialog. -/
structure OpenRequest where
  path : String := ""
  deriving DecidableEq, Repr

def OpenRequest.form : Form OpenRequest := (Form.done mk).optional "path" "" text

def OpenRequest.toValue (r : OpenRequest) : Value := .object [("path", .text r.path)]

/-- Asks for another path. -/
structure PathRequest where
  path : String
  wait : Bool
  deriving DecidableEq, Repr

def PathRequest.form : Form PathRequest :=
  ((Form.done mk).required "path" text).optional "wait" false flag

def PathRequest.toValue (r : PathRequest) : Value :=
  .object [("path", .text r.path), ("wait", .bool r.wait)]

/-- Hands in what a folder picker gave, which may be nothing. -/
structure ChoiceRequest where
  path : Option String
  wait : Bool
  deriving DecidableEq, Repr

def ChoiceRequest.form : Form ChoiceRequest :=
  ((Form.done mk).optional "path" none (nullable text)).optional "wait" false flag

def ChoiceRequest.toValue (r : ChoiceRequest) : Value :=
  .object [("path", orNull .text r.path), ("wait", .bool r.wait)]

/-- Asks to trust the owner of the path. -/
structure TrustRequest where
  wait : Bool := false
  deriving DecidableEq, Repr

def TrustRequest.form : Form TrustRequest := (Form.done mk).optional "wait" false flag

def TrustRequest.toValue (r : TrustRequest) : Value := .object [("wait", .bool r.wait)]

/-- Whether trust was given, and what the dialog shows then. -/
structure TrustReply where
  trusted : Bool
  snapshot : SnapshotRecord
  deriving DecidableEq, Repr

def TrustReply.form : Form TrustReply :=
  ((Form.done mk).required "trusted" flag).required "snapshot" SnapshotRecord.reader

def TrustReply.toValue (r : TrustReply) : Value :=
  .object [("trusted", .bool r.trusted), ("snapshot", r.snapshot.toValue)]

/-- A repository on the list; its path is not empty. -/
structure RepositoryRecord where
  path : String
  deriving DecidableEq, Repr

namespace RepositoryRecord

def form : Form RepositoryRecord := (Form.done mk).required "path" filledText

def toValue (r : RepositoryRecord) : Value := .object [("path", .text r.path)]

def reader : Reader RepositoryRecord := form.reader (.notRecord "RepositoryContract")

/-- The record of a path, under the rules of its form. -/
def ofPath (path : String) : Checked RepositoryRecord := reader (.object [("path", .text path)])

theorem ofPath_of_ne_empty {path : String} (h : path ≠ "") : ofPath path = .ok ⟨path⟩ := by
  have hread : filledText (.text path) = .ok path := if_neg h
  simp [ofPath, reader, Form.reader, Form.readFields, Form.extras, form, Form.required,
    Form.field, Form.done, Json.Fields.get?, hread, Checked.under, Checked.both]

end RepositoryRecord

/-- What was added, if anything. -/
structure SubmitReply where
  repository : Option RepositoryRecord
  deriving DecidableEq, Repr

/-- The reply that names the path that was added, under the rules of its form. -/
def SubmitReply.ofPath (path : Option String) : Checked SubmitReply :=
  (path.mapM RepositoryRecord.ofPath).map mk

theorem SubmitReply.ofPath_of_ne_empty {path : Option String} (h : path ≠ some "") :
    ofPath path = .ok ⟨path.map .mk⟩ := by
  cases path with
  | none => rfl
  | some p =>
    rw [ofPath, Option.mapM_some, RepositoryRecord.ofPath_of_ne_empty fun hp => h (hp ▸ rfl)]
    rfl

def SubmitReply.form : Form SubmitReply :=
  (Form.done mk).optional "repository" none (nullable RepositoryRecord.reader)

def SubmitReply.toValue (r : SubmitReply) : Value :=
  .object [("repository", orNull RepositoryRecord.toValue r.repository)]

/-- The repositories on the list. -/
structure RepositoryList where
  repositories : List RepositoryRecord
  deriving DecidableEq, Repr

def RepositoryList.form : Form RepositoryList :=
  (Form.done mk).optional "repositories" [] (listOf RepositoryRecord.reader)

/-- The list of the records of paths, under the rules of their form. -/
def RepositoryList.ofPaths (paths : List String) : Checked RepositoryList :=
  (paths.mapM RepositoryRecord.ofPath).map mk

def RepositoryList.toValue (r : RepositoryList) : Value :=
  .object [("repositories", .list (r.repositories.map RepositoryRecord.toValue))]

/-- A value read by a form and written again, with every default filled in. -/
def complete {α : Type} (name : String) (f : Form α) (toValue : α → Value) : Reader Value :=
  fun v => (f.reader (.notRecord name) v).map toValue

def records : List (String × Reader Value) := [
  ("ClassificationContract",
    complete "ClassificationContract" ClassificationRecord.form ClassificationRecord.toValue),
  ("SnapshotContract", complete "SnapshotContract" SnapshotRecord.form SnapshotRecord.toValue),
  ("OpenDialogRequest", complete "OpenDialogRequest" OpenRequest.form OpenRequest.toValue),
  ("SetPathRequest", complete "SetPathRequest" PathRequest.form PathRequest.toValue),
  ("ChoosePathRequest", complete "ChoosePathRequest" ChoiceRequest.form ChoiceRequest.toValue),
  ("TrustRequest", complete "TrustRequest" TrustRequest.form TrustRequest.toValue),
  ("TrustResponse", complete "TrustResponse" TrustReply.form TrustReply.toValue),
  ("RepositoryContract",
    complete "RepositoryContract" RepositoryRecord.form RepositoryRecord.toValue),
  ("SubmitResponse", complete "SubmitResponse" SubmitReply.form SubmitReply.toValue),
  ("RepositoryListResponse",
    complete "RepositoryListResponse" RepositoryList.form RepositoryList.toValue)]

def record? (name : String) : Option (Reader Value) :=
  (records.find? (·.1 == name)).map (·.2)

end Admission.Wire
