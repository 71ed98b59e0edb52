import Admission.Desk.Run
import Admission.Http.Route

/-!
# Exchanges

An exchange is a request under way: the errand that carries out its command, and the answer that
its ending makes. A refused request has its answer from the start; its errand does nothing.
-/
namespace Admission.Http

open Json (Value)
open Wire (Checked SnapshotRecord)

variable {σ : Type}

def Command.operation : Command → Operation
  | .openDialog path => .openDialog path false
  | .look => .look
  | .changePath path wait => .changePath path wait
  | .choosePath selected wait => .choosePath selected wait
  | .trust wait => .trustCurrent wait true
  | .submit => .submitCurrent
  | .dismiss => .dismiss
  | .repositories => .repositories
  | .health => .nothing

/-- The answer that shows a value made from a snapshot's record. -/
def showing (s : Snapshot) (answer : Value → Answer) : Answer :=
  match SnapshotRecord.ofSnapshot s with
  | .ok c => answer c.toValue
  | .error e => .fault e

/-- The answer to a command that the dialog's state does not admit. -/
def conflict (code : String) (e : Error) (s : Snapshot) : Answer :=
  showing s fun shown =>
    .detail 409 (.object [("code", .text code), ("message", .text e.message),
      ("snapshot", shown)])

/-- The answer to an error. Only a submission has one for a failure of the system. -/
def errorAnswer (c : Command) (e : Error) : Answer :=
  match e with
  | .noDialog => .detail 404 (.text e.message)
  | .notDubious s => conflict "not_unsafe" e s
  | .notAdmissible s => conflict "submission_not_allowed" e s
  | .failure f =>
    if c = .submit ∧ f.kind.isSystem = true then
      .detail 500 (.object [("code", .text "registration_failed"),
        ("message", .text ("Could not save the repository list: " ++ f.message))])
    else .fault e
  | e => .fault e

/-- The answer that shows a record, or the error that the record's form makes of its complaints. -/
def recording {α : Type} (record : Checked α) (answer : α → Answer) : Answer :=
  match record with
  | .ok a => answer a
  | .error complaints =>
    .fault (.failure ⟨.value, "\n".intercalate (complaints.map (·.cause.message))⟩)

def replyAnswer : Reply → Answer
  | .shown s => showing s (.json 200)
  | .trustShown granted s =>
    showing s fun shown => .json 200 (.object [("trusted", .bool granted), ("snapshot", shown)])
  | .trusted granted => .json 200 (.bool granted)
  | .added path => recording (Wire.SubmitReply.ofPath path) fun r => .json 200 r.toValue
  | .dismissed wasOpen => .json 200 (.object [("dismissed", .bool wasOpen)])
  | .listed paths => recording (Wire.RepositoryList.ofPaths paths) fun r => .json 200 r.toValue
  | .nothing => .json 200 (.object [("status", .text "ok")])

/-- A request under way: its command, or the answer that refuses it, and its errand. -/
structure Exchange where
  command : Except Answer Command
  errand : Nat

def receive (d : Desk σ) (r : Request) : Desk σ × Exchange :=
  let command := Http.command r
  let operation :=
    match command with
    | .ok c => c.operation
    | .error _ => .nothing
  let (d, e) := d.spawn operation
  (d, ⟨command, e⟩)

/-- The answer of an exchange whose errand has ended; none if it was cancelled. -/
def Exchange.answer? (x : Exchange) : Ending → Option Answer
  | .cancelled => none
  | .gave reply =>
    some (match x.command with
      | .ok _ => replyAnswer reply
      | .error answer => answer)
  | .failed e =>
    some (match x.command with
      | .ok c => errorAnswer c e
      | .error answer => answer)

end Admission.Http
