import Admission.Http.Message
import Admission.Http.Encoding
import Admission.Json.Reader
import Admission.Path.Home
import Admission.Wire.Record

/-!
# Routes

From a request to the command that it gives, or to the answer that refuses it: there is no such
path, the path takes other methods only, or the body is not what the command needs. A refused
request reaches no dialog.
-/
namespace Admission.Http

open Json (Value)
open Wire (Checked Complaint Form)

/-- What a request can ask for. -/
inductive Command where
  | openDialog (path : String)
  | look
  | changePath (path : String) (wait : Bool)
  | choosePath (selected : Option String) (wait : Bool)
  | trust (wait : Bool)
  | submit
  | dismiss
  | repositories
  | health
  deriving DecidableEq, Repr

inductive Endpoint where
  | openDialog
  | look
  | changePath
  | choosePath
  | trust
  | submit
  | dismiss
  | repositories
  | health
  deriving DecidableEq, Repr

def endpoints : List (String × String × Endpoint) := [
  ("POST", "/api/add-repository", .openDialog),
  ("GET", "/api/add-repository", .look),
  ("POST", "/api/add-repository/path", .changePath),
  ("POST", "/api/add-repository/choose", .choosePath),
  ("POST", "/api/add-repository/trust", .trust),
  ("POST", "/api/add-repository/submit", .submit),
  ("DELETE", "/api/add-repository", .dismiss),
  ("GET", "/api/repositories", .repositories),
  ("GET", "/health", .health)]

/-- Whether a path is that of an endpoint; one line feed at its end does not count. -/
def isPath (path known : String) : Bool := path == known || path == known.push '\n'

def endpointsAt (path : String) : List (String × String × Endpoint) :=
  endpoints.filter fun e => isPath path e.2.1

/-- The path without the slashes at its end. -/
def withoutSlashes (path : String) : String :=
  String.ofList (Path.dropTrailingSlashes path.toList)

/-- Whether the path is one but for slashes at its end. -/
def isRedirected (path : String) : Bool :=
  path.toList.getLast? == some '/' && path != "/" && !(endpointsAt (withoutSlashes path)).isEmpty

/-- Refuses a request for the endpoint it names, or finds that endpoint. -/
def findEndpoint (r : Request) : Except Answer Endpoint :=
  match endpointsAt r.path with
  | [] =>
    if isRedirected r.path then .error ⟨⟨307, .text ""⟩, none⟩
    else .error (.detail 404 (.text "Not Found"))
  | known =>
    match known.find? (·.1 == r.method) with
    | some (_, _, e) => .ok e
    | none => .error (.detail 405 (.text "Method Not Allowed"))

mutual

/-- Whether a value can be written as strict JSON, which knows no special doubles. -/
def isStrict : Value → Bool
  | .real x => x.isFinite
  | .list items => areStrict items
  | .object fields => arePairsStrict fields
  | _ => true

def areStrict : List Value → Bool
  | [] => true
  | v :: rest => isStrict v && areStrict rest

def arePairsStrict : List (String × Value) → Bool
  | [] => true
  | (_, v) :: rest => isStrict v && arePairsStrict rest

end

def stepValue : Wire.Step → Value
  | .key name => .text name
  | .index i => .whole i

def complaintValue (c : Complaint) : Value :=
  .object [("type", .text c.cause.code),
    ("loc", .list (.text "body" :: c.path.map stepValue)), ("msg", .text c.cause.message),
    ("input", c.input)]

/-- The answer to a body that is not what was asked for. It shows the parts meant, and fails if
they cannot be shown. -/
def refuse (cs : List Complaint) : Answer :=
  let details := cs.map complaintValue
  if areStrict details then .detail 422 (.list details)
  else .fault (.failure ⟨.value, "Out of range float values are not JSON compliant"⟩)

/-- The answer to a body that cannot be read at all. -/
def unreadable : Answer := .detail 400 (.text "There was an error parsing the body")

/-- The answer to a body that is no JSON. -/
def refuseText (body : String) : Json.Fault → Answer
  | .malformed reason left =>
    .detail 422 (.list [.object [("type", .text "json_invalid"),
      ("loc", .list [.text "body", .whole (Json.position body left)]),
      ("msg", .text "JSON decode error"), ("input", .object []),
      ("ctx", .object [("error", .text reason.message)])]])
  | .tooManyDigits => unreadable

/-- The value of a body: none if it is empty, and a text unless it is said to be JSON. -/
def bodyValue (r : Request) : Except Answer (Option Value) :=
  if r.body = "" then .ok none
  else if (r.contentType.map saysJson).getD false then
    match decodeBody? r.body with
    | none => .error unreadable
    | some body =>
      match Json.read body with
      | .ok v => .ok (some v)
      | .error e => .error (refuseText body e)
  else .ok (some (.text r.body))

def readBody {α : Type} (f : Form α) (v : Value) : Except Answer α :=
  match f.reader .notFields v with
  | .ok a => .ok a
  | .error cs => .error (refuse cs)

/-- A body that has to be there. A JSON null is there: it is read, and refused as no object. -/
def requiredBody {α : Type} (f : Form α) (r : Request) : Except Answer α := do
  match ← bodyValue r with
  | none => .error (refuse [⟨.missing, [], .null⟩])
  | some v => readBody f v

/-- A body that may be left out. -/
def optionalBody {α : Type} (f : Form α) (r : Request) (absent : α) : Except Answer α := do
  match ← bodyValue r with
  | none | some .null => return absent
  | some v => readBody f v

def commandAt (r : Request) : Endpoint → Except Answer Command
  | .openDialog => do
    let body ← optionalBody Wire.OpenRequest.form r {}
    return .openDialog body.path
  | .look => return .look
  | .changePath => do
    let body ← requiredBody Wire.PathRequest.form r
    return .changePath body.path body.wait
  | .choosePath => do
    let body ← requiredBody Wire.ChoiceRequest.form r
    return .choosePath body.path body.wait
  | .trust => do
    let body ← optionalBody Wire.TrustRequest.form r {}
    return .trust body.wait
  | .submit => return .submit
  | .dismiss => return .dismiss
  | .repositories => return .repositories
  | .health => return .health

def command (r : Request) : Except Answer Command := do commandAt r (← findEndpoint r)

end Admission.Http
