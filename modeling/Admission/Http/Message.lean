import Admission.Json.Writer
import Admission.Failure
import Admission.Text.Blank

/-!
# HTTP messages

A request as far as the interface looks at it, and a response without its headers.
-/
namespace Admission.Http

open Json (Value)

/-- A request. The query is not looked at. -/
structure Request where
  method : String
  path : String
  contentType : Option String := none
  body : String := ""
  deriving DecidableEq, Repr

inductive Body where
  | json (v : Value)
  | text (s : String)
  deriving Repr

structure Response where
  status : Nat
  body : Body
  deriving Repr

/-- What a request is answered with. `raised` is an error that the interface has no response of
its own for; the server then says no more than that. -/
structure Answer where
  response : Response
  raised : Option Error := none
  deriving Repr

def Answer.json (status : Nat) (v : Value) : Answer := ⟨⟨status, .json v⟩, none⟩

def Answer.detail (status : Nat) (v : Value) : Answer := .json status (.object [("detail", v)])

/-- The answer for an error that is not foreseen. -/
def Answer.fault (e : Error) : Answer := ⟨⟨500, .text "Internal Server Error"⟩, some e⟩

/-- Whether a content type says that the body is JSON: `application/json`, or an application type
that ends in `+json`; parameters and case do not matter. -/
def saysJson (contentType : String) : Bool :=
  let words := contentType.toList.takeWhile (· ≠ ';')
  match ((Text.trim words).map Char.toLower).span (· ≠ '/') with
  | (main, '/' :: sub) =>
    main == "application".toList && !sub.contains '/' &&
      (sub == "json".toList || "+json".toList.isSuffixOf sub)
  | _ => false

end Admission.Http
