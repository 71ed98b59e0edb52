import Admission.Json.Reader
import Admission.Json.Writer
import Admission.Text.Blank

/-!
# The list of repositories as JSON

The list is one field of an object. Reading keeps the texts that are not blank, without their
outer blanks, and takes everything else for an empty list.
-/
namespace Admission.Registry

open Json (Value)

/-- The field that holds the list. -/
def listKey : String := "repositories"

/-- A text as an entry: without outer blanks, and none if nothing is left. -/
def entryOf? (s : String) : Option String :=
  let s := Text.strip s
  if s = "" then none else some s

/-- The entries of a value. -/
def entriesOf (v : Value) : List String :=
  match (v.field? listKey).bind Value.items? with
  | some items => items.filterMap fun item => item.text?.bind entryOf?
  | none => []

/-- The entries of a text; a text that is no JSON has none. -/
def entries (text : String) : List String :=
  match Json.read text with
  | .ok v => entriesOf v
  | .error _ => []

def listValue (paths : List String) : Value :=
  .object [(listKey, .list (paths.map .text))]

/-- The text that holds the list. -/
def listText (paths : List String) : String := (listValue paths).render (.indented 2)

end Admission.Registry
