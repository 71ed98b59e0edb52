import Admission.Json.Reader
import Mathlib.Data.List.Induction

/-!
# The members of a written object

An object may be written with one name more than once; its value keeps one field for each name. Here
the members are read off the text as they stand there. The field that is kept under a name has the
value of the last member of that name.
-/
namespace Admission.Json

variable {text : String} {cs rest : List Char} {fuel : Nat} {v : Value}
  {fields pairs : Fields}

end Admission.Json
