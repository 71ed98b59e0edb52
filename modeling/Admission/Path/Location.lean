import Admission.Path.Pieces

/-!
# Locations in the file system

A location as the file system is asked for it: a root and the names below it. Empty pieces and
single dots are dropped, `..` is kept, because the name before it may be a link.
-/
namespace Admission.Path

/-- A path's beginning. Exactly two leading slashes are a root of their own. -/
inductive Root where
  | relative
  | single
  | double
  deriving DecidableEq, Repr

/-- A root and the names below it. -/
structure Location where
  root : Root
  names : List Piece
  deriving DecidableEq, Repr

namespace Location

/-- The root that the leading slashes of a text stand for. -/
def rootOf : List Char → Root
  | '/' :: '/' :: '/' :: _ => .single
  | '/' :: '/' :: _ => .double
  | '/' :: _ => .single
  | _ => .relative

def ofText (s : String) : Location where
  root := rootOf s.toList
  names := (pieces s.toList).filter fun p => p ≠ [] ∧ p ≠ ['.']

def rootText : Root → List Char
  | .relative => []
  | .single => ['/']
  | .double => ['/', '/']

/-- The text of a location; the empty one is a dot. -/
def toText (l : Location) : String :=
  match l.root, l.names with
  | .relative, [] => "."
  | root, names => String.ofList (rootText root ++ ['/'].intercalate names)

/-- The location `name` below `l`. -/
def child (l : Location) (name : String) : Location :=
  { l with names := l.names ++ [name.toList] }

/-- The location above `l`; a bare root is above itself. -/
def parent (l : Location) : Location := { l with names := l.names.dropLast }

/-- The names reached from a root by one more name: `..` takes back the name before it. With none to
take back it is lost at a root, and kept in a relative path. -/
def follow (root : Root) (names : List Piece) (name : Piece) : List Piece :=
  let takesBack := names.getLast? ≠ some ['.', '.'] ∧ (names = [] → root ≠ .relative)
  if name = ['.', '.'] ∧ takesBack then names.dropLast else names ++ [name]

/-- The location that `l` comes down to when no name on the way is a link. -/
def destination (l : Location) : Location :=
  { l with names := l.names.foldl (follow l.root) [] }

/-- The directories that have to be there for `l`, from its root on. -/
def way (l : Location) : List Location :=
  (List.range l.names.length).map fun n => { l with names := l.names.take n }

/-- Whether `l` is one of the directories that have to be there for it: `a/b/../b` is. -/
def passesItself (l : Location) : Bool := l.way.any (·.destination == l.destination)

end Location

/-- The text by which the file system is asked for `s`. -/
def locationText (s : String) : String := (Location.ofText s).toText

end Admission.Path
