import Admission.Registry.Entries
import Admission.Failure
import Admission.Path.Location

/-!
# The registry

The list of repositories is kept in one file. Whatever stands at its place, the list can be read.
To save it, the directories on the way to the file are made, the file is opened, which empties it,
and the text is written. Each of these can fail, and what was done before stays done.
-/
namespace Admission

/-- What stands at the place of the file. -/
inductive Storage where
  | absent
  | file (bytes : ByteArray)
  | directory
  /-- A file stands where the directory of the file should be. -/
  | blocked

/-- What becomes of a text that is to be written to the file. -/
inductive Writing where
  | done
  /-- The place of the file could not be looked at, or a directory on the way to it could not be
  made; `passed` says whether those that were made reach as far as the place itself. -/
  | unreached (f : Failure) (passed : Bool)
  /-- The file could not be opened. -/
  | refused (f : Failure)
  /-- The file was opened, and no more than its first `kept` bytes have been written. -/
  | broken (f : Failure) (kept : Nat)

/-- What becomes of the texts that are to be written, one after the other. -/
abbrev Disk := Nat → Writing

namespace Disk

/-- A disk on which every text is written. -/
def sound : Disk := fun _ => .done

/-- The disk after one more text. -/
def next (disk : Disk) : Disk := fun n => disk (n + 1)

end Disk

/-- The place of the file and what stands there. -/
structure Registry where
  location : Path.Location
  storage : Storage

namespace Registry

/-- The text of the file, if there is a file and it holds UTF-8. -/
def text? (r : Registry) : Option String :=
  match r.storage with
  | .file bytes => String.fromUTF8? bytes
  | _ => none

def repositories (r : Registry) : List String :=
  match r.text? with
  | some text => entries text
  | none => []

/-- The registry with the directories on the way to its file made. If the place of the file is one
of them, a directory stands there then. -/
def reached (r : Registry) : Registry :=
  match r.storage with
  | .absent => if r.location.passesItself then { r with storage := .directory } else r
  | _ => r

/-- A text put into the file, to which the way is there. -/
def put (r : Registry) (text : String) (w : Writing) : Except Failure Unit × Registry :=
  match r.storage, w with
  | .directory, _ =>
    (.error ⟨.isDirectory, "[Errno 21] Is a directory: " ++ Text.quoted r.location.toText⟩, r)
  | _, .done => (.ok (), { r with storage := .file text.toUTF8 })
  | _, .broken f kept => (.error f, { r with storage := .file (text.toUTF8.extract 0 kept) })
  | _, .refused f => (.error f, r)
  | _, .unreached f _ => (.error f, r)

/-- The registry with another list, as far as the disk goes along. -/
def save (r : Registry) (paths : List String) (w : Writing) : Except Failure Unit × Registry :=
  match r.storage, w with
  | .blocked, _ =>
    let message := "[Errno 17] File exists: " ++ Text.quoted r.location.parent.toText
    (.error ⟨.fileExists, message⟩, r)
  | .absent, .unreached f passed => (.error f, if passed then r.reached else r)
  | _, _ => r.reached.put (listText paths) w

/-- A list with a path on it: where it was, or at the end. -/
def enlist (paths : List String) (path : String) : List String :=
  if paths.contains path then paths else paths ++ [path]

/-- The registry with paths added, in order, each of them once. -/
def add (r : Registry) (paths : List String) (w : Writing) : Except Failure Unit × Registry :=
  r.save (paths.foldl enlist r.repositories) w

end Registry

end Admission
