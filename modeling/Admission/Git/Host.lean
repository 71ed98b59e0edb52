import Admission.Failure

/-!
# The host that git runs on

What the library asks of a host: whether a path is a directory, and to run a command. Both may
fail, and a run may change the host. A script answers runs from a list, for rehearsals.
-/
namespace Admission.Git

/-- How a command ended: its exit status and what it wrote to its two outputs. -/
structure Exit where
  status : Int := 0
  output : String := ""
  errors : String := ""
  deriving DecidableEq, Repr

/-- A host with states `σ`. A command is its words, the first of them the program. -/
structure Host (σ : Type) where
  isDirectory : String → σ → Except Failure Bool
  run : List String → σ → Except Failure Exit × σ

/-- A scripted host: the directories, the paths that may not be looked at, the outcomes of the
next runs, and the commands run so far. -/
structure Script where
  directories : List String := []
  denied : List String := []
  outcomes : List (Except Failure Exit) := []
  ran : List (List String) := []

namespace Script

def isDirectory (path : String) (s : Script) : Except Failure Bool :=
  if s.denied.contains path then .error ⟨.permission, "denied"⟩
  else .ok (s.directories.contains path)

/-- The next outcome of the script; a run after the last one finds no program. -/
def run (words : List String) (s : Script) : Except Failure Exit × Script :=
  match s.outcomes with
  | [] => (.error ⟨.notFound, "script exhausted"⟩, { s with ran := s.ran ++ [words] })
  | outcome :: rest => (outcome, { s with outcomes := rest, ran := s.ran ++ [words] })

def host : Host Script := ⟨isDirectory, run⟩

end Script

end Admission.Git
