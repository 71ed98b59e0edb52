import Admission.CommandLine.Grammar

/-!
# The two programs

The grammars of the command line tool and of the server, with their usage lines and help texts,
and what a command line of either asks for.
-/
namespace Admission.CommandLine

/-- The end of a help text, common to the commands. -/
def helpLine : String := "  -h, --help  show this help message and exit\n"

def pathLines : String :=
  "positional arguments:\n  path        Path to the repository (~ is expanded)\n\n"

def tool : Grammar :=
  let usage := "usage: repo-intake [-h] \x7bcheck,add,list\x7d ...\n"
  { program := "repo-intake"
    usage := usage
    help := usage ++
      "\nValidate, trust and add existing local Git repositories\n\n" ++
      "positional arguments:\n  \x7bcheck,add,list\x7d\n" ++
      "    check           Classify a path without adding it\n" ++
      "    add             Add an existing local repository\n" ++
      "    list            List added repositories\n\n" ++
      "options:\n  -h, --help        show this help message and exit\n"
    options := [helpOption]
    operands := .command "command" ["check", "add", "list"] }

def checkGrammar : Grammar :=
  let usage := "usage: repo-intake check [-h] path\n"
  { program := "repo-intake check"
    usage := usage
    help := usage ++ "\n" ++ pathLines ++ "options:\n" ++ helpLine
    options := [helpOption]
    operands := .single "path" }

def addGrammar : Grammar :=
  let usage := "usage: repo-intake add [-h] [--trust] [--yes] path\n"
  { program := "repo-intake add"
    usage := usage
    help := usage ++ "\n" ++ pathLines ++ "options:\n" ++ helpLine ++
      "  --trust     Add a safe.directory exception if the repository is owned by\n" ++
      "              another user\n" ++
      "  --yes, -y   Answer yes to the trust prompt\n"
    options := [helpOption, ⟨["--trust"], .flag⟩, ⟨["--yes", "-y"], .flag⟩]
    operands := .single "path" }

def listGrammar : Grammar :=
  let usage := "usage: repo-intake list [-h]\n"
  { program := "repo-intake list"
    usage := usage
    help := usage ++ "\noptions:\n" ++ helpLine
    options := [helpOption]
    operands := .nothing }

def server : Grammar :=
  let usage := "usage: repo-intake-web.py [-h] [--port PORT] [--host HOST] [--reload]\n"
  { program := "repo-intake-web.py"
    usage := usage
    help := usage ++
      "\nrepo-intake: JSON API for validating and adding local Git repositories\n\n" ++
      "options:\n" ++
      "  -h, --help   show this help message and exit\n" ++
      "  --port PORT  API port (default: 8000)\n" ++
      "  --host HOST  Interface to bind; keep it local, trusting edits your global\n" ++
      "               git config\n" ++
      "  --reload     Restart the server when source files change\n"
    options := [helpOption, ⟨["--port"], .number⟩, ⟨["--host"], .text⟩, ⟨["--reload"], .flag⟩]
    operands := .nothing }

inductive Command where
  | check (path : String)
  | add (path : String) (trust yes : Bool)
  | list
  deriving DecidableEq, Repr

/-- The command that a grammar's words make. -/
def commandOf (g : Grammar) (words : List String) (make : Taken → Command) :
    Except Stop (Command × List String) := do
  let t ← g.parse words
  return (make t, t.leftOver)

def Taken.path (t : Taken) : String := (t.operands.bind List.head?).getD ""

def Taken.has (t : Taken) (spelling : String) : Bool := (t.value? spelling).isSome

/-- The command of the tool's words, and what is left of them. -/
def toolCommand : List String → Except Stop (Command × List String)
  | "check" :: words => commandOf checkGrammar words fun t => .check t.path
  | "add" :: words =>
    commandOf addGrammar words fun t => .add t.path (t.has "--trust") (t.has "--yes")
  | words => commandOf listGrammar words.tail fun _ => .list

/-- What the tool's command line asks for. Words that nobody takes are refused in the end, those
before the command first. -/
def readTool (line : List String) : Except Stop Command := do
  let t ← tool.parse line
  let (command, leftOver) ← toolCommand (t.operands.getD [])
  tool.checkLeftOver (t.leftOver ++ leftOver)
  return command

structure ServerPlan where
  portNumber : Int
  host : String
  reload : Bool
  deriving DecidableEq, Repr

/-- What the server's command line asks for. -/
def readServer (line : List String) : Except Stop ServerPlan := do
  let t ← server.parse line
  server.checkLeftOver t.leftOver
  return {
    portNumber := match t.value? "--port" with | some (.number n) => n | _ => 8000
    host := match t.value? "--host" with | some (.text s) => s | _ => "127.0.0.1"
    reload := t.has "--reload" }

def application : String := "web.app:app"

def ServerPlan.banner (p : ServerPlan) : String :=
  let base := "http://" ++ p.host ++ ":" ++ toString p.portNumber
  "\n  repo-intake API\n  Add-repository dialog: " ++ base ++ "/api/add-repository\n" ++
    "  Registered repositories: " ++ base ++ "/api/repositories\n\n"

end Admission.CommandLine
