import Admission.CommandLine.Programs
import Admission.Desk.Run

/-!
# Runs of the tool

A command works on one dialog of its own and asks one thing at a time: it inspects the path, asks
for consent, trusts, inspects again, and submits. A run ends with an exit status, with an error
that nobody handles, or not at all, when a call is never answered and no limit is set.
-/
namespace Admission.CommandLine

structure Terminal where
  inputIsTerminal : Bool
  outputIsTerminal : Bool
  input : String := ""
  interrupted : Bool := false
  deriving DecidableEq, Repr

inductive Finish where
  | exit (status : Nat)
  | failed (e : Error)
  | hung
  deriving DecidableEq, Repr

/-- A run under way: the state of the services, the dialog, what has been written, and the
service calls made so far. -/
structure Run (σ : Type) where
  world : σ
  dialog : Dialog := {}
  output : String := ""
  errors : String := ""
  log : List Entry := []

/-- A run that goes on with a value, or has ended. -/
inductive Outcome (σ α : Type) where
  | more (run : Run σ) (a : α)
  | ended (run : Run σ) (f : Finish)

namespace Outcome

variable {σ α β : Type}

def bind (o : Outcome σ α) (go : Run σ → α → Outcome σ β) : Outcome σ β :=
  match o with
  | .more run a => go run a
  | .ended run f => .ended run f

end Outcome

namespace Run

variable {σ : Type}

def say (run : Run σ) (line : String) : Run σ := { run with output := run.output ++ line ++ "\n" }

def note (run : Run σ) (e : Entry) : Run σ := { run with log := run.log ++ [e] }

/-- The end of a run that closes its dialog. -/
def exit {α : Type} (run : Run σ) (status : Nat) : Outcome σ α :=
  .ended { run with dialog := run.dialog.close } (.exit status)

/-- An answer offered to the dialog for its live path. -/
def answer (run : Run σ) (c : Classification) : Run σ :=
  { run with
    dialog := run.dialog.offer run.dialog.path (.settled c) (some run.dialog.issued) }

/-- The classifier asked about the live path. A call that is never answered leaves the path
missing at the limit; a limit that is over from the start leaves the classifier uncalled. -/
def inspect (s : Setting σ) (run : Run σ) : Outcome σ Unit :=
  match Path.canonical s.home run.dialog.path with
  | none => .ended run (.failed .homeUnknown)
  | some path =>
    if s.limit.any (· ≤ 0.0) then .more (run.answer .missing) ()
    else
      let (outcome, world) := s.classify path run.world
      let run := { run with world := world }.note (.classify run.dialog.issued path)
      match outcome.map (Desk.taken s.limit) with
      | some (.ok c) => .more (run.answer c) ()
      | some (.error f) => .ended run (.failed (.failure f))
      | none =>
        if s.limit.isSome then .more (run.answer .missing) () else .ended run .hung

/-- An edit of the dialog's path, inspected if it calls for a request. -/
def validate (s : Setting σ) (run : Run σ) (path : String) : Outcome σ Unit :=
  let edited := { run with dialog := run.dialog.edit path }
  if run.dialog.asks path then edited.inspect s else .more edited ()

def line? (t : Terminal) : Option String :=
  if t.interrupted ∨ t.input = "" then none
  else some (String.ofList (t.input.toList.takeWhile (· ≠ '\n')))

def isYes (answer : String) : Bool :=
  let word := (Text.strip answer).map Char.toLower
  word == "y" || word == "yes"

def askConsent (t : Terminal) (owner : String) (run : Run σ) : Run σ × Bool :=
  if t.inputIsTerminal && t.outputIsTerminal then
    let prompt := "  Trust " ++ owner ++ " and add an exception for it? (y/N): "
    ({ run with output := run.output ++ prompt }, (line? t).any isYes)
  else (run.say "  Re-run with --trust to add an exception for this directory.", false)

/-- The owner trusted, and the path inspected again. -/
def trust (s : Setting σ) (owner : String) (run : Run σ) : Outcome σ Unit :=
  let (outcome, world) := s.trust owner run.world
  let run := { run with world := world }.note (.trust 0 owner)
  match outcome with
  | .error _ => (run.say ("Error: Could not trust " ++ owner ++ ".")).exit 1
  | .ok () =>
    let again := { run with dialog := run.dialog.endTrust }
    (if run.dialog.asks run.dialog.path then again.inspect s else .more again ()).bind
      fun run _ => .more (run.say ("✓ Trusted " ++ owner)) ()

/-- The owner of a dubious path trusted, if the command line or the user wants that. -/
def remedy (s : Setting σ) (t : Terminal) (consent : Bool) (run : Run σ) : Outcome σ Unit :=
  match run.dialog.classification.owner? with
  | none => .more run ()
  | some owner =>
    let run := run.say ("Warning: " ++ run.dialog.snapshot.describe)
    let (run, agreed) := if consent then (run, true) else run.askConsent t owner
    if agreed then run.trust s owner else .more run ()

/-- The path put on the list, or the reason why it is not. -/
def submit (s : Setting σ) (run : Run σ) : Outcome σ Unit :=
  let shown := run.dialog.snapshot
  if shown.canSubmit then
    match Path.canonical s.home shown.path with
    | none => .ended run (.failed .homeUnknown)
    | some path =>
      let (outcome, world) := s.register [path] run.world
      let run := { run with world := world }.note (.register 0 [path])
      match outcome with
      | .error f =>
        if f.kind.isSystem then
          (run.say ("Error: Could not save the repository list: " ++ f.message)).exit 1
        else .ended run (.failed (.failure f))
      | .ok [] => (run.say "Error: The repository was not added.").exit 1
      | .ok (handle :: _) => (run.say ("✓ Added repository " ++ handle)).exit 0
  else
    let run := run.say ("Error: " ++ shown.describe)
    match run.dialog.creationTarget? s.home with
    | some target =>
      (run.say ("  To create a repository there instead, run: git init " ++ target)).exit 1
    | none => run.exit 1

def check (s : Setting σ) (path : String) (run : Run σ) : Outcome σ Unit :=
  (run.validate s path).bind fun run _ =>
    let shown := run.dialog.snapshot
    let word := (shown.classification.settled?.map (·.kind.text)).getD "unknown"
    (run.say (word ++ ": " ++ shown.describe)).exit
      (if shown.classification.isValid then 0 else 1)

def add (s : Setting σ) (t : Terminal) (path : String) (consent : Bool) (run : Run σ) :
    Outcome σ Unit :=
  (run.validate s path).bind fun run _ =>
    (run.remedy s t consent).bind fun run _ => run.submit s

def list (s : Setting σ) (run : Run σ) : Outcome σ Unit :=
  match s.registered run.world with
  | [] => (run.say "No repositories added yet.").exit 0
  | paths =>
    let run := run.say ("Repositories (" ++ toString paths.length ++ "):")
    (paths.foldl (fun run p => run.say ("  • " ++ p)) run).exit 0

end Run

/-- What a program writes when it does not run, and its exit status. -/
def Stop.outputs : Stop → String × String × Nat
  | .help text => (text, "", 0)
  | .misuse text => ("", text, 2)

def runTool {σ : Type} (s : Setting σ) (t : Terminal) (line : List String) (world : σ) :
    Run σ × Finish :=
  let run : Run σ := { world := world }
  match readTool line with
  | .error stop =>
    let (output, errors, status) := stop.outputs
    ({ run with output := output, errors := errors }, .exit status)
  | .ok command =>
    let outcome :=
      match command with
      | .check path => run.check s path
      | .add path trust yes => run.add s t path (trust || yes)
      | .list => run.list s
    match outcome with
    | .ended run f => (run, f)
    | .more run () => (run, .exit 0)

end Admission.CommandLine
