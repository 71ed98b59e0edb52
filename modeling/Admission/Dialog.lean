import Admission.Snapshot
import Admission.Path.Canonical

/-!
# Dialogs

One dialog for adding a repository: the path under review, what is known about it, and the
counters by which late answers are told from current ones. A dialog issues no requests itself; it
says which edit calls for one, and whether an answer that comes in still counts. How requests run
is not said here.
-/
namespace Admission

/-- A dialog. `issued` counts its requests, `applied` is the number of the request whose answer
was applied last, `requested` is the path of the last request, and `revalidation` is the number
of the request that the last successful trust called for. -/
structure Dialog where
  initial : String := ""
  path : String := ""
  classification : Assessment := .blank
  warning : Assessment := .blank
  trusting : Bool := false
  issued : Nat := 0
  applied : Nat := 0
  requested : Option String := none
  revalidation : Option Nat := none
  closed : Bool := false
  deriving DecidableEq, Repr

inductive Edit where
  /-- The path that the dialog was opened with comes under review. -/
  | openInitial
  | setPath (path : String)
  /-- The text as it now reads; the text that is there already is no edit. -/
  | changePath (path : String)
  /-- What a folder picker gave, if it was not given up. -/
  | choosePath (selected : Option String)
  /-- The live path comes under review again. -/
  | revalidate
  deriving DecidableEq, Repr

namespace Dialog

/-- The path that a user's edit sets; `none` if it is no edit. -/
def target? (d : Dialog) : Edit → Option String
  | .openInitial => if d.initial = "" then none else some d.initial
  | .setPath path => some path
  | .changePath path => if path = d.path then none else some path
  | .choosePath selected => selected
  | .revalidate => some d.path

def snapshot (d : Dialog) : Snapshot where
  path := d.path
  classification := d.classification
  trusting := d.trusting
  warning := d.warning

/-- Whether an edit to `path` calls for a request: the dialog is open and there is a path. -/
def asks (d : Dialog) (path : String) : Bool := !d.closed && path != ""

/-- The dialog after an edit. A closed dialog stays as it is, an empty path clears what is known,
and any other path is under review under the next number. -/
def edit (d : Dialog) (path : String) : Dialog :=
  if d.closed then d
  else if path = "" then { d with path := "", classification := .blank, warning := .blank }
  else
    { d with
      path := path
      classification := .pending
      issued := d.issued + 1
      requested := some path }

/-- Whether an answer for `path` still counts: the dialog is open, the path is the live one, and
no later request's answer has been applied. An answer without number only has to be for the live
path. -/
def accepts (d : Dialog) (path : String) (number : Option Int) : Bool :=
  !d.closed && path == d.path && number.all fun n => (d.applied : Int) ≤ n

def offer (d : Dialog) (path : String) (answer : Assessment) (number : Option Int) : Dialog :=
  if d.accepts path number then
    { d with
      classification := answer
      warning := answer
      applied := (number.map Int.toNat).getD d.applied }
  else d

def canTrust (d : Dialog) : Bool := d.classification.isDubious && !d.trusting

/-- The directory to trust, if trust is possible now. -/
def trustTarget? (d : Dialog) : Option String :=
  if d.trusting then none else d.classification.owner?

def startTrust (d : Dialog) : Dialog := { d with trusting := true }

/-- The dialog after its trust call has failed or has been given up. -/
def stopTrust (d : Dialog) : Dialog := { d with trusting := false }

/-- The dialog after its trust call has succeeded: the live path is under review again. -/
def endTrust (d : Dialog) : Dialog :=
  let e := d.edit d.path
  { e with
    trusting := false
    revalidation := if d.asks d.path then some e.issued else none }

def close (d : Dialog) : Dialog := { d with closed := true }

/-- The canonical path at which a repository could be created: that of a missing path. -/
def creationTarget? (home : String) (d : Dialog) : Option String :=
  if d.path ≠ "" ∧ d.classification = .settled .missing then Path.canonical home d.path else none

theorem edit_of_closed {d : Dialog} (h : d.closed = true) (path : String) : d.edit path = d := by
  simp [edit, h]

/-- The answer of a request counts if the dialog is open, the request's path is the live one, and
no later request's answer has been applied. -/
theorem accepts_iff (d : Dialog) (path : String) (n : Nat) :
    d.accepts path (some n) = true ↔ d.closed = false ∧ path = d.path ∧ d.applied ≤ n := by
  simp [accepts, and_assoc]

theorem offer_of_accepts {d : Dialog} {path : String} {n : Nat} (h : d.accepts path (some n) = true)
    (answer : Assessment) :
    d.offer path answer (some n) =
      { d with classification := answer, warning := answer, applied := n } := by
  simp [offer, h]

theorem offer_of_not_accepts {d : Dialog} {path : String} {number : Option Int}
    (h : ¬ d.accepts path number = true) (answer : Assessment) :
    d.offer path answer number = d := by
  simp [offer, h]

theorem offer_of_closed {d : Dialog} (h : d.closed = true) (path : String) (answer : Assessment)
    (number : Option Int) : d.offer path answer number = d := by
  simp [offer, accepts, h]

@[simp] theorem closed_edit (d : Dialog) (path : String) : (d.edit path).closed = d.closed := by
  unfold edit
  split
  · rfl
  · split <;> rfl

@[simp] theorem closed_offer (d : Dialog) (path : String) (answer : Assessment)
    (number : Option Int) : (d.offer path answer number).closed = d.closed := by
  unfold offer
  split <;> rfl

theorem issued_edit (d : Dialog) (path : String) :
    (d.edit path).issued = if d.asks path then d.issued + 1 else d.issued := by
  by_cases hc : d.closed = true
  · simp [edit, asks, hc]
  · by_cases hp : path = ""
    · simp [edit, asks, hc, hp]
    · simp [edit, asks, hc, hp]

/-- An edit that calls for a request leaves the path under review. -/
theorem edit_of_asks {d : Dialog} {path : String} (h : d.asks path = true) :
    (d.edit path).path = path ∧ (d.edit path).classification = .pending ∧
      (d.edit path).requested = some path := by
  simp only [asks, Bool.and_eq_true, Bool.not_eq_true', bne_iff_ne, ne_eq] at h
  simp [edit, h.1, h.2]

theorem canTrust_iff (d : Dialog) : d.canTrust = true ↔ d.trustTarget?.isSome = true := by
  cases ht : d.trusting <;> cases hc : d.classification with
  | settled c => cases c <;> simp [canTrust, trustTarget?, ht, hc, Assessment.isDubious,
      Assessment.owner?, Assessment.settled?, Classification.isDubious, Classification.owner?]
  | _ => simp [canTrust, trustTarget?, ht, hc, Assessment.isDubious, Assessment.owner?,
      Assessment.settled?]

end Dialog

end Admission
