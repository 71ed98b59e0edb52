/-!
# Timers

The timers that run, as a binary heap ordered by their due times: the front of the list is due
first. Timers that are due together leave in the order in which the heap gives them up, which is
the order of arrival for three of them and need not be for more.
-/
namespace Admission

/-- A timer: when it is due, and the request whose limit it is. -/
structure Timer where
  due : Float
  request : Nat

/-- The timers that run, in heap order. -/
abbrev Timers := List Timer

namespace Timers

/-- Two places exchanged; nothing happens if one of them is not there. -/
def exchange (ts : Timers) (i j : Nat) : Timers :=
  match ts[i]?, ts[j]? with
  | some a, some b => (ts.set i b).set j a
  | _, _ => ts

/-- Whether the timer at `i` is due before the one at `j`. -/
def before (ts : Timers) (i j : Nat) : Bool :=
  match ts[i]?, ts[j]? with
  | some a, some b => a.due < b.due
  | _, _ => false

/-- The timer at `i` moves towards the front while it is due before its parent. -/
def raise (ts : Timers) (i : Nat) : Timers :=
  if h : i = 0 then ts
  else if ts.before i ((i - 1) / 2) then raise (ts.exchange i ((i - 1) / 2)) ((i - 1) / 2)
  else ts
termination_by i
decreasing_by omega

/-- The timer at `i` moves to the end of the heap, past the child that is due first of each two,
the right one in a tie; the place where it ends comes back too. The fuel is the number of
timers. -/
def sink : Nat → Timers → Nat → Timers × Nat
  | 0, ts, i => (ts, i)
  | fuel + 1, ts, i =>
    let left := 2 * i + 1
    if left < ts.length then
      let child :=
        if left + 1 < ts.length && !ts.before left (left + 1) then left + 1 else left
      sink fuel (ts.exchange i child) child
    else (ts, i)

def push (ts : Timers) (t : Timer) : Timers := raise (ts ++ [t]) ts.length

/-- The timers without the front one: the last takes its place, sinks, and rises again. -/
def pop (ts : Timers) : Timers :=
  match ts with
  | [] => []
  | _ :: rest =>
    match rest.getLast? with
    | none => []
    | some last =>
      let moved := last :: rest.dropLast
      let (sunk, i) := sink moved.length moved 0
      raise sunk i

/-- The front timers that satisfy `p`, in order, and the rest. The fuel is the number of
timers. -/
def popWhile (p : Timer → Bool) : Nat → Timers → Timers × Timers
  | 0, ts => ([], ts)
  | fuel + 1, ts =>
    match ts with
    | [] => ([], [])
    | t :: rest =>
      if p t then
        let (out, left) := popWhile p fuel (pop (t :: rest))
        (t :: out, left)
      else ([], t :: rest)

/-- The timers that are due at `now`, and those that are not. The front gives them up in order; a
look at the others makes sure that none stays behind, whatever the order of the due times. -/
def takeDue (ts : Timers) (now : Float) : Timers × Timers :=
  let due (t : Timer) : Bool := t.due ≤ now
  let (out, left) := popWhile due ts.length ts
  (out ++ left.filter due, left.filter fun t => !due t)

/-- No timer that is due stays behind. -/
theorem not_due_of_mem_takeDue {ts : Timers} {now : Float} {t : Timer}
    (h : t ∈ (ts.takeDue now).2) : ¬ t.due ≤ now := by
  have := (List.mem_filter.mp h).2
  simpa using this

end Timers

end Admission
