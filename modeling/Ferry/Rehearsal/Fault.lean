import Ferry.Store.Call

/-!
# Faults of a store

A store that is rehearsed with fails when it is told to: so many of the next
calls of a kind go wrong, and leave the table as it is.
-/

namespace Ferry.Rehearsal

inductive Fault where
  | create
  | update
  | updateIfState
  | get
  | find
  /-- Any look at a queue. -/
  | next
  /-- A look at the queue of a state. -/
  | nextOf (state : JobState)
  | count
  /-- A conditional update that finds another state than expected. -/
  | raceLost
  /-- A look by correlation id that finds nothing. -/
  | nothingFound
deriving DecidableEq, Repr

/-- The fault of a name. Looks at the queue of a state are named by the state. -/
def Fault.ofName? : String → Option Fault
  | "create" => some .create
  | "update" => some .update
  | "update_if_state" => some .updateIfState
  | "get" => some .get
  | "find" => some .find
  | "next" => some .next
  | "count" => some .count
  | "cas_lost" => some .raceLost
  | "find_none" => some .nothingFound
  | name =>
    (JobState.all.find? fun state => "next_" ++ state.name == name).map .nextOf

/-- How many calls of each kind are yet to go wrong. -/
structure Faults where
  pending : List (Fault × Nat) := []
deriving Repr, Inhabited

namespace Faults

/-- Uses up one fault of a kind, if there is one. -/
def take (f : Faults) (kind : Fault) : Bool × Faults :=
  if f.pending.any fun e => e.1 == kind && 0 < e.2 then
    (true, ⟨f.pending.map fun e => if e.1 = kind then (e.1, e.2 - 1) else e⟩)
  else (false, f)

/-- Uses up one fault of the first kind that there is one of. -/
def takeFirst (f : Faults) : List Fault → Option Fault × Faults
  | [] => (none, f)
  | kind :: rest =>
    match f.take kind with
    | (true, f) => (some kind, f)
    | (false, _) => f.takeFirst rest

/-- The faults that a call can meet. -/
def kindsOf : Store.Call → List Fault
  | .create _ => [.create]
  | .update _ => [.update]
  | .updateIfState .. => [.updateIfState, .raceLost]
  | .get _ => [.get]
  | .findId _ => [.find, .nothingFound]
  | .next state _ => [.next, .nextOf state]
  | .count _ => [.count]

/-- The error of a call that was told to fail. -/
def injected : JobError := .database "injected"

/-- What a call answers under a fault. -/
def answer (kind : Fault) : (c : Store.Call) → Except JobError c.Answer
  | .updateIfState .. => if kind = .raceLost then .ok false else .error injected
  | .findId _ => if kind = .nothingFound then .ok none else .error injected
  | _ => .error injected

end Faults

end Ferry.Rehearsal
