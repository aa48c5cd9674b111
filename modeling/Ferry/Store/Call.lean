import Ferry.Store.Table

/-!
# Calls of the store

The statements that the rest of the program makes, each of them atomic. A call
answers or fails, and one that fails leaves the table as it was.
-/

namespace Ferry.Store

inductive Call where
  | create (job : Job)
  | update (job : Job)
  | updateIfState (job : Job) (expected : JobState)
  | get (id : String)
  | findId (correlationId : String)
  | next (state : JobState) (limit : Nat)
  | count (state : JobState)

namespace Call

/-- What a call answers when it does not fail. -/
abbrev Answer : Call → Type
  | create _ => Unit
  | update _ => Unit
  | updateIfState .. => Bool
  | get _ => Option Job
  | findId _ => Option String
  | next .. => List Job
  | count _ => Nat

/-- The answer and the table after it, of a statement that may fail. -/
def written (t : Table) : Except JobError Table → Except JobError Unit × Table
  | .ok t => (.ok (), t)
  | .error e => (.error e, t)

/-- Carries out a call. -/
def perform (t : Table) : (c : Call) → Except JobError c.Answer × Table
  | create job => written t (t.create job)
  | update job => written t (t.update job)
  | updateIfState job expected =>
    let (hit, t) := t.updateIfState job expected
    (.ok hit, t)
  | get id => (t.get id, t)
  | findId c => (t.findId c, t)
  | next state limit => (t.next state limit, t)
  | count state => (.ok (t.count state), t)

end Call

/-- Loads a job, moves it and stores it. -/
def Table.move (t : Table) (id : String) (f : Job → Except JobError Job) :
    Except JobError Unit × Table :=
  match t.get id with
  | .error e => (.error e, t)
  | .ok none => (.error (.notFound id), t)
  | .ok (some job) =>
    match f job with
    | .error e => (.error e, t)
    | .ok job => (Call.update job).perform t

end Ferry.Store
