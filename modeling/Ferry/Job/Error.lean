import Ferry.Job.State

/-!
# What can go wrong with a stored job
-/

namespace Ferry

inductive JobError where
  /-- No job has the id. -/
  | notFound (id : String)
  /-- Another job has the correlation id. -/
  | duplicateCorrelationId (correlationId : String)
  /-- The job may not make the move. -/
  | invalidTransition (jobId : String) (role : Role) (origin target : JobState)
  /-- No state has the name. -/
  | unknownState (name : String)
  /-- No role has the name. -/
  | unknownRole (name : String)
  /-- The database failed, or holds something that is no job. -/
  | database (cause : String)
deriving DecidableEq, Repr

namespace JobError

def message : JobError → String
  | notFound id => "job not found: " ++ id
  | duplicateCorrelationId c => "a job already exists for correlation id " ++ c
  | invalidTransition id role origin target =>
    "job " ++ id ++ " (" ++ role.name ++ ") cannot transition from " ++ origin.name ++
      " to " ++ target.name
  | unknownState s => "unknown job state: " ++ s
  | unknownRole s => "unknown job role: " ++ s
  | database cause => "database error: " ++ cause

end JobError

/-- Reads the name of a state. -/
def JobState.parse (s : String) : Except JobError JobState :=
  match ofName? s with
  | some st => .ok st
  | none => .error (.unknownState s)

/-- Reads the name of a role. -/
def Role.parse (s : String) : Except JobError Role :=
  match ofName? s with
  | some r => .ok r
  | none => .error (.unknownRole s)

end Ferry
