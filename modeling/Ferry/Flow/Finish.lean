import Ferry.Orchestrator.Operation

/-!
# Recording the end of a data flow

A flow may end before the worker has stored that it began. Its result is
therefore computed from the job as it is stored and written only over the state
it was computed from; if that state has changed in between, the job is looked
at again.
-/

namespace Ferry

open Operation Time

namespace Flow

/-- The job that data was moved for. -/
def load (correlationId : String) : Operation Job := do
  match ← store (.findId correlationId) with
  | none => throw (.store (.notFound correlationId))
  | some id =>
    match ← store (.get id) with
    | none => throw (.store (.notFound id))
    | some job => pure job

/-- The job after its data flow, where `failure` is what went wrong, if anything. -/
def ended (job : Job) (failure : Option String) (now : Instant) : Except JobError Job := do
  let job ← if job.state = .provisioned then job.executing now else .ok job
  match failure with
  | none => job.completed now
  | some detail => job.failed detail now

/-- Stores the end of a data flow, looking at the job at most `rounds` times. -/
def finish (correlationId : String) (failure : Option String) : (rounds : Nat) → Operation Unit
  | 0 => pure ()
  | n + 1 => do
    let job ← load correlationId
    if job.state.isTerminal then
      pure ()
    else
      let now ← ask .now
      let after ← move (ended job failure now)
      if ← store (.updateIfState after job.state) then
        countMove after
      else
        finish correlationId failure n

end Flow

end Ferry
