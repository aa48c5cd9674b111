import Ferry.Api.Response
import Ferry.Job.Codec
import Ferry.Api.Body
import Ferry.Orchestrator.Initiate

/-!
# Transfers over the interface for clients
-/

namespace Ferry.Api

/-- The response to a transfer that was not taken on. -/
def refusal : OrchestratorError → Response
  | .invalidRequest detail => .failure 400 detail
  | e => .failure 500 e.message

def idResponse (status : Nat) (id : String) : Response :=
  .ofJson status (.obj [("id", .str id)])

/-- Takes on a transfer for a client. -/
def createTransfer (t : NewTransfer) : Activity Response := do
  match ← (initiate t.role t.request).run with
  | .ok id => pure (idResponse 201 id)
  | .error e => pure (refusal e)

/-- Takes on a transfer for a peer. -/
def receiveTransfer (t : InboundTransfer) : Activity Response := do
  match ← (receive t).run with
  | .ok id => pure (idResponse 200 id)
  | .error e => pure (refusal e)

def notFound (id : String) : Response :=
  .failure 404 ("Transfer not found: " ++ id)

/-- Shows a job. -/
def showTransfer (id : String) : Activity Response := do
  match ← (Request.store (.get id)).ask with
  | .ok (some job) => pure (.ofJson 200 job.toView)
  | .ok none => pure (notFound id)
  | .error e => pure (.failure 500 e.message)

/-- How many jobs are listed when nobody says. -/
def defaultLimit : Nat := 100

/-- The most jobs that are listed. -/
def maxLimit : Nat := 1000

/-- How many jobs are listed at most. -/
def effectiveLimit (limit : Option Nat) : Nat :=
  min (max (limit.getD defaultLimit) 1) maxLimit

/-- Lists the jobs in a state, oldest move first. -/
def listTransfers (stateName : String) (limit : Option Nat) : Activity Response :=
  match JobState.parse stateName with
  | .error e => pure (.failure 400 e.message)
  | .ok state => do
    let limit := effectiveLimit limit
    match ← (Request.store (.next state limit)).ask with
    | .ok jobs =>
      pure (.ofJson 200 (.obj [("transfers", .arr (jobs.map Job.toView)),
        ("state", state.toJson), ("limit", .nat limit)]))
    | .error e => pure (.failure 500 e.message)

/-- Stores that the peer has taken a request. Only an initiator's job that was
sent can be acknowledged, and only if it is still in that state when the
acknowledgment is stored. -/
def acknowledgeTransfer (id : String) : Activity Response := do
  match ← (Request.store (.get id)).ask with
  | .error e => pure (.failure 500 e.message)
  | .ok none => pure (notFound id)
  | .ok (some job) =>
    if job.role ≠ .initiator || job.state ≠ .sent then
      pure (.failure 409 ("Cannot acknowledge transfer: " ++ job.role.name ++
        " job is in state " ++ job.state.name))
    else
      let now ← Request.now.ask
      match job.acknowledged now with
      | .error e => pure (.failure 409 e.message)
      | .ok after =>
        match ← (Request.store (.updateIfState after .sent)).ask with
        | .error e => pure (.failure 500 e.message)
        | .ok false =>
          pure (.failure 409 ("Cannot acknowledge transfer: job " ++ job.id ++ " left state sent"))
        | .ok true =>
          (Request.count (.stateTransitions .acknowledged) 1).ask
          pure (.ofJson 200 after.toView)

end Ferry.Api
