import Ferry.Dispatch.Inbound
import Ferry.Orchestrator.Operation
import Ferry.Text.Blank

/-!
# Taking on transfers

A transfer is taken on at most once: whoever asks again with the id of a
request gets the id of the job that is there. Between the look for that job and
the making of a new one somebody else may have made it, which the store
reports, and then there is one to be found.
-/

namespace Ferry

open Operation

/-- The job for a request, made if there is none. -/
def initiate (role : Role) (request : TransferRequest) : Operation String := do
  if Text.allBlank request.id then
    throw (.invalidRequest "request id cannot be empty")
  match ← store (.findId request.id) with
  | some id => pure id
  | none =>
    let id ← ask .freshId
    let now ← ask .now
    let job := Job.new id role request now
    match ← ask (.store (.create job)) with
    | .ok () =>
      count (.jobsInitiated role)
      countMove job
      pure job.id
    | .error (.duplicateCorrelationId correlationId) =>
      match ← store (.findId correlationId) with
      | some id => pure id
      | none => throw (.store (.notFound correlationId))
    | .error e => throw (.store e)

/-- Takes on what a peer has sent. A peer that wants to know is told, also when
it sends a request again. -/
def receive (inbound : InboundTransfer) : Operation String := do
  let id ← initiate .executor inbound.request
  match inbound.callbackAddress with
  | none => pure id
  | some address =>
    ask (.acknowledge address inbound.processId)
    pure id

end Ferry
