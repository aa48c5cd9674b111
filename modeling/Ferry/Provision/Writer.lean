import Ferry.Orchestrator.Operation
import Ferry.Provision.Response

/-!
# Recording the outcomes of provisioning

An outcome is stored if the job it is for may still have one; otherwise it is
dropped.
-/

namespace Ferry

open Operation

/-- Stores one outcome. -/
def applyResponse (response : ProvisionResponse) : Operation Unit := do
  match ← store (.get response.jobId) with
  | none => throw (.store (.notFound response.jobId))
  | some job =>
    let now ← ask .now
    let job ← move (job.accept response.outcome now)
    store (.update job)
    count (.provisioningResponses response.outcome.isProvisioned)
    countMove job

end Ferry
