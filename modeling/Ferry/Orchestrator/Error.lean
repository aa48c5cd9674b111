import Ferry.Job.Error

/-!
# Why an operation of the orchestrator failed

Most errors end one cycle and the next one tries again. An error is fatal when
it shows that the store holds something this program never writes.
-/

namespace Ferry

inductive OrchestratorError where
  | store (e : JobError)
  | invariantViolation (detail : String)
  | invalidRequest (detail : String)
  /-- A task of the worker ended without an answer. -/
  | worker (detail : String)
deriving DecidableEq, Repr

namespace OrchestratorError

def message : OrchestratorError → String
  | store e => "job store error: " ++ e.message
  | invariantViolation detail => "invariant violation: " ++ detail
  | invalidRequest detail => "invalid request: " ++ detail
  | worker detail => "worker task failed: " ++ detail

/-- The worker must not go on after the error. -/
def isFatal : OrchestratorError → Bool
  | invariantViolation _ => true
  | store (.invalidTransition ..) => true
  | _ => false

end OrchestratorError

end Ferry
