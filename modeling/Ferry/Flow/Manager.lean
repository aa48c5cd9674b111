import Ferry.Flow.Outcome
import Ferry.Job.Request

/-!
# Choosing who moves the data

Controllers are asked in the order of their registration whether they can
handle a request; the first that can does.
-/

namespace Ferry

/-- Someone who moves data: what requests are handled, and how a flow starts.
Starting may change the state `σ` of the world. -/
structure FlowController (σ : Type) where
  name : String
  canHandle : TransferRequest → Bool
  initiate : TransferRequest → σ → FlowOutcome × σ

namespace FlowController

variable {σ : Type}

/-- No controller handles the request. -/
def unhandled (r : TransferRequest) : FlowOutcome :=
  .fatal ("no data flow controller for destination kind '" ++ r.destination.kind ++ "'")

/-- Starts a flow with the first controller that can handle the request. -/
def initiateFirst (controllers : List (FlowController σ)) (r : TransferRequest) (s : σ) :
    FlowOutcome × σ :=
  match controllers.find? fun c => c.canHandle r with
  | some c => c.initiate r s
  | none => (unhandled r, s)

end FlowController

end Ferry
