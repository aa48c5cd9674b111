import Ferry.Dispatch.Error
import Ferry.Metrics
import Ferry.Orchestrator.Error
import Ferry.Program
import Ferry.Provision.Error
import Ferry.Store.Call

/-!
# Operations

Everything that touches jobs is a program whose calls go to the store and to
the collaborators: who provisions, who talks to peers, who moves data and who
knows whether the data has arrived.
-/

namespace Ferry

open Time (Instant)

/-- The calls of an operation. -/
inductive Request where
  | store (c : Store.Call)
  /-- Starts provisioning for a job. -/
  | provision (job : Job)
  /-- Sends a request to the peer that it names. -/
  | send (request : TransferRequest) (processId : String)
  /-- Starts telling a peer in the background that its request was taken. -/
  | acknowledge (address processId : String)
  /-- Starts to move data. -/
  | startFlow (request : TransferRequest)
  /-- Has the data of a job arrived? -/
  | isComplete (job : Job)
  | now
  /-- An id that nothing else has. -/
  | freshId
  /-- Adds to a counter. -/
  | count (c : Counter) (n : Nat)
  /-- Is the worker to go on? -/
  | isRunning
  /-- Goes on with the bits of a sum that does not fit. Where arithmetic is checked nobody
  replies to this: the program has panicked. -/
  | overflow

abbrev Request.Reply : Request → Type
  | store c => Except JobError c.Answer
  | provision _ => Except ProvisionError Unit
  | send .. => Except DispatchError Unit
  | acknowledge .. => Unit
  | startFlow _ => FlowOutcome
  | isComplete _ => Bool
  | now => Instant
  | freshId => String
  | count .. => Unit
  | isRunning => Bool
  | overflow => Unit

/-- The calls of operations and their replies. -/
def operationSignature : Signature := ⟨Request, Request.Reply⟩

/-- A program with such calls. -/
abbrev Activity (α : Type) := Program operationSignature α

/-- An activity that may fail; an error ends it. -/
abbrev Operation (α : Type) := ExceptT OrchestratorError (Program operationSignature) α

/-- The activity of one call. -/
def Request.ask (c : Request) : Activity c.Reply :=
  Program.ask (S := operationSignature) c

namespace Operation

/-- A call that cannot fail. -/
def ask (c : Request) : Operation c.Reply :=
  ExceptT.lift c.ask

/-- A call of the store; its error ends the operation. -/
def store (c : Store.Call) : Operation c.Answer := ExceptT.mk do
  match ← (Request.store c).ask with
  | .ok a => pure (.ok a)
  | .error e => pure (.error (.store e))

theorem run_store_bind {α : Type} (c : Store.Call) (g : c.Answer → Operation α) :
    (store c >>= g).run = .call (.store c) fun
      | .ok a => (g a).run
      | .error e => .done (.error (.store e)) := by
  refine congrArg (Program.call _) (funext fun r => ?_)
  cases r <;> rfl

/-- A move of a job; its refusal ends the operation. -/
def move (moved : Except JobError Job) : Operation Job := ExceptT.mk <|
  pure <| match moved with
    | .ok job => .ok job
    | .error e => .error (.store e)

def count (c : Counter) (n : Nat := 1) : Operation Unit :=
  ask (.count c n)

/-- Counts the move that was just stored. -/
def countMove (job : Job) : Operation Unit :=
  count (.stateTransitions job.state)

/-- Does something for one job after the other, up to the first error. -/
def forEach (f : Job → Operation Unit) : List Job → Operation Unit
  | [] => pure ()
  | job :: rest => do
    f job
    forEach f rest

end Operation

end Ferry
