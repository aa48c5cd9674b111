import Ferry.Config.Basic
import Ferry.Orchestrator.Operation
import Ferry.Orchestrator.Report
import Ferry.Provision.Manifest

/-!
# One cycle of the worker

Three phases, each for the oldest jobs of one state: provisioning is started
for new jobs, provisioned jobs are handed to the peer or to the data flow, and
acknowledged jobs are asked whether their data has arrived. The trouble of one
job with a collaborator is that job's alone; trouble with the store ends the
cycle, and the jobs not yet taken up wait for the next one.
-/

namespace Ferry

open Operation

namespace Cycle

/-! ## Provisioning -/

/-- Starts provisioning for a new job. It is stored as being provisioned before
anybody starts. -/
def provision (job : Job) : Operation Unit := do
  let definitionId ← ask .freshId
  let now ← ask .now
  let job ← move (job.provision (ResourceManifest.forJob job definitionId) now)
  store (.update job)
  countMove job
  match ← ask (.provision job) with
  | .ok () => pure ()
  | .error e =>
    let now ← ask .now
    let job ← move (job.failed e.message now)
    store (.update job)
    countMove job
    count (.jobFailures .provisioning)

def provisionPhase (config : Config.Orchestrator) : Operation Nat := do
  let jobs ← store (.next .initial config.batchSize)
  forEach provision jobs
  count (.jobsProcessed .provisioning) jobs.length
  pure jobs.length

/-! ## Dispatch -/

/-- Sends an initiator's request. The job is stored as sent before the peer is
called, so that a crash in between never sends a request twice. The peer may
have acknowledged the job while the call was failing, and then it stays so. -/
def send (job : Job) : Operation Unit := do
  let now ← ask .now
  let job ← move (job.sent now)
  store (.update job)
  countMove job
  match ← ask (.send job.dispatchRequest job.id) with
  | .ok () => pure ()
  | .error e =>
    count (.jobFailures .dispatch)
    let now ← ask .now
    let job ← move (job.failed ("dispatch failed: " ++ e.message) now)
    if ← store (.updateIfState job .sent) then
      countMove job

/-- The flow may not be tried again any more. -/
def retriesExceeded (limit : Nat) (job : Job) : Bool :=
  0 < limit && limit < job.retryCount.toNat

def retryLimitMessage (limit : Nat) (reason : String) : String :=
  "flow retry limit of " ++ toString limit ++ " exceeded: " ++ reason

/-- The executor's job after the answer of the data flow. -/
def afterFlow (limit : Nat) (job : Job) (now : Time.Instant) : FlowOutcome → Except JobError Job
  | .ok => job.executing now
  | .retry reason => do
    let job ← job.retry now
    if retriesExceeded limit job then job.failed (retryLimitMessage limit reason) now
    else .ok job
  | .fatal detail => job.failed detail now

/-- Counting this outcome takes the count of the job further than its bits can. -/
def overflows (job : Job) : FlowOutcome → Bool
  | .retry _ => job.retryOverflows
  | _ => false

/-- Comes to a panic if the outcome cannot be counted. -/
def checkCount (job : Job) (outcome : FlowOutcome) : Operation Unit :=
  if overflows job outcome then ask .overflow else pure ()

theorem checkCount_bind {α : Type} (job : Job) (outcome : FlowOutcome) (g : Unit → Operation α) :
    (checkCount job outcome >>= g) =
      if overflows job outcome then ask .overflow >>= g else g () := by
  rw [checkCount]
  split <;> rfl

/-- Starts an executor's data flow. A flow that ends quickly may have stored its
result already, and that stays. -/
def execute (config : Config.Orchestrator) (job : Job) : Operation Unit := do
  let outcome ← ask (.startFlow job.request)
  count (.flowOutcomes outcome.verdict)
  let now ← ask .now
  checkCount job outcome
  let job ← move (afterFlow config.maxFlowRetries job now outcome)
  if job.state = .error then
    count (.jobFailures .flow)
  if ← store (.updateIfState job .provisioned) then
    countMove job

/-- Hands a provisioned job on. -/
def dispatch (config : Config.Orchestrator) (job : Job) : Operation Unit :=
  match job.role with
  | .initiator => send job
  | .executor => execute config job

def dispatchPhase (config : Config.Orchestrator) : Operation Nat := do
  let jobs ← store (.next .provisioned config.batchSize)
  forEach (dispatch config) jobs
  count (.jobsProcessed .dispatch) jobs.length
  pure jobs.length

/-! ## Completion -/

/-- The jobs whose data has arrived. -/
def arrived : List Job → Operation (List Job)
  | [] => pure []
  | job :: rest => do
    let complete ← ask (.isComplete job)
    let more ← arrived rest
    pure (if complete then job :: more else more)

/-- Completes a job. -/
def complete (job : Job) : Operation Unit := do
  let now ← ask .now
  let job ← move (job.completed now)
  store (.update job)
  countMove job

def misplacedMessage (jobs : List Job) : String :=
  "non-initiator jobs in acknowledged state: " ++ ", ".intercalate (jobs.map (·.id))

/-- Only initiators can be acknowledged. All jobs are asked before the first one
is completed. -/
def completionPhase (config : Config.Orchestrator) : Operation Nat := do
  let jobs ← store (.next .acknowledged config.batchSize)
  let misplaced := jobs.filter fun job => job.role != .initiator
  if !misplaced.isEmpty then
    throw (.invariantViolation (misplacedMessage misplaced))
  let done ← arrived jobs
  forEach complete done
  count (.jobsProcessed .completion) jobs.length
  pure jobs.length

end Cycle

open Ferry.Cycle in
/-- The three phases. Between two of them the cycle ends if the worker is no
longer to go on. -/
def cycle (config : Config.Orchestrator) : Operation CycleReport := do
  let provisioned ← provisionPhase config
  if !(← ask .isRunning) then
    return { provisioned }
  let dispatched ← dispatchPhase config
  if !(← ask .isRunning) then
    return { provisioned, dispatched }
  let inspected ← completionPhase config
  return { provisioned, dispatched, inspected }

end Ferry
