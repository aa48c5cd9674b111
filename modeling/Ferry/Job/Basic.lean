import Ferry.Job.Error
import Ferry.Job.Request
import Ferry.Job.Resource
import Ferry.Time.Instant

/-!
# Jobs

One side of one transfer, and the moves that change it. Every move goes through
`Job.move`, which refuses what `JobState.canMove` does not allow and leaves the
job as it was; only an accepted move touches the fields that belong to it.
-/

namespace Ferry

open Time (Instant)

structure Job where
  id : String
  correlationId : String
  role : Role
  state : JobState := .initial
  request : TransferRequest
  manifest : Option ResourceManifest := none
  resources : List ProvisionedResource := []
  errorDetail : Option String := none
  retryCount : UInt32 := 0
  createdAt : Instant
  stateTimestamp : Instant
deriving DecidableEq, Inhabited

namespace Job

/-- A new job for a request, correlated by the request's id. -/
def new (id : String) (role : Role) (request : TransferRequest) (now : Instant) : Job :=
  { id, correlationId := request.id, role, request, createdAt := now, stateTimestamp := now }

/-- The job in another state since `now`, or the refusal of the move. -/
def move (job : Job) (target : JobState) (now : Instant) : Except JobError Job :=
  if JobState.canMove job.role job.state target then
    .ok { job with state := target, stateTimestamp := now }
  else .error (.invalidTransition job.id job.role job.state target)

/-- Provisioning of a manifest begins. -/
def provision (job : Job) (manifest : ResourceManifest) (now : Instant) : Except JobError Job :=
  (job.move .provisioning now).map fun j => { j with manifest := some manifest }

/-- Provisioning has ended with these resources. -/
def provisioned (job : Job) (resources : List ProvisionedResource) (now : Instant) :
    Except JobError Job :=
  (job.move .provisioned now).map fun j => { j with resources }

/-- The request is about to be sent to the peer. -/
def sent (job : Job) (now : Instant) : Except JobError Job :=
  job.move .sent now

/-- The peer has taken the request. -/
def acknowledged (job : Job) (now : Instant) : Except JobError Job :=
  job.move .acknowledged now

/-- The data flow has started. -/
def executing (job : Job) (now : Instant) : Except JobError Job :=
  job.move .executing now

/-- The retry of the job would be accepted, and the count has no room for it. -/
def retryOverflows (job : Job) : Bool :=
  JobState.canMove job.role job.state .provisioned &&
    decide (UInt32.size ≤ job.retryCount.toNat + 1)

/-- The data flow could not start and is to be tried again. Of a sum that does not fit into the
count this has the bits that do; a build that checks its arithmetic has panicked instead
(`retryOverflows`). -/
def retry (job : Job) (now : Instant) : Except JobError Job :=
  (job.move .provisioned now).map fun j => { j with retryCount := j.retryCount + 1 }

/-- The transfer is done. -/
def completed (job : Job) (now : Instant) : Except JobError Job :=
  job.move .completed now

/-- The job has failed. -/
def failed (job : Job) (detail : String) (now : Instant) : Except JobError Job :=
  (job.move .error now).map fun j => { j with errorDetail := some detail }

/-- The resources data is written to. -/
def destinations (job : Job) : List ProvisionedResource :=
  job.resources.filter (·.isDestination)

/-- The request for the peer: the properties of the first destination, if there
is one, are put over those of the requested destination. -/
def dispatchRequest (job : Job) : TransferRequest :=
  match job.destinations.head? with
  | none => job.request
  | some r =>
    let d := job.request.destination
    { job.request with
      destination := { d with properties := d.properties.overriddenBy r.properties } }

end Job

end Ferry
