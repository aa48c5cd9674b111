import Ferry.Job.Basic

/-!
# Outcomes of provisioning

Provisioning is started for a job and reports back when it is done.
-/

namespace Ferry

inductive ProvisionOutcome where
  /-- All resources are ready. -/
  | provisioned (resources : List ProvisionedResource)
  | failed (detail : String)
deriving DecidableEq

/-- An outcome and the job it is for. -/
structure ProvisionResponse where
  jobId : String
  outcome : ProvisionOutcome
deriving DecidableEq

def ProvisionOutcome.isProvisioned : ProvisionOutcome → Bool
  | provisioned _ => true
  | failed _ => false

open Time (Instant) in
/-- The job after an outcome, if it may still have one. -/
def Job.accept (job : Job) (outcome : ProvisionOutcome) (now : Instant) : Except JobError Job :=
  match outcome with
  | .provisioned resources => job.provisioned resources now
  | .failed detail => job.failed detail now

end Ferry
