import Ferry.Flow.Outcome
import Ferry.Job.State

/-!
# Counters

What the program counts while it runs. A counter that was never touched is
told apart from one that was touched and stayed at zero: only the latter shows
on a scrape.
-/

namespace Ferry

/-- The parts of a cycle that are counted apart. -/
inductive Phase where
  | provisioning
  | dispatch
  | flow
  | completion
deriving DecidableEq, Repr

def Phase.name : Phase → String
  | provisioning => "provisioning"
  | dispatch => "dispatch"
  | flow => "flow"
  | completion => "completion"

/-- How a message to a peer ended. -/
inductive Delivery where
  | success
  | error
  | rejected
deriving DecidableEq, Repr

def Delivery.name : Delivery → String
  | success => "success"
  | error => "error"
  | rejected => "rejected"

inductive Counter where
  /-- Jobs created, by role. -/
  | jobsInitiated (role : Role)
  /-- Moves that were stored, by the state moved to. -/
  | stateTransitions (state : JobState)
  /-- Jobs taken up in a phase. -/
  | jobsProcessed (phase : Phase)
  /-- Jobs failed by a phase. -/
  | jobFailures (phase : Phase)
  /-- Cycles that ended in an error. -/
  | cycleErrors (fatal : Bool)
  /-- Outcomes of provisioning that were stored. -/
  | provisioningResponses (provisioned : Bool)
  /-- Requests posted to peers. -/
  | dispatchRequests (delivery : Delivery)
  /-- Acknowledgments posted to peers. -/
  | acknowledgments (delivery : Delivery)
  /-- Answers of the data flow. -/
  | flowOutcomes (verdict : FlowVerdict)
  /-- Checks whether the data has arrived. -/
  | completionChecks (complete : Bool)
deriving DecidableEq, Repr

namespace Counter

/-- The name of the family of counters. -/
def family : Counter → String
  | jobsInitiated _ => "courier_jobs_initiated_total"
  | stateTransitions _ => "courier_state_transitions_total"
  | jobsProcessed _ => "courier_jobs_processed_total"
  | jobFailures _ => "courier_job_failures_total"
  | cycleErrors _ => "courier_cycle_errors_total"
  | provisioningResponses _ => "courier_provisioning_responses_total"
  | dispatchRequests _ => "courier_dispatch_requests_total"
  | acknowledgments _ => "courier_acknowledgments_total"
  | flowOutcomes _ => "courier_flow_outcomes_total"
  | completionChecks _ => "courier_completion_checks_total"

/-- What a scrape says about the family. -/
def help : Counter → String
  | jobsInitiated _ => "Total jobs created"
  | stateTransitions _ => "Total persisted job state transitions"
  | jobsProcessed _ => "Total jobs processed by orchestrator phase"
  | jobFailures _ => "Total jobs failed by the orchestrator"
  | cycleErrors _ => "Total failed orchestrator cycles"
  | provisioningResponses _ => "Total provisioning outcomes recorded"
  | dispatchRequests _ => "Total dispatch requests"
  | acknowledgments _ => "Total acknowledgments sent to initiating peers"
  | flowOutcomes _ => "Total data flow outcomes"
  | completionChecks _ => "Total completion checks"

/-- The label that tells the counters of a family apart, and its value. -/
def label : Counter → String × String
  | jobsInitiated role => ("role", role.name)
  | stateTransitions state => ("state", state.name)
  | jobsProcessed phase => ("phase", phase.name)
  | jobFailures phase => ("phase", phase.name)
  | cycleErrors fatal => ("kind", if fatal then "fatal" else "recoverable")
  | provisioningResponses provisioned =>
    ("outcome", if provisioned then "provisioned" else "failed")
  | dispatchRequests delivery => ("status", delivery.name)
  | acknowledgments delivery => ("status", delivery.name)
  | flowOutcomes verdict => ("outcome", verdict.name)
  | completionChecks complete => ("result", if complete then "complete" else "pending")

end Counter

/-- The counters touched so far, each with its value. -/
structure Metrics where
  entries : List (Counter × Nat) := []
deriving DecidableEq, Repr

namespace Metrics

def empty : Metrics := ⟨[]⟩

instance : Inhabited Metrics := ⟨empty⟩

/-- The value of a counter. -/
def count (m : Metrics) (c : Counter) : Nat :=
  match m.entries.find? fun e => e.1 == c with
  | some e => e.2
  | none => 0

def addEntry (c : Counter) (n : Nat) : List (Counter × Nat) → List (Counter × Nat)
  | [] => [(c, n)]
  | (d, k) :: rest => if d = c then (d, k + n) :: rest else (d, k) :: addEntry c n rest

/-- The counters after `n` more of `c`. -/
def add (m : Metrics) (c : Counter) (n : Nat) : Metrics :=
  ⟨addEntry c n m.entries⟩

end Metrics

end Ferry
