/-!
# Roles, states and the moves between them

A transfer has two sides. The initiator provisions where the data is to go,
sends the request to its peer, waits for the acknowledgment and then for the
data; the executor provisions on its own side and moves the data. Both share
one set of states, and `JobState.canMove` says which move belongs to which
role.
-/

namespace Ferry

/-- The side of a transfer that a process plays. -/
inductive Role where
  | initiator
  | executor
deriving DecidableEq, Repr, Inhabited

namespace Role

def all : List Role := [.initiator, .executor]

/-- The name of the role in documents, columns and messages. -/
def name : Role → String
  | .initiator => "initiator"
  | .executor => "executor"

def ofName? (s : String) : Option Role :=
  all.find? fun r => r.name == s

end Role

/-- Where a job stands in its life. -/
inductive JobState where
  | initial
  | provisioning
  | provisioned
  | sent
  | acknowledged
  | executing
  | completed
  | error
deriving DecidableEq, Repr, Inhabited

namespace JobState

/-- All states in the order of a life. -/
def all : List JobState :=
  [.initial, .provisioning, .provisioned, .sent, .acknowledged, .executing, .completed, .error]

/-- The name of the state in documents, columns and messages. -/
def name : JobState → String
  | .initial => "initial"
  | .provisioning => "provisioning"
  | .provisioned => "provisioned"
  | .sent => "sent"
  | .acknowledged => "acknowledged"
  | .executing => "executing"
  | .completed => "completed"
  | .error => "error"

def ofName? (s : String) : Option JobState :=
  all.find? fun st => st.name == s

/-- No move leads out of the state. -/
def isTerminal : JobState → Bool
  | .completed | .error => true
  | _ => false

/-- The moves a job of a role may make. Any job that has not ended may fail; an
executor may go from `provisioned` to `provisioned`, which is how a data flow
that could not start is tried again. -/
def canMove (role : Role) (origin target : JobState) : Bool :=
  match origin, target with
  | .initial, .provisioning => true
  | .provisioning, .provisioned => true
  | .provisioned, .sent => role = .initiator
  | .sent, .acknowledged => role = .initiator
  | .acknowledged, .completed => role = .initiator
  | .provisioned, .provisioned => role = .executor
  | .provisioned, .executing => role = .executor
  | .executing, .completed => role = .executor
  | origin, .error => !origin.isTerminal
  | _, _ => false

/-- The states a job can move to, in the order of a life. -/
def targets (role : Role) (origin : JobState) : List JobState :=
  all.filter (canMove role origin)

end JobState

end Ferry
