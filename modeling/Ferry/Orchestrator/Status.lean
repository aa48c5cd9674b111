import Ferry.Json.Record
import Ferry.Width

/-!
# The status of the orchestrator
-/

namespace Ferry

open Json

/-- Is the worker running, and how many jobs are there by the name of their
state? A state that could not be counted is left out. -/
structure OrchestratorStatus where
  running : Bool
  jobs : List (String × Nat)
deriving DecidableEq, Repr, Inhabited

namespace OrchestratorStatus

def countsToJson (counts : List (String × Nat)) : Json :=
  .obj (counts.map fun e => (e.1, .nat e.2))

def toJson (s : OrchestratorStatus) : Json :=
  .obj [("running", .bool s.running), ("jobs", countsToJson s.jobs)]

/-- The entries without those that a later one of the same name replaces. -/
def lastOfEach : List (String × Nat) → List (String × Nat)
  | [] => []
  | e :: rest =>
    if rest.any fun f => f.1 == e.1 then lastOfEach rest else e :: lastOfEach rest

def shape : Shape OrchestratorStatus :=
  .field Bool "running" readBool .required <|
  .field (List (String × Nat)) "jobs"
    (fun d => (readMap (readBelow Width.bound64) d).map lastOfEach) .required <|
  .done fun jobs running => ⟨running, jobs⟩

def read : Reader OrchestratorStatus := shape.read

end OrchestratorStatus

end Ferry
