import Ferry.Api.Exposition
import Ferry.Api.Route
import Ferry.Api.Transfers
import Ferry.Config.Codec
import Ferry.Rehearsal.Acts

/-!
# Clients on the stage

A request to the interface of a peer, from the routing to the count of requests
served.
-/

namespace Ferry.Rehearsal

open Api

namespace Stage

/-- Carries out an activity that nobody can stop. -/
def act {α : Type} (s : Stage) (a : Activity α) : α × Stage :=
  Program.run (S := operationSignature) (reply fun _ => true) a s

/-- The answer to a scrape, which is itself being served. -/
def scrape (s : Stage) : Response × Stage :=
  let (status, s) := s.status
  let families := counterFamilies s.backdrop.metrics ++ s.backdrop.traffic.families 1 ++
    statusFamilies status.running status.jobs
  (⟨200, .text (exposition families)⟩, s)

def statusResponse (s : Stage) : Response × Stage :=
  let (status, s) := s.status
  (.ofJson 200 (.obj [("running", .bool status.running),
    ("batch_size", .nat s.peer.config.orchestrator.batchSize),
    ("jobs", OrchestratorStatus.countsToJson status.jobs)]), s)

/-- Does what a request asks for. -/
def answer (s : Stage) : Action → Response × Stage
  | .health => (.ofJson 200 (.obj [("status", .str "ok")]), s)
  | .config => (.ofJson 200 s.peer.config.toJson, s)
  | .metrics => s.scrape
  | .create t => s.act (createTransfer t)
  | .receive t => s.act (receiveTransfer t)
  | .list stateName limit => s.act (listTransfers stateName limit)
  | .show id => s.act (showTransfer id)
  | .acknowledge id => s.act (acknowledgeTransfer id)
  | .status => s.statusResponse
  | .start => (.message "Orchestrator started", (s.supervise Supervisor.start).2)
  | .stop => (.message "Orchestrator stopped", (s.supervise Supervisor.stop).2)

/-- Serves a request. Requests for no resource are not counted. -/
def serve (s : Stage) (r : HttpRequest) : Response × Stage :=
  match Route.ofPath? r.path with
  | none => (⟨404, .empty⟩, s)
  | some route =>
    let (response, s) := match r.action route with
      | .error refusal => (refusal, s)
      | .ok action => s.answer action
    let response := if r.method = "HEAD" then response.headOnly else response
    (response, s.mapBackdrop fun b =>
      { b with traffic := b.traffic.add r.method route.template response.status })

end Stage

end Ferry.Rehearsal
