import Ferry.Api.Transfers
import Ferry.Flow.Finish
import Ferry.Orchestrator.Cycle
import Ferry.Provision.Writer
import Mathlib.Data.List.Chain

/-!
# The running service

A process has one worker that runs cycle after cycle, one writer that records
the outcomes of provisioning one after the other, and any number of tasks: data
flows that have ended and are to be recorded, acknowledgments of peers, and
transfers to take on. All of them are the programs the rest of the library
defines. A step of the service is one call of one of them, or one of the moves
between programs: a cycle begins, an outcome is published and later taken up, a
flow ends, a client arrives.

Any call of the store may fail, and then it changes nothing. At any moment the
process may die. What it held in memory is gone with it, that is the programs,
the outcomes under way and the flows; the table stays.

The journal is not part of the service. It holds every call that was ever made
with its reply, the latest first, so that what happened before can be spoken of.
-/

namespace Ferry.Service

/-- A call that was made, and the reply to it. -/
structure Exchange where
  call : Request
  reply : call.Reply

/-- What the programs of the service share. -/
structure World where
  table : Store.Table := {}
  /-- The jobs whose provisioning was started and has not reported back. -/
  asked : List String := []
  /-- The outcomes that nobody has taken up, the oldest first. -/
  inbox : List ProvisionResponse := []
  /-- The job whose outcome the writer has taken up last. -/
  writing : Option String := none
  /-- The requests, by their ids, whose data is being moved. -/
  flows : List String := []
  journal : List Exchange := []

namespace World

/-- The jobs whose outcome the writer has yet to take up. -/
def awaited (w : World) : List String :=
  w.asked ++ w.inbox.map (·.jobId)

/-- The replies a call may get. A call of the store gets what the statement
answers, or it fails for reasons of its own. -/
def Admits (w : World) : (c : Request) → c.Reply → Prop
  | .store c, r => r = (c.perform w.table).1 ∨ ∃ e, r = .error e
  | _, _ => True

/-- What a call that got this reply has changed. Provisioning reports back at most
once for each start that succeeded, and data moves only if the flow started. -/
def effect (w : World) : (c : Request) → c.Reply → World
  | .store c, .ok _ => { w with table := (c.perform w.table).2 }
  | .provision job, .ok () => { w with asked := job.id :: w.asked }
  | .startFlow request, .ok => { w with flows := request.id :: w.flows }
  | _, _ => w

/-- The world after a call. -/
def after (w : World) (c : Request) (r : c.Reply) : World :=
  { w.effect c r with journal := ⟨c, r⟩ :: w.journal }

/-- What is left when the process dies. -/
def outlived (w : World) : World :=
  { table := w.table, journal := w.journal }

end World

/-! ## Tasks -/

inductive Errand where
  /-- Records the end of a data flow. -/
  | finish (correlationId : String) (failure : Option String) (rounds : Nat)
  | acknowledge (id : String)
  | initiate (role : Role) (request : TransferRequest)
  | receive (inbound : InboundTransfer)

namespace Errand

abbrev Answer : Errand → Type
  | finish .. => Except OrchestratorError Unit
  | acknowledge _ => Api.Response
  | initiate .. => Except OrchestratorError String
  | receive _ => Except OrchestratorError String

def program : (e : Errand) → Activity e.Answer
  | finish correlationId failure rounds => (Flow.finish correlationId failure rounds).run
  | acknowledge id => Api.acknowledgeTransfer id
  | initiate role request => (Ferry.initiate role request).run
  | receive inbound => (Ferry.receive inbound).run

/-- A client or a peer comes with it; flows end by themselves. -/
def FromOutside : Errand → Prop
  | finish .. => False
  | _ => True

end Errand

/-- A task and what is left of it. -/
structure Task where
  errand : Errand
  rest : Activity errand.Answer

def Errand.task (e : Errand) : Task :=
  ⟨e, e.program⟩

end Service

/-! ## Steps -/

/-- The world and the programs in it. -/
structure Service where
  world : Service.World := {}
  worker : Activity (Except OrchestratorError CycleReport) := .done (.ok {})
  writer : Activity (Except OrchestratorError Unit) := .done (.ok ())
  tasks : List Service.Task := []

namespace Service

inductive Step (s : Service) : Service → Prop where
  /-- The worker begins a cycle. -/
  | begin {report} (config : Config.Orchestrator) (idle : s.worker = .done report) :
      Step s { s with worker := (cycle config).run }
  /-- The worker makes a call. -/
  | work {c next} (turn : s.worker = .call c next) (r : c.Reply) (admits : s.world.Admits c r) :
      Step s { s with world := s.world.after c r, worker := next r }
  /-- Provisioning reports back. -/
  | publish {before after id} (outcome : ProvisionOutcome)
      (asked : s.world.asked = before ++ id :: after) :
      Step s { s with world :=
        { s.world with
          asked := before ++ after, inbox := s.world.inbox ++ [⟨id, outcome⟩] } }
  /-- The writer takes up the oldest outcome. -/
  | take {response rest result} (idle : s.writer = .done result)
      (inbox : s.world.inbox = response :: rest) :
      Step s { s with
        world := { s.world with inbox := rest, writing := some response.jobId },
        writer := (applyResponse response).run }
  /-- The writer makes a call. -/
  | write {c next} (turn : s.writer = .call c next) (r : c.Reply) (admits : s.world.Admits c r) :
      Step s { s with world := s.world.after c r, writer := next r }
  /-- A data flow ends. -/
  | flowEnds {before after id} (failure : Option String) (rounds : Nat)
      (flows : s.world.flows = before ++ id :: after) :
      Step s { s with
        world := { s.world with flows := before ++ after },
        tasks := s.tasks ++ [(Errand.finish id failure rounds).task] }
  | arrive (errand : Errand) (outside : errand.FromOutside) :
      Step s { s with tasks := s.tasks ++ [errand.task] }
  /-- A task makes a call. -/
  | serve {before after errand c next} (turn : s.tasks = before ++ ⟨errand, .call c next⟩ :: after)
      (r : c.Reply) (admits : s.world.Admits c r) :
      Step s { s with
        world := s.world.after c r, tasks := before ++ ⟨errand, next r⟩ :: after }
  /-- The process dies and another one takes its place. -/
  | restart : Step s { world := s.world.outlived }

/-- A run of the service from an empty table on: the states after the first, each
of which comes from the one before by a step. -/
structure Run where
  later : List Service
  steps : (({} : Service) :: later).IsChain Step

namespace Run

def states (run : Run) : List Service :=
  {} :: run.later

/-- The state a run has come to. -/
def last (run : Run) : Service :=
  run.states.getLast (List.cons_ne_nil _ _)

end Run

end Service

end Ferry
