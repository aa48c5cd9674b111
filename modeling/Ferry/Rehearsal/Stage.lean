import Ferry.Api.Exposition
import Ferry.Config.Basic
import Ferry.Flow.FileCopy
import Ferry.Flow.Finish
import Ferry.Flow.Manager
import Ferry.Ids
import Ferry.Orchestrator.Initiate
import Ferry.Orchestrator.Supervisor
import Ferry.Provision.Directory
import Ferry.Provision.Writer
import Ferry.Rehearsal.Fault

/-!
# The stage

A peer with scripted collaborators: they do what they are told and write down
what they were asked. Work in the background is put on a list and done between
the acts.
-/

namespace Ferry.Rehearsal

open Time (Instant)

/-- Who provisions. -/
inductive ProvisionerKind where
  /-- Takes every job and never answers. -/
  | silent
  /-- Answers with a resource for each definition. -/
  | prompt
  /-- Cannot answer. -/
  | closed
  /-- Makes directories below a root. -/
  | directories (root : String)
deriving DecidableEq, Repr, Inhabited

/-- Who moves data. -/
inductive FlowKind where
  /-- Gives these outcomes, and then says that every flow has started. -/
  | scripted (outcomes : List FlowOutcome)
  /-- Copies files. -/
  | files (flow : FileFlow)
deriving DecidableEq, Repr, Inhabited

/-- Who knows whether data has arrived. -/
inductive CheckerKind where
  /-- Says the same of every resource. -/
  | scripted
  /-- Looks for a marker. -/
  | marker
deriving DecidableEq, Repr, Inhabited

/-- Work that is done in the background. -/
inductive Errand where
  /-- An outcome on its way to the writer. -/
  | record (response : ProvisionResponse)
  | makeDirectories (jobId : String) (targets : List Provision.Target)
  | copy (copy : FileFlow.Copy)
  | acknowledge (address processId : String)

/-- What the collaborators were asked, in order. -/
structure Record where
  sends : List (TransferRequest × String × Option JobState) := []
  acknowledgments : List (String × String) := []
  provisions : List Job := []
  flows : List TransferRequest := []
  checks : Nat := 0

/-- What the collaborators are told to do. -/
structure Script where
  provisionErrors : List ProvisionError := []
  dispatchErrors : List String := []
  /-- How many of the next requests are acknowledged while they are sent. -/
  acknowledgeDuringSend : Nat := 0
  /-- How many of the next flows end before they are said to have started. -/
  finishFirst : Nat := 0
  /-- What the scripted checker says. -/
  complete : Bool := false

/-- How often the wait strategy was asked. -/
structure Waits where
  idle : Nat := 0
  error : Nat := 0
  success : Nat := 0
deriving DecidableEq, Repr

/-- Where a worker stands. -/
inductive WorkerStatus where
  | ready (task : Worker.Task (Option Worker.Exit))
  /-- In a sleep, until someone says how it ended. -/
  | asleep (wake : Bool → Worker.Task (Option Worker.Exit))
  | ended (exit : Worker.Exit)

/-- A peer. -/
structure Peer where
  name : String
  config : Config
  provisioner : ProvisionerKind
  flow : FlowKind
  checkers : Checkers CheckerKind
  table : Store.Table := {}
  /-- The time of the next write. -/
  clock : Nat := 1
  faults : Faults := {}
  script : Script := {}
  record : Record := {}
  waits : Waits := {}
  running : Bool := false
  workers : List (Supervisor.Handle × WorkerStatus) := []
  handle : Option Supervisor.Handle := none
  errands : List Errand := []

/-- What peers share. -/
structure Backdrop where
  tree : File.Tree := {}
  ids : IdSource := {}
  metrics : Metrics := .empty
  traffic : Api.Traffic := {}

structure Stage where
  peer : Peer
  backdrop : Backdrop

namespace Stage

def mapPeer (s : Stage) (f : Peer → Peer) : Stage :=
  { s with peer := f s.peer }

def mapRecord (s : Stage) (f : Record → Record) : Stage :=
  s.mapPeer fun p => { p with record := f p.record }

def mapScript (s : Stage) (f : Script → Script) : Stage :=
  s.mapPeer fun p => { p with script := f p.script }

def mapBackdrop (s : Stage) (f : Backdrop → Backdrop) : Stage :=
  { s with backdrop := f s.backdrop }

def count (s : Stage) (c : Counter) (n : Nat) : Stage :=
  s.mapBackdrop fun b => { b with metrics := b.metrics.add c n }

/-- Leaves work for the background. -/
def leave (s : Stage) (e : Errand) : Stage :=
  s.mapPeer fun p => { p with errands := p.errands ++ [e] }

def freshId (s : Stage) : String × Stage :=
  let (id, ids) := s.backdrop.ids.fresh
  (id, s.mapBackdrop fun b => { b with ids })

def now (s : Stage) : Instant := ⟨s.peer.clock, 0⟩

/-! ## The store -/

/-- The job with the time of a write as the time of its last move. -/
def stamp (s : Stage) (job : Job) : Job :=
  { job with stateTimestamp := s.now }

/-- The stage with another table, one tick later. -/
def written (s : Stage) (t : Store.Table) : Stage :=
  s.mapPeer fun p => { p with table := t, clock := p.clock + 1 }

/-- Carries out a call of the store, where each write is later than the one
before it. -/
def performCall (s : Stage) : (c : Store.Call) → Except JobError c.Answer × Stage
  | .create job =>
    let (r, t) := (Store.Call.create (s.stamp job)).perform s.peer.table
    (r, s.written t)
  | .update job =>
    let (r, t) := (Store.Call.update (s.stamp job)).perform s.peer.table
    (r, s.written t)
  | .updateIfState job expected =>
    let (r, t) := (Store.Call.updateIfState (s.stamp job) expected).perform s.peer.table
    (r, s.written t)
  | .get id => (s.peer.table.get id, s)
  | .findId c => (s.peer.table.findId c, s)
  | .next state limit => (s.peer.table.next state limit, s)
  | .count state => (.ok (s.peer.table.count state), s)

/-- A call of the store, which may be told to go wrong. -/
def callStore (s : Stage) (c : Store.Call) : Except JobError c.Answer × Stage :=
  match s.peer.faults.takeFirst (Faults.kindsOf c) with
  | (some kind, faults) => (Faults.answer kind c, s.mapPeer fun p => { p with faults })
  | (none, _) => s.performCall c

/-- Loads a job, moves it and stores it. -/
def moveJob (s : Stage) (id : String) (f : Job → Instant → Except JobError Job) :
    Except JobError Unit × Stage :=
  match s.callStore (.get id) with
  | (.error e, s) => (.error e, s)
  | (.ok none, s) => (.error (.notFound id), s)
  | (.ok (some job), s) =>
    match f job s.now with
    | .error e => (.error e, s)
    | .ok job => s.callStore (.update job)

/-! ## Collaborators -/

/-- The resources that a prompt provisioner makes. -/
def promptResources (s : Stage) : List ResourceDefinition → List ProvisionedResource × Stage
  | [] => ([], s)
  | d :: rest =>
    let (id, s) := s.freshId
    let (more, s) := s.promptResources rest
    ((ProvisionedResource.destinationFor id d).withProperty "mock" "true" :: more, s)

/-- A provisioner that only writes down what it was asked. -/
def pretendToProvision (s : Stage) (job : Job) (prompt : Bool) (open_ : Bool) :
    Except ProvisionError Unit × Stage :=
  let s := s.mapRecord fun r => { r with provisions := r.provisions ++ [job] }
  match s.peer.script.provisionErrors with
  | e :: rest => (.error e, s.mapScript fun c => { c with provisionErrors := rest })
  | [] =>
    if !open_ then (.error .channelClosed, s)
    else if prompt then
      let (resources, s) := s.promptResources ((job.manifest.getD {}).definitions)
      (.ok (), s.leave (.record ⟨job.id, .provisioned resources⟩))
    else (.ok (), s)

def provision (s : Stage) (job : Job) : Except ProvisionError Unit × Stage :=
  match s.peer.provisioner with
  | .silent => s.pretendToProvision job false true
  | .prompt => s.pretendToProvision job true true
  | .closed => s.pretendToProvision job true false
  | .directories root =>
    match Provision.targets root job.id (job.manifest.getD {}) with
    | .error e => (.error e, s)
    | .ok targets => (.ok (), s.leave (.makeDirectories job.id targets))

/-- Sends a request; the state in which the store has the job is written down. -/
def send (s : Stage) (request : TransferRequest) (processId : String) :
    Except DispatchError Unit × Stage :=
  let s :=
    if 0 < s.peer.script.acknowledgeDuringSend then
      let s := s.mapScript fun c => { c with acknowledgeDuringSend := c.acknowledgeDuringSend - 1 }
      (s.moveJob processId fun job now => job.acknowledged now).2
    else s
  let (found, s) := s.callStore (.get processId)
  let state := match found with
    | .ok (some job) => some job.state
    | _ => none
  let s := s.mapRecord fun r => { r with sends := r.sends ++ [(request, processId, state)] }
  match s.peer.script.dispatchErrors with
  | cause :: rest =>
    (.error (.transport cause), s.mapScript fun c => { c with dispatchErrors := rest })
  | [] => (.ok (), s)

/-- A flow that has ended before it is said to have started. -/
def finishEarly (s : Stage) (request : TransferRequest) : Stage :=
  match s.peer.table.findId request.id with
  | .ok (some id) =>
    (s.moveJob id fun job now => do
      let job ← job.executing now
      job.completed now).2
  | _ => s

def startFlow (s : Stage) (request : TransferRequest) : FlowOutcome × Stage :=
  match s.peer.flow with
  | .scripted outcomes =>
    let s := s.mapRecord fun r => { r with flows := r.flows ++ [request] }
    let s :=
      if 0 < s.peer.script.finishFirst then
        (s.mapScript fun c => { c with finishFirst := c.finishFirst - 1 }).finishEarly request
      else s
    match outcomes with
    | [] => (.ok, s)
    | o :: rest => (o, s.mapPeer fun p => { p with flow := .scripted rest })
  | .files flow =>
    let controller : FlowController Stage :=
      { name := FileFlow.controllerName, canHandle := FileFlow.canHandle,
        initiate := fun request s =>
          match flow.initiate s.backdrop.tree request with
          | (outcome, some copy) => (outcome, s.leave (.copy copy))
          | (outcome, none) => (outcome, s) }
    FlowController.initiateFirst [controller] request s

def checkerAnswer (s : Stage) : CheckerKind → ProvisionedResource → Bool
  | .scripted, _ => s.peer.script.complete
  | .marker, r => hasMarker s.backdrop.tree r

/-- Asks the checkers about a job. -/
def isComplete (s : Stage) (job : Job) : Bool × Stage :=
  let found := s.peer.checkers.poll s.checkerAnswer job s.backdrop.metrics
  let s := s.mapBackdrop fun b => { b with metrics := found.metrics }
  let scripted := found.asked.countP fun q => q.1 == .scripted
  (found.complete, s.mapRecord fun r => { r with checks := r.checks + scripted })

/-! ## Replies -/

/-- Replies to the calls of an operation; `wanted` says whether the worker is to
go on. -/
def reply (wanted : Stage → Bool) : (c : Request) → Stage → c.Reply × Stage
  | .store c, s => s.callStore c
  | .provision job, s => s.provision job
  | .send request processId, s => s.send request processId
  | .acknowledge address processId, s => ((), s.leave (.acknowledge address processId))
  | .startFlow request, s => s.startFlow request
  | .isComplete job, s => s.isComplete job
  | .now, s => (s.now, s)
  | .freshId, s => s.freshId
  | .count c n, s => ((), s.count c n)
  | .isRunning, s => (wanted s, s)
  | .overflow, s => ((), s)

/-- Arithmetic is checked here. -/
def panics : Request → Bool
  | .overflow => true
  | _ => false

/-- What is heard of an operation that has panicked. -/
def panicked : OrchestratorError :=
  .worker "attempt to add with overflow"

/-- Carries out an operation up to its end or to a panic. -/
def carryOut {α : Type} (s : Stage) (wanted : Stage → Bool) (op : Operation α) :
    Option (Except OrchestratorError α) × Stage :=
  Program.runUntil (S := operationSignature) panics (reply wanted) op.run s

/-- Carries out an operation that no worker waits for. -/
def perform {α : Type} (s : Stage) (op : Operation α) : Except OrchestratorError α × Stage :=
  let (result, s) := s.carryOut (fun _ => true) op
  (result.getD (.error panicked), s)

/-! ## The background -/

/-- The most rounds in which the end of a flow is tried to be stored. -/
def finishRounds : Nat := 1000

/-- Does one piece of work. -/
def doErrand (s : Stage) : Errand → Stage
  | .record response => (s.perform (applyResponse response)).2
  | .makeDirectories jobId targets =>
    let (outcome, tree, ids) := Provision.makeAll s.backdrop.tree s.backdrop.ids targets
    (s.mapBackdrop fun b => { b with tree, ids }).leave (.record ⟨jobId, outcome⟩)
  | .copy copy =>
    let (result, tree) := copy.run s.backdrop.tree
    let s := s.mapBackdrop fun b => { b with tree }
    let failure := match result with
      | .ok () => none
      | .error e => some (copy.failure e)
    (s.perform (Flow.finish copy.correlationId failure finishRounds)).2
  | .acknowledge address processId =>
    s.mapRecord fun r => { r with acknowledgments := r.acknowledgments ++ [(address, processId)] }

/-- Does the work of the background in order, for as long as there is some. An
errand leaves at most one other, which leaves none. -/
def settle : (rounds : Nat) → Stage → Stage
  | 0, s => s
  | n + 1, s =>
    match s.peer.errands with
    | [] => s
    | errands => settle n (errands.foldl doErrand (s.mapPeer fun p => { p with errands := [] }))

/-- Waits until the background has nothing left to do. -/
def quiet (s : Stage) : Stage :=
  s.settle 3

end Stage

end Ferry.Rehearsal
