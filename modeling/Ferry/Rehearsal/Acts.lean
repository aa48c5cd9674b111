import Ferry.Orchestrator.Cycle
import Ferry.Orchestrator.Status
import Ferry.Rehearsal.Stage

/-!
# Acts

What can be done on the stage from outside: the operations of a peer, its
worker, and the hands of the director.
-/

namespace Ferry.Rehearsal

open Time (Instant)

namespace Stage

/-! ## Operations -/

/-- A cycle that no worker runs. -/
def runCycle (s : Stage) : Except OrchestratorError CycleReport × Stage :=
  s.perform (cycle s.peer.config.orchestrator)

/-- Cycles one after the other, with time for the background after each. -/
def runCycles (s : Stage) : Nat → List (Except OrchestratorError CycleReport) × Stage
  | 0 => ([], s)
  | n + 1 =>
    let (r, s) := s.runCycle
    let (more, s) := s.quiet.runCycles n
    (r :: more, s)

/-- The number of jobs in a state, if it can be told. -/
def countState (s : Stage) (state : JobState) : Option Nat × Stage :=
  match s.callStore (.count state) with
  | (.ok n, s) => (some n, s)
  | (.error _, s) => (none, s)

def countStates (s : Stage) : List JobState → List (String × Nat) × Stage
  | [] => ([], s)
  | state :: rest =>
    let (n, s) := s.countState state
    let (more, s) := s.countStates rest
    (match n with
      | some n => (state.name, n) :: more
      | none => more, s)

def status (s : Stage) : OrchestratorStatus × Stage :=
  let (jobs, s) := s.countStates JobState.all
  (⟨s.peer.running, jobs⟩, s)

/-! ## The worker -/

/-- Replies to the calls of a worker that does not sleep. The background works
while a cycle is over. A cycle that panics gives no reply. -/
def replyWorker : (c : Worker.Request) → Stage → Option c.Reply × Stage
  | .isRunning, s => (some s.peer.running, s)
  | .cycle, s =>
    let (result, s) :=
      s.carryOut (fun s => s.peer.running) (cycle s.peer.config.orchestrator)
    (result, s.quiet)
  | .succeeded, s =>
    (some (), s.mapPeer fun p =>
      { p with waits := { p.waits with success := p.waits.success + 1 } })
  | .idleDelay, s =>
    (some (600000 : Nat), s.mapPeer fun p =>
      { p with waits := { p.waits with idle := p.waits.idle + 1 } })
  | .errorDelay, s =>
    (some (0 : Nat), s.mapPeer fun p =>
      { p with waits := { p.waits with error := p.waits.error + 1 } })
  | .sleep _, s => (some true, s)
  | .countError fatal, s => (some (), s.count (.cycleErrors fatal) 1)
  | .clearRunning, s => (some (), s.mapPeer fun p => { p with running := false })

/-- Runs a worker until it ends or falls into a sleep of some length. A panic takes the worker
with it, and nobody says that it no longer runs. -/
def drive : Worker.Task (Option Worker.Exit) → Stage → WorkerStatus × Stage
  | .done exit, s => (.ended (exit.getD (.ok ())), s)
  | .call (.sleep (_ + 1)) next, s => (.asleep next, s)
  | .call c next, s =>
    match replyWorker c s with
    | (some r, s) => drive (next r) s
    | (none, s) => (.ended (.error panicked), s)

/-- The most cycles of one worker. -/
def workerCycles : Nat := 100000

def setWorker (s : Stage) (handle : Supervisor.Handle) (w : WorkerStatus) : Stage :=
  s.mapPeer fun p =>
    { p with workers := p.workers.map fun e => if e.1 = handle then (handle, w) else e }

/-- Lets all workers that are ready run. -/
def driveAll (s : Stage) : Stage :=
  s.peer.workers.foldl (fun s e =>
    match e.2 with
    | .ready task =>
      let (w, s) := drive task s
      s.setWorker e.1 w
    | _ => s) s

/-- How a worker ends, when it is waited for. -/
def exitOf (s : Stage) (handle : Supervisor.Handle) : Worker.Exit × Stage :=
  let s := s.driveAll
  match s.peer.workers.find? fun e => e.1 = handle with
  | some (_, .ended exit) => (exit, s)
  | _ => (.ok (), s)

/-- Replies to the calls of a supervisor that nobody else disturbs. -/
def replySupervisor : (c : Supervisor.Request) → Stage → c.Reply × Stage
  | .lock, s => ((), s)
  | .unlock, s => ((), s)
  | .swapRunning value, s => (s.peer.running, s.mapPeer fun p => { p with running := value })
  | .takeHandle, s => (s.peer.handle, s.mapPeer fun p => { p with handle := none })
  | .spawn, s =>
    ((), s.mapPeer fun p =>
      { p with
        handle := some p.workers.length,
        workers := p.workers ++ [(p.workers.length, .ready (Worker.work workerCycles))] })
  | .interrupt, s =>
    ((), s.mapPeer fun p =>
      { p with workers := p.workers.map fun e =>
          match e.2 with
          | .asleep wake => (e.1, .ready (wake false))
          | _ => e })
  | .await handle, s => s.exitOf handle

def supervise {α : Type} (s : Stage) (task : Supervisor.Task α) : α × Stage :=
  let (a, s) := Program.run (S := Supervisor.signature) replySupervisor task s
  (a, s.driveAll)

/-- Puts a new orchestrator into the place of the old one. -/
def restart (s : Stage) : Stage :=
  s.mapPeer fun p => { p with running := false, workers := [], handle := none }

/-! ## The hands of the director -/

/-- Stores a job. -/
def inject (s : Stage) (job : Job) : Except JobError Unit × Stage :=
  s.callStore (.create job)

/-- Lets an outcome of provisioning arrive. -/
def publish (s : Stage) (response : ProvisionResponse) : Stage :=
  s.leave (.record response)

/-- The jobs of the store, past all faults, in the order of their correlation ids. -/
def jobs (s : Stage) : List Job :=
  (s.peer.table.rows.filterMap Store.Row.toJob?).mergeSort
    fun a b => a.correlationId ≤ b.correlationId

/-- The jobs of a queue, past all faults. -/
def queue (s : Stage) (state : JobState) : List Job :=
  (s.peer.table.queue state).filterMap Store.Row.toJob?

def jobOf? (s : Stage) (correlationId : String) : Option Job :=
  s.jobs.find? fun job => job.correlationId == correlationId

end Stage

end Ferry.Rehearsal
