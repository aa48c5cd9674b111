import Ferry.Orchestrator.Error
import Ferry.Orchestrator.Report
import Ferry.Program

/-!
# The worker

The worker runs cycles until it is told to stop or meets a fatal error. After
a cycle with nothing to do and after one that failed it sleeps, and a sleep can
be interrupted by the order to stop.
-/

namespace Ferry

namespace Worker

inductive Request where
  | isRunning
  /-- Runs one cycle. -/
  | cycle
  /-- Tells the wait strategy of a cycle without an error. -/
  | succeeded
  | idleDelay
  | errorDelay
  /-- Sleeps for so many milliseconds; the reply is true if nobody interrupted. -/
  | sleep (delay : Nat)
  /-- Counts a failed cycle. -/
  | countError (fatal : Bool)
  /-- Says that no worker is running. -/
  | clearRunning

abbrev Request.Reply : Request → Type
  | isRunning => Bool
  | cycle => Except OrchestratorError CycleReport
  | succeeded => Unit
  | idleDelay => Nat
  | errorDelay => Nat
  | sleep _ => Bool
  | countError _ => Unit
  | clearRunning => Unit

def signature : Signature := ⟨Request, Request.Reply⟩

abbrev Task (α : Type) := Program signature α

def ask (c : Request) : Task c.Reply :=
  Program.ask (S := signature) c

/-- How a worker ended. -/
abbrev Exit := Except OrchestratorError Unit

/-- The end of a worker. -/
def leave (exit : Exit) : Task (Option Exit) := do
  ask .clearRunning
  pure (some exit)

/-- Sleeps, and goes on unless interrupted. -/
def pause (delay : Nat) (goOn : Task (Option Exit)) : Task (Option Exit) := do
  if ← ask (.sleep delay) then goOn else leave (.ok ())

/-- What comes after a cycle. -/
def settle (result : Except OrchestratorError CycleReport) (goOn : Task (Option Exit)) :
    Task (Option Exit) :=
  match result with
  | .ok report => do
    ask .succeeded
    if report.isIdle then
      let delay ← ask .idleDelay
      pause delay goOn
    else goOn
  | .error e =>
    if e.isFatal then do
      ask (.countError true)
      leave (.error e)
    else do
      ask (.countError false)
      let delay ← ask .errorDelay
      pause delay goOn

/-- At most so many cycles of a worker; the answer is `none` if it would still
go on after them. -/
def work : (cycles : Nat) → Task (Option Exit)
  | 0 => pure none
  | n + 1 => do
    if ← ask .isRunning then
      let result ← ask .cycle
      settle result (work n)
    else leave (.ok ())

end Worker

end Ferry
