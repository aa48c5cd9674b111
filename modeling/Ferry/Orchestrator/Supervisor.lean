import Ferry.Orchestrator.Worker

/-!
# Starting and stopping the worker

A flag says that a worker is wanted, and a handle behind a lock stands for the
worker there is. Whoever starts a worker holds the lock while an earlier one
ends, and whoever stops it takes the handle away before waiting, so that each
worker is waited for by one caller only.
-/

namespace Ferry

namespace Supervisor

/-- A worker, by the number it was started under. -/
abbrev Handle := Nat

inductive Request where
  /-- Takes the lock; the reply comes when nobody else has it. -/
  | lock
  | unlock
  /-- Sets the flag; the reply is what it was. -/
  | swapRunning (value : Bool)
  /-- Takes the handle away. -/
  | takeHandle
  /-- Starts a worker that hears later orders to stop, and keeps its handle. -/
  | spawn
  /-- Interrupts the sleep of every worker that is there. -/
  | interrupt
  /-- Waits until a worker has ended. -/
  | await (handle : Handle)

abbrev Request.Reply : Request → Type
  | lock => Unit
  | unlock => Unit
  | swapRunning _ => Bool
  | takeHandle => Option Handle
  | spawn => Unit
  | interrupt => Unit
  | await _ => Worker.Exit

def signature : Signature := ⟨Request, Request.Reply⟩

abbrev Task (α : Type) := Program signature α

def ask (c : Request) : Task c.Reply :=
  Program.ask (S := signature) c

/-- Waits for a worker, if there is one. -/
def awaitIfAny : Option Handle → Task Unit
  | none => pure ()
  | some handle => do
    let _ ← ask (.await handle)
    pure ()

/-- Starts a worker unless one is wanted already. -/
def start : Task Unit := do
  ask .lock
  if ← ask (.swapRunning true) then
    ask .unlock
  else
    awaitIfAny (← ask .takeHandle)
    ask .spawn
    ask .unlock

/-- Stops the worker and waits until it has ended. -/
def stop : Task Unit := do
  let wasRunning ← ask (.swapRunning false)
  ask .lock
  let handle ← ask .takeHandle
  ask .unlock
  if !wasRunning && handle.isNone then
    pure ()
  else
    ask .interrupt
    awaitIfAny handle

/-- Waits until the worker has ended by itself. -/
def join : Task Worker.Exit := do
  ask .lock
  let handle ← ask .takeHandle
  ask .unlock
  match handle with
  | none => pure (.ok ())
  | some handle => ask (.await handle)

end Supervisor

end Ferry
