import Ferry.Net.IpAddress
import Ferry.Wait

/-!
# Configuration

One record for each part of the program, each field with the value it has when
nothing is configured.
-/

namespace Ferry

namespace Config

/-- Where the interface for clients listens. -/
structure Server where
  host : Net.IpAddress := .v4 [0, 0, 0, 0]
  port : Nat := 8080
deriving DecidableEq, Repr, Inhabited

structure Database where
  path : String := "courier.db"
deriving DecidableEq, Repr, Inhabited

/-- How the worker runs. -/
structure Orchestrator where
  /-- The worker starts with the program. -/
  enabled : Bool := true
  /-- How many jobs of a state are taken up in one phase. -/
  batchSize : Nat := 5
  /-- Milliseconds to sleep after a cycle that found nothing to do. -/
  idleWait : Nat := 5000
  /-- Milliseconds to sleep after a cycle that failed. -/
  errorWait : Nat := 5000
  /-- The most milliseconds to sleep after a failed cycle; with zero the delay
  does not grow. -/
  maxErrorWait : Nat := 0
  /-- How often a data flow is tried again; zero sets no limit. -/
  maxFlowRetries : Nat := 10
deriving DecidableEq, Repr, Inhabited

/-- Where directories are provisioned, and how many outcomes may wait. -/
structure Provisioning where
  rootDirectory : String := "data/provisioned"
  channelBuffer : Nat := 100
deriving DecidableEq, Repr, Inhabited

structure Dispatch where
  /-- Seconds a peer has for an answer. -/
  timeout : Nat := 30
  /-- Where peers acknowledge what they were sent. -/
  callbackAddress : Option String := none
deriving DecidableEq, Repr, Inhabited

/-- Which files may be copied, and where to. -/
structure Flow where
  enabled : Bool := true
  sourceRoot : String := "data/outbox"
  destinationRoot : String := "data/provisioned"
deriving DecidableEq, Repr, Inhabited

/-- How the worker waits. -/
def Orchestrator.waitStrategy (o : Orchestrator) : WaitStrategy :=
  if o.maxErrorWait = 0 then .fixed o.idleWait o.errorWait
  else .exponential o.idleWait o.errorWait o.maxErrorWait

/-- Milliseconds a peer has for an answer. -/
def Dispatch.timeoutMillis (d : Dispatch) : Nat :=
  d.timeout * 1000

end Config

structure Config where
  server : Config.Server := {}
  database : Config.Database := {}
  orchestrator : Config.Orchestrator := {}
  provisioning : Config.Provisioning := {}
  dispatch : Config.Dispatch := {}
  flow : Config.Flow := {}
deriving DecidableEq, Repr, Inhabited

end Ferry
