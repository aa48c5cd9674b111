import Ferry.Config.Basic
import Ferry.Json.Record
import Ferry.Width

/-!
# The configuration as a document

Every field may be left out, and so may every part.
-/

namespace Ferry.Config

open Json

def Server.toJson (s : Server) : Json :=
  .obj [("host", .str s.host.print), ("port", .nat s.port)]

def Server.shape : Shape Server :=
  .field Net.IpAddress "host" (readParsed Net.IpAddress.parse?) (.defaulted ({} : Server).host) <|
  .field Nat "port" (readBelow Width.bound16) (.defaulted ({} : Server).port) <|
  .done fun port host => ⟨host, port⟩

def Database.toJson (d : Database) : Json :=
  .obj [("path", .str d.path)]

def Database.shape : Shape Database :=
  .field String "path" readString (.defaulted ({} : Database).path) <|
  .done fun path => ⟨path⟩

def Orchestrator.toJson (o : Orchestrator) : Json :=
  .obj [("enabled", .bool o.enabled), ("batch_size", .nat o.batchSize),
    ("idle_wait_ms", .nat o.idleWait), ("error_wait_ms", .nat o.errorWait),
    ("max_error_wait_ms", .nat o.maxErrorWait), ("max_flow_retries", .nat o.maxFlowRetries)]

def Orchestrator.shape : Shape Orchestrator :=
  .field Bool "enabled" readBool (.defaulted ({} : Orchestrator).enabled) <|
  .field Nat "batch_size" (readBelow Width.bound64) (.defaulted ({} : Orchestrator).batchSize) <|
  .field Nat "idle_wait_ms" (readBelow Width.bound64) (.defaulted ({} : Orchestrator).idleWait) <|
  .field Nat "error_wait_ms" (readBelow Width.bound64) (.defaulted ({} : Orchestrator).errorWait) <|
  .field Nat "max_error_wait_ms" (readBelow Width.bound64)
    (.defaulted ({} : Orchestrator).maxErrorWait) <|
  .field Nat "max_flow_retries" (readBelow Width.bound32)
    (.defaulted ({} : Orchestrator).maxFlowRetries) <|
  .done fun retries maxError error idle batch enabled =>
    ⟨enabled, batch, idle, error, maxError, retries⟩

def Orchestrator.read : Reader Orchestrator := Orchestrator.shape.read

def Provisioning.toJson (p : Provisioning) : Json :=
  .obj [("root_dir", .str p.rootDirectory), ("channel_buffer", .nat p.channelBuffer)]

def Provisioning.shape : Shape Provisioning :=
  .field String "root_dir" readString (.defaulted ({} : Provisioning).rootDirectory) <|
  .field Nat "channel_buffer" (readBelow Width.bound64)
    (.defaulted ({} : Provisioning).channelBuffer) <|
  .done fun buffer root => ⟨root, buffer⟩

def Dispatch.toJson (d : Dispatch) : Json :=
  .obj [("timeout_secs", .nat d.timeout),
    ("callback_address", match d.callbackAddress with
      | none => .null
      | some a => .str a)]

def Dispatch.shape : Shape Dispatch :=
  .field Nat "timeout_secs" (readBelow Width.bound64) (.defaulted ({} : Dispatch).timeout) <|
  .field (Option String) "callback_address" (readOption readString) (.defaulted none) <|
  .done fun callback timeout => ⟨timeout, callback⟩

def Flow.toJson (f : Flow) : Json :=
  .obj [("enabled", .bool f.enabled), ("source_root", .str f.sourceRoot),
    ("destination_root", .str f.destinationRoot)]

def Flow.shape : Shape Flow :=
  .field Bool "enabled" readBool (.defaulted ({} : Flow).enabled) <|
  .field String "source_root" readString (.defaulted ({} : Flow).sourceRoot) <|
  .field String "destination_root" readString (.defaulted ({} : Flow).destinationRoot) <|
  .done fun destination source enabled => ⟨enabled, source, destination⟩

def toJson (c : Config) : Json :=
  .obj [("server", c.server.toJson), ("database", c.database.toJson),
    ("orchestrator", c.orchestrator.toJson), ("provisioning", c.provisioning.toJson),
    ("dispatch", c.dispatch.toJson), ("flow", c.flow.toJson)]

/-- The shape of a configuration, where `readPart` reads its parts. -/
def shape (readPart : {α : Type} → Shape α → Reader α) : Shape Config :=
  .field Server "server" (readPart Server.shape) (.defaulted {}) <|
  .field Database "database" (readPart Database.shape) (.defaulted {}) <|
  .field Orchestrator "orchestrator" (readPart Orchestrator.shape) (.defaulted {}) <|
  .field Provisioning "provisioning" (readPart Provisioning.shape) (.defaulted {}) <|
  .field Dispatch "dispatch" (readPart Dispatch.shape) (.defaulted {}) <|
  .field Flow "flow" (readPart Flow.shape) (.defaulted {}) <|
  .done fun flow dispatch provisioning orchestrator database server =>
    ⟨server, database, orchestrator, provisioning, dispatch, flow⟩

/-- Reads a configuration that was written as JSON. -/
def read : Reader Config := (shape Shape.read).read

/-- Reads a configuration of another source, where an array in the place of a part
may be too long. -/
def readLoose : Reader Config := (shape Shape.readLoose).readLoose

end Ferry.Config
