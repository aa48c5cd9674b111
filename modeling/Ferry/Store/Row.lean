import Ferry.Job.Codec
import Ferry.Json.Parser
import Ferry.Json.Printer
import Ferry.Store.Cell
import Ferry.Width

/-!
# Jobs as rows

A job is one row of eleven columns. The request, the manifest and the
resources are JSON texts, the creation time is a time stamp with all its
nanoseconds, and the time of the last move is a whole number of milliseconds.
Reading a row back can fail, since others may have written to it.
-/

namespace Ferry.Store

open Time (Instant)

/-- The columns of the job table. -/
inductive Column where
  | id
  | correlationId
  | role
  | state
  | request
  | manifest
  | resources
  | errorDetail
  | retryCount
  | createdAt
  | stateTimestamp
deriving DecidableEq, Repr

namespace Column

def all : List Column :=
  [.id, .correlationId, .role, .state, .request, .manifest, .resources, .errorDetail,
   .retryCount, .createdAt, .stateTimestamp]

def name : Column → String
  | .id => "id"
  | .correlationId => "correlation_id"
  | .role => "role"
  | .state => "state"
  | .request => "request"
  | .manifest => "manifest"
  | .resources => "provisioned_resources"
  | .errorDetail => "error_detail"
  | .retryCount => "retry_count"
  | .createdAt => "created_at"
  | .stateTimestamp => "state_timestamp"

def ofName? (s : String) : Option Column :=
  all.find? fun c => c.name == s

def affinity : Column → Affinity
  | .retryCount | .stateTimestamp => .integer
  | _ => .text

/-- The column may be empty. -/
def nullable : Column → Bool
  | .id | .manifest | .errorDetail => true
  | _ => false

/-- No two rows may agree in the column. -/
def unique : Column → Bool
  | .id | .correlationId => true
  | _ => false

end Column

/-- A row is the contents of its columns. -/
structure Row where
  id : Cell
  correlationId : Cell
  role : Cell
  state : Cell
  request : Cell
  manifest : Cell
  resources : Cell
  errorDetail : Cell
  retryCount : Cell
  createdAt : Cell
  stateTimestamp : Cell
deriving DecidableEq, Repr

namespace Row

def get (r : Row) : Column → Cell
  | .id => r.id
  | .correlationId => r.correlationId
  | .role => r.role
  | .state => r.state
  | .request => r.request
  | .manifest => r.manifest
  | .resources => r.resources
  | .errorDetail => r.errorDetail
  | .retryCount => r.retryCount
  | .createdAt => r.createdAt
  | .stateTimestamp => r.stateTimestamp

def set (r : Row) (c : Column) (v : Cell) : Row :=
  match c with
  | .id => { r with id := v }
  | .correlationId => { r with correlationId := v }
  | .role => { r with role := v }
  | .state => { r with state := v }
  | .request => { r with request := v }
  | .manifest => { r with manifest := v }
  | .resources => { r with resources := v }
  | .errorDetail => { r with errorDetail := v }
  | .retryCount => { r with retryCount := v }
  | .createdAt => { r with createdAt := v }
  | .stateTimestamp => { r with stateTimestamp := v }

/-- A text column that may be empty. -/
def optionalText : Option String → Cell
  | none => .null
  | some s => .text s

/-- The row of a job. -/
def ofJob (j : Job) : Row where
  id := .text j.id
  correlationId := .text j.correlationId
  role := .text j.role.name
  state := .text j.state.name
  request := .text j.request.toJson.print
  manifest := optionalText (j.manifest.map fun m => m.toJson.print)
  resources := .text (resourceSetToJson j.resources).print
  errorDetail := optionalText j.errorDetail
  retryCount := .integer j.retryCount.toNat
  createdAt := .text j.createdAt.toOffset
  stateTimestamp := .integer j.stateTimestamp.millis

/-- The row with those columns overwritten that change in the life of a job. -/
def updatedFrom (r : Row) (j : Job) : Row :=
  let new := ofJob j
  { r with
    state := new.state, manifest := new.manifest, resources := new.resources,
    errorDetail := new.errorDetail, retryCount := new.retryCount,
    stateTimestamp := new.stateTimestamp }

/-- The value of a JSON column. -/
def document? {α : Type} (read : Json.Reader α) (text : String) : Option α :=
  (Json.readWhole read (Json.readDocument text)).toOption

/-- The job of a row, unless a column does not hold what it should. -/
def toJob? (r : Row) : Option Job := do
  let id ← r.id.text?
  let correlationId ← r.correlationId.text?
  let role ← r.role.text?.bind Role.ofName?
  let state ← r.state.text?.bind JobState.ofName?
  let request ← r.request.text?.bind (document? TransferRequest.read)
  let manifest ← match (← r.manifest.optionalText?) with
    | none => some none
    | some text => (document? ResourceManifest.read text).map some
  let resources ← r.resources.text?.bind (document? readResourceSet)
  let errorDetail ← r.errorDetail.optionalText?
  let retryCount ← r.retryCount.integer?
  let createdAt ← r.createdAt.text?.bind Time.parse?
  let stateTimestamp ← r.stateTimestamp.integer?.bind Instant.ofMillis?
  if 0 ≤ retryCount && retryCount < Width.bound32 then
    some ⟨id, correlationId, role, state, request, manifest, resources, errorDetail,
      UInt32.ofNat retryCount.toNat, createdAt, stateTimestamp⟩
  else none

end Row

end Ferry.Store
