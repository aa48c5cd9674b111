import Ferry.Job.Basic
import Ferry.Json.Record
import Ferry.Time.Rfc3339
import Ferry.Width

/-!
# Jobs and their parts as JSON

A writer and a reader for each record. Writers leave out empty property maps
and write every other field; readers accept a record without the fields that
have a default.
-/

namespace Ferry

open Json Time

def Properties.toJson (p : Properties) : Json :=
  .obj (p.entries.map fun e => (e.1, .str e.2))

/-- The field of a property map, left out when the map is empty. -/
def Properties.field (p : Properties) : List (String × Json) :=
  if p.isEmpty then [] else [("properties", p.toJson)]

/-- A value or `null`. -/
def Json.ofOption {α : Type} (toJson : α → Json) : Option α → Json
  | none => .null
  | some a => toJson a

def Role.toJson (r : Role) : Json := .str r.name

def Role.read : Reader Role := readName Role.ofName?

def JobState.toJson (s : JobState) : Json := .str s.name

def JobState.read : Reader JobState := readName JobState.ofName?

/-! ## Requests -/

def DataAddress.toJson (a : DataAddress) : Json :=
  .obj (("kind", .str a.kind) :: a.properties.field)

def DataAddress.shape : Shape DataAddress :=
  .field String "kind" readString .required <|
  .field Properties "properties" readProperties (.defaulted .empty) <|
  .done fun properties kind => ⟨kind, properties⟩

def DataAddress.read : Reader DataAddress := DataAddress.shape.read

def TransferRequest.toJson (r : TransferRequest) : Json :=
  .obj ([("id", .str r.id), ("connector_address", .str r.connectorAddress),
    ("protocol", .str r.protocol), ("asset_id", .str r.assetId),
    ("destination", r.destination.toJson),
    ("managed_resources", .bool r.managedResources)] ++ r.properties.field)

def TransferRequest.shape : Shape TransferRequest :=
  .field String "id" readString .required <|
  .field String "connector_address" readString (.defaulted "") <|
  .field String "protocol" readString (.defaulted "") <|
  .field String "asset_id" readString (.defaulted "") <|
  .field DataAddress "destination" DataAddress.read .required <|
  .field Bool "managed_resources" readBool (.defaulted true) <|
  .field Properties "properties" readProperties (.defaulted .empty) <|
  .done fun properties managed destination asset protocol connector id =>
    ⟨id, connector, protocol, asset, destination, managed, properties⟩

def TransferRequest.read : Reader TransferRequest := TransferRequest.shape.read

/-! ## Resources -/

def ResourceDefinition.toJson (d : ResourceDefinition) : Json :=
  .obj ([("id", .str d.id), ("kind", .str d.kind)] ++ d.properties.field)

def ResourceDefinition.shape : Shape ResourceDefinition :=
  .field String "id" readString .required <|
  .field String "kind" readString .required <|
  .field Properties "properties" readProperties (.defaulted .empty) <|
  .done fun properties kind id => ⟨id, kind, properties⟩

def ResourceDefinition.read : Reader ResourceDefinition := ResourceDefinition.shape.read

def ResourceManifest.toJson (m : ResourceManifest) : Json :=
  .obj [("definitions", .arr (m.definitions.map ResourceDefinition.toJson))]

def ResourceManifest.shape : Shape ResourceManifest :=
  .field (List ResourceDefinition) "definitions" (readList ResourceDefinition.read)
    (.defaulted []) <|
  .done fun definitions => ⟨definitions⟩

def ResourceManifest.read : Reader ResourceManifest := ResourceManifest.shape.read

def ProvisionedResource.toJson (r : ProvisionedResource) : Json :=
  .obj ([("id", .str r.id), ("resource_definition_id", .str r.definitionId),
    ("kind", .str r.kind), ("is_destination", .bool r.isDestination)] ++ r.properties.field)

def ProvisionedResource.shape : Shape ProvisionedResource :=
  .field String "id" readString .required <|
  .field String "resource_definition_id" readString .required <|
  .field String "kind" readString .required <|
  .field Bool "is_destination" readBool (.defaulted false) <|
  .field Properties "properties" readProperties (.defaulted .empty) <|
  .done fun properties isDestination kind definition id =>
    ⟨id, definition, kind, isDestination, properties⟩

def ProvisionedResource.read : Reader ProvisionedResource := ProvisionedResource.shape.read

/-- The resources of a job as a record of their own. -/
def resourceSetToJson (resources : List ProvisionedResource) : Json :=
  .obj [("resources", .arr (resources.map ProvisionedResource.toJson))]

def resourceSetShape : Shape (List ProvisionedResource) :=
  .field (List ProvisionedResource) "resources" (readList ProvisionedResource.read)
    (.defaulted []) <|
  .done fun resources => resources

def readResourceSet : Reader (List ProvisionedResource) := resourceSetShape.read

/-! ## Jobs -/

def timeToJson (t : Instant) : Json := .str t.toZulu

def readTime : Reader Instant := readParsed parseLenient?

def Job.toJson (j : Job) : Json :=
  .obj [("id", .str j.id), ("correlation_id", .str j.correlationId), ("role", j.role.toJson),
    ("state", j.state.toJson), ("request", j.request.toJson),
    ("manifest", .ofOption ResourceManifest.toJson j.manifest),
    ("provisioned_resources", resourceSetToJson j.resources),
    ("error_detail", .ofOption .str j.errorDetail), ("retry_count", .nat j.retryCount.toNat),
    ("created_at", timeToJson j.createdAt),
    ("state_timestamp", timeToJson j.stateTimestamp)]

def Job.shape : Shape Job :=
  .field String "id" readString .required <|
  .field String "correlation_id" readString .required <|
  .field Role "role" Role.read .required <|
  .field JobState "state" JobState.read .required <|
  .field TransferRequest "request" TransferRequest.read .required <|
  .field (Option ResourceManifest) "manifest" (readOption ResourceManifest.read) .optional <|
  .field (List ProvisionedResource) "provisioned_resources" readResourceSet (.defaulted []) <|
  .field (Option String) "error_detail" (readOption readString) .optional <|
  .field Nat "retry_count" (readBelow Width.bound32) (.defaulted 0) <|
  .field Instant "created_at" readTime .required <|
  .field Instant "state_timestamp" readTime .required <|
  .done fun stateTimestamp createdAt retryCount errorDetail resources manifest request state role
      correlationId id =>
    ⟨id, correlationId, role, state, request, manifest, resources, errorDetail,
      UInt32.ofNat retryCount, createdAt, stateTimestamp⟩

def Job.read : Reader Job := Job.shape.read

/-- The job as it is shown to clients: its resources as a plain list, and times
with a numeric offset. -/
def Job.toView (j : Job) : Json :=
  .obj [("id", .str j.id), ("correlation_id", .str j.correlationId), ("role", j.role.toJson),
    ("state", j.state.toJson), ("request", j.request.toJson),
    ("manifest", .ofOption ResourceManifest.toJson j.manifest),
    ("provisioned_resources", .arr (j.resources.map ProvisionedResource.toJson)),
    ("error_detail", .ofOption .str j.errorDetail), ("retry_count", .nat j.retryCount.toNat),
    ("created_at", .str j.createdAt.toOffset), ("state_timestamp", .str j.stateTimestamp.toOffset)]

end Ferry
