import Ferry.Job.Basic

/-!
# What a job needs

An initiator needs a directory to receive the data in, if the data is to go
to a directory here and it is this side that manages it. An executor needs a
directory only if the request names one to stage the data in.
-/

namespace Ferry.ResourceManifest

/-- One directory of a name. -/
def oneDirectory (definitionId name : String) : ResourceManifest :=
  ⟨[{ id := definitionId, kind := localDirectory,
      properties := Properties.empty.insert "name" name }]⟩

/-- The directory data is received in, named by the destination or else after
the asset. -/
def toReceive (r : TransferRequest) (definitionId : String) : ResourceManifest :=
  if r.destination.kind = localDirectory then
    oneDirectory definitionId ((r.destination.properties.get? "name").getD r.assetId)
  else {}

/-- The directory data is staged in, if the request names one. -/
def toExecute (r : TransferRequest) (definitionId : String) : ResourceManifest :=
  match r.properties.get? "staging" with
  | some name => oneDirectory definitionId name
  | none => {}

/-- What has to be provisioned for a job. -/
def forJob (job : Job) (definitionId : String) : ResourceManifest :=
  match job.role with
  | .initiator =>
    if job.request.managedResources then toReceive job.request definitionId else {}
  | .executor => toExecute job.request definitionId

end Ferry.ResourceManifest
