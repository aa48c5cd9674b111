import Ferry.File.Tree
import Ferry.Ids
import Ferry.Provision.Error
import Ferry.Provision.Response

/-!
# Provisioning directories

Each definition of a manifest becomes one directory below a directory of the
job. All names are looked at before anything is made, so that a manifest with
a bad one leaves no trace.
-/

namespace Ferry.Provision

open File

/-- A definition and the directory to be made for it. -/
structure Target where
  definition : ResourceDefinition
  directory : String
deriving DecidableEq

/-- The name of the directory: the one asked for, or else the definition's id. -/
def directoryName (d : ResourceDefinition) : String :=
  match d.properties.get? "name" with
  | some name => if name.isEmpty then d.id else name
  | none => d.id

/-- The directory of a definition, two levels below the root. -/
def target (root jobId : String) (d : ResourceDefinition) : Except ProvisionError Target :=
  let name := directoryName d
  if isPlainName name then .ok ⟨d, join (join root jobId) name⟩
  else .error (.invalidName name)

/-- The directories of a manifest, unless one of the definitions asks for
something else than a directory of a plain name. -/
def targets (root jobId : String) (manifest : ResourceManifest) :
    Except ProvisionError (List Target) :=
  match manifest.definitions.find? fun d => d.kind != localDirectory with
  | some d => .error (.unsupportedKind d.kind)
  | none => manifest.definitions.mapM (target root jobId)

/-- The resource of a directory that was made. -/
def Target.resource (t : Target) (id : String) : ProvisionedResource :=
  (ProvisionedResource.destinationFor id t.definition).withProperty "path" t.directory

/-- Makes the directories in order and stops at the first that cannot be made. -/
def makeAll : Tree → IdSource → List Target → ProvisionOutcome × Tree × IdSource
  | tree, ids, [] => (.provisioned [], tree, ids)
  | tree, ids, t :: rest =>
    match tree.createAll t.directory with
    | (.error e, tree) =>
      (.failed ("failed to create " ++ t.directory ++ ": " ++ e.message), tree, ids)
    | (.ok (), tree) =>
      let (id, ids) := ids.fresh
      match makeAll tree ids rest with
      | (.provisioned rs, tree, ids) => (.provisioned (t.resource id :: rs), tree, ids)
      | failure => failure

end Ferry.Provision
