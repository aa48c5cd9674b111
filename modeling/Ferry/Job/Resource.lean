import Ferry.Properties

/-!
# Resources

A manifest lists what has to be provisioned for a job; provisioning answers
with resources, each made for one definition of the manifest.
-/

namespace Ferry

/-- Something to be provisioned. -/
structure ResourceDefinition where
  id : String
  kind : String
  properties : Properties := .empty
deriving DecidableEq, Inhabited

/-- Everything to be provisioned for a job. -/
structure ResourceManifest where
  definitions : List ResourceDefinition := []
deriving DecidableEq, Inhabited

/-- Something that was provisioned. Data is written to destinations. -/
structure ProvisionedResource where
  id : String
  definitionId : String
  kind : String
  isDestination : Bool := false
  properties : Properties := .empty
deriving DecidableEq, Inhabited

namespace ProvisionedResource

/-- The destination made for a definition. -/
def destinationFor (id : String) (d : ResourceDefinition) : ProvisionedResource :=
  { id, definitionId := d.id, kind := d.kind, isDestination := true }

def withProperty (r : ProvisionedResource) (name value : String) : ProvisionedResource :=
  { r with properties := r.properties.insert name value }

end ProvisionedResource

end Ferry
