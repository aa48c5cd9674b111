import Ferry.Properties

/-!
# Transfer requests

What one peer asks of another: the asset to move, where it is to go, and how
the other side is reached.
-/

namespace Ferry

/-- The kind of address and of resource that is a directory on this machine. -/
def localDirectory : String := "local_directory"

/-- A place data can go to, described by a kind and properties of that kind. -/
structure DataAddress where
  kind : String
  properties : Properties := .empty
deriving DecidableEq, Inhabited

/-- A request to transfer an asset. Its `id` correlates the jobs of both peers. -/
structure TransferRequest where
  id : String
  connectorAddress : String := ""
  protocol : String := ""
  assetId : String := ""
  destination : DataAddress
  managedResources : Bool := true
  properties : Properties := .empty
deriving DecidableEq, Inhabited

end Ferry
