import Ferry.File.Tree
import Ferry.Job.Request

/-!
# Fixtures

Requests and trees to rehearse with.
-/

namespace Ferry.Rehearsal

/-- A request for a transfer into a directory that the destination names. -/
def inboundRequest (id : String) : TransferRequest where
  id
  assetId := "asset-1"
  destination := ⟨localDirectory, Properties.empty.insert "path" "/tmp/courier-test"⟩

/-- A request to send to a peer that makes its own resources. -/
def outboundRequest (id : String) : TransferRequest where
  id
  connectorAddress := "http://peer.example:8080"
  protocol := "http"
  assetId := "asset-1"
  destination := ⟨localDirectory, .empty⟩
  managedResources := false

/-- A tree with a place to work in and little else. -/
def bareTree (scratch : File.Location) : File.Tree where
  entries := [(scratch, .directory), (["tmp"], .directory), (["etc"], .directory),
    (["etc", "passwd"], .file ""), (["work"], .directory)]
  workingDirectory := ["work"]

end Ferry.Rehearsal
