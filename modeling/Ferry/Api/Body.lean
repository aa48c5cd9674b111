import Ferry.Job.Codec

/-!
# The body of a request for a transfer
-/

namespace Ferry.Api

open Json

/-- A request and the role that this side is to play. -/
structure NewTransfer where
  role : Role := .initiator
  request : TransferRequest
deriving DecidableEq, Inhabited

namespace NewTransfer

def toJson (t : NewTransfer) : Json :=
  .obj [("role", t.role.toJson), ("request", t.request.toJson)]

def shape : Shape NewTransfer :=
  .field Role "role" Role.read (.defaulted .initiator) <|
  .field TransferRequest "request" TransferRequest.read .required <|
  .done fun request role => ⟨role, request⟩

def read : Reader NewTransfer := shape.read

end NewTransfer

end Ferry.Api
