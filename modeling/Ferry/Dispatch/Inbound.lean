import Ferry.Job.Codec

/-!
# Transfers received from peers

What a peer posts: its request, the id of its own job, and where it wants to
be told that the request was taken.
-/

namespace Ferry

open Json

structure InboundTransfer where
  request : TransferRequest
  processId : String
  callbackAddress : Option String := none
deriving DecidableEq, Inhabited

namespace InboundTransfer

def toJson (t : InboundTransfer) : Json :=
  .obj ([("request", t.request.toJson), ("process_id", .str t.processId)] ++
    match t.callbackAddress with
    | none => []
    | some a => [("callback_address", .str a)])

def shape : Shape InboundTransfer :=
  .field TransferRequest "request" TransferRequest.read .required <|
  .field String "process_id" readString .required <|
  .field (Option String) "callback_address" (readOption readString) (.defaulted none) <|
  .done fun callback processId request => ⟨request, processId, callback⟩

def read : Reader InboundTransfer := shape.read

end InboundTransfer

end Ferry
