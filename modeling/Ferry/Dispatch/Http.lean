import Ferry.Dispatch.Error
import Ferry.Dispatch.Inbound
import Ferry.Metrics
import Ferry.Text.Blank

/-!
# Telling peers over HTTP

A request is posted to a peer as an inbound transfer, and an acknowledgment is
posted without a body to an address that names the process. Any status from 200
to 299 is a success.
-/

namespace Ferry

/-- Something to be posted. -/
structure Post where
  url : String
  body : Option Json
deriving Repr

/-- What a peer answered. -/
structure PeerReply where
  status : Nat
  body : String
deriving DecidableEq, Repr

/-- Someone who posts to peers, and where peers are to acknowledge. -/
structure HttpDispatcher where
  callbackAddress : Option String := none
deriving DecidableEq, Repr, Inhabited

namespace HttpDispatcher

/-- Where inbound transfers are posted. -/
def inboundUrl (address : String) : String :=
  Text.dropTrailing '/' address ++ "/api/v1/transfers/inbound"

/-- Where the acknowledgment of a process is posted. -/
def acknowledgeUrl (address processId : String) : String :=
  Text.dropTrailing '/' address ++ "/api/v1/transfers/" ++ processId ++ "/acknowledge"

/-- The post of a request; it needs an address. -/
def requestPost (d : HttpDispatcher) (request : TransferRequest) (processId : String) :
    Except DispatchError Post :=
  if request.connectorAddress.isEmpty then .error (.missingAddress request.id)
  else
    let inbound : InboundTransfer := ⟨request, processId, d.callbackAddress⟩
    .ok ⟨inboundUrl request.connectorAddress, some inbound.toJson⟩

/-- The post of an acknowledgment; it needs an address. -/
def acknowledgePost (address processId : String) : Except DispatchError Post :=
  if address.isEmpty then .error (.missingAddress processId)
  else .ok ⟨acknowledgeUrl address processId, none⟩

/-- The status is that of a success. -/
def isSuccess (status : Nat) : Bool :=
  200 ≤ status && status < 300

/-- What an answer, or the failure to get one, amounts to. -/
def judge : Except String PeerReply → Delivery × Except DispatchError Unit
  | .error cause => (.error, .error (.transport cause))
  | .ok reply =>
    if isSuccess reply.status then (.success, .ok ())
    else (.rejected, .error (.rejected reply.status reply.body))

/-- Makes a post, if there is one to make. The counter of the deliveries says how
it went; a post that lacks an address is not counted. -/
def deliver {σ : Type} (exchange : Post → σ → Except String PeerReply × σ)
    (counter : Delivery → Counter) (post : Except DispatchError Post) (m : Metrics) (s : σ) :
    Except DispatchError Unit × Metrics × σ :=
  match post with
  | .error e => (.error e, m, s)
  | .ok post =>
    let (reply, s) := exchange post s
    let (delivery, result) := judge reply
    (result, m.add (counter delivery) 1, s)

/-- What there is to post goes out as it is, whoever carries it. -/
theorem deliver_ok {σ : Type} (exchange : Post → σ → Except String PeerReply × σ)
    (counter : Delivery → Counter) (post : Post) (m : Metrics) (s : σ) :
    (deliver exchange counter (.ok post) m s).2.2 = (exchange post s).2 :=
  rfl

/-- Sends a request to the peer it names. -/
def send {σ : Type} (d : HttpDispatcher) (exchange : Post → σ → Except String PeerReply × σ)
    (request : TransferRequest) (processId : String) (m : Metrics) (s : σ) :
    Except DispatchError Unit × Metrics × σ :=
  deliver exchange .dispatchRequests (d.requestPost request processId) m s

/-- Acknowledges to the peer at an address. -/
def acknowledge {σ : Type} (exchange : Post → σ → Except String PeerReply × σ)
    (address processId : String) (m : Metrics) (s : σ) :
    Except DispatchError Unit × Metrics × σ :=
  deliver exchange .acknowledgments (acknowledgePost address processId) m s

end HttpDispatcher

end Ferry
