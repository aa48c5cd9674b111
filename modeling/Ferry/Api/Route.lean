import Ferry.Api.Body
import Ferry.Api.Response
import Ferry.Dispatch.Inbound
import Ferry.Json.Parser
import Ferry.Net.MediaType
import Ferry.Net.Percent
import Ferry.Width

/-!
# Routes

Which resource a path names, which methods it knows, and what a request to it
asks for. A request that asks for nothing gets its refusal here.
-/

namespace Ferry.Api

open Net

/-- The resources; an id is still written as it is in the path. -/
inductive Route where
  | health
  | config
  | metrics
  | transfers
  | inbound
  | transfer (id : String)
  | acknowledge (id : String)
  | status
  | start
  | stop
deriving DecidableEq, Repr

namespace Route

/-- The resource of a path, given by its segments. -/
def ofSegments? : List String → Option Route
  | ["", "api", "v1", "health"] => some .health
  | ["", "api", "v1", "config"] => some .config
  | ["", "api", "v1", "metrics"] => some .metrics
  | ["", "api", "v1", "transfers"] => some .transfers
  | ["", "api", "v1", "transfers", "inbound"] => some .inbound
  | ["", "api", "v1", "transfers", id] => if id = "" then none else some (.transfer id)
  | ["", "api", "v1", "transfers", id, "acknowledge"] =>
    if id = "" then none else some (.acknowledge id)
  | ["", "api", "v1", "orchestrator", "status"] => some .status
  | ["", "api", "v1", "orchestrator", "start"] => some .start
  | ["", "api", "v1", "orchestrator", "stop"] => some .stop
  | _ => none

/-- The resource that a path names. -/
def ofPath? (path : String) : Option Route :=
  ofSegments? ((Percent.splitAll '/' path.toList).map String.ofList)

/-- The path with a word in the place of an id. -/
def template : Route → String
  | health => "/api/v1/health"
  | config => "/api/v1/config"
  | metrics => "/api/v1/metrics"
  | transfers => "/api/v1/transfers"
  | inbound => "/api/v1/transfers/inbound"
  | transfer _ => "/api/v1/transfers/\x7bid\x7d"
  | acknowledge _ => "/api/v1/transfers/\x7bid\x7d/acknowledge"
  | status => "/api/v1/orchestrator/status"
  | start => "/api/v1/orchestrator/start"
  | stop => "/api/v1/orchestrator/stop"

end Route

/-- What a request asks for. -/
inductive Action where
  | health
  | config
  | metrics
  | create (body : NewTransfer)
  | receive (inbound : InboundTransfer)
  | list (stateName : String) (limit : Option Nat)
  | show (id : String)
  | acknowledge (id : String)
  | status
  | start
  | stop

namespace HttpRequest

/-- The target up to a number sign, which begins what is not sent. -/
def sent (r : HttpRequest) : List Char :=
  r.target.toList.takeWhile (· != '#')

/-- The path of the target. -/
def path (r : HttpRequest) : String :=
  String.ofList (r.sent.takeWhile (· != '?'))

/-- The query of the target. -/
def query (r : HttpRequest) : String :=
  String.ofList ((r.sent.dropWhile (· != '?')).drop 1)

/-- Reads the body as a JSON document. It has to be announced as one; a text that
is none is told apart from one of the wrong shape. -/
def readBody {α : Type} (r : HttpRequest) (read : Json.Reader α) : Except Response α :=
  if !(r.contentType.any MediaType.isJson) then .error ⟨415, .empty⟩
  else match Json.readWhole read (Json.readDocument r.body) with
    | .ok a => .ok a
    | .error .malformed => .error ⟨400, .empty⟩
    | .error .mismatch => .error ⟨422, .empty⟩

/-- The only value of a name in a query; none or several are an error. -/
def onlyValue? (pairs : List (String × String)) (name : String) : Option (Option String) :=
  match pairs.filter fun p => p.1 == name with
  | [] => some none
  | [p] => some (some p.2)
  | _ => none

/-- A number of 64 bits in decimal digits, after a plus sign if one likes. -/
def count? (s : String) : Option Nat :=
  let ds := match s.toList with
    | '+' :: ds => ds
    | ds => ds
  let n := ds.foldl (fun n c => n * 10 + (c.toNat - 48)) 0
  if ds.isEmpty || !ds.all Char.isDigit || Width.bound64 ≤ n then none else some n

/-- The state and the limit that a query names. -/
def readListing (r : HttpRequest) : Except Response (String × Option Nat) :=
  let pairs := Percent.queryPairs r.query
  match onlyValue? pairs "state", onlyValue? pairs "limit" with
  | some (some state), some none => .ok (state, none)
  | some (some state), some (some limit) =>
    match count? limit with
    | some n => .ok (state, some n)
    | none => .error ⟨400, .empty⟩
  | _, _ => .error ⟨400, .empty⟩

/-- The id that a segment stands for. -/
def readId (segment : String) : Except Response String :=
  match Percent.decodeSegment? segment with
  | some id => .ok id
  | none => .error ⟨400, .empty⟩

/-- What the request asks of a resource. -/
def action (r : HttpRequest) (route : Route) : Except Response Action :=
  let reads := r.method = "GET" || r.method = "HEAD"
  let posts := r.method = "POST"
  let only (allowed : Bool) (a : Except Response Action) : Except Response Action :=
    if allowed then a else .error ⟨405, .empty⟩
  match route with
  | .health => only reads (.ok .health)
  | .config => only reads (.ok .config)
  | .metrics => only reads (.ok .metrics)
  | .transfers =>
    if posts then (r.readBody NewTransfer.read).map .create
    else only reads (r.readListing.map fun q => .list q.1 q.2)
  | .inbound => only posts ((r.readBody InboundTransfer.read).map .receive)
  | .transfer id => only reads ((readId id).map .show)
  | .acknowledge id => only posts ((readId id).map .acknowledge)
  | .status => only reads (.ok .status)
  | .start => only posts (.ok .start)
  | .stop => only posts (.ok .stop)

end HttpRequest

end Ferry.Api
