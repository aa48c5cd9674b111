import Ferry.Json.Record

/-!
# Outcomes of starting a data flow

As a document an outcome is a record of a status and a detail, where a flow
that started has no detail. The two fields may stand in either order, and each
is read as soon as it is known which outcome it belongs to.
-/

namespace Ferry

inductive FlowOutcome where
  /-- The data is moving. -/
  | ok
  /-- The flow may start at another time. -/
  | retry (reason : String)
  /-- The flow can never start. -/
  | fatal (detail : String)
deriving DecidableEq, Repr

/-- What kind of outcome it is. -/
inductive FlowVerdict where
  | ok
  | retry
  | fatal
deriving DecidableEq, Repr

namespace FlowVerdict

def all : List FlowVerdict := [.ok, .retry, .fatal]

def name : FlowVerdict → String
  | ok => "ok"
  | retry => "retry"
  | fatal => "fatal"

def ofName? (s : String) : Option FlowVerdict :=
  all.find? fun v => v.name == s

end FlowVerdict

namespace FlowOutcome

open Json

def verdict : FlowOutcome → FlowVerdict
  | ok => .ok
  | retry _ => .retry
  | fatal _ => .fatal

def detail? : FlowOutcome → Option String
  | ok => none
  | retry reason => some reason
  | fatal detail => some detail

def toJson (o : FlowOutcome) : Json :=
  .obj (("status", .str o.verdict.name) ::
    match o.detail? with
    | none => []
    | some d => [("detail", .str d)])

/-- The outcome of a verdict with the detail as it was written, if it was. -/
def ofDetail (v : FlowVerdict) (detail : Option Draft) : Except Fault FlowOutcome :=
  match v, detail with
  | .ok, none | .ok, some .null => .ok .ok
  | .ok, some d => .error d.unexpected
  | .retry, some d => (readString d).map .retry
  | .fatal, some d => (readString d).map .fatal
  | _, none => .error .mismatch

/-- Reads the fields of an object: each of the two once, others skipped. -/
def readFields : List (Option String × Draft) → Option FlowVerdict → Option Draft →
    Except Fault (Option FlowVerdict × Option Draft)
  | [], verdict, detail => .ok (verdict, detail)
  | (none, _) :: _, _, _ => .error .malformed
  | (some name, d) :: rest, verdict, detail =>
    if name = "status" then
      match verdict with
      | some _ => .error .mismatch
      | none => do
        let v ← readName FlowVerdict.ofName? d
        readFields rest (some v) detail
    else if name = "detail" then
      match detail with
      | some _ => .error .mismatch
      | none => if d.whole then readFields rest verdict (some d) else .error .malformed
    else if d.whole then readFields rest verdict detail
    else .error .malformed

def read : Reader FlowOutcome
  | .obj fields closed => do
    let (verdict, detail) ← readFields fields none none
    if !closed then .error .malformed
    else match verdict with
      | none => .error .mismatch
      | some v => ofDetail v detail
  | .arr items closed => match items with
    | [tag, d] => do
      let v ← readName FlowVerdict.ofName? tag
      let o ← ofDetail v (some d)
      if closed then .ok o else .error .malformed
    | _ => .error .mismatch
  | d => .error d.unexpected

end FlowOutcome

end Ferry
