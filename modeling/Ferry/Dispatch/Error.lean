/-!
# Why a peer could not be told
-/

namespace Ferry

inductive DispatchError where
  /-- The request or the process with this id names no address. -/
  | missingAddress (id : String)
  /-- The peer could not be reached. -/
  | transport (cause : String)
  /-- The peer answered with a status that is no success. -/
  | rejected (status : Nat) (body : String)
deriving DecidableEq, Repr

namespace DispatchError

def message : DispatchError → String
  | missingAddress id => "request " ++ id ++ " has no connector address"
  | transport cause => "transport error: " ++ cause
  | rejected status body => "peer rejected request with status " ++ toString status ++ ": " ++ body

end DispatchError

end Ferry
