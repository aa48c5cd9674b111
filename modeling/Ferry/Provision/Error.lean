import Ferry.Text.Quoted

/-!
# Why provisioning could not start
-/

namespace Ferry

inductive ProvisionError where
  /-- Nothing here makes resources of the kind. -/
  | unsupportedKind (kind : String)
  /-- The name of a resource is not the name of one directory. -/
  | invalidName (name : String)
  /-- Nobody listens for the outcome any more. -/
  | channelClosed
  | failed (detail : String)
deriving DecidableEq, Repr

namespace ProvisionError

def message : ProvisionError → String
  | unsupportedKind kind => "unsupported resource kind: " ++ kind
  | invalidName name => "invalid resource name: " ++ Text.quoted name
  | channelClosed => "provisioning channel closed"
  | failed detail => "provisioning failed: " ++ detail

end ProvisionError

end Ferry
