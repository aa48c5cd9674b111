/-!
# Why a configuration was refused
-/

namespace Ferry

inductive ConfigError where
  | fileNotFound (path : String)
  | malformed (cause : String)
  /-- The configuration can be read and makes no sense. -/
  | invalid (detail : String)
deriving DecidableEq, Repr

namespace ConfigError

def message : ConfigError → String
  | fileNotFound path => "Configuration file not found: " ++ path
  | malformed cause => "Failed to parse configuration: " ++ cause
  | invalid detail => "Configuration validation failed: " ++ detail

end ConfigError

end Ferry
