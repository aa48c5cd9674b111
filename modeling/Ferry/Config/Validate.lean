import Ferry.Config.Basic
import Ferry.Config.Error
import Ferry.Text.Quoted

/-!
# Configurations that make sense

What no type says of a configuration: the first rule that is broken is
reported.
-/

namespace Ferry.Config

/-- The address is one for HTTP. -/
def isWebAddress (address : String) : Bool :=
  "http://".toList.isPrefixOf address.toList || "https://".toList.isPrefixOf address.toList

/-- What is wrong with a configuration, if anything. -/
def complaint? (c : Config) : Option String :=
  let o := c.orchestrator
  if c.server.port = 0 then some "server.port cannot be 0"
  else if o.batchSize = 0 then some "orchestrator.batch_size cannot be 0"
  else if o.idleWait = 0 || o.errorWait = 0 then
    some "orchestrator wait durations cannot be 0"
  else if o.maxErrorWait ≠ 0 && o.maxErrorWait < o.errorWait then
    some ("orchestrator.max_error_wait_ms (" ++ toString o.maxErrorWait ++
      ") is below error_wait_ms (" ++ toString o.errorWait ++ ")")
  else if c.provisioning.channelBuffer = 0 then
    some "provisioning.channel_buffer cannot be 0"
  else match c.dispatch.callbackAddress with
    | none => none
    | some address =>
      if isWebAddress address then none
      else some ("dispatch.callback_address must be an http(s) URL, got " ++ Text.quoted address)

def validate (c : Config) : Except ConfigError Unit :=
  match c.complaint? with
  | none => .ok ()
  | some detail => .error (.invalid detail)

end Ferry.Config
