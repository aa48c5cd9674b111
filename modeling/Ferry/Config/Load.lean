import Ferry.Config.Codec
import Ferry.Config.Environment
import Ferry.Config.Error
import Ferry.Toml.Parser

/-!
# Loading the configuration

From the text of a file alone, or from a file with the environment put over it.
-/

namespace Ferry.Config

/-- The configuration that a document describes. -/
def ofDocument (d : Json.Draft) : Except ConfigError Config :=
  match Config.readLoose d with
  | .ok c => .ok c
  | .error _ => .error (.malformed "not a configuration")

/-- The content of a text. -/
def parseText (text : String) : Except ConfigError Json.Draft :=
  match Toml.readDocument? text with
  | some d => .ok d
  | none => .error (.malformed "not a document")

/-- The configuration that a text describes. -/
def ofText (text : String) : Except ConfigError Config := do
  ofDocument (← parseText text)

/-- The configuration of a file and of the environment, where `content` is `none`
if there is no such file. -/
def load (path : String) (content : Option String) (environment : List (String × String)) :
    Except ConfigError Config := do
  match content with
  | none => .error (.fileNotFound path)
  | some text => ofDocument (merge (← parseText text) (ofVariables environment))

end Ferry.Config
