import Ferry.Json.Basic

/-!
# Requests and responses of the interface for clients
-/

namespace Ferry.Api

/-- A request as it arrives. -/
structure HttpRequest where
  method : String
  /-- The path, and the query after a question mark. -/
  target : String
  contentType : Option String := none
  body : String := ""
deriving DecidableEq, Repr, Inhabited

inductive Body where
  | empty
  | json (j : Json)
  /-- Lines of plain text. -/
  | text (lines : List String)
deriving Repr, Inhabited

structure Response where
  status : Nat
  body : Body := .empty
deriving Repr, Inhabited

namespace Response

def ofJson (status : Nat) (j : Json) : Response := ⟨status, .json j⟩

/-- A response that says what went wrong. -/
def failure (status : Nat) (message : String) : Response :=
  .ofJson status (.obj [("error", .str message)])

/-- A response that says what was done. -/
def message (text : String) : Response :=
  .ofJson 200 (.obj [("message", .str text)])

/-- The response without its body. -/
def headOnly (r : Response) : Response :=
  { r with body := .empty }

end Response

end Ferry.Api
