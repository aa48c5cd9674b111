import Ferry.File.Tree
import Ferry.Job.Basic
import Ferry.Metrics

/-!
# Has the data arrived?

A job is complete when one of its destinations is. Which checker looks at a
destination depends on its kind; a destination of a kind that nobody checks
never counts as complete.
-/

namespace Ferry

/-- What the name of a file ends in that says the data is all there. -/
def markerSuffix : String := ".complete"

/-- The name ends as a marker does. -/
def isMarker (name : String) : Bool :=
  markerSuffix.toList.isSuffixOf name.toList

/-- A directory is complete once there is a marker in it. -/
def hasMarker (t : File.Tree) (r : ProvisionedResource) : Bool :=
  match r.properties.get? "path" with
  | none => false
  | some path =>
    match t.readDirectory path with
    | .ok names => names.any isMarker
    | .error _ => false

/-- The checkers by the kind of resource that they look at. -/
structure Checkers (χ : Type) where
  entries : List (String × χ) := []

namespace Checkers

variable {χ : Type}

def empty : Checkers χ := ⟨[]⟩

/-- Makes a checker the one for a kind. -/
def register (c : Checkers χ) (kind : String) (checker : χ) : Checkers χ :=
  ⟨(c.entries.filter fun e => e.1 != kind) ++ [(kind, checker)]⟩

/-- The checkers after these registrations, one made after the other. -/
def ofList (registrations : List (String × χ)) : Checkers χ :=
  registrations.foldl (fun c e => c.register e.1 e.2) empty

/-- The checker for a kind. -/
def find? (c : Checkers χ) (kind : String) : Option χ :=
  (c.entries.find? fun e => e.1 == kind).map (·.2)

def size (c : Checkers χ) : Nat :=
  c.entries.length

def supports (c : Checkers χ) (r : ProvisionedResource) : Bool :=
  (c.find? r.kind).isSome

/-- What the checker for a resource says of it; `answer` is how checkers answer. -/
def check (c : Checkers χ) (answer : χ → ProvisionedResource → Bool)
    (r : ProvisionedResource) : Bool :=
  match c.find? r.kind with
  | some checker => answer checker r
  | none => false

/-- Checks the destinations one after the other until one is complete. The
verdict comes with the questions that were asked and their answers. -/
def examine (c : Checkers χ) (answer : χ → ProvisionedResource → Bool) :
    List ProvisionedResource → Bool × List (χ × ProvisionedResource × Bool)
  | [] => (false, [])
  | r :: rest =>
    match if r.isDestination then c.find? r.kind else none with
    | none => examine c answer rest
    | some checker =>
      if answer checker r then (true, [(checker, r, true)])
      else
        let (verdict, asked) := examine c answer rest
        (verdict, (checker, r, false) :: asked)

/-- What comes of asking the checkers about a job. -/
structure Findings (χ : Type) where
  complete : Bool
  asked : List (χ × ProvisionedResource × Bool)
  metrics : Metrics

/-- Has the data of a job arrived? Each answer on the way is counted. -/
def poll (c : Checkers χ) (answer : χ → ProvisionedResource → Bool) (job : Job) (m : Metrics) :
    Findings χ :=
  let (complete, asked) := c.examine answer job.resources
  { complete, asked
    metrics := asked.foldl (fun m q => m.add (.completionChecks q.2.2) 1) m }

end Checkers

end Ferry
