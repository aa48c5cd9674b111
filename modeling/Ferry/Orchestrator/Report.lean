import Ferry.Json.Basic

/-!
# What a cycle did
-/

namespace Ferry

/-- How many jobs each phase of a cycle took up. -/
structure CycleReport where
  provisioned : Nat := 0
  dispatched : Nat := 0
  inspected : Nat := 0
deriving DecidableEq, Repr, Inhabited

namespace CycleReport

def total (r : CycleReport) : Nat :=
  r.provisioned + r.dispatched + r.inspected

/-- There was nothing to do. -/
def isIdle (r : CycleReport) : Bool :=
  r.total = 0

def toJson (r : CycleReport) : Json :=
  .obj [("provisioned", .nat r.provisioned), ("dispatched", .nat r.dispatched),
    ("inspected", .nat r.inspected)]

end CycleReport

end Ferry
