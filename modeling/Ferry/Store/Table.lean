import Ferry.Store.Row
import Ferry.Width

/-!
# The job table

The durable store of jobs: a list of rows in the order of their insertion,
with two unique columns. Each function here is one statement of the database
and thus atomic; a statement that fails changes nothing. Rows are never
removed, and only `set`, which stands for someone else's hands, touches a
column that `update` does not.
-/

namespace Ferry.Store

/-- Rows in the order in which they were inserted. -/
structure Table where
  rows : List Row := []
deriving DecidableEq, Repr, Inhabited

namespace Table

/-- A row holds a value in a column. -/
def holds (t : Table) (c : Column) (v : Cell) : Bool :=
  t.rows.any fun r => r.get c == v

/-- A constraint of the table would be broken. -/
def constraintError (c : Column) : JobError :=
  .database ("constraint failed: jobs." ++ c.name)

/-- The stored row is not that of a job. -/
def rowError : JobError :=
  .database "malformed row"

/-- Inserts a job. A taken correlation id is told apart from a taken id. -/
def create (t : Table) (j : Job) : Except JobError Table :=
  let r := Row.ofJob j
  if t.holds .correlationId r.correlationId then
    .error (.duplicateCorrelationId j.correlationId)
  else if t.holds .id r.id then .error (constraintError .id)
  else .ok ⟨t.rows ++ [r]⟩

/-- The row to be overwritten: it has the id, and the state if one is asked for. -/
def matchesJob (j : Job) (expected : Option JobState) (r : Row) : Bool :=
  r.id == .text j.id &&
    match expected with
    | none => true
    | some st => r.state == .text st.name

/-- Overwrites the changeable columns of the matching rows. -/
def write (t : Table) (j : Job) (expected : Option JobState) : Table :=
  ⟨t.rows.map fun r => if matchesJob j expected r then r.updatedFrom j else r⟩

/-- Some row matches. -/
def hits (t : Table) (j : Job) (expected : Option JobState) : Bool :=
  t.rows.any (matchesJob j expected)

/-- Stores the changeable columns of a job. -/
def update (t : Table) (j : Job) : Except JobError Table :=
  if t.hits j none then .ok (t.write j none) else .error (.notFound j.id)

/-- Stores the changeable columns of a job if the stored state is the expected
one; the answer says whether it was. -/
def updateIfState (t : Table) (j : Job) (expected : JobState) : Bool × Table :=
  (t.hits j (some expected), t.write j (some expected))

/-- The job of a row, as an answer of the database. -/
def readRow (r : Row) : Except JobError Job :=
  match r.toJob? with
  | some j => .ok j
  | none => .error rowError

/-- The job with an id. -/
def get (t : Table) (id : String) : Except JobError (Option Job) :=
  match t.rows.find? fun r => r.id == .text id with
  | none => .ok none
  | some r => (readRow r).map some

/-- The id of the job with a correlation id. -/
def findId (t : Table) (correlationId : String) : Except JobError (Option String) :=
  match t.rows.find? fun r => r.correlationId == .text correlationId with
  | none => .ok none
  | some r => match r.id.text? with
    | some id => .ok (some id)
    | none => .error rowError

/-- The rows in a state, oldest move first, rows of one moment in the order of
their insertion. -/
def queue (t : Table) (state : JobState) : List Row :=
  (t.rows.filter fun r => r.state == .text state.name).mergeSort
    fun a b => a.stateTimestamp.le b.stateTimestamp

/-- The largest limit the database takes. -/
def maxLimit : Nat := Width.bound63 - 1

/-- The first jobs of a state's queue. -/
def next (t : Table) (state : JobState) (limit : Nat) : Except JobError (List Job) :=
  ((t.queue state).take (min limit maxLimit)).mapM readRow

/-- The number of rows in a state. -/
def count (t : Table) (state : JobState) : Nat :=
  (t.rows.filter fun r => r.state == .text state.name).length

/-- Overwrites one column of the row with an id, past all rules but those of the
table itself. The answer holds the number of rows changed. -/
def set (t : Table) (id : String) (c : Column) (v : Cell) : Except JobError (Nat × Table) :=
  let v := c.affinity.apply v
  let hit := fun r : Row => r.id == .text id
  if !t.rows.any hit then .ok (0, t)
  else if v == .null && !c.nullable then .error (constraintError c)
  else if c.unique && v != .null && t.rows.any (fun r => !hit r && r.get c == v) then
    .error (constraintError c)
  else .ok (t.rows.countP hit, ⟨t.rows.map fun r => if hit r then r.set c v else r⟩)

end Table

end Ferry.Store
