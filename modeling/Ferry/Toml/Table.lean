import Ferry.Json.Basic

/-!
# Tables of TOML

A table is filled in three ways, by a header, by a key with dots and by a value
in braces, and the ways do not mix: a table that has been written out once
cannot be written out again, and a key with dots adds only to tables that such
keys have made.
-/

namespace Ferry.Toml

mutual

inductive Node where
  /-- A value, to which nothing can be added. -/
  | value (d : Json.Draft)
  | table (t : Table)
  /-- The tables of an array, last one first. -/
  | tables (last : Table) (others : List Table)

/-- The entries of a table and how it came about. -/
inductive Table where
  /-- A table is `implied` until it is written out, and `dotted` if keys with dots
  have made it. -/
  | mk (implied dotted : Bool) (entries : List (String × Node))

end

namespace Table

/-- A table that is written out and has nothing in it. -/
def written : Table := .mk false false []

def implied : Table → Bool
  | .mk i _ _ => i

def dotted : Table → Bool
  | .mk _ d _ => d

def entries : Table → List (String × Node)
  | .mk _ _ es => es

def withEntries : Table → List (String × Node) → Table
  | .mk i d _, es => .mk i d es

def find? (t : Table) (name : String) : Option Node :=
  (t.entries.find? fun e => e.1 == name).map (·.2)

def erase (t : Table) (name : String) : Table :=
  t.withEntries (t.entries.filter fun e => e.1 != name)

/-- Puts a node under a name, whatever was there before. -/
def put (t : Table) (name : String) (n : Node) : Table :=
  t.withEntries ((t.erase name).entries ++ [(name, n)])

/-- Changes the table at the end of a path. Tables on the way that are missing are
made. With `dots` the path is part of a key, which goes only through tables
that are not written out. -/
def change {α : Type} (dots : Bool) (f : Table → Option (α × Table)) :
    List String → Table → Option (α × Table)
  | [], t => f t
  | name :: path, t =>
    match t.find? name with
    | none => do
      let (a, child) ← change dots f path (.mk true dots [])
      some (a, t.put name (.table child))
    | some (.value _) => none
    | some (.tables last others) => do
      let (a, last) ← change dots f path last
      some (a, t.put name (.tables last others))
    | some (.table child) =>
      if dots && !child.implied then none
      else do
        let (a, child) ← change dots f path child
        some (a, t.put name (.table child))

/-- Adds a value under a key, given by the path to its table and its last part. -/
def add (t : Table) (path : List String) (name : String) (d : Json.Draft) : Option Table :=
  (change true (fun t =>
    if t.dotted == path.isEmpty || (t.find? name).isSome then none
    else some ((), t.put name (.value d))) path t).map (·.2)

/-- Takes the table of a header out of its place: an implied one, or a new one. -/
def take (root : Table) (path : List String) (name : String) : Option (Table × Table) :=
  change false (fun parent =>
    match parent.find? name with
    | none => some (written, parent)
    | some (.table t) =>
      if t.implied && !t.dotted then
        some (written.withEntries t.entries, parent.erase name)
      else none
    | some _ => none) path root

/-- Checks that a header can add to an array of tables. -/
def takeItem (root : Table) (path : List String) (name : String) : Option (Table × Table) :=
  change false (fun parent =>
    match parent.find? name with
    | none | some (.tables ..) => some (written, parent)
    | some _ => none) path root

/-- Puts the table of a header into its place. -/
def putBack (root : Table) (path : List String) (name : String) (t : Table) : Option Table :=
  (change false (fun parent => some ((), parent.put name (.table t))) path root).map (·.2)

/-- Puts the table of a header at the end of its array. -/
def putItem (root : Table) (path : List String) (name : String) (t : Table) : Option Table :=
  (change false (fun parent =>
    match parent.find? name with
    | none => some ((), parent.put name (.tables t []))
    | some (.tables last others) => some ((), parent.put name (.tables t (last :: others)))
    | some _ => none) path root).map (·.2)

end Table

mutual

/-- A node as a document. -/
def Node.draft : Node → Json.Draft
  | .value d => d
  | .table t => t.draft
  | .tables last others => .arr (draftTables others ++ [last.draft]) true

/-- A table as a document. -/
def Table.draft : Table → Json.Draft
  | .mk _ _ entries => .obj (draftEntries entries) true

/-- The tables of an array in order, given last one first. -/
def draftTables : List Table → List Json.Draft
  | [] => []
  | t :: rest => draftTables rest ++ [t.draft]

def draftEntries : List (String × Node) → List (Option String × Json.Draft)
  | [] => []
  | (name, n) :: rest => (some name, n.draft) :: draftEntries rest

end

end Ferry.Toml
