/-!
# Properties

The string maps that requests, definitions and resources carry. A map is a
list of entries in strictly ascending order of their names, so that two maps
with the same entries are the same value and print alike.
-/

namespace Ferry

/-- The names of a list of entries ascend strictly. -/
def Ascending (entries : List (String × String)) : Prop :=
  entries.Pairwise fun a b => a.1 < b.1

/-- Puts an entry in its place; an entry of the same name gives way. -/
def insertEntry (name value : String) : List (String × String) → List (String × String)
  | [] => [(name, value)]
  | (k, v) :: rest =>
    if name < k then (name, value) :: (k, v) :: rest
    else if name = k then (name, value) :: rest
    else (k, v) :: insertEntry name value rest

theorem mem_insertEntry {name value : String} {entries : List (String × String)}
    {e : String × String} (h : e ∈ insertEntry name value entries) :
    e = (name, value) ∨ e ∈ entries := by
  induction entries with
  | nil => simpa [insertEntry] using h
  | cons hd rest ih =>
    unfold insertEntry at h
    split at h
    · simpa using h
    · split at h
      · rcases List.mem_cons.1 h with h | h
        · exact .inl h
        · exact .inr (List.mem_cons_of_mem _ h)
      · rcases List.mem_cons.1 h with h | h
        · exact .inr (h ▸ List.mem_cons_self)
        · exact (ih h).imp_right (List.mem_cons_of_mem _)

theorem ascending_insertEntry {name value : String} {entries : List (String × String)}
    (h : Ascending entries) : Ascending (insertEntry name value entries) := by
  induction entries with
  | nil => simp [insertEntry, Ascending]
  | cons hd rest ih =>
    obtain ⟨hhd, hrest⟩ := List.pairwise_cons.1 h
    unfold insertEntry
    split
    · next hlt =>
      refine List.pairwise_cons.2 ⟨fun e he => ?_, h⟩
      rcases List.mem_cons.1 he with rfl | he
      · exact hlt
      · exact String.lt_trans hlt (hhd e he)
    · next hge =>
      split
      · next heq => exact List.pairwise_cons.2 ⟨fun e he => heq ▸ hhd e he, hrest⟩
      · next hne =>
        refine List.pairwise_cons.2 ⟨fun e he => ?_, ih hrest⟩
        rcases mem_insertEntry he with rfl | he
        · rcases String.le_total hd.1 name with hle | hle
          · exact Decidable.byContradiction fun hn =>
              hne (String.le_antisymm (String.not_lt.1 hn) hle)
          · exact absurd (Decidable.byContradiction fun hn =>
              hne (String.le_antisymm hle (String.not_lt.1 hn))) hge
        · exact hhd e he

/-- A finite map from names to strings. -/
structure Properties where
  entries : List (String × String)
  ascending : Ascending entries
deriving DecidableEq

namespace Properties

def empty : Properties := ⟨[], List.Pairwise.nil⟩

instance : Inhabited Properties := ⟨empty⟩

/-- The map with `name` set to `value`. -/
def insert (p : Properties) (name value : String) : Properties :=
  ⟨insertEntry name value p.entries, ascending_insertEntry p.ascending⟩

/-- The value of a name. -/
def get? (p : Properties) (name : String) : Option String :=
  (p.entries.find? fun e => e.1 == name).map (·.2)

def isEmpty (p : Properties) : Bool :=
  p.entries.isEmpty

/-- The map of a list of entries; of entries with one name the last one counts. -/
def ofList (entries : List (String × String)) : Properties :=
  entries.foldl (fun p e => p.insert e.1 e.2) empty

/-- The entries of `p` with those of `more` put over them. -/
def overriddenBy (p more : Properties) : Properties :=
  more.entries.foldl (fun q e => q.insert e.1 e.2) p

end Properties

end Ferry
