import Ferry.Json.Record
import Mathlib.Data.List.Nodup

/-!
# What an object says of a record

The reader of a record takes the fields of an object from the left and puts each into its
slot. What comes of it does not depend on the order: of each field that the record knows
there may be one value, which is then read, and where there is none the default stands
for it; all other fields only have to be complete (`Shape.read_obj_eq_ok`).
-/

namespace Ferry.Json

/-- The values that fields of a name have in an object. -/
def valuesOf (name : String) (fields : List (Option String × Draft)) : List Draft :=
  fields.filterMap fun f => if f.1 = some name then some f.2 else none

theorem valuesOf_cons_self (name : String) (d : Draft) (fields : List (Option String × Draft)) :
    valuesOf name ((some name, d) :: fields) = d :: valuesOf name fields := by
  simp [valuesOf]

theorem valuesOf_cons_of_ne {name key : String} (h : key ≠ name) (d : Draft)
    (fields : List (Option String × Draft)) :
    valuesOf name ((some key, d) :: fields) = valuesOf name fields := by
  simp [valuesOf, h]

theorem valuesOf_eq_nil {name : String} {fields : List (Option String × Draft)}
    (h : ∀ f ∈ fields, f.1 ≠ some name) : valuesOf name fields = [] := by
  rw [valuesOf, List.filterMap_eq_nil_iff]
  intro f hf
  rw [if_neg (h f hf)]

namespace Shape

variable {α : Type}

/-- The names of the fields in order. -/
def names : {α : Type} → Shape α → List String
  | _, .done _ => []
  | _, .field _ name _ _ rest => name :: rest.names

/-- The values of one field are read as `b`: there is one, of which `b` is read, or none, and `b`
is what an object without the field stands for. -/
def Given {β : Type} (read : Reader β) (absent : Absent β) (ds : List Draft) (b : β) : Prop :=
  ds = [] ∧ absent.inObject = some b ∨ ∃ d, ds = [d] ∧ read d = .ok b

/-- The record is built of what is read of the values of each of its fields. -/
def Gives : {α : Type} → Shape α → List (Option String × Draft) → α → Prop
  | _, .done a, _, a' => a' = a
  | _, .field _ name read absent rest, fields, a =>
    ∃ b build, rest.Gives fields build ∧ Given read absent (valuesOf name fields) b ∧ a = build b

/-- Every field can be read or skipped. -/
def Passes (s : Shape α) (fields : List (Option String × Draft)) : Prop :=
  ∀ f ∈ fields, ∃ name, f.1 = some name ∧ (name ∈ s.names ∨ f.2.whole = true)

theorem passes_cons {s : Shape α} {key : String} {d : Draft}
    {fields : List (Option String × Draft)} : s.Passes ((some key, d) :: fields) ↔
      (key ∈ s.names ∨ d.whole = true) ∧ s.Passes fields := by
  simp [Passes]

/-! ## Slots -/

/-- A slot after the values of its field were put into it. -/
def Filled {β : Type} (read : Reader β) (slot : Option β) (ds : List Draft)
    (slot' : Option β) : Prop :=
  ds = [] ∧ slot' = slot ∨ ∃ d b, ds = [d] ∧ slot = none ∧ read d = .ok b ∧ slot' = some b

/-- All slots after the fields of an object were put into them. -/
def Fills : {α : Type} → (s : Shape α) → s.Slots → List (Option String × Draft) → s.Slots → Prop
  | _, .done _, _, _, _ => True
  | _, .field _ name read _ rest, slots, fields, slots' =>
    Filled read slots.1 (valuesOf name fields) slots'.1 ∧ rest.Fills slots.2 fields slots'.2

theorem put_eq_none {s : Shape α} {slots : s.Slots} {key : String} {d : Draft} :
    s.put slots key d = none ↔ key ∉ s.names := by
  induction s with
  | done a => simp [put, names]
  | field β name read absent rest ih =>
      by_cases hkey : key = name
      · simp [put, names, hkey]
      · rw [put, if_neg hkey, Option.map_eq_none_iff, ih, names]
        simp [hkey]

theorem fills_nil {s : Shape α} {slots slots' : s.Slots} :
    s.Fills slots [] slots' ↔ slots' = slots := by
  induction s with
  | done a => exact ⟨fun _ => rfl, fun _ => trivial⟩
  | field β name read absent rest ih =>
      have hslot : Filled read slots.1 [] slots'.1 ↔ slots'.1 = slots.1 := by simp [Filled]
      show Filled read slots.1 [] slots'.1 ∧ rest.Fills slots.2 [] slots'.2 ↔ slots' = slots
      rw [hslot, ih]
      exact Prod.ext_iff.symm

/-- Fields of other names fill no slot. -/
theorem fills_cons_of_not_mem {s : Shape α} {slots slots' : s.Slots} {key : String} (d : Draft)
    (fields : List (Option String × Draft)) (hkey : key ∉ s.names) :
    s.Fills slots ((some key, d) :: fields) slots' ↔ s.Fills slots fields slots' := by
  induction s with
  | done a => exact Iff.rfl
  | field β name read absent rest ih =>
      obtain ⟨hname, hrest⟩ := List.ne_and_not_mem_of_not_mem_cons hkey
      rw [Fills, Fills, valuesOf_cons_of_ne hname, ih hrest]

theorem filled_cons {β : Type} {read : Reader β} {slot slot' : Option β} {d : Draft}
    {ds : List Draft} : Filled read slot (d :: ds) slot' ↔
      ∃ b, slot = none ∧ read d = .ok b ∧ Filled read (some b) ds slot' := by
  constructor
  · rintro (⟨hds, -⟩ | ⟨_, b, hds, hslot, hread, hslot'⟩)
    · cases hds
    · cases hds
      exact ⟨b, hslot, hread, .inl ⟨rfl, hslot'⟩⟩
  · rintro ⟨b, hslot, hread, ⟨rfl, hslot'⟩ | ⟨_, _, _, hslot', _⟩⟩
    · exact .inr ⟨d, b, rfl, hslot, hread, hslot'⟩
    · cases hslot'

/-- A known field is put into its slot, and the others are filled from there. -/
theorem fills_cons {s : Shape α} {slots slots' : s.Slots} {key : String} {d : Draft}
    {fields : List (Option String × Draft)} (hnodup : s.names.Nodup) (hkey : key ∈ s.names) :
    s.Fills slots ((some key, d) :: fields) slots' ↔
      ∃ more, s.put slots key d = some (.ok more) ∧ s.Fills more fields slots' := by
  induction s with
  | done a => cases hkey
  | field β name read absent rest ih =>
      obtain ⟨hname, hrest⟩ := List.nodup_cons.1 hnodup
      by_cases heq : key = name
      · subst heq
        rw [Fills, valuesOf_cons_self, filled_cons, fills_cons_of_not_mem d fields hname]
        simp only [put, if_true]
        cases hslot : slots.1 with
        | some b => simp
        | none =>
            cases hread : read d with
            | error e => simp [Except.map]
            | ok b =>
                simp only [true_and, Except.ok.injEq, exists_eq_left', Except.map]
                refine ⟨fun h => ⟨_, rfl, h⟩, ?_⟩
                rintro ⟨_, ⟨⟩, h⟩
                exact h
      · have hmem : key ∈ rest.names := (List.mem_cons.1 hkey).resolve_left heq
        rw [Fills, valuesOf_cons_of_ne heq, ih hrest hmem]
        simp only [put, if_neg heq]
        cases hput : rest.put slots.2 key d with
        | none => simp
        | some r =>
            cases r with
            | error e => simp [Except.map]
            | ok more =>
                simp only [Option.some.injEq, Except.ok.injEq, exists_eq_left', Option.map_some,
                  Except.map]
                refine ⟨fun h => ⟨_, rfl, h⟩, ?_⟩
                rintro ⟨_, ⟨⟩, h⟩
                exact h

theorem readObject_eq_ok {s : Shape α} {slots slots' : s.Slots}
    {fields : List (Option String × Draft)} (hnodup : s.names.Nodup) :
    s.readObject fields slots = .ok slots' ↔ s.Passes fields ∧ s.Fills slots fields slots' := by
  induction fields generalizing slots with
  | nil =>
      have hpasses : s.Passes [] := fun _ hf => by cases hf
      rw [readObject, fills_nil, and_iff_right hpasses, Except.ok.injEq]
      exact eq_comm
  | cons f rest ih =>
      obtain ⟨key?, d⟩ := f
      cases key? with
      | none =>
          rw [readObject]
          simp [Passes]
      | some key =>
          rw [readObject, passes_cons]
          by_cases hkey : key ∈ s.names
          · rw [fills_cons hnodup hkey]
            cases hput : s.put slots key d with
            | none => exact absurd hkey (put_eq_none.1 hput)
            | some r =>
                cases r with
                | error e => simp
                | ok more => simp [ih, hkey]
          · rw [fills_cons_of_not_mem d rest hkey, put_eq_none.2 hkey]
            cases hwhole : d.whole with
            | true => simp [ih]
            | false => simp [hkey]

theorem finish_eq_ok {s : Shape α} {fields : List (Option String × Draft)} {a : α} :
    (∃ slots, s.Fills s.noSlots fields slots ∧ s.finish slots = .ok a) ↔ s.Gives fields a := by
  induction s with
  | done a' =>
      simp only [Gives, finish, Except.ok.injEq]
      exact ⟨fun ⟨_, _, h⟩ => h.symm, fun h => ⟨(), trivial, h.symm⟩⟩
  | field β name read absent rest ih =>
      rw [Gives]
      constructor
      · rintro ⟨slots, ⟨hslot, hslots⟩, hfinish⟩
        rw [finish] at hfinish
        cases hb : slots.1 <|> absent.inObject with
        | none => simp [hb] at hfinish
        | some b =>
            simp only [hb] at hfinish
            cases hbuild : rest.finish slots.2 with
            | error e => simp [hbuild, Except.map] at hfinish
            | ok build =>
                have ha : a = build b := by simpa [hbuild, Except.map, eq_comm] using hfinish
                refine ⟨b, build, ih.1 ⟨slots.2, hslots, hbuild⟩, ?_, ha⟩
                rcases hslot with ⟨hnil, hslot⟩ | ⟨d, b', hone, -, hread, hslot⟩
                · rw [hslot] at hb
                  exact .inl ⟨hnil, hb⟩
                · rw [hslot] at hb
                  cases hb
                  exact .inr ⟨d, hone, hread⟩
      · rintro ⟨b, build, hgives, hgiven, rfl⟩
        obtain ⟨slots, hslots, hbuild⟩ := ih.2 hgives
        rcases hgiven with ⟨hnil, hb⟩ | ⟨d, hone, hread⟩
        · refine ⟨(none, slots), ⟨.inl ⟨hnil, rfl⟩, hslots⟩, ?_⟩
          simp [finish, hb, hbuild, Except.map]
        · refine ⟨(some b, slots), ⟨.inr ⟨d, b, hone, rfl, hread, rfl⟩, hslots⟩, ?_⟩
          simp [finish, hbuild, Except.map]

/-- An object is read as a record just when its values stand for it, whatever their order. -/
theorem read_obj_eq_ok {s : Shape α} {fields : List (Option String × Draft)} {a : α}
    (hnodup : s.names.Nodup) :
    s.read (.obj fields true) = .ok a ↔ s.Passes fields ∧ s.Gives fields a := by
  rw [← finish_eq_ok, read]
  constructor
  · intro h
    cases hread : s.readObject fields s.noSlots with
    | error e => simp [hread, bind, Except.bind] at h
    | ok slots =>
        obtain ⟨hpasses, hfills⟩ := (readObject_eq_ok hnodup).1 hread
        exact ⟨hpasses, slots, hfills, by simpa [hread, bind, Except.bind] using h⟩
  · rintro ⟨hpasses, slots, hfills, hfinish⟩
    rw [(readObject_eq_ok hnodup).2 ⟨hpasses, hfills⟩]
    simpa [bind, Except.bind] using hfinish

end Shape

end Ferry.Json
