import Ferry.Job.Codec
import Ferry.Proofs.Json.Parsing

/-!
# Requests are read back as they were written

A request is stored as a JSON text and read from it again by everyone who takes
the job up, so whatever is known of a job rests on the reader being a left
inverse of the writer. The one part of it that is no plain table walk is the
property map: it is written entry by entry in ascending order, and inserting
ascending entries one after the other only ever appends.

Manifests and resources are kept in columns of their own, and the same holds of them.
-/

namespace Ferry

open Json

/-! ## Property maps -/

theorem Properties.eq_of_entries {p q : Properties} (h : p.entries = q.entries) : p = q := by
  cases p
  cases q
  cases h
  rfl

theorem insertEntry_append {name value : String} {entries : List (String × String)}
    (h : ∀ e ∈ entries, e.1 < name) :
    insertEntry name value entries = entries ++ [(name, value)] := by
  induction entries with
  | nil => rfl
  | cons hd rest ih =>
      have hlt : hd.1 < name := h hd List.mem_cons_self
      have hge : ¬ name < hd.1 := String.lt_asymm hlt
      have hne : name ≠ hd.1 := fun heq => String.lt_irrefl _ (heq ▸ hlt)
      rw [insertEntry, if_neg hge, if_neg hne, ih fun e he => h e (List.mem_cons_of_mem _ he)]
      rfl

theorem entries_foldl_insert (entries : List (String × String)) (p : Properties)
    (h : Ascending (p.entries ++ entries)) :
    (entries.foldl (fun q e => q.insert e.1 e.2) p).entries = p.entries ++ entries := by
  induction entries generalizing p with
  | nil => rw [List.foldl_nil, List.append_nil]
  | cons e rest ih =>
      have hbelow : ∀ d ∈ p.entries, d.1 < e.1 := fun d hd =>
        (List.pairwise_append.1 h).2.2 d hd e List.mem_cons_self
      have hins : (p.insert e.1 e.2).entries = p.entries ++ [e] := insertEntry_append hbelow
      rw [List.foldl_cons, ih, hins, List.append_assoc, List.singleton_append]
      rw [hins, List.append_assoc, List.singleton_append]
      exact h

theorem Properties.ofList_entries (p : Properties) : ofList p.entries = p := by
  have h := entries_foldl_insert p.entries .empty (by simpa [empty] using p.ascending)
  exact Properties.eq_of_entries h

theorem readEntries_strings (entries : List (String × String)) :
    readEntries readString (draftFields (entries.map fun e => (e.1, .str e.2))) = .ok entries := by
  induction entries with
  | nil => rfl
  | cons e rest ih =>
      rw [List.map_cons, draftFields, readEntries, ih]
      rfl

theorem Properties.read_toJson (p : Properties) : readProperties p.toJson.draft = .ok p := by
  rw [toJson, draft, readProperties, readMap, readEntries_strings]
  simp [bind, Except.bind, Except.map, Properties.ofList_entries]

theorem textualFields_append (fs gs : List (String × Json)) :
    textualFields (fs ++ gs) = (textualFields fs && textualFields gs) := by
  induction fs with
  | nil => simp [textualFields]
  | cons f rest ih =>
      obtain ⟨k, j⟩ := f
      rw [List.cons_append, textualFields, textualFields, ih, Bool.and_assoc]

theorem Properties.textual_toJson (p : Properties) : p.toJson.textual = true := by
  rw [toJson, textual]
  induction p.entries with
  | nil => rfl
  | cons e rest ih => rw [List.map_cons, textualFields, ih]; rfl

theorem Properties.textual_field (p : Properties) : textualFields p.field = true := by
  rw [field]
  split
  · rfl
  · rw [textualFields, p.textual_toJson]; rfl

theorem Properties.eq_empty_of_isEmpty {p : Properties} (h : p.isEmpty = true) :
    p = .empty :=
  Properties.eq_of_entries (List.isEmpty_iff.1 h)

/-- What is written of a map: nothing of the empty one, else the one field. -/
theorem Properties.field_cases (p : Properties) :
    p = .empty ∧ p.field = [] ∨ p.field = [("properties", p.toJson)] := by
  rw [field]
  split
  · next h => exact .inl ⟨eq_empty_of_isEmpty h, rfl⟩
  · exact .inr rfl

/-! ## Addresses and requests -/

theorem DataAddress.textual_toJson (a : DataAddress) : a.toJson.textual = true := by
  rw [toJson, textual, textualFields, Properties.textual_field]
  rfl

theorem DataAddress.read_toJson (a : DataAddress) : read a.toJson.draft = .ok a := by
  obtain ⟨kind, properties⟩ := a
  rcases properties.field_cases with ⟨rfl, _⟩ | hfield
  · rfl
  · rw [read, toJson, hfield]
    simp [draft, draftFields, Shape.read, shape, Shape.readObject, Shape.put, Shape.noSlots,
      Shape.finish, Properties.read_toJson, readString, Except.map, bind, Except.bind]

theorem TransferRequest.textual_toJson (r : TransferRequest) : r.toJson.textual = true := by
  rw [toJson, textual, textualFields_append, Properties.textual_field]
  simp [textualFields, textual, DataAddress.textual_toJson]

theorem TransferRequest.read_toJson (r : TransferRequest) : read r.toJson.draft = .ok r := by
  obtain ⟨id, connector, protocol, asset, destination, managed, properties⟩ := r
  rcases properties.field_cases with ⟨rfl, hfield⟩ | hfield <;>
    (rw [read, toJson, hfield]
     simp [draft, draftFields, Shape.read, shape, Shape.readObject, Shape.put, Shape.noSlots,
       Shape.finish, Properties.read_toJson, DataAddress.read_toJson, readString, readBool,
       Except.map, bind, Except.bind, Absent.defaulted])

/-! ## Lists of records -/

theorem draftItems_map {α : Type} (toJson : α → Json) (as : List α) :
    draftItems (as.map toJson) = as.map fun a => (toJson a).draft := by
  induction as with
  | nil => rfl
  | cons a rest ih => rw [List.map_cons, draftItems, ih, List.map_cons]

theorem textualItems_map {α : Type} {toJson : α → Json}
    (h : ∀ a, (toJson a).textual = true) (as : List α) :
    textualItems (as.map toJson) = true := by
  induction as with
  | nil => rfl
  | cons a rest ih => rw [List.map_cons, textualItems, h a, ih]; rfl

/-- A list is read back as written if each of its items is. -/
theorem readList_map {α : Type} {toJson : α → Json} {read : Reader α}
    (h : ∀ a, read (toJson a).draft = .ok a) (as : List α) :
    readList read (Json.arr (as.map toJson)).draft = .ok as := by
  have heach : readEach read (as.map fun a => (toJson a).draft) = .ok as := by
    induction as with
    | nil => rfl
    | cons a rest ih =>
        rw [List.map_cons, readEach, h a, ih]
        rfl
  rw [draft, readList, draftItems_map, heach]
  rfl

/-! ## Manifests and resources -/

theorem ResourceDefinition.textual_toJson (d : ResourceDefinition) : d.toJson.textual = true := by
  rw [toJson, textual, textualFields_append, Properties.textual_field]
  simp [textualFields, textual]

theorem ResourceDefinition.read_toJson (d : ResourceDefinition) : read d.toJson.draft = .ok d := by
  obtain ⟨id, kind, properties⟩ := d
  rcases properties.field_cases with ⟨rfl, hfield⟩ | hfield <;>
    (rw [read, toJson, hfield]
     simp [draft, draftFields, Shape.read, shape, Shape.readObject, Shape.put, Shape.noSlots,
       Shape.finish, Properties.read_toJson, readString, Except.map, bind, Except.bind,
       Absent.defaulted])

theorem ResourceManifest.textual_toJson (m : ResourceManifest) : m.toJson.textual = true := by
  rw [toJson, textual, textualFields, textual,
    textualItems_map ResourceDefinition.textual_toJson]
  rfl

theorem ResourceManifest.read_toJson (m : ResourceManifest) : read m.toJson.draft = .ok m := by
  have hlist := readList_map ResourceDefinition.read_toJson m.definitions
  rw [read, toJson]
  simp [draft, draftFields, Shape.read, shape, Shape.readObject, Shape.put, Shape.noSlots,
    Shape.finish, Except.map, bind, Except.bind] at hlist ⊢
  rw [hlist]
  rfl

theorem ProvisionedResource.textual_toJson (r : ProvisionedResource) :
    r.toJson.textual = true := by
  rw [toJson, textual, textualFields_append, Properties.textual_field]
  simp [textualFields, textual]

theorem ProvisionedResource.read_toJson (r : ProvisionedResource) :
    read r.toJson.draft = .ok r := by
  obtain ⟨id, definition, kind, isDestination, properties⟩ := r
  rcases properties.field_cases with ⟨rfl, hfield⟩ | hfield <;>
    (rw [read, toJson, hfield]
     simp [draft, draftFields, Shape.read, shape, Shape.readObject, Shape.put, Shape.noSlots,
       Shape.finish, Properties.read_toJson, readString, readBool, Except.map, bind, Except.bind,
       Absent.defaulted])

theorem textual_resourceSetToJson (rs : List ProvisionedResource) :
    (resourceSetToJson rs).textual = true := by
  rw [resourceSetToJson, textual, textualFields, textual,
    textualItems_map ProvisionedResource.textual_toJson]
  rfl

theorem readResourceSet_toJson (rs : List ProvisionedResource) :
    readResourceSet (resourceSetToJson rs).draft = .ok rs := by
  have hlist := readList_map ProvisionedResource.read_toJson rs
  rw [readResourceSet, resourceSetToJson]
  simp [draft, draftFields, Shape.read, resourceSetShape, Shape.readObject, Shape.put,
    Shape.noSlots, Shape.finish, Except.map, bind, Except.bind] at hlist ⊢
  rw [hlist]
  rfl

end Ferry
