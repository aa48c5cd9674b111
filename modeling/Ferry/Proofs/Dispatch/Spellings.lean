import Ferry.Proofs.Dispatch.Handover
import Ferry.Proofs.Json.Records
import Mathlib.Logic.Relation

/-!
# Other spellings of what is written

What one peer writes another may write differently and mean the same: its fields in any
order, fields of its own among them, a default written out or left out. `Edit` has one
constructor for each of these, at any depth of a value, and a value is read as before
after any number of them (`spelled_alike`).

The readers are taken one kind at a time. A reader respects a format if it reads the same
from a document before and after one edit; for a record this comes down to its fields,
since the reader of a record minds nothing but what is said of each of them.
-/

namespace Ferry

open Json

/-! ## Property maps -/

theorem insertEntry_perm {name value : String} {entries : List (String × String)}
    (h : name ∉ entries.map (·.1)) :
    (insertEntry name value entries).Perm ((name, value) :: entries) := by
  induction entries with
  | nil => exact .refl _
  | cons e rest ih =>
      obtain ⟨hne, hrest⟩ := List.ne_and_not_mem_of_not_mem_cons h
      rw [insertEntry, if_neg hne]
      split
      · exact .refl _
      · exact ((ih hrest).cons e).trans (.swap _ _ _)

/-- Entries of different names are all kept. -/
theorem entries_foldl_perm (entries : List (String × String)) (p : Properties)
    (h : ((p.entries ++ entries).map (·.1)).Nodup) :
    (entries.foldl (fun q e => q.insert e.1 e.2) p).entries.Perm (p.entries ++ entries) := by
  induction entries generalizing p with
  | nil => rw [List.foldl_nil, List.append_nil]
  | cons e rest ih =>
      have hnew : e.1 ∉ p.entries.map (·.1) := by
        rw [List.map_append, List.nodup_append] at h
        exact fun hmem => h.2.2 e.1 hmem e.1 (by simp) rfl
      have hins : ((p.insert e.1 e.2).entries ++ rest).Perm (p.entries ++ e :: rest) :=
        ((insertEntry_perm hnew).append_right rest).trans List.perm_middle.symm
      exact (ih _ ((hins.map _).nodup_iff.2 h)).trans hins

theorem Properties.ofList_perm {es es' : List (String × String)} (h : es.Perm es')
    (hnodup : (es.map (·.1)).Nodup) : Properties.ofList es = Properties.ofList es' := by
  have hperm := entries_foldl_perm es .empty hnodup
  have hperm' := entries_foldl_perm es' .empty ((h.map _).nodup_iff.1 hnodup)
  refine Properties.eq_of_entries (List.Perm.eq_of_pairwise ?_ (Properties.ascending _)
    (Properties.ascending _) ((hperm.trans h).trans hperm'.symm))
  intro a b _ _ hab hba
  exact absurd hba (String.lt_asymm hab)

namespace Json

/-! ## Spellings -/

/-- How far the spelling of a value is free. A record lists its fields, each with the format
of its value and what may be left out for it. -/
inductive Format where
  | plain
  | map
  | list (item : Format)
  | record (fields : List (String × Format × Option Draft))

/-- A field of a record as its format has it. -/
abbrev Part := String × Format × Option Draft

/-- One change of the spelling. -/
inductive Edit : Format → Draft → Draft → Prop where
  | entries {fields fields' : List (Option String × Draft)}
      (hnodup : (fields.map (·.1)).Nodup) (horder : fields.Perm fields') :
      Edit .map (.obj fields true) (.obj fields' true)
  | item {format : Format} {d d' : Draft} (before after : List Draft) (h : Edit format d d') :
      Edit (.list format) (.arr (before ++ d :: after) true) (.arr (before ++ d' :: after) true)
  | order {known : List Part} {fields fields' : List (Option String × Draft)}
      (horder : fields.Perm fields') :
      Edit (.record known) (.obj fields true) (.obj fields' true)
  | unknown {known : List Part} {name : String} {d : Draft}
      (fields : List (Option String × Draft)) (hname : name ∉ known.map (·.1))
      (hwhole : d.whole = true) :
      Edit (.record known) (.obj fields true) (.obj ((some name, d) :: fields) true)
  | leaveOut {known : List Part} {name : String} {format : Format} {d : Draft}
      (fields : List (Option String × Draft)) (hdefault : (name, format, some d) ∈ known) :
      Edit (.record known) (.obj ((some name, d) :: fields) true) (.obj fields true)
  | writeOut {known : List Part} {name : String} {format : Format} {d : Draft}
      (fields : List (Option String × Draft)) (hdefault : (name, format, some d) ∈ known)
      (hnew : ∀ f ∈ fields, f.1 ≠ some name) :
      Edit (.record known) (.obj fields true) (.obj ((some name, d) :: fields) true)
  | inside {known : List Part} {name : String} {format : Format}
      {default? : Option Draft} {d d' : Draft} (fields : List (Option String × Draft))
      (hfield : (name, format, default?) ∈ known) (h : Edit format d d') :
      Edit (.record known) (.obj ((some name, d) :: fields) true)
        (.obj ((some name, d') :: fields) true)

/-- The second document is another spelling of the first. -/
abbrev Format.Spells (format : Format) : Draft → Draft → Prop :=
  Relation.ReflTransGen (Edit format)

/-- An edit that the format allows does not change what is read of a document. -/
def Respects {α : Type} (read : Reader α) (format : Format) : Prop :=
  ∀ d d' a, Edit format d d' → read d = .ok a → read d' = .ok a

variable {α : Type}

theorem Respects.of_spells {read : Reader α} {format : Format} (h : Respects read format)
    {d d' : Draft} {a : α} (hspells : format.Spells d d') (hread : read d = .ok a) :
    read d' = .ok a := by
  induction hspells with
  | refl => exact hread
  | tail _ hedit ih => exact h _ _ _ hedit ih

theorem respects_plain (read : Reader α) : Respects read .plain := by
  intro d d' a hedit
  cases hedit

/-! ## Maps and lists -/

theorem readEntries_cons {read : Reader α} {name : String} {d : Draft}
    {rest : List (Option String × Draft)} {es : List (String × α)} :
    readEntries read ((some name, d) :: rest) = .ok es ↔
      ∃ a more, read d = .ok a ∧ readEntries read rest = .ok more ∧ es = (name, a) :: more := by
  rw [readEntries]
  cases hd : read d <;> cases hrest : readEntries read rest <;>
    simp [bind, Except.bind, eq_comm]

theorem readEntries_names {read : Reader α} {fields : List (Option String × Draft)}
    {es : List (String × α)} (h : readEntries read fields = .ok es) :
    fields.map (·.1) = es.map fun e => some e.1 := by
  induction fields generalizing es with
  | nil =>
      cases h
      rfl
  | cons f rest ih =>
      obtain ⟨name?, d⟩ := f
      cases name? with
      | none => cases h
      | some name =>
          obtain ⟨a, more, -, hmore, rfl⟩ := readEntries_cons.1 h
          rw [List.map_cons, List.map_cons, ih hmore]

/-- The entries of a map in another order are read in that order. -/
theorem readEntries_perm {read : Reader α} {fields fields' : List (Option String × Draft)}
    (h : fields.Perm fields') {es : List (String × α)} (hread : readEntries read fields = .ok es) :
    ∃ es', readEntries read fields' = .ok es' ∧ es.Perm es' := by
  induction h generalizing es with
  | nil => exact ⟨es, hread, .refl es⟩
  | @cons f _ _ _ ih =>
      obtain ⟨name?, d⟩ := f
      cases name? with
      | none => cases hread
      | some name =>
          obtain ⟨a, more, hd, hmore, rfl⟩ := readEntries_cons.1 hread
          obtain ⟨more', hmore', hperm⟩ := ih hmore
          exact ⟨_, readEntries_cons.2 ⟨a, more', hd, hmore', rfl⟩, hperm.cons _⟩
  | swap f g rest =>
      obtain ⟨name?, d⟩ := f
      obtain ⟨name'?, d'⟩ := g
      cases name'? with
      | none => cases hread
      | some name' =>
          obtain ⟨a', more, hd', hmore, rfl⟩ := readEntries_cons.1 hread
          cases name? with
          | none => cases hmore
          | some name =>
              obtain ⟨a, last, hd, hlast, rfl⟩ := readEntries_cons.1 hmore
              have hrest :
                  readEntries read ((some name', d') :: rest) = .ok ((name', a') :: last) :=
                readEntries_cons.2 ⟨a', last, hd', hlast, rfl⟩
              exact ⟨_, readEntries_cons.2 ⟨a, _, hd, hrest, rfl⟩, .swap _ _ _⟩
  | trans _ _ ih ih' =>
      obtain ⟨es', hread', hperm⟩ := ih hread
      obtain ⟨es'', hread'', hperm'⟩ := ih' hread'
      exact ⟨es'', hread'', hperm.trans hperm'⟩

theorem readProperties_obj {fields : List (Option String × Draft)} {p : Properties} :
    readProperties (.obj fields true) = .ok p ↔
      ∃ es, readEntries readString fields = .ok es ∧ p = Properties.ofList es := by
  rw [readProperties, readMap]
  cases readEntries readString fields <;> simp [bind, Except.bind, Except.map, eq_comm]

theorem respects_map : Respects readProperties .map := by
  intro d d' p hedit hread
  cases hedit with
  | entries hnodup horder =>
      obtain ⟨es, hes, rfl⟩ := readProperties_obj.1 hread
      obtain ⟨es', hes', hperm⟩ := readEntries_perm horder hes
      have hnames : (es.map (·.1)).Nodup := by
        rw [readEntries_names hes] at hnodup
        exact List.Nodup.of_map some (by simpa [Function.comp_def] using hnodup)
      exact readProperties_obj.2 ⟨es', hes', Properties.ofList_perm hperm hnames⟩

theorem readEach_cons {read : Reader α} {d : Draft} {rest : List Draft} {as : List α} :
    readEach read (d :: rest) = .ok as ↔
      ∃ a more, read d = .ok a ∧ readEach read rest = .ok more ∧ as = a :: more := by
  rw [readEach]
  cases read d <;> cases readEach read rest <;> simp [bind, Except.bind, eq_comm]

theorem readEach_edit {read : Reader α} {d d' : Draft}
    (h : ∀ a, read d = .ok a → read d' = .ok a) {before after : List Draft} {as : List α}
    (hread : readEach read (before ++ d :: after) = .ok as) :
    readEach read (before ++ d' :: after) = .ok as := by
  induction before generalizing as with
  | nil =>
      obtain ⟨a, more, hd, hmore, rfl⟩ := readEach_cons.1 hread
      exact readEach_cons.2 ⟨a, more, h a hd, hmore, rfl⟩
  | cons b rest ih =>
      obtain ⟨a, more, hb, hmore, rfl⟩ := readEach_cons.1 hread
      exact readEach_cons.2 ⟨a, more, hb, ih hmore, rfl⟩

theorem readList_arr {read : Reader α} {items : List Draft} {as : List α} :
    readList read (.arr items true) = .ok as ↔ readEach read items = .ok as := by
  rw [readList]
  cases readEach read items <;> simp [bind, Except.bind]

theorem respects_list {read : Reader α} {format : Format} (h : Respects read format) :
    Respects (readList read) (.list format) := by
  intro d d' as hedit hread
  cases hedit with
  | item before after hitem =>
      exact readList_arr.2 (readEach_edit (fun a => h _ _ a hitem) (readList_arr.1 hread))

/-! ## Records -/

namespace Shape

/-- A field is read as its format says, and what may be left out is what then stands for it. -/
structure Suits {β : Type} (read : Reader β) (absent : Absent β) (format : Format)
    (default? : Option Draft) : Prop where
  respects : Respects read format
  leftOut : ∀ d, default? = some d → ∃ b, absent.inObject = some b ∧ read d = .ok b

/-- The fields of the shape are those of the format. -/
def Follows : {α : Type} → Shape α → List Part → Prop
  | _, .done _, known => known = []
  | _, .field _ name read absent rest, known =>
    ∃ format default? more, known = (name, format, default?) :: more ∧
      Suits read absent format default? ∧ rest.Follows more

variable {s : Shape α} {known : List Part}
  {fields fields' : List (Option String × Draft)}

theorem Follows.names_eq (h : s.Follows known) : s.names = known.map (·.1) := by
  induction s generalizing known with
  | done a =>
      cases h
      rfl
  | field β name read absent rest ih =>
      obtain ⟨format, default?, more, rfl, -, hmore⟩ := h
      rw [names, ih hmore, List.map_cons]

/-- What is said of each field in one object is said of it in the other. -/
theorem Follows.gives_of_given (h : s.Follows known) {a : α}
    (heach : ∀ {β : Type} (read : Reader β) (absent : Absent β) name format default?,
      (name, format, default?) ∈ known → Suits read absent format default? → ∀ b,
      Given read absent (valuesOf name fields) b → Given read absent (valuesOf name fields') b)
    (hgives : s.Gives fields a) : s.Gives fields' a := by
  induction s generalizing known with
  | done a => exact hgives
  | field β name read absent rest ih =>
      obtain ⟨format, default?, more, rfl, hsuits, hmore⟩ := h
      obtain ⟨b, build, hbuild, hgiven, rfl⟩ := hgives
      refine ⟨b, build, ih hmore ?_ hbuild, heach read absent name format default?
        List.mem_cons_self hsuits b hgiven, rfl⟩
      intro β' read' absent' name' format' default?' hmem
      exact heach read' absent' name' format' default?' (List.mem_cons_of_mem _ hmem)

/-- No two fields of the format have one name. -/
theorem Follows.eq_of_name (h : s.Follows known) (hnodup : s.names.Nodup)
    {f g : Part} (hf : f ∈ known) (hg : g ∈ known) (hname : f.1 = g.1) :
    f = g :=
  List.inj_on_of_nodup_map (h.names_eq ▸ hnodup) hf hg hname

variable {β : Type} {read : Reader β} {absent : Absent β} {format : Format}
  {default? : Option Draft} {d : Draft} {b : β}

theorem given_cons {ds : List Draft} :
    Given read absent (d :: ds) b ↔ ds = [] ∧ read d = .ok b := by
  simp [Given, and_assoc]

theorem Given.perm {ds ds' : List Draft} (h : Given read absent ds b) (hperm : ds.Perm ds') :
    Given read absent ds' b := by
  rcases h with ⟨rfl, hb⟩ | ⟨d, rfl, hread⟩
  · exact .inl ⟨List.nil_perm.1 hperm, hb⟩
  · exact .inr ⟨d, (List.singleton_perm.1 hperm).symm, hread⟩

/-- A default means the same whether it is written or not. -/
theorem Suits.given_default (h : Suits read absent format (some d)) :
    Given read absent [d] b ↔ Given read absent [] b := by
  obtain ⟨b', habsent, hread⟩ := h.leftOut d rfl
  simp [Given, habsent, hread]

/-- One field is spelled otherwise and all others are as they were: what is said of that field
in one object is to be said of it in the other. -/
theorem Follows.gives_of_field (h : s.Follows known) (hnodup : s.names.Nodup) {a : α}
    {name : String} (hfield : (name, format, default?) ∈ known)
    (hothers : ∀ key, name ≠ key → valuesOf key fields' = valuesOf key fields)
    (hself : ∀ {β : Type} {read : Reader β} {absent : Absent β} {b : β},
      Suits read absent format default? → Given read absent (valuesOf name fields) b →
      Given read absent (valuesOf name fields') b)
    (hgives : s.Gives fields a) : s.Gives fields' a := by
  refine h.gives_of_given (fun read absent key format' default?' hmem hsuits b hgiven => ?_) hgives
  by_cases hkey : name = key
  · subst hkey
    cases h.eq_of_name hnodup hfield hmem rfl
    exact hself hsuits hgiven
  · rwa [hothers key hkey]

/-- A default that is left out is given all the same. -/
theorem Suits.given_leftOut (h : Suits read absent format (some d)) {name : String}
    (hgiven : Given read absent (valuesOf name ((some name, d) :: fields)) b) :
    Given read absent (valuesOf name fields) b := by
  rw [valuesOf_cons_self] at hgiven
  have hnone := (given_cons.1 hgiven).1
  rw [hnone] at hgiven ⊢
  exact h.given_default.1 hgiven

theorem respects_record (h : s.Follows known) (hnodup : s.names.Nodup) :
    Respects s.read (.record known) := by
  intro d d' a hedit hread
  cases hedit with
  | @order _ fields fields' horder =>
      obtain ⟨hpasses, hgives⟩ := (read_obj_eq_ok hnodup).1 hread
      refine (read_obj_eq_ok hnodup).2
        ⟨fun f hf => hpasses f (horder.mem_iff.2 hf), h.gives_of_given ?_ hgives⟩
      intro β read absent name format default? _ _ b hgiven
      exact hgiven.perm (horder.filterMap _)
  | @unknown _ name d fields hname hwhole =>
      obtain ⟨hpasses, hgives⟩ := (read_obj_eq_ok hnodup).1 hread
      refine (read_obj_eq_ok hnodup).2
        ⟨passes_cons.2 ⟨.inr hwhole, hpasses⟩, h.gives_of_given ?_ hgives⟩
      intro β read absent key format default? hmem _ b hgiven
      have hne : name ≠ key := fun heq => hname (heq ▸ List.mem_map_of_mem hmem)
      rwa [valuesOf_cons_of_ne hne]
  | @leaveOut _ name format d fields hdefault =>
      obtain ⟨hpasses, hgives⟩ := (read_obj_eq_ok hnodup).1 hread
      refine (read_obj_eq_ok hnodup).2 ⟨(passes_cons.1 hpasses).2,
        h.gives_of_field hnodup hdefault (fun key hkey => ?_)
          (fun hsuits hgiven => hsuits.given_leftOut hgiven) hgives⟩
      exact (valuesOf_cons_of_ne hkey _ _).symm
  | @writeOut _ name format d fields hdefault hnew =>
      obtain ⟨hpasses, hgives⟩ := (read_obj_eq_ok hnodup).1 hread
      have hname : name ∈ s.names := h.names_eq ▸ List.mem_map_of_mem hdefault
      refine (read_obj_eq_ok hnodup).2 ⟨passes_cons.2 ⟨.inl hname, hpasses⟩,
        h.gives_of_field hnodup hdefault (fun key hkey => valuesOf_cons_of_ne hkey _ _) ?_
          hgives⟩
      intro β read absent b hsuits hgiven
      rw [valuesOf_eq_nil hnew] at hgiven
      rw [valuesOf_cons_self, valuesOf_eq_nil hnew]
      exact hsuits.given_default.2 hgiven
  | @inside _ name format default? d d' fields hfield hinside =>
      obtain ⟨hpasses, hgives⟩ := (read_obj_eq_ok hnodup).1 hread
      have hname : name ∈ s.names := h.names_eq ▸ List.mem_map_of_mem hfield
      refine (read_obj_eq_ok hnodup).2 ⟨passes_cons.2 ⟨.inl hname, (passes_cons.1 hpasses).2⟩,
        h.gives_of_field hnodup hfield (fun key hkey => ?_) ?_ hgives⟩
      · rw [valuesOf_cons_of_ne hkey, valuesOf_cons_of_ne hkey]
      · intro β read absent b hsuits hgiven
        rw [valuesOf_cons_self, given_cons] at hgiven ⊢
        exact ⟨hgiven.1, hsuits.respects _ _ _ hinside hgiven.2⟩

theorem Suits.required (h : Respects read format) : Suits read absent format none where
  respects := h
  leftOut d hd := by cases hd

theorem Suits.defaulted (h : Respects read format) (hread : read d = .ok b) :
    Suits read (.defaulted b) format (some d) where
  respects := h
  leftOut d' hd' := by
    cases hd'
    exact ⟨b, rfl, hread⟩

theorem Follows.done (a : α) : (Shape.done a).Follows [] := rfl

theorem Follows.field {name : String} {rest : Shape (β → α)}
    {more : List Part} (hsuits : Suits read absent format default?) (hmore : rest.Follows more) :
    (Shape.field β name read absent rest).Follows ((name, format, default?) :: more) :=
  ⟨format, default?, more, rfl, hsuits, hmore⟩

end Shape

end Json

/-! ## The formats -/

open Shape

/-- The field of a property map. -/
def Properties.part : Part := ("properties", .map, some (.obj [] true))

theorem Properties.suits : Suits readProperties (.defaulted .empty) .map (some (.obj [] true)) :=
  .defaulted respects_map rfl

def DataAddress.format : Format := .record [("kind", .plain, none), Properties.part]

theorem DataAddress.respects_read : Respects read format :=
  respects_record
    (.field (.required (respects_plain _)) <|
      .field Properties.suits <| .done _)
    (by decide)

def TransferRequest.format : Format :=
  .record [("id", .plain, none), ("connector_address", .plain, some (.str "")),
    ("protocol", .plain, some (.str "")), ("asset_id", .plain, some (.str "")),
    ("destination", DataAddress.format, none), ("managed_resources", .plain, some (.bool true)),
    Properties.part]

theorem TransferRequest.respects_read : Respects read format :=
  respects_record
    (.field (.required (respects_plain _)) <|
      .field (.defaulted (respects_plain _) rfl) <|
      .field (.defaulted (respects_plain _) rfl) <|
      .field (.defaulted (respects_plain _) rfl) <|
      .field (.required DataAddress.respects_read) <|
      .field (.defaulted (respects_plain _) rfl) <|
      .field Properties.suits <| .done _)
    (by decide)

def ResourceDefinition.format : Format :=
  .record [("id", .plain, none), ("kind", .plain, none), Properties.part]

theorem ResourceDefinition.respects_read : Respects read format :=
  respects_record
    (.field (.required (respects_plain _)) <|
      .field (.required (respects_plain _)) <|
      .field Properties.suits <| .done _)
    (by decide)

def ResourceManifest.format : Format :=
  .record [("definitions", .list ResourceDefinition.format, some (.arr [] true))]

theorem ResourceManifest.respects_read : Respects read format :=
  respects_record
    (.field (.defaulted (respects_list ResourceDefinition.respects_read) rfl) <| .done _)
    (by decide)

def ProvisionedResource.format : Format :=
  .record [("id", .plain, none), ("resource_definition_id", .plain, none),
    ("kind", .plain, none), ("is_destination", .plain, some (.bool false)), Properties.part]

theorem ProvisionedResource.respects_read : Respects read format :=
  respects_record
    (.field (.required (respects_plain _)) <|
      .field (.required (respects_plain _)) <|
      .field (.required (respects_plain _)) <|
      .field (.defaulted (respects_plain _) rfl) <|
      .field Properties.suits <| .done _)
    (by decide)

/-- The format of the resources of a job. -/
def resourceSetFormat : Format :=
  .record [("resources", .list ProvisionedResource.format, some (.arr [] true))]

theorem respects_readResourceSet : Respects readResourceSet resourceSetFormat :=
  respects_record
    (.field (.defaulted (respects_list ProvisionedResource.respects_read) rfl) <| .done _)
    (by decide)

def InboundTransfer.format : Format :=
  .record [("request", TransferRequest.format, none), ("process_id", .plain, none),
    ("callback_address", .plain, some .null)]

theorem InboundTransfer.respects_read : Respects read format :=
  respects_record
    (.field (.required TransferRequest.respects_read) <|
      .field (.required (respects_plain _)) <|
      .field (.defaulted (respects_plain _) rfl) <| .done _)
    (by decide)

/-- A value is read from what is written of it, and from every other spelling of that. -/
def ReadAlike {α : Type} (toJson : α → Json) (read : Reader α) (format : Format) : Prop :=
  ∀ a d, format.Spells (toJson a).draft d → read d = .ok a

theorem Json.Respects.readAlike {α : Type} {toJson : α → Json} {read : Reader α}
    {format : Format} (h : Respects read format) (hread : ∀ a, read (toJson a).draft = .ok a) :
    ReadAlike toJson read format :=
  fun a _ hspells => h.of_spells hspells (hread a)

theorem spelled_alike :
    ReadAlike TransferRequest.toJson TransferRequest.read TransferRequest.format ∧
    ReadAlike ResourceManifest.toJson ResourceManifest.read ResourceManifest.format ∧
    ReadAlike resourceSetToJson readResourceSet resourceSetFormat ∧
    ReadAlike InboundTransfer.toJson InboundTransfer.read InboundTransfer.format :=
  ⟨TransferRequest.respects_read.readAlike TransferRequest.read_toJson,
    ResourceManifest.respects_read.readAlike ResourceManifest.read_toJson,
    respects_readResourceSet.readAlike readResourceSet_toJson,
    InboundTransfer.respects_read.readAlike InboundTransfer.read_toJson⟩

/-- A transfer that leaves out that its resources are managed, says that it has no address
to call back, and has a field of its own. -/
theorem other_spelling_read :
    InboundTransfer.read (.obj [(some "callback_address", .null),
      (some "sent_by", .arr [.num .other, .null] true),
      (some "request", .obj [(some "id", .str "a"), (some "connector_address", .str ""),
        (some "protocol", .str ""), (some "asset_id", .str ""),
        (some "destination", .obj [(some "kind", .str "bucket")] true)] true),
      (some "process_id", .str "p")] true) =
    .ok ⟨⟨"a", "", "", "", ⟨"bucket", .empty⟩, true, .empty⟩, "p", none⟩ := by
  let managed : Option String × Draft := (some "managed_resources", .bool true)
  let fields : List (Option String × Draft) := [(some "id", .str "a"),
    (some "connector_address", .str ""), (some "protocol", .str ""), (some "asset_id", .str ""),
    (some "destination", .obj [(some "kind", .str "bucket")] true)]
  have horder : Edit TransferRequest.format (.obj (fields ++ [managed]) true)
      (.obj (managed :: fields) true) := .order List.perm_append_comm
  have hleft : Edit TransferRequest.format (.obj (managed :: fields) true) (.obj fields true) :=
    @Edit.leaveOut _ _ .plain _ _ (by simp)
  refine spelled_alike.2.2.2 _ _ ?_
  refine .tail (.tail (.tail (.tail .refl (.inside _ List.mem_cons_self horder))
    (.inside _ List.mem_cons_self hleft)) (.unknown _ (by decide) (by decide)))
    (@Edit.writeOut _ _ .plain _ _ ?_ ?_)
  · simp
  · simp [draftFields]

end Ferry
