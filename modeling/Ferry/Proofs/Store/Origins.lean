import Ferry.Proofs.Store.Rows
import Mathlib.Data.List.Forall2

/-!
# What no statement of the store changes

A row is added at the end of the table or not at all, and stays where it is. Of a
row that is there a statement overwrites at most what changes in the life of a
job, so it goes on to be the row of the same job (`Row.SameJob`): the same id,
the same request taken on for the same side, at the same time.

What the two unique columns are good for is said here as well. For each request
there is one row at most, and whoever looks for it finds it.
-/

namespace Ferry.Store

namespace Row

/-- The rows agree in what is written once, when a job is made. -/
structure SameJob (r r' : Row) : Prop where
  id : r'.id = r.id
  correlationId : r'.correlationId = r.correlationId
  role : r'.role = r.role
  request : r'.request = r.request
  createdAt : r'.createdAt = r.createdAt

theorem SameJob.refl (r : Row) : r.SameJob r :=
  ⟨rfl, rfl, rfl, rfl, rfl⟩

theorem SameJob.trans {r r' r'' : Row} (h : r.SameJob r') (h' : r'.SameJob r'') :
    r.SameJob r'' :=
  ⟨h'.id.trans h.id, h'.correlationId.trans h.correlationId, h'.role.trans h.role,
    h'.request.trans h.request, h'.createdAt.trans h.createdAt⟩

theorem sameJob_updatedFrom (r : Row) (j : Job) : r.SameJob (r.updatedFrom j) :=
  ⟨rfl, rfl, rfl, rfl, rfl⟩

end Row

namespace Table

/-- Row by row, the tables hold the same jobs. -/
def SameJobs (t t' : Table) : Prop :=
  List.Forall₂ Row.SameJob t.rows t'.rows

/-- The job with the id was taken on for the request. -/
def HasTaken (t : Table) (correlationId id : String) : Prop :=
  ∃ r ∈ t.rows, r.correlationId = .text correlationId ∧ r.id = .text id

variable {t t' : Table} {j : Job} {r : Row} {c id : String}

theorem SameJobs.refl (t : Table) : t.SameJobs t :=
  List.forall₂_same.2 fun r _ => .refl r

/-- Where a row was, the row of the same job is. -/
theorem SameJobs.exists_row (h : t.SameJobs t') (hr : r ∈ t.rows) :
    ∃ r' ∈ t'.rows, r.SameJob r' := by
  obtain ⟨n, hn, rfl⟩ := List.getElem_of_mem hr
  have hn' : n < t'.rows.length := by rw [← List.Forall₂.length_eq h]; exact hn
  exact ⟨t'.rows[n], List.getElem_mem hn', List.Forall₂.get h hn hn'⟩

theorem SameJobs.exists_origin (h : t.SameJobs t') (hr : r ∈ t'.rows) :
    ∃ old ∈ t.rows, old.SameJob r := by
  obtain ⟨n, hn, rfl⟩ := List.getElem_of_mem hr
  have hn' : n < t.rows.length := by rw [List.Forall₂.length_eq h]; exact hn
  exact ⟨t.rows[n], List.getElem_mem hn', List.Forall₂.get h hn' hn⟩

theorem SameJobs.trans {t'' : Table} (h : t.SameJobs t') (h' : t'.SameJobs t'') :
    t.SameJobs t'' := by
  refine List.forall₂_iff_get.2 ⟨h.length_eq.trans h'.length_eq, fun n hn hn'' => ?_⟩
  have hn' : n < t'.rows.length := h.length_eq ▸ hn
  exact (h.get hn hn').trans (h'.get hn' hn'')

theorem SameJobs.append (h : t.SameJobs t') (r : Row) :
    SameJobs ⟨t.rows ++ [r]⟩ ⟨t'.rows ++ [r]⟩ :=
  List.rel_append h (.cons (.refl r) .nil)

theorem HasTaken.append (h : t.HasTaken c id) (r : Row) : HasTaken ⟨t.rows ++ [r]⟩ c id := by
  obtain ⟨r', hr', hc, hid⟩ := h
  exact ⟨r', List.mem_append_left _ hr', hc, hid⟩

theorem SameJobs.hasTaken (h : t.SameJobs t') (htaken : t.HasTaken c id) : t'.HasTaken c id := by
  obtain ⟨r, hr, hc, hid⟩ := htaken
  obtain ⟨r', hr', hsame⟩ := h.exists_row hr
  exact ⟨r', hr', hsame.correlationId.trans hc, hsame.id.trans hid⟩

theorem sameJobs_write (t : Table) (j : Job) (expected : Option JobState) :
    t.SameJobs (t.write j expected) := by
  rw [SameJobs, write, List.forall₂_map_right_iff, List.forall₂_same]
  intro r _
  split
  · exact Row.sameJob_updatedFrom r j
  · exact .refl r

/-- A statement other than the making of a job leaves the jobs the same. -/
theorem sameJobs_perform (t : Table) {s : Call} (hs : ∀ job, s ≠ .create job) :
    t.SameJobs (s.perform t).2 := by
  have heffect := s.callEffect_perform t
  generalize (s.perform t).2 = t' at heffect ⊢
  cases heffect with
  | nothing => exact .refl t
  | create job _ => exact absurd rfl (hs job)
  | update job => exact sameJobs_write t job none
  | updateIfState job expected => exact sameJobs_write t job (some expected)

/-! ## Well-kept tables -/

theorem wellKept_write (h : t.WellKept) (j : Job) (expected : Option JobState) :
    (t.write j expected).WellKept := by
  obtain ⟨jobs, h⟩ := h
  exact ⟨_, h.write j expected⟩

theorem wellKept_perform (h : t.WellKept) {s : Call} (hs : ∀ job, s ≠ .create job) :
    ((s.perform t).2).WellKept := by
  have heffect := s.callEffect_perform t
  generalize (s.perform t).2 = t' at heffect ⊢
  cases heffect with
  | nothing => exact h
  | create job _ => exact absurd rfl (hs job)
  | update job => exact wellKept_write h job none
  | updateIfState job expected => exact wellKept_write h job (some expected)

/-- Who asks for a request gets the job that was taken on for it. -/
theorem findId_eq_some (h : t.WellKept) : t.findId c = .ok (some id) ↔ t.HasTaken c id := by
  obtain ⟨jobs, h⟩ := h
  rw [findId, h.find?_row]
  constructor
  · intro hfind
    cases hf : jobs.find? fun j => (Row.ofJob j).correlationId == .text c with
    | none => rw [hf] at hfind; cases hfind
    | some j =>
        rw [hf] at hfind
        obtain rfl : j.id = id := by simpa [Row.ofJob, Cell.text?] using hfind
        refine ⟨Row.ofJob j, ?_, by simpa using List.find?_some hf, rfl⟩
        rw [h.rows]
        exact List.mem_map_of_mem (List.mem_of_find?_eq_some hf)
  · rintro ⟨r, hr, hc, hid⟩
    rw [h.rows] at hr
    obtain ⟨j, hj, rfl⟩ := List.mem_map.1 hr
    cases hf : jobs.find? fun j => (Row.ofJob j).correlationId == .text c with
    | none => exact absurd hc (by simpa using List.find?_eq_none.1 hf j hj)
    | some k =>
        have hk : (Row.ofJob k).correlationId = .text c := by simpa using List.find?_some hf
        have hkj : k.correlationId = j.correlationId := Cell.text.inj (hk.trans hc.symm)
        obtain rfl := List.inj_on_of_nodup_map h.correlations
          (List.mem_of_find?_eq_some hf) hj hkj
        obtain rfl : k.id = id := Cell.text.inj hid
        rfl

theorem findId_eq_none (h : t.WellKept) : t.findId c = .ok none ↔ ∀ id, ¬ t.HasTaken c id := by
  refine ⟨fun hnone id htaken => ?_, fun hnot => ?_⟩
  · rw [(findId_eq_some h).2 htaken] at hnone
    cases hnone
  · have hjobs := h
    obtain ⟨jobs, hl⟩ := hjobs
    rw [findId, hl.find?_row]
    cases hf : jobs.find? fun j => (Row.ofJob j).correlationId == .text c with
    | none => rfl
    | some k =>
        refine absurd ⟨Row.ofJob k, ?_, by simpa using List.find?_some hf, rfl⟩ (hnot k.id)
        rw [hl.rows]
        exact List.mem_map_of_mem (List.mem_of_find?_eq_some hf)

theorem eq_of_id (h : t.WellKept) {r' : Row} (hr : r ∈ t.rows) (hr' : r' ∈ t.rows)
    (hid : r'.id = r.id) : r' = r := by
  obtain ⟨jobs, h⟩ := h
  rw [h.rows, List.mem_map] at hr hr'
  obtain ⟨j, hj, rfl⟩ := hr
  obtain ⟨j', hj', rfl⟩ := hr'
  rw [List.inj_on_of_nodup_map h.ids hj' hj (Cell.text.inj hid)]

theorem eq_of_correlationId (h : t.WellKept) {r' : Row} (hr : r ∈ t.rows) (hr' : r' ∈ t.rows)
    (hc : r'.correlationId = r.correlationId) : r' = r := by
  obtain ⟨jobs, h⟩ := h
  rw [h.rows, List.mem_map] at hr hr'
  obtain ⟨j, hj, rfl⟩ := hr
  obtain ⟨j', hj', rfl⟩ := hr'
  rw [List.inj_on_of_nodup_map h.correlations hj' hj (Cell.text.inj hc)]

theorem nodup_rows (h : t.WellKept) : t.rows.Nodup := by
  obtain ⟨jobs, h⟩ := h
  rw [h.rows]
  refine List.Nodup.map_on ?_ (List.Nodup.of_map _ h.ids)
  intro j hj j' hj' hjj
  exact List.inj_on_of_nodup_map h.ids hj hj' (Cell.text.inj (congrArg Row.id hjj))

/-- There is one row for a request at most. -/
theorem filter_correlationId (h : t.WellKept) (hr : r ∈ t.rows) (hc : r.correlationId = .text c) :
    t.rows.filter (fun r => r.correlationId == .text c) = [r] := by
  refine List.perm_singleton.1 ((List.perm_ext_iff_of_nodup ((nodup_rows h).filter _)
    (List.nodup_singleton r)).2 fun r' => ?_)
  rw [List.mem_filter, List.mem_singleton, beq_iff_eq]
  constructor
  · rintro ⟨hr', hc'⟩
    exact eq_of_correlationId h hr hr' (hc'.trans hc.symm)
  · rintro rfl
    exact ⟨hr, hc⟩

theorem hasTaken_unique (h : t.WellKept) {id' : String} (htaken : t.HasTaken c id)
    (htaken' : t.HasTaken c id') : id = id' := by
  have hfind := (findId_eq_some h).2 htaken
  rw [(findId_eq_some h).2 htaken'] at hfind
  exact (Option.some.inj (Except.ok.inj hfind)).symm

/-- A job is taken on for one request. -/
theorem hasTaken_injective (h : t.WellKept) {c' : String} (htaken : t.HasTaken c id)
    (htaken' : t.HasTaken c' id) : c = c' := by
  obtain ⟨r, hr, hc, hid⟩ := htaken
  obtain ⟨r', hr', hc', hid'⟩ := htaken'
  obtain rfl := eq_of_id h hr' hr (hid.trans hid'.symm)
  exact Cell.text.inj (hc.symm.trans hc')

/-- A job of a new id is refused only because its request was taken on before. -/
theorem create_of_wellKept (h : t.WellKept) (hreq : j.request.id = j.correlationId)
    (hnew : ∀ r ∈ t.rows, r.id ≠ .text j.id) :
    ((∃ id, t.HasTaken j.correlationId id) ∧
      t.create j = .error (.duplicateCorrelationId j.correlationId)) ∨
    (t.create j = .ok ⟨t.rows ++ [Row.ofJob j]⟩ ∧ Table.WellKept ⟨t.rows ++ [Row.ofJob j]⟩) := by
  obtain ⟨jobs, h⟩ := h
  have hid : t.holds .id (.text j.id) = false := by
    rw [holds, List.any_eq_false]
    exact fun r hr => by simpa [Row.get] using hnew r hr
  rw [create]
  split
  · next hheld =>
    obtain ⟨k, hk, hc⟩ := (h.holds_iff .correlationId _).1 hheld
    refine .inl ⟨⟨k.id, Row.ofJob k, ?_, hc, rfl⟩, rfl⟩
    rw [h.rows]
    exact List.mem_map_of_mem hk
  · next hheld =>
    have hc : t.holds .correlationId (.text j.correlationId) = false := by
      simpa [Row.ofJob] using hheld
    rw [if_neg (by simpa [Row.ofJob] using hid)]
    exact .inr ⟨rfl, _, h.append hid hc hreq⟩

end Table

end Ferry.Store
