import Ferry.Proofs.Job.Consistency
import Ferry.Proofs.Store.Origins
import Ferry.Proofs.Store.Reading

/-!
# Copies of stored jobs

A program reads a job, keeps the copy for as long as it likes and then writes it over
whatever is stored by then. For most purposes such a copy is worth nothing once others
have moved on. For two it never goes stale: the row is still there and still that of the
same job (`Continues`), and the fields that are written are written together, so what
they agreed on in the copy they agree on in the table (`Coherent.perform`).
-/

namespace Ferry

/-- A write of fields that agree, over those of the same job. -/
theorem Job.Consistent.changedTo {old new : Job} (h : old.Consistent) (hnew : new.Consistent)
    (hrole : new.role = old.role) (hrequest : new.request = old.request) :
    (old.changedTo new).Consistent where
  correlationId := h.correlationId
  errorDetail := hnew.errorDetail
  unplanned := hnew.unplanned
  planned := hnew.planned
  initiator hr := hnew.initiator (hrole.trans hr)
  executor hr := hnew.executor (hrole.trans hr)
  resources := hnew.resources
  retryCount hne := by
    obtain ⟨hr, hstate⟩ := hnew.retryCount hne
    exact ⟨hrole.symm.trans hr, hstate⟩
  unmanaged hr hm := hnew.unmanaged (hrole.trans hr) (by rw [hrequest]; exact hm)

namespace Store

namespace Row

/-- But for its times, a job is read as it was written. -/
theorem eq_of_toJob?_ofJob {j j' : Job} (h : (ofJob j).toJob? = some j') :
    j' = { j with createdAt := j'.createdAt, stateTimestamp := j'.stateTimestamp } := by
  obtain ⟨hid, hst, hreq⟩ := toJob?_ofJob h
  have hc : j'.correlationId = j.correlationId := congrArg Standing.correlationId hst
  have hrole : j'.role = j.role := congrArg Standing.role hst
  have hstate : j'.state = j.state := congrArg Standing.state hst
  have hreads := reads_of_toJob? h
  have hmanifest : j'.manifest = j.manifest :=
    Option.some.inj (hreads.manifest.symm.trans (manifest_ofJob j))
  have hresources : j'.resources = j.resources :=
    Option.some.inj (hreads.resources.symm.trans (document?_resources j.resources))
  have hdetail : j'.errorDetail = j.errorDetail :=
    Option.some.inj (hreads.errorDetail.symm.trans (errorDetail_ofJob j))
  have hcount : j'.retryCount = j.retryCount := by
    have hread : (some (j.retryCount.toNat : Int)) = some (j'.retryCount.toNat : Int) :=
      hreads.retryCount
    exact UInt32.toNat.inj (by exact_mod_cast (Option.some.inj hread).symm)
  cases j'
  cases j
  simp_all

end Row

namespace Table

/-- The table holds nothing but jobs whose fields agree. -/
def Coherent (t : Table) : Prop :=
  ∃ jobs, t.Lists jobs ∧ ∀ j ∈ jobs, j.Consistent

/-- Every row is still there, with what never changes of its job. -/
def Continues (t t' : Table) : Prop :=
  ∀ r ∈ t.rows, ∃ r' ∈ t'.rows, r.SameJob r'

/-- There is a row for the job: it has the id, and is for the same side and request. -/
def Knows (t : Table) (j : Job) : Prop :=
  ∃ r ∈ t.rows, r.id = .text j.id ∧ r.role = .text j.role.name ∧
    r.request = .text j.request.toJson.print

/-- A copy of a stored job, of whatever age. -/
structure Copied (t : Table) (j : Job) : Prop where
  knows : t.Knows j
  consistent : j.Consistent

variable {t t' t'' : Table} {j after : Job} {id : String}

theorem coherent_empty : Coherent {} :=
  ⟨[], ⟨rfl, List.nodup_nil, List.nodup_nil, by simp⟩, by simp⟩

theorem Coherent.wellKept (h : t.Coherent) : t.WellKept := by
  obtain ⟨jobs, hlists, -⟩ := h
  exact ⟨jobs, hlists⟩

theorem Continues.refl (t : Table) : t.Continues t :=
  fun r hr => ⟨r, hr, .refl r⟩

theorem Continues.trans (h : t.Continues t') (h' : t'.Continues t'') : t.Continues t'' := by
  intro r hr
  obtain ⟨r', hr', hsame⟩ := h r hr
  obtain ⟨r'', hr'', hsame'⟩ := h' r' hr'
  exact ⟨r'', hr'', hsame.trans hsame'⟩

theorem continues_perform (t : Table) (s : Call) : t.Continues (s.perform t).2 := by
  have heffect := s.callEffect_perform t
  generalize (s.perform t).2 = t' at heffect ⊢
  cases heffect with
  | nothing => exact .refl t
  | create job hcreate =>
      obtain ⟨-, -, rfl⟩ := create_eq_ok.1 hcreate
      exact fun r hr => ⟨r, List.mem_append_left _ hr, .refl r⟩
  | update job => exact fun r hr => (sameJobs_write t job none).exists_row hr
  | updateIfState job expected =>
      exact fun r hr => (sameJobs_write t job (some expected)).exists_row hr

theorem Knows.continues (h : t.Knows j) (hc : t.Continues t') : t'.Knows j := by
  obtain ⟨r, hr, hid, hrole, hrequest⟩ := h
  obtain ⟨r', hr', hsame⟩ := hc r hr
  exact ⟨r', hr', hsame.id.trans hid, hsame.role.trans hrole, hsame.request.trans hrequest⟩

theorem Copied.continues (h : t.Copied j) (hc : t.Continues t') : t'.Copied j :=
  ⟨h.knows.continues hc, h.consistent⟩

theorem Copied.evolves (h : t.Copied j) (he : j.Evolves after) : t.Copied after := by
  obtain ⟨r, hr, hid, hrole, hrequest⟩ := h.knows
  refine ⟨⟨r, hr, ?_, ?_, ?_⟩, he.consistent h.consistent⟩
  · rw [he.id, hid]
  · rw [he.role, hrole]
  · rw [he.request, hrequest]

/-! ## Reading -/

theorem copied_of_readRow {r : Row} (h : t.Coherent) (hr : r ∈ t.rows)
    (hread : readRow r = .ok j) : t.Copied j := by
  obtain ⟨jobs, hlists, hconsistent⟩ := h
  have hmem := hr
  rw [hlists.rows] at hmem
  obtain ⟨k, hk, rfl⟩ := List.mem_map.1 hmem
  rw [readRow] at hread
  split at hread
  · next k' hk' =>
    cases hread
    have heq := Row.eq_of_toJob?_ofJob hk'
    have hc := hconsistent k hk
    refine ⟨⟨_, hr, ?_, ?_, ?_⟩, ?_⟩
    · rw [heq]; rfl
    · rw [heq]; rfl
    · rw [heq]; rfl
    · -- the times are no field's concern
      rw [heq]
      exact ⟨hc.correlationId, hc.errorDetail, hc.unplanned, hc.planned, hc.initiator,
        hc.executor, hc.resources, hc.retryCount, hc.unmanaged⟩
  · cases hread

theorem copied_of_get (h : t.Coherent) (hget : t.get id = .ok (some j)) : t.Copied j := by
  obtain ⟨-, r, hr, hread⟩ := get_eq_some hget
  exact copied_of_readRow h (List.mem_of_find?_eq_some hr) (by simp [readRow, hread])

theorem copied_of_next {state : JobState} {limit : Nat} {jobs : List Job} (h : t.Coherent)
    (hnext : t.next state limit = .ok jobs) : ∀ j ∈ jobs, j.state = state ∧ t.Copied j := by
  intro j hj
  have hstate := ((next_ok h.wellKept hnext).2 j hj).1
  have hwritten : ∀ r ∈ (t.queue state).take (min limit maxLimit), r ∈ t.rows := by
    intro r hr
    exact (List.mem_filter.1 ((queue_perm t state).mem_iff.1 (List.mem_of_mem_take hr))).1
  have hrows : ∀ r ∈ (t.queue state).take (min limit maxLimit), ∃ k, r = Row.ofJob k := by
    intro r hr
    obtain ⟨stored, hlists, -⟩ := h
    have hmem := hwritten r hr
    rw [hlists.rows] at hmem
    obtain ⟨k, -, hk⟩ := List.mem_map.1 hmem
    exact ⟨k, hk.symm⟩
  obtain ⟨r, hr, hread⟩ := (mapM_readRow hrows hnext).2 j hj
  exact ⟨hstate, copied_of_readRow h (hwritten r hr) hread⟩

/-! ## Writing -/

theorem Coherent.write (h : t.Coherent) (hj : t.Copied j) (expected : Option JobState) :
    (t.write j expected).Coherent := by
  obtain ⟨jobs, hlists, hconsistent⟩ := h
  refine ⟨_, hlists.write j expected, fun k hk => ?_⟩
  obtain ⟨old, hold, rfl⟩ := List.mem_map.1 hk
  split
  · next hmatch =>
    -- the row that is overwritten is the one the copy was read of
    obtain ⟨r, hr, hid, hrole, hrequest⟩ := hj.knows
    rw [hlists.rows] at hr
    obtain ⟨k, hkmem, rfl⟩ := List.mem_map.1 hr
    have hkid : k.id = old.id :=
      (Cell.text.inj hid).trans ((matchesJob_iff j expected).1 hmatch).1.symm
    obtain rfl := List.inj_on_of_nodup_map hlists.ids hkmem hold hkid
    have hrole' : k.role = j.role := Role.name_inj (Cell.text.inj hrole)
    have hrequest' : k.request = j.request := Row.request_inj (Cell.text.inj hrequest)
    exact (hconsistent k hold).changedTo hj.consistent hrole'.symm hrequest'.symm
  · exact hconsistent old hold

theorem Coherent.create (h : t.Coherent) (hj : j.Consistent) (hcreate : t.create j = .ok t') :
    t'.Coherent := by
  obtain ⟨jobs, hlists, hconsistent⟩ := h
  obtain ⟨hc, hid, rfl⟩ := create_eq_ok.1 hcreate
  refine ⟨jobs ++ [j], hlists.append hid hc hj.correlationId.symm, fun k hk => ?_⟩
  rcases List.mem_append.1 hk with hk | hk
  · exact hconsistent k hk
  · rw [List.mem_singleton.1 hk]
    exact hj

end Table

/-- What is stored is a job whose fields agree, and unless it is a new one it is the copy
of one that was read. -/
def Call.Careful (t : Table) : Call → Prop
  | .create job => job.Consistent
  | .update job | .updateIfState job _ => t.Copied job
  | _ => True

theorem Table.Coherent.perform {t : Table} (h : t.Coherent) {s : Call} (hs : s.Careful t) :
    (s.perform t).2.Coherent := by
  have heffect := s.callEffect_perform t
  generalize (s.perform t).2 = t' at heffect ⊢
  cases heffect with
  | nothing => exact h
  | create job hcreate => exact h.create hs hcreate
  | update job => exact h.write hs none
  | updateIfState job expected => exact h.write hs (some expected)

/-! ## Refusing -/

/-- An error the store may answer with: it knows nothing of moves. -/
def Answerable (e : JobError) : Prop :=
  ∀ id role origin target, e ≠ .invalidTransition id role origin target

theorem answerable_of_readRow {r : Row} {e : JobError} (h : Table.readRow r = .error e) :
    Answerable e := by
  rw [Table.readRow] at h
  split at h
  · cases h
  · cases h
    rintro id role origin target ⟨⟩

theorem answerable_of_mapM {rows : List Row} {e : JobError}
    (h : rows.mapM Table.readRow = .error e) : Answerable e := by
  induction rows with
  | nil => cases h
  | cons r rest ih =>
      rw [List.mapM_cons] at h
      cases hr : Table.readRow r with
      | error e' =>
          rw [hr] at h
          cases h
          exact answerable_of_readRow hr
      | ok j =>
          cases hrest : rest.mapM Table.readRow with
          | error e' =>
              rw [hr, hrest] at h
              cases h
              exact ih hrest
          | ok jobs =>
              rw [hr, hrest] at h
              cases h

theorem Call.answerable_of_perform {t : Table} {s : Call} {e : JobError}
    (h : (s.perform t).1 = .error e) : Answerable e := by
  cases s with
  | create job =>
      rw [perform, Table.create] at h
      split at h
      · cases h
        rintro id role origin target ⟨⟩
      · split at h
        · cases h
          rintro id role origin target ⟨⟩
        · cases h
  | update job =>
      rw [perform, Table.update] at h
      split at h
      · cases h
      · cases h
        rintro id role origin target ⟨⟩
  | updateIfState job expected => cases h
  | get id =>
      rw [perform, Table.get_eq] at h
      split at h
      · cases h
      · next r hr =>
        cases hread : Table.readRow r with
        | ok j => rw [hread] at h; cases h
        | error e' =>
            rw [hread] at h
            cases h
            exact answerable_of_readRow hread
  | findId c =>
      rw [perform, Table.findId] at h
      split at h
      · cases h
      · split at h
        · cases h
        · cases h
          rintro id role origin target ⟨⟩
  | next state limit => exact answerable_of_mapM h
  | count state => cases h

end Store

end Ferry
