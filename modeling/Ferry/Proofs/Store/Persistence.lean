import Ferry.Proofs.Store.Integrity
import Ferry.Proofs.Store.Origins
import Ferry.Proofs.Store.Queue
import Ferry.Proofs.Store.Reading
import Ferry.Proofs.Time.Rfc3339

/-!
# What is stored is read again

A job that was created is read as it was, and after an update it is read as it was
updated, with what was written when it was made. What happened to the table in
between does not matter, nor what else is in it. Only of the time of the last move
what a millisecond does not show is lost.

Milliseconds cannot name a leap second. It is read as the second after it, and there
is one leap second with none after it. A job that moved then can be written and
not be read (`toJob?_eq_none`). Of all other jobs no row is ever unreadable, so the
queue is never blocked.
-/

namespace Ferry

namespace Time.Instant

variable {t : Instant}

theorem legible_epoch : epoch.Legible :=
  ⟨by decide, by decide, by decide, by decide⟩

end Time.Instant

namespace Store

open Time (Instant)

/-! ## Rows -/

namespace Row

variable {r r' : Row} {j new : Job}

/-- What a write makes of a row, but for what it overwrites, is told by the job that
was stored first. -/
theorem SameJob.updatedFrom_eq (h : r.SameJob r') (new : Job) :
    r'.updatedFrom new = r.updatedFrom new := by
  simp only [updatedFrom, h.id, h.correlationId, h.role, h.request, h.createdAt]

theorem reads_ofJob_truncated (hcreated : j.createdAt.Legible)
    (hstamp : j.stateTimestamp.Storable) :
    (ofJob j).Reads { j with stateTimestamp := j.stateTimestamp.truncated } := by
  have hbase : (ofJob { j with stateTimestamp := .epoch }).Reads
      { j with stateTimestamp := .epoch } :=
    reads_ofJob (Instant.parse?_toOffset hcreated)
      (Instant.ofMillis?_millis Instant.storable_epoch)
  have hwritten := hbase.updatedFrom hstamp
  rw [updatedFrom_ofJob] at hwritten
  exact hwritten

/-- However a row was written before, the last write is read. -/
theorem reads_updatedFrom (h : (ofJob j).SameJob r) (hid : new.id = j.id)
    (hcreated : j.createdAt.Legible) (hstamp : new.stateTimestamp.Storable) :
    (r.updatedFrom new).Reads
      { new with
        correlationId := j.correlationId, role := j.role, request := j.request,
        createdAt := j.createdAt, stateTimestamp := new.stateTimestamp.truncated } := by
  rw [h.updatedFrom_eq, updatedFrom_ofJob, hid]
  exact reads_ofJob_truncated (j := j.changedTo new) hcreated hstamp

/-- A job that moved at no time of a millisecond cannot be read. -/
theorem toJob?_eq_none (hstamp : ¬ j.stateTimestamp.Storable) : (ofJob j).toJob? = none := by
  cases hread : (ofJob j).toJob? with
  | none => rfl
  | some j' =>
      have hmillis : Instant.ofMillis? j.stateTimestamp.millis = some j'.stateTimestamp :=
        (reads_of_toJob? hread).stateTimestamp
      rw [Instant.ofMillis?] at hmillis
      split at hmillis
      · next hrange => exact absurd hrange hstamp
      · cases hmillis

end Row

/-- The times that a call writes can be read again. -/
def Call.Legible : Call → Prop
  | .create job => job.createdAt.Legible ∧ job.stateTimestamp.Storable
  | .update job => job.stateTimestamp.Storable
  | .updateIfState job _ => job.stateTimestamp.Storable
  | _ => True

namespace Table

variable {t : Table} {r : Row} {job new : Job}

/-! ## One row through any calls -/

theorem Sole.perform_same (h : t.Sole r) (c : Call) :
    ∃ r', ((c.perform t).2).Sole r' ∧ r.SameJob r' := by
  have hwrite : ∀ new expected, ∃ r', (t.write new expected).Sole r' ∧ r.SameJob r' := by
    intro new expected
    refine ⟨_, h.write new expected, ?_⟩
    split
    · exact r.sameJob_updatedFrom new
    · exact .refl r
  have heffect := c.callEffect_perform t
  generalize (c.perform t).2 = t' at heffect ⊢
  cases heffect with
  | nothing => exact ⟨r, h, .refl r⟩
  | create new hcreate => exact ⟨r, h.create hcreate, .refl r⟩
  | update new => exact hwrite new none
  | updateIfState new expected => exact hwrite new (some expected)

theorem Sole.replay (h : t.Sole r) (calls : List Call) :
    ∃ r', (t.replay calls).Sole r' ∧ r.SameJob r' := by
  induction calls generalizing t r with
  | nil => exact ⟨r, h, .refl r⟩
  | cons c calls ih =>
      obtain ⟨r₁, h₁, hsame₁⟩ := h.perform_same c
      obtain ⟨r₂, h₂, hsame₂⟩ := ih h₁
      exact ⟨r₂, h₂, hsame₁.trans hsame₂⟩

/-- The row of a new job. -/
theorem sole_append (hid : t.holds .id (.text job.id) = false)
    (hc : t.holds .correlationId (.text job.correlationId) = false) :
    Sole ⟨t.rows ++ [Row.ofJob job]⟩ (Row.ofJob job) := by
  rw [holds, List.any_eq_false] at hid hc
  have hlast : ∀ r' ∈ t.rows ++ [Row.ofJob job], r' ∈ t.rows ∨ r' = Row.ofJob job := by
    intro r' hr'
    rcases List.mem_append.1 hr' with hr' | hr'
    · exact .inl hr'
    · exact .inr (List.mem_singleton.1 hr')
  refine ⟨by simp, fun r' hr' heq => ?_, fun r' hr' heq => ?_⟩
  · rcases hlast r' hr' with hold | hnew
    · exact absurd (beq_iff_eq.2 heq) (hid r' hold)
    · exact hnew
  · rcases hlast r' hr' with hold | hnew
    · exact absurd (beq_iff_eq.2 heq) (hc r' hold)
    · exact hnew

/-- An update finds the row, whatever stands in it. -/
theorem Sole.update (h : t.Sole r) (hid : r.id = .text new.id) :
    t.update new = .ok (t.write new none) ∧ (t.write new none).Sole (r.updatedFrom new) := by
  have hmatch : matchesJob new none r = true := by simp [matchesJob, hid]
  have hwrite := h.write new none
  rw [if_pos hmatch] at hwrite
  rw [Table.update, h.hits hid, hmatch]
  exact ⟨rfl, hwrite⟩

/-! ## A store that can be read -/

/-- Every row is the row of a job. -/
def Readable (t : Table) : Prop :=
  ∀ r ∈ t.rows, ∃ job, r.toJob? = some job

theorem readable_write (h : t.Readable) (hstamp : new.stateTimestamp.Storable)
    (expected : Option JobState) : (t.write new expected).Readable := by
  intro r hr
  obtain ⟨old, hold, rfl⟩ := List.mem_map.1 hr
  obtain ⟨job, hread⟩ := h old hold
  split
  · exact ⟨_, ((Row.reads_of_toJob? hread).updatedFrom hstamp).toJob?⟩
  · exact ⟨job, hread⟩

theorem readable_perform (h : t.Readable) {c : Call} (hc : c.Legible) :
    ((c.perform t).2).Readable := by
  have heffect := c.callEffect_perform t
  generalize (c.perform t).2 = t' at heffect ⊢
  cases heffect with
  | nothing => exact h
  | create new hcreate =>
      obtain ⟨-, -, rfl⟩ := create_eq_ok.1 hcreate
      intro r hr
      rcases List.mem_append.1 hr with hr | hr
      · exact h r hr
      · rw [List.mem_singleton.1 hr]
        exact ⟨_, (Row.reads_ofJob_truncated hc.1 hc.2).toJob?⟩
  | update new => exact readable_write h hc none
  | updateIfState new expected => exact readable_write h hc (some expected)

theorem readable_replay (h : t.Readable) {calls : List Call} (hcalls : ∀ c ∈ calls, c.Legible) :
    (t.replay calls).Readable := by
  induction calls generalizing t with
  | nil => exact h
  | cons c calls ih =>
      rw [List.forall_mem_cons] at hcalls
      exact ih (readable_perform h hcalls.1) hcalls.2

/-- The queue of a store that can be read answers. -/
theorem Readable.next (h : t.Readable) (state : JobState) (limit : Nat) :
    ∃ jobs, t.next state limit = .ok jobs := by
  refine exists_mapM_readRow fun r hr => h r ?_
  have hmem : r ∈ t.queue state := List.mem_of_mem_take hr
  exact List.mem_of_mem_filter ((queue_perm t state).mem_iff.1 hmem)

/-! ## The round trip -/

/-- A job that is new to a store is read as it was created, and after any calls and an
update as it was updated. A store whose rows can be read stays so and its queues answer. -/
theorem reads_back (t : Table) (job : Job) (hid : t.holds .id (.text job.id) = false)
    (hc : t.holds .correlationId (.text job.correlationId) = false)
    (hcreated : job.createdAt.Legible) (hstamp : job.stateTimestamp.Storable) :
    ∃ t', (Call.create job).perform t = (.ok (), t') ∧
      t'.get job.id =
        .ok (some { job with stateTimestamp := job.stateTimestamp.truncated }) ∧
      (∀ (calls : List Call) (new : Job), new.id = job.id → new.stateTimestamp.Storable →
        ∃ t'', (Call.update new).perform (t'.replay calls) = (.ok (), t'') ∧
          t''.get job.id = .ok (some { new with
            correlationId := job.correlationId, role := job.role, request := job.request,
            createdAt := job.createdAt, stateTimestamp := new.stateTimestamp.truncated })) ∧
      (t.Readable → ∀ calls : List Call, (∀ c ∈ calls, c.Legible) →
        ∀ (state : JobState) (limit : Nat), ∃ jobs,
          (t'.replay calls).next state limit = .ok jobs) := by
  have hcreate : (Call.create job).perform t = (.ok (), ⟨t.rows ++ [Row.ofJob job]⟩) :=
    congrArg (Call.written t) (create_eq_ok.2 ⟨hc, hid, rfl⟩)
  have hsole := sole_append hid hc
  refine ⟨_, hcreate, hsole.get (Row.reads_ofJob_truncated hcreated hstamp).toJob?, ?_, ?_⟩
  · intro calls new hnew hstamp'
    obtain ⟨r, hr, hsame⟩ := hsole.replay calls
    have hrow : r.id = .text new.id := by
      rw [hsame.id, hnew]
      rfl
    obtain ⟨hupdate, hr'⟩ := hr.update hrow
    refine ⟨_, by rw [Call.perform, hupdate]; rfl, ?_⟩
    rw [← hnew]
    exact hr'.get (Row.reads_updatedFrom hsame hnew hcreated hstamp').toJob?
  · intro hreadable calls hcalls state limit
    have hlegible : (Call.create job).Legible := ⟨hcreated, hstamp⟩
    have hstored := readable_perform hreadable hlegible
    rw [hcreate] at hstored
    exact (readable_replay hstored hcalls).next state limit

/-- A job for a new request. -/
def plainJob : Job :=
  Job.new "a" .initiator { id := "c-a", destination := { kind := "local_directory" } } .epoch

theorem reads_back_plainJob :
    (({} : Table).holds .id (.text plainJob.id) = false ∧
      ({} : Table).holds .correlationId (.text plainJob.correlationId) = false ∧
      plainJob.createdAt.Legible ∧ plainJob.stateTimestamp.Storable) ∧
    ∃ t', (Call.create plainJob).perform {} = (.ok (), t') ∧
      t'.get plainJob.id = .ok (some plainJob) ∧
      ∃ t'', (Call.update { plainJob with state := .provisioning }).perform t' = (.ok (), t'') ∧
        t''.get plainJob.id = .ok (some { plainJob with state := .provisioning }) := by
  refine ⟨⟨rfl, rfl, Instant.legible_epoch, Instant.storable_epoch⟩, ?_⟩
  obtain ⟨t', hcreate, hget, hupdate, -⟩ :=
    reads_back {} plainJob rfl rfl Instant.legible_epoch Instant.storable_epoch
  exact ⟨t', hcreate, hget,
    hupdate [] { plainJob with state := .provisioning } rfl Instant.storable_epoch⟩

/-- The job of `plainJob`, moved at the leap second after the last second of all. -/
def lastJob : Job :=
  { plainJob with stateTimestamp := ⟨Instant.maxSeconds, 1000000000⟩ }

/-- It can be created, and neither be read nor be passed by in its queue. -/
theorem not_read_lastJob :
    lastJob.createdAt.Legible ∧ lastJob.stateTimestamp.inRange = true ∧
    (Call.create lastJob).perform {} = (.ok (), ⟨[Row.ofJob lastJob]⟩) ∧
    Table.get ⟨[Row.ofJob lastJob]⟩ lastJob.id = .error rowError ∧
    Table.next ⟨[Row.ofJob lastJob]⟩ lastJob.state 1 = .error rowError := by
  have hnone : (Row.ofJob lastJob).toJob? = none := Row.toJob?_eq_none (by decide)
  have hread : readRow (Row.ofJob lastJob) = .error rowError := by rw [readRow, hnone]
  have hrow : Table.row? ⟨[Row.ofJob lastJob]⟩ lastJob.id = some (Row.ofJob lastJob) := rfl
  have hqueue : queue ⟨[Row.ofJob lastJob]⟩ lastJob.state = [Row.ofJob lastJob] :=
    queue_eq_rows (by simp [Row.ofJob]) (List.pairwise_singleton _ _)
  refine ⟨Instant.legible_epoch, by decide, rfl, ?_, ?_⟩
  · rw [get_eq, hrow]
    show (readRow (Row.ofJob lastJob)).map some = .error rowError
    rw [hread]
    rfl
  · have hlimit : min 1 maxLimit = 1 := by decide
    rw [Table.next, hqueue, hlimit]
    show [Row.ofJob lastJob].mapM readRow = .error rowError
    rw [List.mapM_cons, hread]
    rfl

end Table

end Store

end Ferry
