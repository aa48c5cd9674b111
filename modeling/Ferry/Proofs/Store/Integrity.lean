import Ferry.Proofs.Store.Rows

/-!
# What the store holds after any calls

Whoever calls the store, and with whatever jobs, two of its jobs never share an
id or a correlation id. What is in it stays in it, at its place and with what was
written when it was made, and of a call that fails nothing is left.

Nothing is asked of the jobs here. A caller may hand in one that was never in the
store, or a stored one with every field altered. So the invariant is not the one
of `WellKept`, which the jobs of this program keep, but the weaker `Records`.
-/

namespace Ferry

/-- What is written when a job is made and never after. -/
def Job.origin (j : Job) : String × String × Role × TransferRequest × Time.Instant :=
  (j.id, j.correlationId, j.role, j.request, j.createdAt)

namespace Store.Table

variable {t : Table} {jobs : List Job} {j k new : Job} {expected : Option JobState} {n : Nat}

/-! ## The jobs after a call -/

namespace Records

theorem holds_id (h : t.Records jobs) :
    t.holds .id (.text new.id) = true ↔ ∃ k ∈ jobs, k.id = new.id := by
  rw [h.holds_iff]
  simp [Row.get, Row.ofJob]

theorem holds_correlationId (h : t.Records jobs) :
    t.holds .correlationId (.text new.correlationId) = true ↔
      ∃ k ∈ jobs, k.correlationId = new.correlationId := by
  rw [h.holds_iff]
  simp [Row.get, Row.ofJob]

/-- A job is at one place. -/
theorem index_unique (h : t.Records jobs) {m : Nat} (hk : jobs[n]? = some k)
    (hj : jobs[m]? = some j) (hid : j.id = k.id) : m = n := by
  obtain ⟨hn, rfl⟩ := List.getElem?_eq_some_iff.1 hk
  obtain ⟨hm, rfl⟩ := List.getElem?_eq_some_iff.1 hj
  have hn' : n < (jobs.map (·.id)).length := by simpa using hn
  have hm' : m < (jobs.map (·.id)).length := by simpa using hm
  refine (@List.Nodup.getElem_inj_iff _ _ h.ids m hm' n hn').1 ?_
  simpa using hid

/-- The job with the id has not the state that is asked for, or there is no such job. -/
theorem hits_eq_false (h : t.Records jobs)
    (hmiss : ∀ k ∈ jobs, k.id = new.id → ∃ st, expected = some st ∧ k.state ≠ st) :
    t.hits new expected = false := by
  rw [hits, List.any_eq_false, h.rows]
  intro r hr hmatch
  obtain ⟨k, hk, rfl⟩ := List.mem_map.1 hr
  obtain ⟨hid, hstate⟩ := (matchesJob_iff new expected).1 hmatch
  obtain ⟨st, hst, hne⟩ := hmiss k hk hid
  exact hne (hstate st hst)

section Known

variable (h : t.Records jobs) (hk : jobs[n]? = some k) (hid : k.id = new.id)
  (hstate : ∀ st, expected = some st → k.state = st)
include h hk hid hstate

theorem hits_eq_true : t.hits new expected = true := by
  rw [hits, List.any_eq_true, h.rows]
  have hmem : k ∈ jobs := List.mem_of_getElem? hk
  exact ⟨Row.ofJob k, List.mem_map_of_mem hmem, (matchesJob_iff new expected).2 ⟨hid, hstate⟩⟩

/-- A write overwrites the job with the id where it is, and nothing else. -/
theorem write_eq_set :
    t.write new expected = ⟨(jobs.set n (k.changedTo new)).map Row.ofJob⟩ := by
  have hjobs : (jobs.map fun j =>
      if matchesJob new expected (Row.ofJob j) then j.changedTo new else j) =
      jobs.set n (k.changedTo new) := by
    refine List.ext_getElem? fun m => ?_
    rw [List.getElem?_map, List.getElem?_set]
    by_cases hmn : n = m
    · subst hmn
      have hlt : n < jobs.length := (List.getElem?_eq_some_iff.1 hk).1
      rw [hk, if_pos rfl, if_pos hlt, Option.map_some,
        if_pos ((matchesJob_iff new expected).2 ⟨hid, hstate⟩)]
    · rw [if_neg hmn]
      cases hj : jobs[m]? with
      | none => rfl
      | some j =>
          -- the id is that of another job
          have hother : j.id ≠ new.id := fun heq =>
            hmn (h.index_unique hk hj (heq.trans hid.symm)).symm
          rw [Option.map_some, if_neg fun hm => hother ((matchesJob_iff new expected).1 hm).1]
  have hrows := (h.write new expected).rows
  rw [hjobs] at hrows
  exact congrArg Table.mk hrows

end Known

theorem write_keeps (h : t.Records jobs) (new : Job) (expected : Option JobState) :
    ∃ jobs', (t.write new expected).Records jobs' ∧
      jobs.map Job.origin <+: jobs'.map Job.origin := by
  refine ⟨_, h.write new expected, ?_⟩
  have horigin : Job.origin ∘ (fun j =>
      if matchesJob new expected (Row.ofJob j) then j.changedTo new else j) = Job.origin := by
    funext j
    simp only [Function.comp_apply]
    split <;> rfl
  exact ⟨[], by rw [List.append_nil, List.map_map, horigin]⟩

/-- After a call the table holds the jobs it held, each of the same origin and at
its place, and perhaps one more after them. -/
theorem perform (h : t.Records jobs) (c : Call) :
    ∃ jobs', ((c.perform t).2).Records jobs' ∧ jobs.map Job.origin <+: jobs'.map Job.origin := by
  have heffect := c.callEffect_perform t
  generalize (c.perform t).2 = t' at heffect ⊢
  cases heffect with
  | nothing => exact ⟨jobs, h, List.prefix_rfl⟩
  | create new hcreate =>
      obtain ⟨hc, hid, rfl⟩ := create_eq_ok.1 hcreate
      refine ⟨jobs ++ [new], h.append hid hc, ?_⟩
      rw [List.map_append]
      exact List.prefix_append _ _
  | update new => exact h.write_keeps new none
  | updateIfState new st => exact h.write_keeps new (some st)

end Records

/-! ## The store after any calls -/

/-- The table after calls made one after the other, whatever they answer. -/
def replay (t : Table) (calls : List Call) : Table :=
  calls.foldl (fun t c => (c.perform t).2) t

theorem Records.replay (h : t.Records jobs) (calls : List Call) :
    ∃ jobs', (t.replay calls).Records jobs' ∧ jobs.map Job.origin <+: jobs'.map Job.origin := by
  induction calls generalizing t jobs with
  | nil => exact ⟨jobs, h, List.prefix_rfl⟩
  | cons c calls ih =>
      obtain ⟨jobs₁, h₁, hpre₁⟩ := h.perform c
      obtain ⟨jobs₂, h₂, hpre₂⟩ := ih h₁
      exact ⟨jobs₂, h₂, hpre₁.trans hpre₂⟩

/-- What callers may rely on of a store that holds these jobs, in the order in
which they were made. -/
structure Sound (t : Table) (jobs : List Job) : Prop where
  /-- Two jobs share neither their id nor their correlation id. -/
  records : t.Records jobs
  /-- No call removes a job, moves it or alters its origin. -/
  lasting : ∀ later, ∃ jobs', (t.replay later).Records jobs' ∧
    jobs.map Job.origin <+: jobs'.map Job.origin
  create_new : ∀ j : Job, (∀ k ∈ jobs, k.id ≠ j.id ∧ k.correlationId ≠ j.correlationId) →
    (Call.create j).perform t = (.ok (), ⟨(jobs ++ [j]).map Row.ofJob⟩)
  create_duplicate : ∀ j : Job, (∀ k ∈ jobs, k.id ≠ j.id) →
    (∃ k ∈ jobs, k.correlationId = j.correlationId) →
    (Call.create j).perform t = (.error (.duplicateCorrelationId j.correlationId), t)
  create_known : ∀ j : Job, (∃ k ∈ jobs, k.id = j.id) →
    ∃ e, (Call.create j).perform t = (.error e, t)
  update_known : ∀ (n : Nat) (k j : Job), jobs[n]? = some k → k.id = j.id →
    (Call.update j).perform t = (.ok (), ⟨(jobs.set n (k.changedTo j)).map Row.ofJob⟩)
  update_unknown : ∀ j : Job, (∀ k ∈ jobs, k.id ≠ j.id) →
    (Call.update j).perform t = (.error (.notFound j.id), t)
  updateIfState_known : ∀ (n : Nat) (k j : Job), jobs[n]? = some k → k.id = j.id →
    (Call.updateIfState j k.state).perform t =
      (.ok true, ⟨(jobs.set n (k.changedTo j)).map Row.ofJob⟩)
  /-- There is no such job, or it is in another state. -/
  updateIfState_lost : ∀ (j : Job) (st : JobState),
    (∀ k ∈ jobs, k.id = j.id → k.state ≠ st) →
    (Call.updateIfState j st).perform t = (.ok false, t)
  failed : ∀ (c : Call) (e : JobError), (c.perform t).1 = .error e → (c.perform t).2 = t

theorem perform_failed {c : Call} {e : JobError} (h : (c.perform t).1 = .error e) :
    (c.perform t).2 = t := by
  cases c with
  | create j =>
      rw [Call.perform] at h ⊢
      cases hcreate : t.create j with
      | ok t' => rw [hcreate] at h; cases h
      | error e' => rfl
  | update j =>
      rw [Call.perform] at h ⊢
      cases hupdate : t.update j with
      | ok t' => rw [hupdate] at h; cases h
      | error e' => rfl
  | updateIfState j st => cases h
  | get _ | findId _ | next _ _ | count _ => rfl

theorem Records.sound (h : t.Records jobs) : t.Sound jobs where
  records := h
  lasting := h.replay
  create_new j hnew := by
    have hid : t.holds .id (.text j.id) = false := by
      rw [Bool.eq_false_iff, Ne, h.holds_id]
      rintro ⟨k, hk, heq⟩
      exact (hnew k hk).1 heq
    have hc : t.holds .correlationId (.text j.correlationId) = false := by
      rw [Bool.eq_false_iff, Ne, h.holds_correlationId]
      rintro ⟨k, hk, heq⟩
      exact (hnew k hk).2 heq
    rw [Call.perform, create_eq_ok.2 ⟨hc, hid, rfl⟩, h.rows, List.map_append]
    rfl
  create_duplicate j _ htaken := by
    have hc : t.holds .correlationId (.text j.correlationId) := h.holds_correlationId.2 htaken
    simp [Call.perform, create, Row.ofJob, hc, Call.written]
  create_known j htaken := by
    have hid : t.holds .id (.text j.id) := h.holds_id.2 htaken
    by_cases hc : t.holds .correlationId (.text j.correlationId)
    · exact ⟨.duplicateCorrelationId j.correlationId, by
        simp [Call.perform, create, Row.ofJob, hc, Call.written]⟩
    · exact ⟨constraintError .id, by
        simp [Call.perform, create, Row.ofJob, hc, hid, Call.written]⟩
  update_known n k j hk hid := by
    have hstate : ∀ st, (none : Option JobState) = some st → k.state = st := by simp
    rw [Call.perform, update, if_pos (h.hits_eq_true hk hid hstate),
      h.write_eq_set hk hid hstate]
    rfl
  update_unknown j hnot := by
    have hmiss : t.hits j none = false :=
      h.hits_eq_false fun k hk hid => absurd hid (hnot k hk)
    rw [Call.perform, update, hmiss]
    rfl
  updateIfState_known n k j hk hid := by
    have hstate : ∀ st, some k.state = some st → k.state = st := by simp
    rw [Call.perform, updateIfState, h.hits_eq_true hk hid hstate, h.write_eq_set hk hid hstate]
  updateIfState_lost j st hlost := by
    have hmiss : t.hits j (some st) = false :=
      h.hits_eq_false fun k hk hid => ⟨st, rfl, hlost k hk hid⟩
    rw [Call.perform, updateIfState, hmiss, write_eq_self hmiss]
  failed _ _ := perform_failed

/-- A store can be relied on after any calls with any jobs. -/
theorem sound_replay (calls : List Call) :
    ∃ jobs, (replay {} calls).Sound jobs := by
  have hempty : Records {} [] := ⟨rfl, List.nodup_nil, List.nodup_nil⟩
  obtain ⟨jobs, h, -⟩ := hempty.replay calls
  exact ⟨jobs, h.sound⟩

end Store.Table

end Ferry
