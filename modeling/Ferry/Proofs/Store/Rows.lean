import Ferry.Proofs.Job.Codec
import Ferry.Proofs.Job.Standing
import Ferry.Store.Call
import Mathlib.Data.List.Nodup

/-!
# What the statements of the store do to the jobs in it

Nothing but this program writes to its table, so every row of it is the row of
a job and no two rows share an id or a correlation id. Such a table is well
kept, and of a well kept table the lives of jobs need no more than the standing
of each, which three columns tell.

Each statement then has one lemma. A write changes the standing of one job and
leaves the table well kept (`Becomes`); a read answers jobs that stand as the
table says.
-/

namespace Ferry

/-- The job with the fields overwritten that change in its life. -/
def Job.changedTo (j new : Job) : Job :=
  { j with
    state := new.state, manifest := new.manifest, resources := new.resources,
    errorDetail := new.errorDetail, retryCount := new.retryCount,
    stateTimestamp := new.stateTimestamp }

namespace Store

/-! ## Rows -/

namespace Row

/-- The standing that three columns of a row tell. -/
def standing? (r : Row) : Option Standing := do
  let correlationId ← r.correlationId.text?
  let role ← r.role.text?.bind Role.ofName?
  let state ← r.state.text?.bind JobState.ofName?
  some ⟨correlationId, role, state⟩

theorem standing?_ofJob (j : Job) : (ofJob j).standing? = some j.standing := by
  simp [standing?, ofJob, Cell.text?, Role.ofName?_name, JobState.ofName?_name, Job.standing]

theorem updatedFrom_ofJob (j new : Job) :
    (ofJob j).updatedFrom new = ofJob (j.changedTo new) := by
  simp only [updatedFrom, ofJob, Job.changedTo]

theorem document?_request (r : TransferRequest) :
    document? TransferRequest.read r.toJson.print = some r := by
  rw [document?, Json.readDocument_print r.textual_toJson, Json.readWhole]
  simp [TransferRequest.read_toJson, bind, Except.bind, Except.toOption]

/-- A request can be told from its text. -/
theorem request_inj {r r' : TransferRequest} (h : r.toJson.print = r'.toJson.print) :
    r = r' := by
  have hr := document?_request r
  rw [h, document?_request] at hr
  exact (Option.some.inj hr).symm

/-- What is read of a row stands in its columns. -/
structure Shows (r : Row) (j : Job) : Prop where
  id : r.id = .text j.id
  correlationId : r.correlationId = .text j.correlationId
  role : r.role.text?.bind Role.ofName? = some j.role
  state : r.state.text?.bind JobState.ofName? = some j.state
  request : r.request.text?.bind (document? TransferRequest.read) = some j.request

theorem text?_eq_some {c : Cell} {s : String} (h : c.text? = some s) : c = .text s := by
  cases c with
  | text _ => exact congrArg Cell.text (Option.some.inj h)
  | null | integer _ | decimal _ _ => cases h

theorem shows_of_toJob? {r : Row} {j : Job} (h : r.toJob? = some j) : r.Shows j := by
  rw [toJob?] at h
  simp only [Option.bind_eq_bind] at h
  obtain ⟨id, hid, h⟩ := Option.bind_eq_some_iff.1 h
  obtain ⟨correlationId, hc, h⟩ := Option.bind_eq_some_iff.1 h
  obtain ⟨role, hrole, h⟩ := Option.bind_eq_some_iff.1 h
  obtain ⟨state, hstate, h⟩ := Option.bind_eq_some_iff.1 h
  obtain ⟨request, hrequest, h⟩ := Option.bind_eq_some_iff.1 h
  obtain ⟨manifest, _, h⟩ := Option.bind_eq_some_iff.1 h
  cases manifest <;>
    (simp only [Option.bind_eq_some_iff, Option.ite_none_right_eq_some, Option.some.injEq] at h
     obtain ⟨_, _, _, _, _, _, _, _, _, _, _, _, _, rfl⟩ := h
     exact ⟨text?_eq_some hid, text?_eq_some hc, hrole, hstate, hrequest⟩)

theorem eq_name_of_ofName? {s : String} {state : JobState}
    (h : JobState.ofName? s = some state) : s = state.name := by
  have hname := List.find?_some (p := fun st : JobState => st.name == s) h
  exact (beq_iff_eq.1 hname).symm

/-- The state that is read stands in the row. -/
theorem Shows.state_eq {r : Row} {job : Job} (h : r.Shows job) :
    r.state = .text job.state.name := by
  obtain ⟨s, hs, hname⟩ := Option.bind_eq_some_iff.1 h.state
  rw [text?_eq_some hs, eq_name_of_ofName? hname]

/-- A job read from its row is that job in all that its life depends on. -/
theorem toJob?_ofJob {j j' : Job} (h : (ofJob j).toJob? = some j') :
    j'.id = j.id ∧ j'.standing = j.standing ∧ j'.request = j.request := by
  have hshows := shows_of_toJob? h
  have hid : j.id = j'.id := Cell.text.inj hshows.id
  have hc : j.correlationId = j'.correlationId := Cell.text.inj hshows.correlationId
  have hrole := hshows.role
  have hstate := hshows.state
  have hrequest := hshows.request
  simp only [ofJob, Cell.text?, Option.bind_some, Role.ofName?_name, JobState.ofName?_name,
    document?_request, Option.some.injEq] at hrole hstate hrequest
  exact ⟨hid.symm, by rw [Job.standing, ← hc, ← hrole, ← hstate]; rfl, hrequest.symm⟩

end Row

namespace Table

/-- The rows are the rows of these jobs, each of which has its own id and its own
correlation id. -/
structure Records (t : Table) (jobs : List Job) : Prop where
  rows : t.rows = jobs.map Row.ofJob
  ids : (jobs.map (·.id)).Nodup
  correlations : (jobs.map (·.correlationId)).Nodup

/-- The rows are the rows of these jobs, each of which has its own id and its own
correlation id, the id of its request. -/
structure Lists (t : Table) (jobs : List Job) : Prop where
  rows : t.rows = jobs.map Row.ofJob
  ids : (jobs.map (·.id)).Nodup
  correlations : (jobs.map (·.correlationId)).Nodup
  requests : ∀ j ∈ jobs, j.request.id = j.correlationId

/-- The rows are those of jobs with different ids, each for the request it carries and no two for
one request. -/
def WellKept (t : Table) : Prop :=
  ∃ jobs, t.Lists jobs

/-- The standing of the job with an id. -/
def standing? (t : Table) (id : String) : Option Standing :=
  (t.rows.find? fun r => r.id == .text id).bind Row.standing?

/-- The new table is well kept, and a job now stands so; all others stand as before. -/
structure Becomes (t t' : Table) (id : String) (st : Standing) : Prop where
  wellKept : t'.WellKept
  standing?_eq : ∀ k, t'.standing? k = if k = id then some st else t.standing? k

theorem wellKept_empty : WellKept {} :=
  ⟨[], rfl, List.nodup_nil, List.nodup_nil, by simp⟩

theorem wellKept_single {j : Job} (h : j.request.id = j.correlationId) :
    WellKept ⟨[Row.ofJob j]⟩ :=
  ⟨[j], rfl, List.nodup_singleton _, List.nodup_singleton _, by simpa using h⟩

variable {t t' : Table} {jobs : List Job} {j j' : Job} {st : Standing} {id : String}

theorem Becomes.standing?_self (h : t.Becomes t' id st) : t'.standing? id = some st := by
  rw [h.standing?_eq, if_pos rfl]

theorem Becomes.standing?_of_ne (h : t.Becomes t' id st) {k : String} (hk : k ≠ id) :
    t'.standing? k = t.standing? k := by
  rw [h.standing?_eq, if_neg hk]

/-! ## Finding a job -/

namespace Lists

theorem find?_row (h : t.Lists jobs) (p : Row → Bool) :
    t.rows.find? p = (jobs.find? fun j => p (Row.ofJob j)).map Row.ofJob := by
  rw [h.rows, List.find?_map]
  rfl

theorem standing?_of_mem (h : t.Lists jobs) (hj : j ∈ jobs) :
    t.standing? j.id = some j.standing := by
  have hfind : jobs.find? (fun k => (Row.ofJob k).id == .text j.id) = some j := by
    cases hf : jobs.find? (fun k => (Row.ofJob k).id == .text j.id) with
    | none => simpa [Row.ofJob] using List.find?_eq_none.1 hf j hj
    | some k =>
        have hid : k.id = j.id := by simpa [Row.ofJob] using List.find?_some hf
        rw [List.inj_on_of_nodup_map h.ids (List.mem_of_find?_eq_some hf) hj hid]
  rw [standing?, h.find?_row, hfind]
  exact Row.standing?_ofJob j

theorem standing?_eq_some (h : t.Lists jobs) (hst : t.standing? id = some st) :
    ∃ j ∈ jobs, j.id = id ∧ j.standing = st := by
  rw [standing?, h.find?_row] at hst
  cases hf : jobs.find? (fun k => (Row.ofJob k).id == .text id) with
  | none => rw [hf] at hst; cases hst
  | some j =>
      rw [hf] at hst
      refine ⟨j, List.mem_of_find?_eq_some hf, by simpa [Row.ofJob] using List.find?_some hf, ?_⟩
      simpa [Row.standing?_ofJob] using hst

theorem standing?_eq_none (h : t.Lists jobs) (hst : t.standing? id = none) :
    ∀ j ∈ jobs, j.id ≠ id := by
  rintro j hj rfl
  rw [h.standing?_of_mem hj] at hst
  cases hst

/-- What a list of jobs says of all standings. -/
theorem standing?_ext {f : String → Option Standing} (h : t.Lists jobs)
    (hmem : ∀ j ∈ jobs, f j.id = some j.standing)
    (hnot : ∀ id, (∀ j ∈ jobs, j.id ≠ id) → f id = none) (id : String) :
    t.standing? id = f id := by
  cases hst : t.standing? id with
  | none => rw [hnot id (h.standing?_eq_none hst)]
  | some st =>
      obtain ⟨j, hj, rfl, rfl⟩ := h.standing?_eq_some hst
      rw [hmem j hj]

end Lists

/-- No two jobs are for the same request. -/
theorem WellKept.id_unique (h : t.WellKept) {id id' : String} {st st' : Standing}
    (hst : t.standing? id = some st) (hst' : t.standing? id' = some st')
    (hc : st.correlationId = st'.correlationId) : id = id' := by
  obtain ⟨jobs, h⟩ := h
  obtain ⟨j, hj, rfl, rfl⟩ := h.standing?_eq_some hst
  obtain ⟨j', hj', rfl, rfl⟩ := h.standing?_eq_some hst'
  rw [List.inj_on_of_nodup_map h.correlations hj hj' hc]

/-! ## Writing -/

namespace Records

theorem holds_iff (h : t.Records jobs) (c : Column) (v : Cell) :
    t.holds c v = true ↔ ∃ j ∈ jobs, (Row.ofJob j).get c = v := by
  simp [holds, h.rows]

theorem append (h : t.Records jobs) (hid : t.holds .id (.text j.id) = false)
    (hc : t.holds .correlationId (.text j.correlationId) = false) :
    Records ⟨t.rows ++ [Row.ofJob j]⟩ (jobs ++ [j]) := by
  refine ⟨by simp [h.rows], ?_, ?_⟩
  · rw [List.map_append, List.nodup_append]
    refine ⟨h.ids, List.nodup_singleton _, ?_⟩
    rintro a ha b hb rfl
    obtain ⟨k, hk, rfl⟩ := List.mem_map.1 ha
    have hkj : k.id = j.id := by simpa using hb
    have hheld := (h.holds_iff .id (.text j.id)).2 ⟨k, hk, congrArg Cell.text hkj⟩
    rw [hid] at hheld
    cases hheld
  · rw [List.map_append, List.nodup_append]
    refine ⟨h.correlations, List.nodup_singleton _, ?_⟩
    rintro a ha b hb rfl
    obtain ⟨k, hk, rfl⟩ := List.mem_map.1 ha
    have hkj : k.correlationId = j.correlationId := by simpa using hb
    have hheld := (h.holds_iff .correlationId (.text j.correlationId)).2
      ⟨k, hk, congrArg Cell.text hkj⟩
    rw [hc] at hheld
    cases hheld

/-- The job a write makes of a job of the table. -/
theorem write (h : t.Records jobs) (new : Job) (expected : Option JobState) :
    (t.write new expected).Records (jobs.map fun j =>
      if matchesJob new expected (Row.ofJob j) then j.changedTo new else j) := by
  refine ⟨?_, ?_, ?_⟩
  · rw [Table.write, h.rows, List.map_map, List.map_map]
    refine List.map_congr_left fun j _ => ?_
    simp only [Function.comp_apply]
    split
    · exact Row.updatedFrom_ofJob j new
    · rfl
  · rw [List.map_map]
    have hid : (fun j : Job => j.id) ∘ (fun j =>
        if matchesJob new expected (Row.ofJob j) then j.changedTo new else j) = fun j => j.id := by
      funext j
      simp only [Function.comp_apply]
      split <;> rfl
    rw [hid]
    exact h.ids
  · rw [List.map_map]
    have hc : (fun j : Job => j.correlationId) ∘ (fun j =>
        if matchesJob new expected (Row.ofJob j) then j.changedTo new else j) =
        fun j => j.correlationId := by
      funext j
      simp only [Function.comp_apply]
      split <;> rfl
    rw [hc]
    exact h.correlations

end Records

namespace Lists

theorem records (h : t.Lists jobs) : t.Records jobs :=
  ⟨h.rows, h.ids, h.correlations⟩

theorem holds_iff (h : t.Lists jobs) (c : Column) (v : Cell) :
    t.holds c v = true ↔ ∃ j ∈ jobs, (Row.ofJob j).get c = v :=
  h.records.holds_iff c v

theorem append (h : t.Lists jobs) (hid : t.holds .id (.text j.id) = false)
    (hc : t.holds .correlationId (.text j.correlationId) = false)
    (hreq : j.request.id = j.correlationId) : Lists ⟨t.rows ++ [Row.ofJob j]⟩ (jobs ++ [j]) := by
  have hrec := h.records.append hid hc
  refine ⟨hrec.rows, hrec.ids, hrec.correlations, fun k hk => ?_⟩
  rcases List.mem_append.1 hk with hk | hk
  · exact h.requests k hk
  · rw [List.mem_singleton.1 hk]
    exact hreq

theorem write (h : t.Lists jobs) (new : Job) (expected : Option JobState) :
    (t.write new expected).Lists (jobs.map fun j =>
      if matchesJob new expected (Row.ofJob j) then j.changedTo new else j) := by
  have hrec := h.records.write new expected
  refine ⟨hrec.rows, hrec.ids, hrec.correlations, fun k hk => ?_⟩
  obtain ⟨j, hj, rfl⟩ := List.mem_map.1 hk
  split
  · exact h.requests j hj
  · exact h.requests j hj

end Lists

theorem matchesJob_iff (new : Job) (expected : Option JobState) :
    matchesJob new expected (Row.ofJob j) = true ↔
      j.id = new.id ∧ ∀ st, expected = some st → j.state = st := by
  cases expected with
  | none => simp [matchesJob, Row.ofJob]
  | some st =>
      simp only [matchesJob, Row.ofJob, Bool.and_eq_true, beq_iff_eq, Cell.text.injEq,
        Option.some.injEq, forall_eq']
      exact and_congr_right fun _ => ⟨JobState.name_inj, fun h => by rw [h]⟩

/-- A write that hits gives one job another state. -/
theorem becomes_write (h : t.WellKept) {new : Job} {expected : Option JobState}
    (hit : t.hits new expected = true) :
    ∃ st, t.standing? new.id = some st ∧ (∀ s, expected = some s → st.state = s) ∧
      t.Becomes (t.write new expected) new.id (st.inState new.state) := by
  obtain ⟨jobs, h⟩ := h
  obtain ⟨j, hj, hmatch⟩ : ∃ j ∈ jobs, matchesJob new expected (Row.ofJob j) = true := by
    simpa [hits, h.rows] using hit
  obtain ⟨hid, hstate⟩ := (matchesJob_iff new expected).1 hmatch
  have hst : t.standing? new.id = some j.standing := hid ▸ h.standing?_of_mem hj
  refine ⟨j.standing, hst, hstate, ⟨_, h.write new expected⟩, fun k => ?_⟩
  refine (h.write new expected).standing?_ext
    (f := fun k => if k = new.id then some (j.standing.inState new.state)
      else t.standing? k) ?_ ?_ k
  · intro j' hj'
    obtain ⟨i, hi, rfl⟩ := List.mem_map.1 hj'
    by_cases hii : i.id = new.id
    · -- ids are unique, so this is the job that was hit
      obtain rfl := List.inj_on_of_nodup_map h.ids hi hj (hii.trans hid.symm)
      rw [if_pos hmatch]
      exact if_pos hii
    · rw [if_neg fun hm => hii ((matchesJob_iff new expected).1 hm).1, if_neg hii]
      exact h.standing?_of_mem hi
  · intro k hk
    have hnone : ∀ i ∈ jobs, i.id ≠ k := by
      intro i hi
      have := hk _ (List.mem_map_of_mem hi)
      split at this <;> exact this
    rw [if_neg fun hkn => hnone j hj (hid.trans hkn.symm)]
    cases hk' : t.standing? k with
    | none => rfl
    | some st =>
        obtain ⟨i, hi, rfl, -⟩ := h.standing?_eq_some hk'
        exact absurd rfl (hnone i hi)

/-- A write that hits nothing changes nothing. -/
theorem write_eq_self {new : Job} {expected : Option JobState}
    (hit : t.hits new expected = false) : t.write new expected = t := by
  rw [hits, List.any_eq_false] at hit
  obtain ⟨rows⟩ := t
  rw [write, mk.injEq]
  refine (List.map_congr_left fun r hr => ?_).trans (List.map_id rows)
  rw [if_neg (hit r hr)]
  rfl

theorem create_eq_ok : t.create j = .ok t' ↔
    t.holds .correlationId (.text j.correlationId) = false ∧ t.holds .id (.text j.id) = false ∧
      t' = ⟨t.rows ++ [Row.ofJob j]⟩ := by
  rw [create]
  by_cases hc : t.holds .correlationId (.text j.correlationId)
  · simp [Row.ofJob, hc]
  · by_cases hid : t.holds .id (.text j.id)
    · simp [Row.ofJob, hc, hid]
    · simp [Row.ofJob, hc, hid, eq_comm]

theorem update_eq_ok : t.update j = .ok t' ↔ t.hits j none = true ∧ t' = t.write j none := by
  rw [update]
  by_cases hit : t.hits j none <;> simp [hit, eq_comm]

theorem create_ok (h : t.WellKept) (hreq : j.request.id = j.correlationId)
    (hcreate : t.create j = .ok t') :
    t.standing? j.id = none ∧ t.Becomes t' j.id j.standing := by
  obtain ⟨jobs, h⟩ := h
  obtain ⟨hc, hid, rfl⟩ := create_eq_ok.1 hcreate
  have happ := h.append hid hc hreq
  have hfresh : ∀ k ∈ jobs, k.id ≠ j.id := fun k hk hkj =>
    Bool.eq_false_iff.1 hid ((h.holds_iff .id (.text j.id)).2 ⟨k, hk, congrArg Cell.text hkj⟩)
  have hnone : t.standing? j.id = none := by
    cases hst : t.standing? j.id with
    | none => rfl
    | some st =>
        obtain ⟨k, hk, hkj, -⟩ := h.standing?_eq_some hst
        exact absurd hkj (hfresh k hk)
  refine ⟨hnone, ⟨_, happ⟩, happ.standing?_ext ?_ ?_⟩
  · intro k hk
    rcases List.mem_append.1 hk with hk | hk
    · rw [if_neg (hfresh k hk), h.standing?_of_mem hk]
    · rw [List.mem_singleton.1 hk, if_pos rfl]
  · intro id hall
    rw [if_neg fun heq => hall j (by simp) heq.symm]
    cases hst : t.standing? id with
    | none => rfl
    | some st =>
        obtain ⟨k, hk, hkid, -⟩ := h.standing?_eq_some hst
        exact absurd hkid (hall k (List.mem_append_left _ hk))

theorem update_ok (h : t.WellKept) (hupdate : t.update j = .ok t') :
    ∃ st, t.standing? j.id = some st ∧ t.Becomes t' j.id (st.inState j.state) := by
  obtain ⟨hit, rfl⟩ := update_eq_ok.1 hupdate
  obtain ⟨st, hst, -, hbecomes⟩ := becomes_write h hit
  exact ⟨st, hst, hbecomes⟩

theorem updateIfState_hit (h : t.WellKept) {expected : JobState}
    (hupdate : t.updateIfState j expected = (true, t')) :
    ∃ st, t.standing? j.id = some st ∧ st.state = expected ∧
      t.Becomes t' j.id (st.inState j.state) := by
  rw [updateIfState, Prod.mk.injEq] at hupdate
  obtain ⟨hit, rfl⟩ := hupdate
  obtain ⟨st, hst, hstate, hbecomes⟩ := becomes_write h hit
  exact ⟨st, hst, hstate expected rfl, hbecomes⟩

theorem updateIfState_miss {expected : JobState}
    (hupdate : t.updateIfState j expected = (false, t')) : t' = t := by
  rw [updateIfState, Prod.mk.injEq] at hupdate
  rw [← hupdate.2, write_eq_self hupdate.1]

/-- A write over a state misses a job only if it is in another one. -/
theorem ne_of_updateIfState_miss (h : t.WellKept) {expected : JobState}
    (hmiss : (t.updateIfState j expected).1 = false) (hst : t.standing? j.id = some st) :
    st.state ≠ expected := by
  obtain ⟨jobs, h⟩ := h
  obtain ⟨k, hk, hid, rfl⟩ := h.standing?_eq_some hst
  rintro hstate
  have hmatch : matchesJob j (some expected) (Row.ofJob k) = true :=
    (matchesJob_iff j (some expected)).2 ⟨hid, fun s hs => hstate.trans (Option.some.inj hs)⟩
  have hhits : t.hits j (some expected) = true := by
    rw [hits, h.rows, List.any_map]
    exact List.any_eq_true.2 ⟨k, hk, hmatch⟩
  exact Bool.noConfusion (hhits.symm.trans hmiss)

/-! ## Reading -/

/-- The table has the job in the standing it was read with, and the job is for the request it
carries. -/
def StandingMatches (t : Table) (j : Job) : Prop :=
  t.standing? j.id = some j.standing ∧ j.request.id = j.correlationId

theorem standingMatches_of_readRow (h : t.Lists jobs) (hj : j ∈ jobs)
    (hread : readRow (Row.ofJob j) = .ok j') : j'.id = j.id ∧ t.StandingMatches j' := by
  rw [readRow] at hread
  split at hread
  · next k hk =>
    cases hread
    obtain ⟨hid, hst, hreq⟩ := Row.toJob?_ofJob hk
    have hc : j'.correlationId = j.correlationId := congrArg Standing.correlationId hst
    exact ⟨hid, by rw [hid, hst, h.standing?_of_mem hj], by rw [hreq, hc, h.requests j hj]⟩
  · cases hread

theorem get_some (h : t.WellKept) (hget : t.get id = .ok (some j)) :
    j.id = id ∧ t.StandingMatches j := by
  obtain ⟨jobs, h⟩ := h
  rw [get, h.find?_row] at hget
  cases hf : jobs.find? (fun k => (Row.ofJob k).id == .text id) with
  | none => rw [hf] at hget; cases hget
  | some k =>
      rw [hf] at hget
      simp only [Option.map_some] at hget
      cases hr : readRow (Row.ofJob k) with
      | error e => rw [hr] at hget; cases hget
      | ok k' =>
          rw [hr] at hget
          cases hget
          obtain ⟨hid, hmatches⟩ := standingMatches_of_readRow h (List.mem_of_find?_eq_some hf) hr
          have hk : k.id = id := by simpa [Row.ofJob] using List.find?_some hf
          exact ⟨hid.trans hk, hmatches⟩

theorem findId_some {c : String} (h : t.WellKept) (hfind : t.findId c = .ok (some id)) :
    ∃ st, t.standing? id = some st ∧ st.correlationId = c := by
  obtain ⟨jobs, h⟩ := h
  rw [findId, h.find?_row] at hfind
  cases hf : jobs.find? (fun k => (Row.ofJob k).correlationId == .text c) with
  | none => rw [hf] at hfind; cases hfind
  | some k =>
      rw [hf] at hfind
      have hk : k.id = id := by simpa [Row.ofJob, Cell.text?] using hfind
      have hc : k.correlationId = c := by simpa [Row.ofJob] using List.find?_some hf
      exact ⟨k.standing, hk ▸ h.standing?_of_mem (List.mem_of_find?_eq_some hf), hc⟩

/-- Reading row after row keeps the ids and loses no job. -/
theorem mapM_readRow {rows : List Row} {js : List Job} (hrows : ∀ r ∈ rows, ∃ j, r = Row.ofJob j)
    (h : rows.mapM readRow = .ok js) :
    js.map (fun j => Cell.text j.id) = rows.map (·.id) ∧
      ∀ j ∈ js, ∃ r ∈ rows, readRow r = .ok j := by
  induction rows generalizing js with
  | nil =>
      cases h
      exact ⟨rfl, by simp⟩
  | cons r rest ih =>
      rw [List.mapM_cons] at h
      cases hr : readRow r with
      | error e => rw [hr] at h; cases h
      | ok j =>
          cases hrest : rest.mapM readRow with
          | error e => rw [hr, hrest] at h; cases h
          | ok js' =>
              rw [hr, hrest] at h
              cases h
              obtain ⟨hids, hmem⟩ := ih (fun r hr => hrows r (List.mem_cons_of_mem _ hr)) hrest
              obtain ⟨k, rfl⟩ := hrows r List.mem_cons_self
              have hid : Cell.text j.id = (Row.ofJob k).id := by
                rw [readRow] at hr
                split at hr
                · next hk => cases hr; rw [(Row.toJob?_ofJob hk).1]; rfl
                · cases hr
              refine ⟨by rw [List.map_cons, List.map_cons, hids, hid], fun i hi => ?_⟩
              rcases List.mem_cons.1 hi with rfl | hi
              · exact ⟨_, List.mem_cons_self, hr⟩
              · obtain ⟨r', hr', hread⟩ := hmem i hi
                exact ⟨r', List.mem_cons_of_mem _ hr', hread⟩

theorem queue_perm (t : Table) (state : JobState) :
    (t.queue state).Perm (t.rows.filter fun r => r.state == .text state.name) := by
  rw [queue]
  exact List.mergeSort_perm _ _

theorem next_ok {state : JobState} {limit : Nat} {js : List Job} (h : t.WellKept)
    (hnext : t.next state limit = .ok js) :
    (js.map (·.id)).Nodup ∧ ∀ j ∈ js, j.state = state ∧ t.StandingMatches j := by
  obtain ⟨jobs, h⟩ := h
  have hmem : ∀ r ∈ (t.queue state).take (min limit maxLimit),
      ∃ j ∈ jobs, Row.ofJob j = r ∧ j.state = state := by
    intro r hr
    have hr' := (queue_perm t state).mem_iff.1 (List.mem_of_mem_take hr)
    rw [h.rows, List.mem_filter, List.mem_map] at hr'
    obtain ⟨⟨j, hj, rfl⟩, hstate⟩ := hr'
    exact ⟨j, hj, rfl, JobState.name_inj (by simpa [Row.ofJob] using hstate)⟩
  obtain ⟨hids, hread⟩ := mapM_readRow (fun r hr => (hmem r hr).imp fun _ hj => hj.2.1.symm) hnext
  refine ⟨?_, fun j hj => ?_⟩
  · have hall : (t.rows.map (·.id)).Nodup := by
      have hcells : t.rows.map (·.id) = (jobs.map (·.id)).map Cell.text := by
        rw [h.rows, List.map_map, List.map_map]
        rfl
      rw [hcells]
      exact h.ids.map fun _ _ heq => Cell.text.inj heq
    have hqueue : ((t.queue state).map (·.id)).Nodup :=
      ((queue_perm t state).map _).nodup_iff.2 (hall.sublist (List.filter_sublist.map _))
    have htake := hqueue.sublist ((List.take_sublist (min limit maxLimit) _).map _)
    rw [← hids] at htake
    exact List.Nodup.of_map Cell.text (by rwa [List.map_map])
  · obtain ⟨r, hr, hrj⟩ := hread j hj
    obtain ⟨k, hk, rfl, hstate⟩ := hmem r hr
    obtain ⟨hid, hmatches⟩ := standingMatches_of_readRow h hk hrj
    refine ⟨?_, hmatches⟩
    have hst := hmatches.1
    rw [hid, h.standing?_of_mem hk] at hst
    rw [← hstate]
    exact (congrArg Standing.state (Option.some.inj hst)).symm

/-! ## Rows of any table -/

/-- The row with an id. -/
def row? (t : Table) (id : String) : Option Row :=
  t.rows.find? fun r => r.id == .text id

theorem get_eq (t : Table) (id : String) :
    t.get id = match t.row? id with
      | none => .ok none
      | some r => (readRow r).map some :=
  rfl

theorem get_eq_some (h : t.get id = .ok (some j)) :
    j.id = id ∧ ∃ r, t.row? id = some r ∧ r.toJob? = some j := by
  rw [get_eq] at h
  cases hr : t.row? id with
  | none => rw [hr] at h; cases h
  | some r =>
      rw [hr] at h
      cases hj : r.toJob? with
      | none => simp [readRow, hj, Except.map] at h
      | some k =>
          obtain rfl : k = j := by simpa [readRow, hj, Except.map] using h
          have hid : r.id = .text id := by simpa [row?] using List.find?_some hr
          rw [(Row.shows_of_toJob? hj).id] at hid
          exact ⟨Cell.text.inj hid, r, rfl, hj⟩

theorem standing?_of_get_none (h : t.get id = .ok none) : t.standing? id = none := by
  rw [get_eq] at h
  cases hr : t.row? id with
  | none => exact congrArg (Option.bind · Row.standing?) hr
  | some r =>
      rw [hr] at h
      cases hread : readRow r with
      | ok j => simp [hread, Except.map] at h
      | error e => simp [hread, Except.map] at h

/-- A job that can be read can be written. -/
theorem hits_of_row? {r : Row} (h : t.row? j.id = some r) : t.hits j none = true := by
  rw [hits, List.any_eq_true]
  exact ⟨r, List.mem_of_find?_eq_some h, by simpa [matchesJob] using List.find?_some h⟩

theorem row?_write (t : Table) (j : Job) (id : String) :
    (t.write j none).row? id =
      if j.id = id then (t.row? id).map (·.updatedFrom j) else t.row? id := by
  have hpred : (fun r : Row => r.id == .text id) ∘ (fun r =>
      if matchesJob j none r then r.updatedFrom j else r) = fun r => r.id == .text id := by
    funext r
    simp only [Function.comp_apply]
    split <;> rfl
  rw [row?, write, List.find?_map, hpred]
  split
  · next heq =>
    subst heq
    rw [row?]
    cases hr : t.rows.find? fun r => r.id == .text j.id with
    | none => rfl
    | some r =>
        have hid := List.find?_some hr
        simp only [Option.map_some, matchesJob, hid, Bool.and_true, if_true]
  · next hne =>
    rw [row?]
    cases hr : t.rows.find? fun r => r.id == .text id with
    | none => rfl
    | some r =>
        have hid : r.id = .text id := by simpa using List.find?_some hr
        have hmiss : matchesJob j none r = false := by
          simpa [matchesJob, hid] using fun heq => hne heq.symm
        simp only [Option.map_some, hmiss, Bool.false_eq_true, if_false]

end Table

/-! ## What calls do -/

namespace Call

/-- The tables that a call can lead to. One that fails leaves the table as it was, and so does one
that only reads. -/
inductive CallEffect (t : Table) : Call → Table → Prop where
  | nothing {c : Call} : CallEffect t c t
  | create {t' : Table} (job : Job) (hcreate : t.create job = .ok t') :
    CallEffect t (.create job) t'
  | update (job : Job) : CallEffect t (.update job) (t.write job none)
  | updateIfState (job : Job) (expected : JobState) :
      CallEffect t (.updateIfState job expected) (t.write job (some expected))

theorem callEffect_perform (t : Table) (c : Call) : CallEffect t c (c.perform t).2 := by
  cases c with
  | create job =>
      rw [perform]
      cases hcreate : t.create job with
      | ok t' => exact .create job hcreate
      | error e => exact .nothing
  | update job =>
      rw [perform, Table.update]
      split
      · exact .update job
      · exact .nothing
  | updateIfState job expected => exact .updateIfState job expected
  | get _ | findId _ | next _ _ | count _ => exact .nothing

end Call

end Store

end Ferry
