import Ferry.Proofs.Store.Rows

/-!
# What is read of a row

A row is read as a job if each of its columns holds what it should (`Row.Reads`), so of
a row that was read and then overwritten with a job it is known what is read next: all
that the write leaves alone as it was, and the rest as it was written, the time of the
last move in whole milliseconds.

No two rows of the table share an id or a request, so one row is all that matters for a
job (`Table.Sole`). Whether a write over an expected state hits is then a question about
the job that is read of that row, statements about other jobs leave the row alone, and
nothing need be known of the other rows.
-/

namespace Ferry

namespace Time.Instant

/-- The instant can be kept in a column. -/
def Storable (t : Instant) : Prop :=
  t.truncated.inRange = true

instance (t : Instant) : Decidable t.Storable :=
  inferInstanceAs (Decidable (t.truncated.inRange = true))

theorem storable_epoch : epoch.Storable := by
  decide

theorem ofMillis?_millis {t : Instant} (h : t.Storable) : ofMillis? t.millis = some t.truncated :=
  if_pos h

end Time.Instant

/-- What is read of a job after another one was written over it. -/
def Job.overwrittenBy (old new : Job) : Job :=
  old.changedTo { new with stateTimestamp := new.stateTimestamp.truncated }

namespace Store

open Time (Instant)

namespace Row

variable {r : Row} {j old new : Job}

/-- Each column holds what is read of it. -/
structure Reads (r : Row) (j : Job) : Prop where
  id : r.id.text? = some j.id
  correlationId : r.correlationId.text? = some j.correlationId
  role : r.role.text?.bind Role.ofName? = some j.role
  state : r.state.text?.bind JobState.ofName? = some j.state
  request : r.request.text?.bind (document? TransferRequest.read) = some j.request
  manifest : (r.manifest.optionalText?.bind fun
    | none => some none
    | some text => (document? ResourceManifest.read text).map some) = some j.manifest
  resources : r.resources.text?.bind (document? readResourceSet) = some j.resources
  errorDetail : r.errorDetail.optionalText? = some j.errorDetail
  retryCount : r.retryCount.integer? = some (j.retryCount.toNat : Int)
  createdAt : r.createdAt.text?.bind Time.parse? = some j.createdAt
  stateTimestamp : r.stateTimestamp.integer?.bind Instant.ofMillis? = some j.stateTimestamp

theorem reads_of_toJob? (h : r.toJob? = some j) : r.Reads j := by
  rw [toJob?] at h
  simp only [Option.bind_eq_bind] at h
  obtain ⟨id, hid, h⟩ := Option.bind_eq_some_iff.1 h
  obtain ⟨correlationId, hc, h⟩ := Option.bind_eq_some_iff.1 h
  obtain ⟨role, hrole, h⟩ := Option.bind_eq_some_iff.1 h
  obtain ⟨state, hstate, h⟩ := Option.bind_eq_some_iff.1 h
  obtain ⟨request, hrequest, h⟩ := Option.bind_eq_some_iff.1 h
  obtain ⟨written, hwritten, h⟩ := Option.bind_eq_some_iff.1 h
  obtain ⟨manifest, hmanifest, h⟩ :
      ∃ manifest, (match written with
        | none => some none
        | some text => (document? ResourceManifest.read text).map some) = some manifest ∧
      (r.resources.text?.bind (document? readResourceSet)).bind (fun resources =>
        r.errorDetail.optionalText?.bind fun errorDetail =>
        r.retryCount.integer?.bind fun retryCount =>
        (r.createdAt.text?.bind Time.parse?).bind fun createdAt =>
        (r.stateTimestamp.integer?.bind Instant.ofMillis?).bind fun stateTimestamp =>
          if 0 ≤ retryCount && retryCount < Width.bound32 then
            some ⟨id, correlationId, role, state, request, manifest, resources, errorDetail,
              UInt32.ofNat retryCount.toNat, createdAt, stateTimestamp⟩
          else none) = some j := by
    cases written with
    | none => exact ⟨none, rfl, h⟩
    | some text =>
        cases hdoc : document? ResourceManifest.read text with
        | none => simp only [hdoc, Option.map_none, Option.bind_none] at h; cases h
        | some m =>
            simp only [hdoc, Option.map_some] at h
            exact ⟨some m, by simp only [hdoc, Option.map_some], h⟩
  obtain ⟨resources, hresources, h⟩ := Option.bind_eq_some_iff.1 h
  obtain ⟨errorDetail, hdetail, h⟩ := Option.bind_eq_some_iff.1 h
  obtain ⟨retryCount, hretry, h⟩ := Option.bind_eq_some_iff.1 h
  obtain ⟨createdAt, hcreated, h⟩ := Option.bind_eq_some_iff.1 h
  obtain ⟨stateTimestamp, hstamp, h⟩ := Option.bind_eq_some_iff.1 h
  split at h
  · next hwidth =>
    obtain rfl := Option.some.inj h
    rw [Bool.and_eq_true, decide_eq_true_eq, decide_eq_true_eq] at hwidth
    have hnat : (UInt32.ofNat retryCount.toNat).toNat = retryCount.toNat := by
      rw [UInt32.toNat_ofNat_of_lt']
      have hbound : Width.bound32 = UInt32.size := rfl
      omega
    refine ⟨hid, hc, hrole, hstate, hrequest, ?_, hresources, hdetail, ?_, hcreated, hstamp⟩
    · rw [hwritten]
      exact hmanifest
    · rw [hretry, hnat, Int.toNat_of_nonneg hwidth.1]
  · cases h

/-- A count of retries is not too wide for its column. -/
theorem fits_bound32 (n : UInt32) :
    (0 ≤ (n.toNat : Int) && (n.toNat : Int) < (Width.bound32 : Int)) = true := by
  have hlt : n.toNat < Width.bound32 := n.toNat_lt_size
  simpa using hlt

theorem Reads.toJob? (h : r.Reads j) : r.toJob? = some j := by
  obtain ⟨written, hwritten, hmanifest⟩ := Option.bind_eq_some_iff.1 h.manifest
  -- the columns after the manifest are read the same way, whatever it is
  have hrest : ∀ manifest,
      ((r.resources.text?.bind (document? readResourceSet)).bind fun resources =>
      r.errorDetail.optionalText?.bind fun errorDetail =>
      r.retryCount.integer?.bind fun retryCount =>
      (r.createdAt.text?.bind Time.parse?).bind fun createdAt =>
      (r.stateTimestamp.integer?.bind Instant.ofMillis?).bind fun stateTimestamp =>
        if 0 ≤ retryCount && retryCount < Width.bound32 then
          some (⟨j.id, j.correlationId, j.role, j.state, j.request, manifest, resources,
            errorDetail, UInt32.ofNat retryCount.toNat, createdAt, stateTimestamp⟩ : Job)
        else none) = some { j with manifest := manifest } := by
    intro manifest
    refine Option.bind_eq_some_iff.2 ⟨_, h.resources, Option.bind_eq_some_iff.2
      ⟨_, h.errorDetail, Option.bind_eq_some_iff.2 ⟨_, h.retryCount, Option.bind_eq_some_iff.2
      ⟨_, h.createdAt, Option.bind_eq_some_iff.2 ⟨_, h.stateTimestamp, ?_⟩⟩⟩⟩⟩
    rw [if_pos (fits_bound32 _), Int.toNat_natCast, UInt32.ofNat_toNat]
  refine Option.bind_eq_some_iff.2 ⟨_, h.id, Option.bind_eq_some_iff.2
    ⟨_, h.correlationId, Option.bind_eq_some_iff.2 ⟨_, h.role, Option.bind_eq_some_iff.2
    ⟨_, h.state, Option.bind_eq_some_iff.2 ⟨_, h.request, Option.bind_eq_some_iff.2
    ⟨_, hwritten, ?_⟩⟩⟩⟩⟩⟩
  cases written with
  | none =>
      refine (hrest none).trans ?_
      rw [Option.some.inj hmanifest]
  | some text =>
      exact Option.bind_eq_some_iff.2 ⟨_, hmanifest, hrest j.manifest⟩

theorem document?_manifest (m : ResourceManifest) :
    document? ResourceManifest.read m.toJson.print = some m := by
  rw [document?, Json.readDocument_print m.textual_toJson, Json.readWhole]
  simp [ResourceManifest.read_toJson, bind, Except.bind, Except.toOption]

theorem document?_resources (rs : List ProvisionedResource) :
    document? readResourceSet (resourceSetToJson rs).print = some rs := by
  rw [document?, Json.readDocument_print (textual_resourceSetToJson rs), Json.readWhole]
  simp [readResourceSet_toJson, bind, Except.bind, Except.toOption]

theorem manifest_ofJob (j : Job) : ((ofJob j).manifest.optionalText?.bind fun
    | none => some none
    | some text => (document? ResourceManifest.read text).map some) = some j.manifest := by
  show (optionalText (j.manifest.map fun m => m.toJson.print)).optionalText?.bind _ =
    some j.manifest
  cases j.manifest with
  | none => rfl
  | some m =>
      show (document? ResourceManifest.read m.toJson.print).map some = some (some m)
      rw [document?_manifest]
      rfl

theorem errorDetail_ofJob (j : Job) :
    (ofJob j).errorDetail.optionalText? = some j.errorDetail := by
  show (optionalText j.errorDetail).optionalText? = some j.errorDetail
  cases j.errorDetail <;> rfl

/-- What was stored is read again, if its times can be. -/
theorem reads_ofJob (hcreated : Time.parse? j.createdAt.toOffset = some j.createdAt)
    (hstamp : Instant.ofMillis? j.stateTimestamp.millis = some j.stateTimestamp) :
    (ofJob j).Reads j where
  id := rfl
  correlationId := rfl
  role := Role.ofName?_name j.role
  state := JobState.ofName?_name j.state
  request := by simp only [ofJob, Cell.text?, Option.bind_some, document?_request]
  manifest := manifest_ofJob j
  resources := by simp only [ofJob, Cell.text?, Option.bind_some, document?_resources]
  errorDetail := errorDetail_ofJob j
  retryCount := rfl
  createdAt := by simp only [ofJob, Cell.text?, Option.bind_some, hcreated]
  stateTimestamp := by simp only [ofJob, Cell.integer?, Option.bind_some, hstamp]

theorem reads_ofJob_epoch (hcreated : j.createdAt = .epoch) (hstamp : j.stateTimestamp = .epoch) :
    (ofJob j).Reads j := by
  have hparse : Time.parse? Instant.epoch.toOffset = some .epoch := by decide +kernel
  refine reads_ofJob ?_ ?_
  · rw [hcreated, hparse]
  · rw [hstamp]
    exact Instant.ofMillis?_millis Instant.storable_epoch

/-- A row that can be read can be read after a write. -/
theorem Reads.updatedFrom (h : r.Reads old) (hnew : new.stateTimestamp.Storable) :
    (r.updatedFrom new).Reads (old.overwrittenBy new) where
  id := h.id
  correlationId := h.correlationId
  role := h.role
  state := JobState.ofName?_name new.state
  request := h.request
  manifest := manifest_ofJob new
  resources := document?_resources new.resources
  errorDetail := errorDetail_ofJob new
  retryCount := rfl
  createdAt := h.createdAt
  stateTimestamp := Instant.ofMillis?_millis hnew

end Row

/-! ## The row of a job -/

/-- The statement writes no job with the id. One that makes a job with that id is
refused if there is one. -/
def Call.Spares (id : String) : Call → Prop
  | .update job => job.id ≠ id
  | .updateIfState job _ => job.id ≠ id
  | _ => True

namespace Table

/-- The row is the only one with its id, and the only one for its request. -/
structure Sole (t : Table) (r : Row) : Prop where
  mem : r ∈ t.rows
  eq_of_id : ∀ r' ∈ t.rows, r'.id = r.id → r' = r
  eq_of_correlationId : ∀ r' ∈ t.rows, r'.correlationId = r.correlationId → r' = r

/-- The job is stored, and no other row has its id or is for its request. -/
def Keeps (t : Table) (j : Job) : Prop :=
  ∃ r, t.Sole r ∧ r.toJob? = some j

variable {t t' : Table} {r : Row} {j new : Job} {id : String} {expected : JobState}

/-- A table of one row. -/
theorem sole_single (r : Row) : Table.Sole ⟨[r]⟩ r :=
  ⟨List.mem_cons_self, fun _ hr _ => List.mem_singleton.1 hr,
    fun _ hr _ => List.mem_singleton.1 hr⟩

theorem keeps_ofJob (h : (Row.ofJob j).Reads j) : Table.Keeps ⟨[Row.ofJob j]⟩ j :=
  ⟨Row.ofJob j, sole_single _, h.toJob?⟩

theorem Sole.row? (h : t.Sole r) (hid : r.id = .text id) : t.row? id = some r := by
  rw [Table.row?]
  cases hfind : t.rows.find? fun r => r.id == .text id with
  | none => exact absurd hid (by simpa using List.find?_eq_none.1 hfind r h.mem)
  | some r' =>
      have hid' : r'.id = .text id := by simpa using List.find?_some hfind
      rw [h.eq_of_id r' (List.mem_of_find?_eq_some hfind) (hid'.trans hid.symm)]

theorem Sole.get (h : t.Sole r) (hread : r.toJob? = some j) : t.get j.id = .ok (some j) := by
  rw [get_eq, h.row? (Row.shows_of_toJob? hread).id]
  simp [readRow, hread, Except.map]

theorem Sole.findId (h : t.Sole r) (hread : r.toJob? = some j) :
    t.findId j.correlationId = .ok (some j.id) := by
  have hshows := Row.shows_of_toJob? hread
  rw [Table.findId]
  cases hfind : t.rows.find? fun r => r.correlationId == .text j.correlationId with
  | none =>
      exact absurd hshows.correlationId (by simpa using List.find?_eq_none.1 hfind r h.mem)
  | some r' =>
      have hc : r'.correlationId = .text j.correlationId := by simpa using List.find?_some hfind
      obtain rfl := h.eq_of_correlationId r' (List.mem_of_find?_eq_some hfind)
        (hc.trans hshows.correlationId.symm)
      simp [hshows.id, Cell.text?]

/-- What a write makes of the row is again the only one. -/
theorem Sole.write (h : t.Sole r) (new : Job) (expected : Option JobState) :
    (t.write new expected).Sole (if matchesJob new expected r then r.updatedFrom new else r) := by
  have hid : ∀ r : Row, (if matchesJob new expected r then r.updatedFrom new else r).id = r.id := by
    intro r
    split <;> rfl
  have hc : ∀ r : Row, (if matchesJob new expected r then r.updatedFrom new else r).correlationId =
      r.correlationId := by
    intro r
    split <;> rfl
  constructor
  · exact List.mem_map_of_mem h.mem
  · intro r' hr' heq
    obtain ⟨old, hold, rfl⟩ := List.mem_map.1 hr'
    rw [hid, hid] at heq
    rw [h.eq_of_id old hold heq]
  · intro r' hr' heq
    obtain ⟨old, hold, rfl⟩ := List.mem_map.1 hr'
    rw [hc, hc] at heq
    rw [h.eq_of_correlationId old hold heq]

theorem Sole.write_of_ne (h : t.Sole r) (hne : r.id ≠ .text new.id) (expected : Option JobState) :
    (t.write new expected).Sole r := by
  have hmiss : matchesJob new expected r = false := by simp [matchesJob, hne]
  have hwrite := h.write new expected
  rwa [hmiss] at hwrite

theorem Sole.hits (h : t.Sole r) (hid : r.id = .text new.id) (expected : Option JobState) :
    t.hits new expected = matchesJob new expected r := by
  rw [Bool.eq_iff_iff, Table.hits, List.any_eq_true]
  constructor
  · rintro ⟨r', hr', hmatch⟩
    have hid' : r'.id = .text new.id := by
      simp only [matchesJob, Bool.and_eq_true, beq_iff_eq] at hmatch
      exact hmatch.1
    rwa [h.eq_of_id r' hr' (hid'.trans hid.symm)] at hmatch
  · intro hmatch
    exact ⟨r, h.mem, hmatch⟩

/-- A write over the state that is read hits. -/
theorem Sole.updateIfState_hit (h : t.Sole r) (hreads : r.Reads j) (hid : new.id = j.id) :
    t.updateIfState new j.state = (true, t.write new (some j.state)) ∧
      (t.write new (some j.state)).Sole (r.updatedFrom new) := by
  have hshows := Row.shows_of_toJob? hreads.toJob?
  have hrow : r.id = .text new.id := by rw [hid, hshows.id]
  have hmatch : matchesJob new (some j.state) r = true := by
    simp [matchesJob, hrow, hshows.state_eq]
  have hwrite := h.write new (some j.state)
  rw [if_pos hmatch] at hwrite
  rw [updateIfState, h.hits hrow, hmatch]
  exact ⟨rfl, hwrite⟩

/-- A write over any other state misses, and changes nothing. -/
theorem Sole.updateIfState_miss (h : t.Sole r) (hreads : r.Reads j) (hid : new.id = j.id)
    (hstate : j.state ≠ expected) : t.updateIfState new expected = (false, t) := by
  have hshows := Row.shows_of_toJob? hreads.toJob?
  have hrow : r.id = .text new.id := by rw [hid, hshows.id]
  have hmatch : matchesJob new (some expected) r = false := by
    simpa [matchesJob, hrow, hshows.state_eq] using fun hname => hstate (JobState.name_inj hname)
  have hmiss := h.hits hrow (some expected)
  rw [hmatch] at hmiss
  rw [updateIfState, hmiss, write_eq_self hmiss]

theorem Sole.create (h : t.Sole r) (hcreate : t.create new = .ok t') : t'.Sole r := by
  obtain ⟨hc, hid, rfl⟩ := create_eq_ok.1 hcreate
  rw [holds, List.any_eq_false] at hc hid
  constructor
  · exact List.mem_append_left _ h.mem
  · intro r' hr' heq
    rcases List.mem_append.1 hr' with hr' | hr'
    · exact h.eq_of_id r' hr' heq
    · rw [List.mem_singleton.1 hr'] at heq
      exact absurd (beq_iff_eq.2 heq.symm) (hid r h.mem)
  · intro r' hr' heq
    rcases List.mem_append.1 hr' with hr' | hr'
    · exact h.eq_of_correlationId r' hr' heq
    · rw [List.mem_singleton.1 hr'] at heq
      exact absurd (beq_iff_eq.2 heq.symm) (hc r h.mem)

/-- A statement about other jobs leaves the row alone. -/
theorem Sole.perform (h : t.Sole r) (hid : r.id = .text id) {c : Call} (hc : c.Spares id) :
    (c.perform t).2.Sole r := by
  have hne : ∀ job : Job, job.id ≠ id → r.id ≠ .text job.id := by
    intro job hjob heq
    rw [hid] at heq
    exact hjob (Cell.text.inj heq).symm
  have heffect := c.callEffect_perform t
  generalize (c.perform t).2 = t' at heffect ⊢
  cases heffect with
  | nothing => exact h
  | create job hcreate => exact h.create hcreate
  | update job => exact h.write_of_ne (hne job hc) none
  | updateIfState job expected => exact h.write_of_ne (hne job hc) (some expected)

/-! ## The job that is kept -/

theorem Keeps.get (h : t.Keeps j) : t.get j.id = .ok (some j) := by
  obtain ⟨r, hsole, hread⟩ := h
  exact hsole.get hread

theorem Keeps.findId (h : t.Keeps j) : t.findId j.correlationId = .ok (some j.id) := by
  obtain ⟨r, hsole, hread⟩ := h
  exact hsole.findId hread

theorem Keeps.perform (h : t.Keeps j) {c : Call} (hc : c.Spares j.id) :
    (c.perform t).2.Keeps j := by
  obtain ⟨r, hsole, hread⟩ := h
  exact ⟨r, hsole.perform (Row.shows_of_toJob? hread).id hc, hread⟩

theorem Keeps.write (h : t.Keeps j) (hid : new.id = j.id)
    (hstamp : new.stateTimestamp.Storable) : (t.write new none).Keeps (j.overwrittenBy new) := by
  obtain ⟨r, hsole, hread⟩ := h
  have hmatch : matchesJob new none r = true := by
    simp [matchesJob, (Row.shows_of_toJob? hread).id, hid]
  have hsole' := hsole.write new none
  rw [if_pos hmatch] at hsole'
  exact ⟨_, hsole', ((Row.reads_of_toJob? hread).updatedFrom hstamp).toJob?⟩

theorem Keeps.updateIfState_hit (h : t.Keeps j) (hid : new.id = j.id)
    (hstamp : new.stateTimestamp.Storable) (hstate : j.state = expected) :
    ∃ t', t.updateIfState new expected = (true, t') ∧ t'.Keeps (j.overwrittenBy new) := by
  obtain ⟨r, hsole, hread⟩ := h
  have hreads := Row.reads_of_toJob? hread
  subst hstate
  obtain ⟨hhit, hsole'⟩ := hsole.updateIfState_hit hreads hid
  exact ⟨_, hhit, r.updatedFrom new, hsole', (hreads.updatedFrom hstamp).toJob?⟩

theorem Keeps.updateIfState_miss (h : t.Keeps j) (hid : new.id = j.id)
    (hstate : j.state ≠ expected) : t.updateIfState new expected = (false, t) := by
  obtain ⟨r, hsole, hread⟩ := h
  exact hsole.updateIfState_miss (Row.reads_of_toJob? hread) hid hstate

end Table

end Store

end Ferry
