import Ferry.Orchestrator.Cycle
import Ferry.Proofs.Job.Consistency
import Ferry.Proofs.Provision.Responses
import Ferry.Proofs.Store.Copies
import Ferry.Proofs.Store.Persistence

/-!
# What a cycle does to each job

A cycle that is alone with the store takes up the jobs at the front of three queues. What
becomes of a job that is taken up is a matter of the job and of what the others say when
they are asked about it (`handled`), and of no other job; all other jobs stay as they
are (`turned`).

Two things have to be seen for that. Within a batch no two jobs have the same id, so
the writes for one job never meet the row of another, and a job that cannot be provisioned,
sent or started ends as a row of its own and not the phase. And no phase puts a job
where a later one looks for work: what is provisioned in this cycle is not dispatched in
it, and what is sent is not acknowledged, so the batches may all be read off the table
that the cycle begins with.
-/

namespace Ferry.Batches

open Operation Store Store.Table
open Time (Instant)

/-! ## The worker and the others -/

/-- What the others say when they are asked about a job, and the ids and times that are
drawn, in that order. -/
structure Others where
  provision : Job → Except ProvisionError Unit
  send : TransferRequest → String → Except DispatchError Unit
  flow : TransferRequest → FlowOutcome
  arrived : Job → Bool
  freshId : Nat → String
  now : Nat → Instant

/-- A store that nobody but the worker writes to. -/
structure Scene where
  table : Table
  /-- What the others were asked, in that order. -/
  asked : List Request := []
  /-- How many ids and times were drawn. -/
  drawn : Nat := 0

/-- No call of the store fails, and the worker is not stopped. -/
def reply (o : Others) : (q : Request) → Scene → q.Reply × Scene
  | .store c, s => ((c.perform s.table).1, { s with table := (c.perform s.table).2 })
  | .provision job, s => (o.provision job, { s with asked := s.asked ++ [.provision job] })
  | .send request id, s => (o.send request id, { s with asked := s.asked ++ [.send request id] })
  | .startFlow request, s => (o.flow request, { s with asked := s.asked ++ [.startFlow request] })
  | .isComplete job, s => (o.arrived job, { s with asked := s.asked ++ [.isComplete job] })
  | .freshId, s => (o.freshId s.drawn, { s with drawn := s.drawn + 1 })
  | .now, s => (o.now s.drawn, { s with drawn := s.drawn + 1 })
  | .isRunning, s => (true, s)
  | .acknowledge .., s | .count .., s | .overflow, s => ((), s)

/-- Carries out an operation. -/
def alone {α : Type} (o : Others) (f : Operation α) (s : Scene) :
    Except OrchestratorError α × Scene :=
  Program.run (S := operationSignature) (reply o) f.run s

/-! ## One job -/

/-- The job in another state since the time that was drawn then. -/
def movedAt (o : Others) (k : Nat) (state : JobState) (job : Job) : Job :=
  { job with state, stateTimestamp := o.now k }

def failedAt (o : Others) (k : Nat) (detail : String) (job : Job) : Job :=
  { movedAt o k .error job with errorDetail := some detail }

def triedAt (o : Others) (k : Nat) (job : Job) : Job :=
  { movedAt o k .provisioned job with retryCount := job.retryCount + 1 }

/-- The name of the directory that is to be provisioned for a job, if one is. An initiator
receives its data in one that it manages itself, named by the destination or else after the
asset; an executor stages data where the request tells it to. -/
def directoryName? (job : Job) : Option String :=
  match job.role with
  | .initiator =>
    if job.request.managedResources = true ∧ job.request.destination.kind = "local_directory" then
      some ((job.request.destination.properties.get? "name").getD job.request.assetId)
    else none
  | .executor => job.request.properties.get? "staging"

/-- What is to be provisioned for a job: one directory or nothing. -/
def needs (job : Job) (definitionId : String) : ResourceManifest where
  definitions := (directoryName? job).toList.map fun name =>
    { id := definitionId, kind := "local_directory",
      properties := ⟨[("name", name)], List.pairwise_singleton _ _⟩ }

/-- The job as its provisioning is begun. -/
def begun (o : Others) (k : Nat) (job : Job) : Job :=
  { movedAt o (k + 1) .provisioning job with manifest := some (needs job (o.freshId k)) }

/-- What is asked about a job whose turn comes when so many ids and times were drawn. -/
def question (o : Others) (k : Nat) (job : Job) : Request :=
  match job.state, job.role with
  | .initial, _ => .provision (begun o k job)
  | .provisioned, .initiator => .send job.dispatchRequest job.id
  | .provisioned, .executor => .startFlow job.request
  | _, _ => .isComplete job

def afterProvision (o : Others) (k : Nat) (job : Job) : Job :=
  match o.provision (begun o k job) with
  | .ok () => begun o k job
  | .error e => failedAt o (k + 2) e.message (begun o k job)

def afterSend (o : Others) (k : Nat) (job : Job) : Job :=
  match o.send job.dispatchRequest job.id with
  | .ok () => movedAt o k .sent job
  | .error e => failedAt o (k + 1) ("dispatch failed: " ++ e.message) job

def afterStart (o : Others) (limit k : Nat) (job : Job) : Job :=
  match o.flow job.request with
  | .ok => movedAt o k .executing job
  | .retry reason =>
    if 0 < limit && limit < (job.retryCount + 1).toNat then
      failedAt o k ("flow retry limit of " ++ toString limit ++ " exceeded: " ++ reason)
        (triedAt o k job)
    else triedAt o k job
  | .fatal detail => failedAt o k detail job

/-- What is stored for a job that is taken up, if anything is. -/
def handled (o : Others) (limit k : Nat) (job : Job) : Option Job :=
  match job.state, job.role with
  | .initial, _ => some (afterProvision o k job)
  | .provisioned, .initiator => some (afterSend o k job)
  | .provisioned, .executor => some (afterStart o limit k job)
  | .acknowledged, _ =>
    if o.arrived job then some (movedAt o k .completed job) else none
  | _, _ => none

/-- What becomes of a row if these rows are taken up, the turn of a job having come when so
many ids and times were drawn. -/
def turned (o : Others) (limit : Nat) (since : Job → Nat) (batch : List Row) (r : Row) : Row :=
  match r.toJob? with
  | none => r
  | some job =>
    if r ∈ batch then
      match handled o limit (since job) job with
      | some new => r.updatedFrom new
      | none => r
    else r

/-- What is asked about the jobs of these rows, one after the other. -/
def questions (o : Others) (since : Job → Nat) (batch : List Row) : List Request :=
  batch.filterMap fun r => r.toJob?.map fun job => question o (since job) job

section Jobs

variable {o : Others} {limit k : Nat} {job new : Job} {s : Scene} {t : Table} {asked : List Request}
  {drawn : Nat} {α β : Type}

/-- Each row with the id of the job is in the job's state, and there is one. -/
structure Held (t : Table) (job : Job) : Prop where
  found : ∃ r ∈ t.rows, r.id = .text job.id
  state : ∀ r ∈ t.rows, r.id = .text job.id → r.state = .text job.state.name

theorem matchesJob_none {r : Row} : matchesJob new none r = true ↔ r.id = .text new.id := by
  simp [matchesJob]

theorem Held.update (h : Held t job) (hid : new.id = job.id) :
    t.update new = .ok (t.write new none) := by
  obtain ⟨r, hr, hrow⟩ := h.found
  refine update_eq_ok.2 ⟨List.any_eq_true.2 ⟨r, hr, matchesJob_none.2 ?_⟩, rfl⟩
  rw [hrow, hid]

theorem Held.perform_update (h : Held t job) (hid : new.id = job.id) :
    (Call.update new).perform t = (.ok (), t.write new none) := by
  rw [Call.perform, h.update hid]
  rfl

theorem Held.perform_updateIfState (h : Held t job) (hid : new.id = job.id) :
    (Call.updateIfState new job.state).perform t = (.ok true, t.write new none) := by
  have hmatch : ∀ r ∈ t.rows, matchesJob new (some job.state) r = matchesJob new none r := by
    intro r hr
    by_cases hrow : r.id = .text job.id
    · simp [matchesJob, hid, hrow, h.state r hr hrow]
    · simp [matchesJob, hid, hrow]
  obtain ⟨r, hr, hrow⟩ := h.found
  have hhits : t.hits new (some job.state) = true := by
    refine List.any_eq_true.2 ⟨r, hr, ?_⟩
    rw [hmatch r hr, matchesJob_none, hrow, hid]
  have hwrite : t.write new (some job.state) = t.write new none := by
    refine congrArg Table.mk (List.map_congr_left fun r hr => ?_)
    rw [hmatch r hr]
  show (Except.ok (t.hits new (some job.state)), t.write new (some job.state)) = _
  rw [hhits, hwrite]

theorem Held.write_self (h : Held t job) (hid : new.id = job.id) :
    Held (t.write new none) new := by
  obtain ⟨r, hr, hrow⟩ := h.found
  refine ⟨⟨_, List.mem_map_of_mem hr, ?_⟩, fun r' hr' hid' => ?_⟩
  · rw [if_pos (matchesJob_none.2 (by rw [hrow, hid]))]
    exact hrow.trans (congrArg _ hid.symm)
  · obtain ⟨old, -, rfl⟩ := List.mem_map.1 hr'
    by_cases hmatch : matchesJob new none old = true
    · rw [if_pos hmatch]
      rfl
    · rw [if_neg hmatch] at hid'
      exact absurd (matchesJob_none.2 hid') hmatch

theorem Held.write_other (h : Held t job) (hne : new.id ≠ job.id) :
    Held (t.write new none) job := by
  obtain ⟨r, hr, hrow⟩ := h.found
  have hmiss : ∀ old : Row, old.id = .text job.id → matchesJob new none old = false := by
    intro old hold
    rw [Bool.eq_false_iff, Ne, matchesJob_none, hold]
    exact fun heq => hne (Cell.text.inj heq).symm
  refine ⟨⟨r, ?_, hrow⟩, fun r' hr' hid' => ?_⟩
  · refine List.mem_map.2 ⟨r, hr, ?_⟩
    rw [hmiss r hrow]
    rfl
  · obtain ⟨old, hold, rfl⟩ := List.mem_map.1 hr'
    have hid : old.id = .text job.id := by
      split at hid'
      · exact hid'
      · exact hid'
    rw [hmiss old hid]
    exact h.state old hold hid

/-- The last of two writes is the one that is seen. -/
theorem write_write {old : Job} (hid : new.id = old.id) :
    (t.write old none).write new none = t.write new none := by
  rw [Table.write, Table.write, Table.write, List.map_map]
  refine congrArg Table.mk (List.map_congr_left fun r _ => ?_)
  simp only [Function.comp_apply]
  by_cases hrow : r.id = .text old.id
  · rw [if_pos (matchesJob_none.2 hrow), if_pos (matchesJob_none.2 (hid ▸ hrow)),
      if_pos (matchesJob_none.2 (hid ▸ hrow))]
    rfl
  · rw [if_neg (fun h => hrow (matchesJob_none.1 h))]

theorem alone_store {c : Store.Call} {g : c.Answer → Operation α} {a : c.Answer} {t' : Table}
    (h : c.perform t = (.ok a, t')) :
    alone o (store c >>= g) ⟨t, asked, drawn⟩ = alone o (g a) ⟨t', asked, drawn⟩ := by
  rw [alone, run_store]
  simp only [reply, h]
  rfl

theorem alone_ask (q : Request) (g : q.Reply → Operation α) :
    alone o (ask q >>= g) s = alone o (g (reply o q s).1) (reply o q s).2 :=
  rfl

theorem alone_checkCount (outcome : FlowOutcome) (g : Unit → Operation α) :
    alone o (Cycle.checkCount job outcome >>= g) s = alone o (g ()) s := by
  rw [Cycle.checkCount_bind]
  split <;> rfl

theorem alone_move {moved : Except JobError Job} {g : Job → Operation α}
    (h : moved = .ok job) : alone o (move moved >>= g) s = alone o (g job) s := by
  subst h
  rfl

theorem alone_bind {f : Operation α} {g : α → Operation β} {a : α} {s' : Scene}
    (h : alone o f s = (.ok a, s')) : alone o (f >>= g) s = alone o (g a) s' := by
  rw [alone] at h
  rw [alone, run_bind, h]
  rfl

theorem move_allowed {target : JobState}
    (h : JobState.canMove job.role job.state target = true) :
    job.move target (o.now k) = .ok (movedAt o k target job) :=
  Job.move_eq_ok.2 ⟨h, rfl⟩

theorem failed_allowed {detail : String} (h : JobState.canMove job.role job.state .error = true) :
    job.failed detail (o.now k) = .ok (failedAt o k detail job) := by
  rw [Job.failed, move_allowed h]
  rfl

/-- The turn of one job: it is stored as it is handled, and no more is asked than this. -/
def Turn (o : Others) (limit : Nat) (asks : Nat → Job → List Request) (f : Operation Unit)
    (job : Job) : Prop :=
  ∀ t asked k, Held t job → ∃ new n, handled o limit k job = some new ∧ new.id = job.id ∧
    alone o f ⟨t, asked, k⟩ = (.ok (), ⟨t.write new none, asked ++ asks k job, n⟩)

/-- The one question about a job. -/
def one (o : Others) (k : Nat) (job : Job) : List Request :=
  [question o k job]

theorem forJob_eq (job : Job) (definitionId : String) :
    ResourceManifest.forJob job definitionId = needs job definitionId := by
  rw [ResourceManifest.forJob, needs, directoryName?]
  cases job.role with
  | initiator =>
      dsimp only
      by_cases hmanaged : job.request.managedResources = true
      · by_cases hkind : job.request.destination.kind = localDirectory
        · rw [if_pos hmanaged, ResourceManifest.toReceive, if_pos hkind, if_pos ⟨hmanaged, hkind⟩]
          rfl
        · rw [if_pos hmanaged, ResourceManifest.toReceive, if_neg hkind,
            if_neg fun h => hkind h.2]
          rfl
      · rw [if_neg hmanaged, if_neg fun h => hmanaged h.1]
        rfl
  | executor =>
      dsimp only
      rw [ResourceManifest.toExecute]
      cases job.request.properties.get? "staging" <;> rfl

theorem turn_provision (hstate : job.state = .initial) :
    Turn o limit (one o) (Cycle.provision job) job := by
  intro t asked k h
  have hbegin : job.provision (.forJob job (o.freshId k)) (o.now (k + 1)) =
      .ok (begun o k job) := by
    rw [Job.provision, move_allowed (by rw [hstate]; rfl), forJob_eq]
    rfl
  refine ⟨afterProvision o k job, ?_⟩
  simp only [handled, one, question, hstate]
  rw [Cycle.provision, alone_ask, alone_ask]
  simp only [reply]
  rw [alone_move hbegin, alone_store (h.perform_update (show (begun o k job).id = job.id from rfl)),
    countMove, Operation.count, alone_ask, alone_ask]
  simp only [reply, afterProvision]
  cases o.provision (begun o k job) with
  | ok _ => exact ⟨_, trivial, rfl, rfl⟩
  | error e =>
      have hfail : (begun o k job).failed e.message (o.now (k + 2)) =
          .ok (failedAt o (k + 2) e.message (begun o k job)) := failed_allowed rfl
      have hheld : Held (t.write (begun o k job) none) (begun o k job) := h.write_self rfl
      have hid : (failedAt o (k + 2) e.message (begun o k job)).id = (begun o k job).id := rfl
      rw [alone_ask]
      simp only [reply]
      rw [alone_move hfail, alone_store (hheld.perform_update hid), write_write hid]
      exact ⟨_, trivial, rfl, rfl⟩

theorem turn_send (hstate : job.state = .provisioned) (hrole : job.role = .initiator) :
    Turn o limit (one o) (Cycle.send job) job := by
  intro t asked k h
  have hsend : job.sent (o.now k) = .ok (movedAt o k .sent job) :=
    move_allowed (by rw [hstate, hrole]; rfl)
  refine ⟨afterSend o k job, ?_⟩
  simp only [handled, one, question, hstate, hrole]
  rw [Cycle.send, alone_ask]
  simp only [reply]
  rw [alone_move hsend,
    alone_store (h.perform_update (show (movedAt o k .sent job).id = job.id from rfl)), countMove,
    Operation.count, alone_ask, alone_ask]
  have hrequest : (movedAt o k .sent job).dispatchRequest = job.dispatchRequest := rfl
  have hid : (movedAt o k .sent job).id = job.id := rfl
  simp only [reply, afterSend, hrequest, hid]
  cases o.send job.dispatchRequest job.id with
  | ok _ => exact ⟨_, trivial, rfl, rfl⟩
  | error e =>
      have hfail : (movedAt o k .sent job).failed ("dispatch failed: " ++ e.message)
          (o.now (k + 1)) = .ok (failedAt o (k + 1) ("dispatch failed: " ++ e.message) job) :=
        failed_allowed rfl
      have hheld : Held (t.write (movedAt o k .sent job) none) (movedAt o k .sent job) :=
        h.write_self rfl
      have hid : (failedAt o (k + 1) ("dispatch failed: " ++ e.message) job).id =
          (movedAt o k .sent job).id := rfl
      have hstore : (Call.updateIfState (failedAt o (k + 1) ("dispatch failed: " ++ e.message) job)
          .sent).perform (t.write (movedAt o k .sent job) none) = (.ok true, t.write _ none) :=
        (hheld.perform_updateIfState hid).trans (by rw [write_write hid])
      dsimp only
      rw [Operation.count, alone_ask, alone_ask]
      simp only [reply]
      rw [alone_move hfail, alone_store hstore]
      exact ⟨_, trivial, rfl, rfl⟩

theorem afterFlow_eq (hstate : job.state = .provisioned) (hrole : job.role = .executor) :
    Cycle.afterFlow limit job (o.now k) (o.flow job.request) = .ok (afterStart o limit k job) := by
  have hmove : ∀ target, JobState.canMove .executor .provisioned target = true →
      job.move target (o.now k) = .ok (movedAt o k target job) :=
    fun target htarget => move_allowed (by rw [hstate, hrole]; exact htarget)
  rw [afterStart]
  cases o.flow job.request with
  | ok => exact hmove .executing rfl
  | fatal detail => exact failed_allowed (by rw [hstate, hrole]; rfl)
  | retry reason =>
      have hagain : job.retry (o.now k) = .ok (triedAt o k job) := by
        rw [Job.retry, hmove .provisioned rfl]
        rfl
      have hlimit : Cycle.retriesExceeded limit (triedAt o k job) =
          (0 < limit && limit < (job.retryCount + 1).toNat) := rfl
      rw [Cycle.afterFlow, hagain]
      simp only [bind, Except.bind, hlimit]
      split
      · exact failed_allowed (by rw [show (triedAt o k job).role = .executor from hrole]; rfl)
      · rfl

theorem turn_execute (config : Config.Orchestrator) (hstate : job.state = .provisioned)
    (hrole : job.role = .executor) :
    Turn o config.maxFlowRetries (one o) (Cycle.execute config job) job := by
  intro t asked k h
  have hafter : Cycle.afterFlow config.maxFlowRetries job (o.now k) (o.flow job.request) =
      .ok (afterStart o config.maxFlowRetries k job) := afterFlow_eq hstate hrole
  have hid : (afterStart o config.maxFlowRetries k job).id = job.id :=
    (Job.evolves_afterFlow hstate hafter).id
  have hstore := h.perform_updateIfState hid
  rw [hstate] at hstore
  refine ⟨afterStart o config.maxFlowRetries k job, ?_⟩
  simp only [handled, one, question, hstate, hrole]
  rw [Cycle.execute, alone_ask, Operation.count, alone_ask, alone_ask]
  simp only [reply]
  rw [alone_checkCount, alone_move hafter]
  split
  · rw [Operation.count, alone_ask]
    simp only [reply]
    rw [alone_store hstore]
    exact ⟨_, trivial, hid, rfl⟩
  · rw [alone_store hstore]
    exact ⟨_, trivial, hid, rfl⟩

theorem turn_dispatch (config : Config.Orchestrator) (hstate : job.state = .provisioned) :
    Turn o config.maxFlowRetries (one o) (Cycle.dispatch config job) job := by
  rw [Cycle.dispatch]
  cases hrole : job.role with
  | initiator => exact turn_send hstate hrole
  | executor => exact turn_execute config hstate hrole

/-- Nothing is asked about a job that is completed now. -/
theorem turn_complete (hstate : job.state = .acknowledged) (hrole : job.role = .initiator)
    (harrived : o.arrived job = true) :
    Turn o limit (fun _ _ => []) (Cycle.complete job) job := by
  intro t asked k h
  have hcomplete : job.completed (o.now k) = .ok (movedAt o k .completed job) :=
    move_allowed (by rw [hstate, hrole]; rfl)
  refine ⟨movedAt o k .completed job, ?_⟩
  simp only [handled, hstate, harrived, if_true, List.append_nil]
  rw [Cycle.complete, alone_ask]
  simp only [reply]
  rw [alone_move hcomplete,
    alone_store (h.perform_update (show (movedAt o k .completed job).id = job.id from rfl))]
  exact ⟨_, trivial, rfl, rfl⟩

end Jobs

/-! ## One phase -/

/-- What becomes of a row when the turns of these jobs are over. -/
def overwritten (o : Others) (limit : Nat) (since : Job → Nat) (jobs : List Job) (r : Row) : Row :=
  match jobs.find? fun job => r.id == .text job.id with
  | none => r
  | some job =>
    match handled o limit (since job) job with
    | some new => r.updatedFrom new
    | none => r

/-- The rows that a phase takes up. -/
def batch (config : Config.Orchestrator) (t : Table) (state : JobState) : List Row :=
  (t.queue state).take config.batchSize

/-- The table after the turns of the jobs in one state. -/
def tableAfter (o : Others) (config : Config.Orchestrator) (since : Job → Nat) (state : JobState)
    (t : Table) : Table :=
  ⟨t.rows.map (turned o config.maxFlowRetries since (batch config t state))⟩

/-- A phase takes up what is in the state: so many jobs are reported, the others are asked about
them one after the other, and their rows are what they turn into. -/
def TakesUp (o : Others) (config : Config.Orchestrator) (state : JobState) (f : Operation Nat)
    (t : Table) : Prop :=
  ∀ asked k, ∃ since n, alone o f ⟨t, asked, k⟩ =
    (.ok (min config.batchSize (t.count state)),
      ⟨tableAfter o config since state t, asked ++ questions o since (batch config t state), n⟩)

/-- What a phase needs of the store: no two rows have the same id, the rows to be taken up hold
jobs, and the database takes the limit or has no more rows than it can number. -/
structure Ready (config : Config.Orchestrator) (state : JobState) (t : Table) : Prop where
  keyed : (t.rows.map (·.id)).Nodup
  readable : ∀ r ∈ batch config t state, ∃ job, r.toJob? = some job
  fits : config.batchSize ≤ maxLimit ∨ t.rows.length ≤ maxLimit

section Phases

variable {o : Others} {limit k : Nat} {job : Job} {jobs : List Job} {t : Table} {s : Scene}
  {asked : List Request} {config : Config.Orchestrator} {state : JobState}
  {asks : Nat → Job → List Request} {f : Job → Operation Unit}

theorem overwritten_congr {since since' : Job → Nat} (h : ∀ job ∈ jobs, since job = since' job)
    (r : Row) : overwritten o limit since jobs r = overwritten o limit since' jobs r := by
  rw [overwritten, overwritten]
  cases hfind : jobs.find? fun job => r.id == .text job.id with
  | none => rfl
  | some job =>
      dsimp only
      rw [h job (List.mem_of_find?_eq_some hfind)]

theorem ne_of_nodup {other : Job} (hids : ((job :: jobs).map (·.id)).Nodup) (h : other ∈ jobs) :
    job.id ≠ other.id := by
  intro heq
  exact (List.nodup_cons.1 hids).1 (List.mem_map.2 ⟨other, h, heq.symm⟩)

/-- The first turn and those of the others. -/
theorem map_overwritten_cons {since : Job → Nat} {new : Job}
    (hids : ((job :: jobs).map (·.id)).Nodup) (hid : new.id = job.id)
    (hnew : handled o limit (since job) job = some new) :
    (t.write new none).rows.map (overwritten o limit since jobs) =
      t.rows.map (overwritten o limit since (job :: jobs)) := by
  rw [Table.write, List.map_map]
  refine List.map_congr_left fun r _ => ?_
  simp only [Function.comp_apply]
  by_cases hrow : r.id = .text job.id
  · have hnone : jobs.find? (fun other => (r.updatedFrom new).id == .text other.id) = none := by
      refine List.find?_eq_none.2 fun other hother => ?_
      have hne : job.id ≠ other.id := ne_of_nodup hids hother
      show ¬ (r.id == .text other.id) = true
      rw [hrow]
      simpa using hne
    rw [if_pos (matchesJob_none.2 (hrow.trans (congrArg _ hid.symm))), overwritten, hnone,
      overwritten, List.find?_cons_of_pos (by simpa using hrow)]
    simp only [hnew]
  · rw [if_neg fun h => hrow ((matchesJob_none.1 h).trans (congrArg _ hid)), overwritten,
      overwritten, List.find?_cons_of_neg (by simpa using hrow)]

theorem alone_forEach (hturn : ∀ job ∈ jobs, Turn o limit asks (f job) job)
    (hids : (jobs.map (·.id)).Nodup) (hheld : ∀ job ∈ jobs, Held t job) :
    ∃ since n, alone o (forEach f jobs) ⟨t, asked, k⟩ =
      (.ok (), ⟨⟨t.rows.map (overwritten o limit since jobs)⟩,
        asked ++ jobs.flatMap (fun job => asks (since job) job), n⟩) := by
  induction jobs generalizing t asked k with
  | nil =>
      refine ⟨fun _ => 0, k, ?_⟩
      have hrows : t.rows.map (overwritten o limit (fun _ => 0) []) = t.rows := List.map_id _
      rw [List.flatMap_nil, List.append_nil, hrows]
      rfl
  | cons job rest ih =>
      obtain ⟨hfirst, hlater⟩ := List.forall_mem_cons.1 hturn
      obtain ⟨hheld, hheldLater⟩ := List.forall_mem_cons.1 hheld
      obtain ⟨new, m, hnew, hid, hrun⟩ := hfirst t asked k hheld
      have hne : ∀ other ∈ rest, job.id ≠ other.id := fun other => ne_of_nodup hids
      have hheld' : ∀ other ∈ rest, Held (t.write new none) other := fun other hother =>
        (hheldLater other hother).write_other (hid ▸ hne other hother)
      obtain ⟨since, n, hrest⟩ := ih hlater (List.nodup_cons.1 hids).2 hheld'
      let since' : Job → Nat := fun other => if other = job then k else since other
      have hself : since' job = k := if_pos rfl
      have hothers : ∀ other ∈ rest, since other = since' other := fun other hother =>
        (if_neg fun heq => hne other hother (congrArg Job.id heq).symm).symm
      refine ⟨since', n, ?_⟩
      rw [forEach, alone_bind hrun, hrest, List.flatMap_cons, hself, List.append_assoc,
        ← map_overwritten_cons hids hid (hself ▸ hnew)]
      have hrows : (t.write new none).rows.map (overwritten o limit since rest) =
          (t.write new none).rows.map (overwritten o limit since' rest) :=
        List.map_congr_left fun r _ => overwritten_congr hothers r
      have hasks : rest.flatMap (fun job => asks (since job) job) =
          rest.flatMap fun job => asks (since' job) job :=
        List.flatMap_congr fun other hother => by rw [hothers other hother]
      rw [hrows, hasks]

/-! ### The batch -/

/-- The jobs are those read of the rows of the batch, in its order. -/
def Drawn (config : Config.Orchestrator) (state : JobState) (t : Table) (jobs : List Job) : Prop :=
  List.Forall₂ (fun r j => r.toJob? = some j) (batch config t state) jobs

theorem mem_rows_of_batch {r : Row} (h : r ∈ batch config t state) :
    r ∈ t.rows ∧ r.state = .text state.name :=
  mem_queue.1 (List.mem_of_mem_take h)

theorem length_queue (t : Table) (state : JobState) : (t.queue state).length = t.count state :=
  (queue_perm t state).length_eq

theorem length_batch (config : Config.Orchestrator) (t : Table) (state : JobState) :
    (batch config t state).length = min config.batchSize (t.count state) := by
  rw [batch, List.length_take, length_queue]

theorem Ready.exists_jobs (h : Ready config state t) :
    ∃ jobs, t.next state config.batchSize = .ok jobs ∧ Drawn config state t jobs := by
  have hbatch : (t.queue state).take (min config.batchSize maxLimit) = batch config t state := by
    rw [batch, List.take_eq_take_iff]
    have hlength : (t.queue state).length ≤ t.rows.length := by
      rw [length_queue]
      exact List.length_filter_le _ _
    rcases h.fits with hfits | hfits <;> omega
  obtain ⟨jobs, hjobs⟩ := exists_mapM_readRow h.readable
  exact ⟨jobs, by rw [Table.next, hbatch, hjobs], mapM_readRow_eq_ok hjobs⟩

theorem Drawn.mem (h : Drawn config state t jobs) (hjob : job ∈ jobs) :
    ∃ r ∈ batch config t state, r.toJob? = some job := by
  obtain ⟨n, hn, rfl⟩ := List.getElem_of_mem hjob
  have hn' : n < (batch config t state).length := h.length_eq ▸ hn
  exact ⟨_, List.getElem_mem hn', h.get hn' hn⟩

theorem Drawn.mem_of_read {r : Row} (h : Drawn config state t jobs) (hr : r ∈ batch config t state)
    (hread : r.toJob? = some job) : job ∈ jobs := by
  obtain ⟨n, hn, rfl⟩ := List.getElem_of_mem hr
  have hn' : n < jobs.length := h.length_eq ▸ hn
  have hjob : some jobs[n] = some job := (h.get hn hn').symm.trans hread
  exact Option.some.inj hjob ▸ List.getElem_mem hn'

theorem Drawn.state_eq (h : Drawn config state t jobs) (hjob : job ∈ jobs) : job.state = state := by
  obtain ⟨r, hr, hread⟩ := h.mem hjob
  refine JobState.name_inj (Cell.text.inj ?_)
  rw [← (Row.shows_of_toJob? hread).state_eq, (mem_rows_of_batch hr).2]

theorem Drawn.held (h : Drawn config state t jobs) (hready : Ready config state t)
    (hjob : job ∈ jobs) : Held t job := by
  obtain ⟨r, hr, hread⟩ := h.mem hjob
  have hshows := Row.shows_of_toJob? hread
  have hrow := (mem_rows_of_batch hr).1
  refine ⟨⟨r, hrow, hshows.id⟩, fun r' hr' hid => ?_⟩
  rw [List.inj_on_of_nodup_map hready.keyed hr' hrow (hid.trans hshows.id.symm), hshows.state_eq]

theorem Drawn.ids (h : Drawn config state t jobs) (hready : Ready config state t) :
    (jobs.map (·.id)).Nodup := by
  have hcells : (batch config t state).map (·.id) = jobs.map fun job => Cell.text job.id := by
    refine List.forall₂_eq_eq_eq ▸ ?_
    rw [List.forall₂_map_left_iff, List.forall₂_map_right_iff]
    exact h.imp fun r job hread => (Row.shows_of_toJob? hread).id
  have hqueue : ((t.queue state).map (·.id)).Nodup :=
    ((queue_perm t state).map _).nodup_iff.2
      (hready.keyed.sublist (List.filter_sublist.map _))
  have hbatch := hqueue.sublist ((List.take_sublist config.batchSize _).map _)
  rw [batch] at hcells
  rw [hcells] at hbatch
  exact List.Nodup.of_map Cell.text (by rwa [List.map_map])

/-- Rows that are written because of a turn are those that were taken up. -/
theorem Drawn.overwritten_eq {written : List Job} {since : Job → Nat} {r : Row}
    (h : Drawn config state t jobs) (hready : Ready config state t) (hsub : written ⊆ jobs)
    (hrest : ∀ job ∈ jobs, job ∈ written ∨ handled o limit (since job) job = none)
    (hr : r ∈ t.rows) :
    overwritten o limit since written r = turned o limit since (batch config t state) r := by
  rw [overwritten, turned]
  cases hfind : written.find? fun job => r.id == .text job.id with
  | some job =>
      have hid : r.id = .text job.id := by simpa using List.find?_some hfind
      obtain ⟨r', hr', hread⟩ := h.mem (hsub (List.mem_of_find?_eq_some hfind))
      obtain rfl : r = r' := List.inj_on_of_nodup_map hready.keyed hr (mem_rows_of_batch hr').1
        (hid.trans (Row.shows_of_toJob? hread).id.symm)
      simp only [hread, if_pos hr']
  | none =>
      cases hread : r.toJob? with
      | none => rfl
      | some job =>
          dsimp only
          split
          · next hmem =>
            rcases hrest job (h.mem_of_read hmem hread) with hwritten | hnothing
            · have hid := (Row.shows_of_toJob? hread).id
              exact absurd (List.find?_eq_none.1 hfind job hwritten) (by simpa using hid)
            · rw [hnothing]
          · rfl

theorem Drawn.questions_eq (h : Drawn config state t jobs) (since : Job → Nat) :
    jobs.map (fun job => question o (since job) job) =
      questions o since (batch config t state) := by
  rw [questions]
  rw [Drawn] at h
  generalize batch config t state = rows at h ⊢
  induction h with
  | nil => rfl
  | @cons r job rows jobs hread _ ih =>
      rw [List.map_cons, List.filterMap_cons, hread, ih]
      rfl

theorem Drawn.length_eq_min (h : Drawn config state t jobs) :
    jobs.length = min config.batchSize (t.count state) :=
  h.length_eq.symm.trans (length_batch config t state)

/-- A phase that gives each job of its batch its turn. -/
theorem takesUp_each {phase : Phase} (hready : Ready config state t)
    (hturn : ∀ job : Job, job.state = state →
      Turn o config.maxFlowRetries (one o) (f job) job) :
    TakesUp o config state (do
      let jobs ← store (.next state config.batchSize)
      forEach f jobs
      Operation.count (.jobsProcessed phase) jobs.length
      pure jobs.length) t := by
  intro asked k
  obtain ⟨jobs, hnext, hdrawn⟩ := hready.exists_jobs
  have hperform : (Call.next state config.batchSize).perform t = (.ok jobs, t) :=
    congrArg (·, t) hnext
  obtain ⟨since, n, hrun⟩ : ∃ since n, alone o (forEach f jobs) ⟨t, asked, k⟩ = (.ok (),
      ⟨⟨t.rows.map (overwritten o config.maxFlowRetries since jobs)⟩,
        asked ++ jobs.flatMap fun job => [question o (since job) job], n⟩) :=
    alone_forEach (fun job hjob => hturn job (hdrawn.state_eq hjob)) (hdrawn.ids hready)
      fun job hjob => hdrawn.held hready hjob
  have hrows : t.rows.map (overwritten o config.maxFlowRetries since jobs) =
      t.rows.map (turned o config.maxFlowRetries since (batch config t state)) :=
    List.map_congr_left fun r hr =>
      hdrawn.overwritten_eq hready (List.Subset.refl _) (fun _ => .inl) hr
  refine ⟨since, n, ?_⟩
  rw [alone_store hperform, alone_bind hrun, Operation.count, alone_ask, hrows,
    ← List.map_eq_flatMap, hdrawn.questions_eq, ← hdrawn.length_eq_min]
  rfl

theorem takesUp_provisionPhase (hready : Ready config .initial t) :
    TakesUp o config .initial (Cycle.provisionPhase config) t :=
  takesUp_each hready fun _ => turn_provision

theorem takesUp_dispatchPhase (hready : Ready config .provisioned t) :
    TakesUp o config .provisioned (Cycle.dispatchPhase config) t :=
  takesUp_each hready fun _ => turn_dispatch config

theorem alone_arrived (jobs : List Job) : alone o (Cycle.arrived jobs) ⟨t, asked, k⟩ =
    (.ok (jobs.filter o.arrived), ⟨t, asked ++ jobs.map .isComplete, k⟩) := by
  induction jobs generalizing asked with
  | nil =>
      rw [List.map_nil, List.append_nil]
      rfl
  | cons job rest ih =>
      rw [Cycle.arrived, alone_ask]
      simp only [reply]
      rw [alone_bind ih, List.map_cons, List.filter_cons, List.append_assoc]
      rfl

/-- All jobs are asked for before the first is completed. -/
theorem takesUp_completionPhase (hready : Ready config .acknowledged t)
    (hroles : ∀ r ∈ t.queue .acknowledged, ∀ job, r.toJob? = some job → job.role = .initiator) :
    TakesUp o config .acknowledged (Cycle.completionPhase config) t := by
  intro asked k
  obtain ⟨jobs, hnext, hdrawn⟩ := hready.exists_jobs
  have hperform : (Call.next .acknowledged config.batchSize).perform t = (.ok jobs, t) :=
    congrArg (·, t) hnext
  have hrole : ∀ job ∈ jobs, job.role = .initiator := by
    intro job hjob
    obtain ⟨r, hr, hread⟩ := hdrawn.mem hjob
    exact hroles r (List.mem_of_mem_take hr) job hread
  have hplaced : jobs.filter (fun job => job.role != .initiator) = [] :=
    List.filter_eq_nil_iff.2 fun job hjob => by simp [hrole job hjob]
  have hsub : jobs.filter o.arrived ⊆ jobs := fun job hjob => (List.mem_filter.1 hjob).1
  obtain ⟨since, n, hrun⟩ : ∃ since n, alone o (forEach Cycle.complete (jobs.filter o.arrived))
      ⟨t, asked ++ jobs.map .isComplete, k⟩ = (.ok (),
        ⟨⟨t.rows.map (overwritten o config.maxFlowRetries since (jobs.filter o.arrived))⟩,
          asked ++ jobs.map .isComplete ++ (jobs.filter o.arrived).flatMap fun _ => [], n⟩) :=
    alone_forEach (fun job hjob => turn_complete (hdrawn.state_eq (hsub hjob))
        (hrole job (hsub hjob)) (List.mem_filter.1 hjob).2)
      ((hdrawn.ids hready).sublist (List.filter_sublist.map _))
      fun job hjob => hdrawn.held hready (hsub hjob)
  have hrows : t.rows.map (overwritten o config.maxFlowRetries since (jobs.filter o.arrived)) =
      t.rows.map (turned o config.maxFlowRetries since (batch config t .acknowledged)) := by
    refine List.map_congr_left fun r hr => hdrawn.overwritten_eq hready hsub (fun job hjob => ?_) hr
    by_cases harrived : o.arrived job = true
    · exact .inl (List.mem_filter.2 ⟨hjob, harrived⟩)
    · exact .inr (by simp [handled, hdrawn.state_eq hjob, harrived])
  have hasked : jobs.map .isComplete = questions o since (batch config t .acknowledged) := by
    rw [← hdrawn.questions_eq]
    exact List.map_congr_left fun job hjob => by simp [question, hdrawn.state_eq hjob]
  have hnone : ((jobs.filter o.arrived).flatMap fun _ => ([] : List Request)) = [] :=
    List.flatMap_eq_nil_iff.2 fun _ _ => rfl
  refine ⟨since, n, ?_⟩
  rw [Cycle.completionPhase, alone_store hperform]
  dsimp only
  rw [hplaced, List.isEmpty_nil, Bool.not_true, if_neg Bool.false_ne_true,
    alone_bind (alone_arrived jobs), alone_bind hrun, hrows, hasked, hnone, List.append_nil,
    ← hdrawn.length_eq_min]
  rfl

end Phases

/-! ## The cycle -/

/-- The states in which a cycle looks for work. -/
def TakenUp (state : JobState) : Prop :=
  state = .initial ∨ state = .provisioned ∨ state = .acknowledged

/-- The rows that a cycle takes up. -/
def taken (config : Config.Orchestrator) (t : Table) : List Row :=
  batch config t .initial ++ (batch config t .provisioned ++ batch config t .acknowledged)

section Cycle

variable {o : Others} {limit k : Nat} {job new : Job} {t : Table} {r : Row} {rows rows' : List Row}
  {config : Config.Orchestrator} {state other : JobState} {since since' : Job → Nat}
  {asked : List Request}

theorem turned_of_not_mem (h : r ∉ rows) : turned o limit since rows r = r := by
  rw [turned]
  cases r.toJob? with
  | none => rfl
  | some job => exact if_neg h

theorem turned_of_read (h : r ∈ rows) (hread : r.toJob? = some job) :
    turned o limit since rows r = match handled o limit (since job) job with
      | some new => r.updatedFrom new
      | none => r := by
  rw [turned, hread]
  exact if_pos h

/-- A row stays as it is or is written, and then it was taken up. -/
theorem turned_cases (o : Others) (limit : Nat) (since : Job → Nat) (rows : List Row) (r : Row) :
    turned o limit since rows r = r ∨ r ∈ rows ∧ ∃ job new, r.toJob? = some job ∧
      handled o limit (since job) job = some new ∧
      turned o limit since rows r = r.updatedFrom new := by
  by_cases hmem : r ∈ rows
  · cases hread : r.toJob? with
    | none => exact .inl (by rw [turned, hread])
    | some job =>
        rw [turned_of_read hmem hread]
        cases hnew : handled o limit (since job) job with
        | none => exact .inl rfl
        | some new => exact .inr ⟨hmem, job, new, rfl, hnew, rfl⟩
  · exact .inl (turned_of_not_mem hmem)

theorem turned_id (r : Row) : (turned o limit since rows r).id = r.id := by
  rcases turned_cases o limit since rows r with heq | ⟨-, job, new, -, -, heq⟩ <;> rw [heq]
  rfl

theorem state_of_read (hread : r.toJob? = some job) (hstate : r.state = .text state.name) :
    job.state = state :=
  JobState.name_inj (Cell.text.inj ((Row.shows_of_toJob? hread).state_eq.symm.trans hstate))

theorem afterProvision_state (o : Others) (k : Nat) (job : Job) :
    (afterProvision o k job).state = .provisioning ∨ (afterProvision o k job).state = .error := by
  rw [afterProvision]
  cases o.provision (begun o k job)
  · exact .inr rfl
  · exact .inl rfl

theorem afterSend_state (o : Others) (k : Nat) (job : Job) :
    (afterSend o k job).state = .sent ∨ (afterSend o k job).state = .error := by
  rw [afterSend]
  cases o.send job.dispatchRequest job.id
  · exact .inr rfl
  · exact .inl rfl

theorem afterStart_state (o : Others) (limit k : Nat) (job : Job) :
    (afterStart o limit k job).state = .executing ∨ (afterStart o limit k job).state = .error ∨
      (afterStart o limit k job).state = .provisioned := by
  rw [afterStart]
  cases o.flow job.request with
  | ok => exact .inl rfl
  | fatal detail => exact .inr (.inl rfl)
  | retry reason =>
      dsimp only
      split
      · exact .inr (.inl rfl)
      · exact .inr (.inr rfl)

/-- No phase makes work for another one. -/
theorem handled_state (h : handled o limit k job = some new) (htaken : TakenUp new.state) :
    new.state = job.state := by
  rw [handled] at h
  split at h
  · obtain rfl := Option.some.inj h
    rcases afterProvision_state o k job with heq | heq <;> simp [heq, TakenUp] at htaken
  · obtain rfl := Option.some.inj h
    rcases afterSend_state o k job with heq | heq <;> simp [heq, TakenUp] at htaken
  · next hready _ =>
    obtain rfl := Option.some.inj h
    rcases afterStart_state o limit k job with heq | heq | heq
    · simp [heq, TakenUp] at htaken
    · simp [heq, TakenUp] at htaken
    · rw [heq, hready]
  · split at h
    · obtain rfl := Option.some.inj h
      simp [movedAt, TakenUp] at htaken
    · cases h
  · cases h

theorem queue_map {g : Row → Row} (h : ∀ r ∈ t.rows, g r = r ∨
    r.state ≠ .text state.name ∧ (g r).state ≠ .text state.name) :
    queue ⟨t.rows.map g⟩ state = t.queue state := by
  refine congrArg inTurn ?_
  generalize t.rows = rows at h
  induction rows with
  | nil => rfl
  | cons r rows ih =>
      obtain ⟨hfirst, hrest⟩ := List.forall_mem_cons.1 h
      rw [List.map_cons, List.filter_cons, List.filter_cons, ih hrest]
      rcases hfirst with heq | ⟨hold, hnew⟩
      · rw [heq]
      · rw [if_neg (by simpa using hnew), if_neg (by simpa using hold)]

/-- What is written for the rows in one state takes no row to the queue of another, nor away
from there. -/
theorem queue_turned (hother : TakenUp other) (hne : other ≠ state) :
    (tableAfter o config since state t).queue other = t.queue other := by
  refine queue_map fun r _ => ?_
  rcases turned_cases o config.maxFlowRetries since (batch config t state) r with
    heq | ⟨hmem, job, new, hread, hnew, heq⟩
  · exact .inl heq
  · have hrow := (mem_rows_of_batch hmem).2
    refine .inr ⟨fun hsame => ?_, fun hsame => ?_⟩
    · exact hne (JobState.name_inj (Cell.text.inj (hsame.symm.trans hrow)))
    · rw [heq] at hsame
      obtain rfl : new.state = other := JobState.name_inj (Cell.text.inj hsame)
      exact hne ((handled_state hnew hother).trans (state_of_read hread hrow))

theorem batch_tableAfter (hother : TakenUp other) (hne : other ≠ state) :
    batch config (tableAfter o config since state t) other = batch config t other :=
  congrArg (List.take config.batchSize) (queue_turned hother hne)

theorem ready_turned (h : Ready config other t) (hother : TakenUp other) (hne : other ≠ state) :
    Ready config other (tableAfter o config since state t) := by
  refine ⟨?_, ?_, ?_⟩
  · show ((t.rows.map _).map _).Nodup
    rw [List.map_map]
    exact (List.map_congr_left fun r _ => (turned_id r).symm) ▸ h.keyed
  · rw [batch_tableAfter hother hne]
    exact h.readable
  · show _ ∨ (t.rows.map _).length ≤ _
    rw [List.length_map]
    exact h.fits

/-- The turns of the jobs in one state come first. -/
def joined (state : JobState) (since since' : Job → Nat) (job : Job) : Nat :=
  if job.state = state then since job else since' job

/-- Two rounds of turns are one if what was taken up in the first is not taken up again. -/
theorem turned_turned (hrows : ∀ r ∈ rows, r.state = .text state.name)
    (hrows' : ∀ r ∈ rows', ∃ other, r.state = .text other.name ∧ TakenUp other ∧ other ≠ state)
    (r : Row) : turned o limit since' rows' (turned o limit since rows r) =
      turned o limit (joined state since since') (rows ++ rows') r := by
  cases hread : r.toJob? with
  | none => simp only [turned, hread]
  | some job =>
      by_cases hmem : r ∈ rows
      · have hstate : job.state = state := state_of_read hread (hrows r hmem)
        have hjoined : joined state since since' job = since job := if_pos hstate
        rw [turned_of_read (List.mem_append_left _ hmem) hread, hjoined,
          turned_of_not_mem, turned_of_read hmem hread]
        intro hagain
        obtain ⟨other, hother, htaken, hne⟩ := hrows' _ hagain
        rcases turned_cases o limit since rows r with heq | ⟨-, job', new, hread', hnew, heq⟩
        · rw [heq, hrows r hmem] at hother
          exact hne (JobState.name_inj (Cell.text.inj hother)).symm
        · rw [heq] at hother
          obtain rfl : new.state = other := JobState.name_inj (Cell.text.inj hother)
          obtain rfl : job = job' := Option.some.inj (hread.symm.trans hread')
          exact hne ((handled_state hnew htaken).trans hstate)
      · rw [turned_of_not_mem hmem]
        by_cases hmem' : r ∈ rows'
        · obtain ⟨other, hother, -, hne⟩ := hrows' r hmem'
          have hjoined : joined state since since' job = since' job :=
            if_neg fun heq => hne ((state_of_read hread hother).symm.trans heq)
          rw [turned_of_read hmem' hread, turned_of_read (List.mem_append_right _ hmem') hread,
            hjoined]
        · rw [turned_of_not_mem hmem', turned_of_not_mem]
          exact fun h => (List.mem_append.1 h).elim hmem hmem'

theorem questions_append (hrows : ∀ r ∈ rows, r.state = .text state.name)
    (hrows' : ∀ r ∈ rows', ∃ other, r.state = .text other.name ∧ TakenUp other ∧ other ≠ state) :
    questions o since rows ++ questions o since' rows' =
      questions o (joined state since since') (rows ++ rows') := by
  rw [questions, questions, questions, List.filterMap_append]
  congr 1
  · refine List.filterMap_congr fun r hr => Option.map_congr fun job hjob => ?_
    rw [show joined state since since' job = since job from
      if_pos (state_of_read hjob (hrows r hr))]
  · refine List.filterMap_congr fun r hr => Option.map_congr fun job hjob => ?_
    obtain ⟨other, hother, -, hne⟩ := hrows' r hr
    rw [show joined state since since' job = since' job from
      if_neg fun heq => hne ((state_of_read hjob hother).symm.trans heq)]

/-- The rows that are taken up have waited for as long as any that are not. -/
theorem le_of_mem_batch {r' : Row} (hr : r ∈ batch config t state) (hr' : r' ∈ t.rows)
    (hstate : r'.state = .text state.name) (hleft : r' ∉ batch config t state) :
    r.stateTimestamp.le r'.stateTimestamp = true := by
  have hmem : r' ∈ t.queue state := mem_queue.2 ⟨hr', hstate⟩
  rw [← List.take_append_drop config.batchSize (t.queue state)] at hmem
  exact le_of_mem_take hr ((List.mem_append.1 hmem).resolve_left hleft)

/-- What a cycle that is alone with the store does. -/
structure Mapped (o : Others) (config : Config.Orchestrator) (s : Scene) : Prop where
  /-- It succeeds and reports how many jobs of each state it has taken up, every row turns into
  what is made of its own job, and the others are asked about each job that is taken up. -/
  turns : ∃ since n, alone o (cycle config) s =
    (.ok ⟨min config.batchSize (s.table.count .initial),
        min config.batchSize (s.table.count .provisioned),
        min config.batchSize (s.table.count .acknowledged)⟩,
      ⟨⟨s.table.rows.map (turned o config.maxFlowRetries since (taken config s.table))⟩,
        s.asked ++ questions o since (taken config s.table), n⟩)
  /-- The jobs that wait to be dispatched are the same when the dispatch begins. -/
  dispatch : (alone o (Cycle.provisionPhase config) s).2.table.queue .provisioned =
    s.table.queue .provisioned
  /-- The jobs that wait to be completed are the same when the completion begins. -/
  completion : (alone o (Cycle.provisionPhase config >>= fun _ => Cycle.dispatchPhase config)
    s).2.table.queue .acknowledged = s.table.queue .acknowledged
  /-- No job is taken up before one in the same state that has waited longer. -/
  oldest : ∀ state, ∀ r ∈ batch config s.table state, ∀ r' ∈ s.table.rows,
    r'.state = .text state.name → r' ∉ batch config s.table state →
    r.stateTimestamp.le r'.stateTimestamp = true

theorem mem_taken : r ∈ taken config t ↔ ∃ state, TakenUp state ∧ r ∈ batch config t state := by
  rw [taken, List.mem_append, List.mem_append]
  constructor
  · rintro (hr | hr | hr)
    · exact ⟨.initial, .inl rfl, hr⟩
    · exact ⟨.provisioned, .inr (.inl rfl), hr⟩
    · exact ⟨.acknowledged, .inr (.inr rfl), hr⟩
  · rintro ⟨state, rfl | rfl | rfl, hr⟩
    · exact .inl hr
    · exact .inr (.inl hr)
    · exact .inr (.inr hr)

theorem ready_of_coherent (ht : t.Coherent)
    (hread : ∀ r ∈ taken config t, ∃ job, r.toJob? = some job)
    (hfits : config.batchSize ≤ maxLimit ∨ t.rows.length ≤ maxLimit) (hstate : TakenUp state) :
    Ready config state t := by
  refine ⟨?_, fun r hr => hread r (mem_taken.2 ⟨state, hstate, hr⟩), hfits⟩
  obtain ⟨jobs, hlists, -⟩ := ht
  have hcells : t.rows.map (·.id) = (jobs.map (·.id)).map Cell.text := by
    rw [hlists.rows, List.map_map, List.map_map]
    rfl
  rw [hcells]
  exact hlists.ids.map fun _ _ heq => Cell.text.inj heq

theorem role_of_waiting (ht : t.Coherent) (hr : r ∈ t.queue .acknowledged)
    (hread : r.toJob? = some job) : job.role = .initiator := by
  obtain ⟨hrow, hstate⟩ := mem_queue.1 hr
  have hcopied : t.Copied job := copied_of_readRow ht hrow (by rw [readRow, hread])
  cases hrole : job.role with
  | initiator => rfl
  | executor => exact absurd (state_of_read hread hstate) (hcopied.consistent.executor hrole).2

/-- Three phases in a row. -/
theorem alone_cycle {o : Others} {config : Config.Orchestrator} {s s₁ s₂ s₃ : Scene} {p d i : Nat}
    (hprovision : alone o (Cycle.provisionPhase config) s = (.ok p, s₁))
    (hdispatch : alone o (Cycle.dispatchPhase config) s₁ = (.ok d, s₂))
    (hcomplete : alone o (Cycle.completionPhase config) s₂ = (.ok i, s₃)) :
    alone o (cycle config) s = (.ok ⟨p, d, i⟩, s₃) := by
  rw [cycle, alone_bind hprovision, alone_ask]
  simp only [reply, Bool.not_true, Bool.false_eq_true, if_false]
  rw [alone_bind hdispatch, alone_ask]
  simp only [reply, Bool.not_true, Bool.false_eq_true, if_false]
  rw [alone_bind hcomplete]
  rfl

section Joined

variable (config : Config.Orchestrator) (t : Table) (since₁ since₂ since₃ : Job → Nat)

theorem later_of_completion (hr : r ∈ batch config t .acknowledged) :
    ∃ other, r.state = .text other.name ∧ TakenUp other ∧ other ≠ .provisioned :=
  ⟨.acknowledged, (mem_rows_of_batch hr).2, .inr (.inr rfl), by decide⟩

theorem later_of_dispatch (hr : r ∈ batch config t .provisioned ++ batch config t .acknowledged) :
    ∃ other, r.state = .text other.name ∧ TakenUp other ∧ other ≠ .initial := by
  rcases List.mem_append.1 hr with hr | hr
  · exact ⟨.provisioned, (mem_rows_of_batch hr).2, .inr (.inl rfl), by decide⟩
  · exact ⟨.acknowledged, (mem_rows_of_batch hr).2, .inr (.inr rfl), by decide⟩

/-- The turns of all three phases at once. -/
theorem rows_tableAfter : (tableAfter o config since₃ .acknowledged
      (tableAfter o config since₂ .provisioned (tableAfter o config since₁ .initial t))).rows =
    t.rows.map (turned o config.maxFlowRetries
      (joined .initial since₁ (joined .provisioned since₂ since₃)) (taken config t)) := by
  have hdispatch : batch config (tableAfter o config since₁ .initial t) .provisioned =
      batch config t .provisioned := batch_tableAfter (.inr (.inl rfl)) (by decide)
  have hcompletion : batch config (tableAfter o config since₂ .provisioned
      (tableAfter o config since₁ .initial t)) .acknowledged = batch config t .acknowledged :=
    (batch_tableAfter (.inr (.inr rfl)) (by decide)).trans
      (batch_tableAfter (.inr (.inr rfl)) (by decide))
  rw [tableAfter, hcompletion, tableAfter, hdispatch, tableAfter, List.map_map, List.map_map]
  refine List.map_congr_left fun r _ => ?_
  rw [Function.comp_apply, Function.comp_apply,
    turned_turned (fun r hr => (mem_rows_of_batch hr).2) fun r => later_of_completion config t,
    turned_turned (fun r hr => (mem_rows_of_batch hr).2) fun r => later_of_dispatch config t,
    taken]

theorem questions_taken : questions o since₁ (batch config t .initial) ++
      (questions o since₂ (batch config t .provisioned) ++
        questions o since₃ (batch config t .acknowledged)) =
    questions o (joined .initial since₁ (joined .provisioned since₂ since₃)) (taken config t) := by
  rw [questions_append (fun r hr => (mem_rows_of_batch hr).2) fun r => later_of_completion config t,
    questions_append (fun r hr => (mem_rows_of_batch hr).2) fun r => later_of_dispatch config t,
    taken]

end Joined

/-- A cycle maps each job by itself, in every store whose jobs' fields agree, as they do in all
that the programs ever fill, and where the rows to be taken up can be read. -/
theorem cycle_maps_jobs (o : Others) (config : Config.Orchestrator) (s : Scene)
    (ht : s.table.Coherent)
    (hread : ∀ r ∈ taken config s.table, ∃ job, r.toJob? = some job)
    (hfits : config.batchSize ≤ maxLimit ∨ s.table.rows.length ≤ maxLimit) :
    Mapped o config s := by
  obtain ⟨t, asked, k⟩ := s
  have hready : ∀ {state}, TakenUp state → Ready config state t :=
    fun hstate => ready_of_coherent ht hread hfits hstate
  have hinitial : TakenUp .initial := .inl rfl
  have hprovisioned : TakenUp .provisioned := .inr (.inl rfl)
  have hacknowledged : TakenUp .acknowledged := .inr (.inr rfl)
  obtain ⟨since₁, k₁, hprovision⟩ := takesUp_provisionPhase (o := o) (hready hinitial) asked k
  obtain ⟨t₁, ht₁⟩ : ∃ t₁, tableAfter o config since₁ .initial t = t₁ := ⟨_, rfl⟩
  have hqueue₁ : ∀ {other}, TakenUp other → other ≠ .initial → t₁.queue other = t.queue other :=
    fun hother hne => ht₁ ▸ queue_turned hother hne
  have hready₁ : ∀ {other}, TakenUp other → other ≠ .initial → Ready config other t₁ :=
    fun hother hne => ht₁ ▸ ready_turned (hready hother) hother hne
  rw [ht₁] at hprovision
  obtain ⟨since₂, k₂, hdispatch⟩ :=
    takesUp_dispatchPhase (o := o) (hready₁ hprovisioned (by decide)) _ k₁
  obtain ⟨t₂, ht₂⟩ : ∃ t₂, tableAfter o config since₂ .provisioned t₁ = t₂ := ⟨_, rfl⟩
  have hqueue₂ : t₂.queue .acknowledged = t.queue .acknowledged :=
    ht₂ ▸ (queue_turned hacknowledged (by decide)).trans (hqueue₁ hacknowledged (by decide))
  have hready₂ : Ready config .acknowledged t₂ :=
    ht₂ ▸ ready_turned (hready₁ hacknowledged (by decide)) hacknowledged (by decide)
  rw [ht₂] at hdispatch
  obtain ⟨since₃, k₃, hcomplete⟩ := takesUp_completionPhase (o := o) hready₂
    (fun r hr job => role_of_waiting ht (hqueue₂ ▸ hr)) _ k₂
  refine ⟨⟨joined .initial since₁ (joined .provisioned since₂ since₃), k₃, ?_⟩, ?_, ?_,
    fun state r hr r' hr' => le_of_mem_batch hr hr'⟩
  · have hdispatched : batch config t₁ .provisioned = batch config t .provisioned :=
      congrArg (List.take _) (hqueue₁ hprovisioned (by decide))
    have hcompleted : batch config t₂ .acknowledged = batch config t .acknowledged :=
      congrArg (List.take _) hqueue₂
    have hrows := rows_tableAfter (o := o) config t since₁ since₂ since₃
    rw [ht₁, ht₂] at hrows
    rw [alone_cycle hprovision hdispatch hcomplete, hdispatched, hcompleted, List.append_assoc,
      List.append_assoc, questions_taken, ← length_queue t₁, ← length_queue t₂, hqueue₂,
      hqueue₁ hprovisioned (by decide), length_queue, length_queue, ← hrows]
  · rw [hprovision]
    exact hqueue₁ hprovisioned (by decide)
  · rw [alone_bind hprovision, hdispatch]
    exact hqueue₂

/-- A job in which there is nothing to provision. -/
def bareJob (id : String) (role : Role) (state : JobState) : Job where
  id := id
  correlationId := id
  role := role
  state := state
  request := { id, destination := { kind := localDirectory } }
  manifest := if state = .initial then none else some {}
  createdAt := .epoch
  stateTimestamp := .epoch

theorem consistent_bareJob {id : String} {role : Role} {state : JobState} (herror : state ≠ .error)
    (hinitiator : role = .initiator → state ≠ .executing)
    (hexecutor : role = .executor → state ≠ .sent ∧ state ≠ .acknowledged) :
    (bareJob id role state).Consistent where
  correlationId := rfl
  errorDetail := by simp [bareJob, herror]
  unplanned hs := if_pos hs
  planned hs _ := by simpa [bareJob] using hs
  initiator := hinitiator
  executor := hexecutor
  resources _ := rfl
  retryCount hne := absurd rfl hne
  unmanaged _ hm := by cases hm

/-- Jobs of each state in which a cycle looks for work, and of both sides. -/
def mixedJobs : List Job :=
  [bareJob "a" .initiator .initial, bareJob "b" .initiator .provisioned,
    bareJob "c" .executor .provisioned, bareJob "d" .initiator .acknowledged]

/-- Peers take no request and flows do not start yet; the data has arrived. -/
def unwilling : Others where
  provision _ := .ok ()
  send request _ := .error (.missingAddress request.id)
  flow _ := .retry "no route"
  arrived _ := true
  freshId n := toString n
  now _ := .epoch

theorem coherent_mixedJobs : Coherent ⟨mixedJobs.map Row.ofJob⟩ := by
  refine ⟨mixedJobs, ⟨rfl, by decide, by decide, by decide⟩, fun job hjob => ?_⟩
  simp only [mixedJobs, List.mem_cons, List.not_mem_nil, or_false] at hjob
  rcases hjob with rfl | rfl | rfl | rfl <;>
    exact consistent_bareJob (by decide) (by decide) (by decide)

theorem reads_mixedJobs {r : Row} (hr : r ∈ mixedJobs.map Row.ofJob) :
    ∃ job, r.toJob? = some job := by
  obtain ⟨job, hjob, rfl⟩ := List.mem_map.1 hr
  refine ⟨job, (Row.reads_ofJob_epoch ?_ ?_).toJob?⟩ <;>
    · simp only [mixedJobs, List.mem_cons, List.not_mem_nil, or_false] at hjob
      rcases hjob with rfl | rfl | rfl | rfl <;> rfl

theorem cycle_maps_mixedJobs :
    Coherent ⟨mixedJobs.map Row.ofJob⟩ ∧
    (∀ r ∈ taken { batchSize := 2 } ⟨mixedJobs.map Row.ofJob⟩, ∃ job, r.toJob? = some job) ∧
    (2 ≤ maxLimit ∨ (mixedJobs.map Row.ofJob).length ≤ maxLimit) ∧
    Mapped unwilling { batchSize := 2 } { table := ⟨mixedJobs.map Row.ofJob⟩ } := by
  have hread : ∀ r ∈ taken { batchSize := 2 } ⟨mixedJobs.map Row.ofJob⟩,
      ∃ job, r.toJob? = some job := by
    intro r hr
    obtain ⟨state, -, hmem⟩ := mem_taken.1 hr
    exact reads_mixedJobs (mem_rows_of_batch hmem).1
  have hfits : 2 ≤ maxLimit := by decide
  exact ⟨coherent_mixedJobs, hread, .inl hfits,
    cycle_maps_jobs unwilling { batchSize := 2 } { table := ⟨mixedJobs.map Row.ofJob⟩ }
      coherent_mixedJobs hread (.inl hfits)⟩

end Cycle

end Ferry.Batches
