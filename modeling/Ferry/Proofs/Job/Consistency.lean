import Ferry.Flow.Finish
import Ferry.Orchestrator.Cycle
import Ferry.Proofs.Job.Standing
import Ferry.Provision.Response

/-!
# Fields that agree

What a job holds depends on where it stands. A job that has failed says why and no
other does; the manifest is there once provisioning has begun, the resources once it
has ended, and flows are counted for executors only. None of this is checked when a
job is stored. It holds because each field is set by the move it belongs to, so the
programs that write jobs are looked at here one by one: whatever one of them makes of
a job whose fields agree is again such a job, and is the same job (`Evolves`).
-/

namespace Ferry.Job

open Time (Instant)

/-- The fields of a job agree with the state it is in and with each other. -/
structure Consistent (j : Job) : Prop where
  correlationId : j.correlationId = j.request.id
  errorDetail : j.errorDetail.isSome ↔ j.state = .error
  unplanned : j.state = .initial → j.manifest = none
  planned : j.state ≠ .initial → j.state ≠ .error → j.manifest.isSome
  initiator : j.role = .initiator → j.state ≠ .executing
  executor : j.role = .executor → j.state ≠ .sent ∧ j.state ≠ .acknowledged
  resources : j.state = .initial ∨ j.state = .provisioning → j.resources = []
  retryCount : j.retryCount ≠ 0 →
    j.role = .executor ∧ j.state ≠ .initial ∧ j.state ≠ .provisioning
  unmanaged : j.role = .initiator → j.request.managedResources = false →
    ∀ m, j.manifest = some m → m.definitions = []

/-- The job is the same, and if its fields agreed they still do. -/
structure Evolves (job after : Job) : Prop where
  id : after.id = job.id
  role : after.role = job.role
  request : after.request = job.request
  consistent : job.Consistent → after.Consistent

theorem Evolves.trans {job next after : Job} (h : job.Evolves next) (h' : next.Evolves after) :
    job.Evolves after :=
  ⟨h'.id.trans h.id, h'.role.trans h.role, h'.request.trans h.request,
    fun hc => h'.consistent (h.consistent hc)⟩

theorem consistent_new (id : String) (role : Role) (request : TransferRequest) (now : Instant) :
    (new id role request now).Consistent where
  correlationId := rfl
  errorDetail := by simp [new]
  unplanned _ := rfl
  planned h := absurd rfl h
  initiator _ := by simp [new]
  executor _ := by simp [new]
  resources _ := rfl
  retryCount h := absurd rfl h
  unmanaged _ _ m hm := by cases hm

/-! ## Moves -/

variable {job after : Job} {target : JobState} {now : Instant}

theorem move_eq_ok : job.move target now = .ok after ↔
    JobState.canMove job.role job.state target = true ∧
      after = { job with state := target, stateTimestamp := now } := by
  rw [move]
  split
  · next hmove => simp [hmove, eq_comm]
  · next hmove => simp [hmove]

/-- Whether a move is made depends on the job's side and state alone. -/
theorem exists_move (h : JobState.canMove job.role job.state target = true) (now : Instant) :
    ∃ after, job.move target now = .ok after :=
  ⟨_, move_eq_ok.2 ⟨h, rfl⟩⟩

theorem exists_map_move {f : Job → Job} (h : JobState.canMove job.role job.state target = true)
    (now : Instant) : ∃ after, (job.move target now).map f = .ok after := by
  obtain ⟨moved, hmove⟩ := exists_move h now
  exact ⟨f moved, by rw [hmove]; rfl⟩

theorem map_move_eq_ok {f : Job → Job} (h : (job.move target now).map f = .ok after) :
    ∃ moved, job.move target now = .ok moved ∧ after = f moved := by
  cases hmove : job.move target now with
  | error e => rw [hmove] at h; cases h
  | ok moved =>
      rw [hmove] at h
      exact ⟨moved, rfl, (Except.ok.inj h).symm⟩

/-- A move that sets no field of its own. -/
theorem evolves_move (h : job.move target now = .ok after) (hbegin : target ≠ .provisioning)
    (hend : target ≠ .error) : job.Evolves after := by
  obtain ⟨hallowed, rfl⟩ := move_eq_ok.1 h
  have htarget := JobState.ne_initial_of_canMove hallowed
  refine ⟨rfl, rfl, rfl, fun hc => ?_⟩
  -- no move but these two leads out of `initial`, and none out of `error`
  have hstate : job.state ≠ .initial ∧ job.state ≠ .error := by
    cases target <;> cases hs : job.state <;> simp_all [JobState.canMove]
  refine ⟨hc.correlationId, ?_, fun hs => absurd hs htarget,
    fun _ _ => hc.planned hstate.1 hstate.2, ?_, ?_, ?_, ?_, hc.unmanaged⟩
  · simp only [hend, iff_false]
    exact fun hdetail => hstate.2 (hc.errorDetail.1 hdetail)
  · rintro hrole rfl
    rw [hrole] at hallowed
    cases hs : job.state <;> simp_all [JobState.canMove]
  · intro hrole
    rw [hrole] at hallowed
    constructor <;> rintro rfl <;> cases hs : job.state <;> simp_all [JobState.canMove]
  · rintro (hs | hs)
    · exact absurd hs htarget
    · exact absurd hs hbegin
  · exact fun hcount => ⟨(hc.retryCount hcount).1, htarget, hbegin⟩

/-- Provisioning begins with a manifest, and nothing else is set yet. -/
theorem evolves_provision {definitionId : String}
    (h : job.provision (.forJob job definitionId) now = .ok after) : job.Evolves after := by
  obtain ⟨moved, hmove, rfl⟩ := map_move_eq_ok h
  obtain ⟨hallowed, rfl⟩ := move_eq_ok.1 hmove
  have hstate : job.state = .initial := by
    cases hs : job.state <;> simp_all [JobState.canMove]
  refine ⟨rfl, rfl, rfl, fun hc => ?_⟩
  have hcount : ¬ job.retryCount ≠ 0 := fun hne => (hc.retryCount hne).2.1 hstate
  refine ⟨hc.correlationId, ?_, by simp, by simp, by simp, by simp,
    fun _ => hc.resources (.inl hstate), fun hne => absurd hne hcount, ?_⟩
  · simpa [hstate] using hc.errorDetail
  · intro hrole hmanaged m hm
    obtain rfl : ResourceManifest.forJob job definitionId = m := Option.some.inj hm
    simp only at hrole hmanaged
    simp [ResourceManifest.forJob, hrole, hmanaged]

/-- A job may fail wherever it stands, so of one that has nothing is said but that it
says why. -/
theorem evolves_failed {detail : String} (h : job.failed detail now = .ok after) :
    job.Evolves after := by
  obtain ⟨moved, hmove, rfl⟩ := map_move_eq_ok h
  obtain ⟨-, rfl⟩ := move_eq_ok.1 hmove
  refine ⟨rfl, rfl, rfl, fun hc => ?_⟩
  exact ⟨hc.correlationId, by simp, by simp, by simp, by simp, by simp, by simp,
    fun hcount => ⟨(hc.retryCount hcount).1, by simp, by simp⟩, hc.unmanaged⟩

theorem evolves_provisioned {resources : List ProvisionedResource}
    (h : job.provisioned resources now = .ok after) : job.Evolves after := by
  obtain ⟨moved, hmove, rfl⟩ := map_move_eq_ok h
  have hmoved := evolves_move hmove (by simp) (by simp)
  refine ⟨hmoved.id, hmoved.role, hmoved.request, fun hc => ?_⟩
  have hm := hmoved.consistent hc
  have hstate : moved.state = .provisioned := (move_ok hmove).state
  exact ⟨hm.correlationId, hm.errorDetail, hm.unplanned, hm.planned, hm.initiator, hm.executor,
    by simp [hstate], hm.retryCount, hm.unmanaged⟩

/-- Only executors try again. -/
theorem evolves_retry (h : job.retry now = .ok after) (hready : job.state = .provisioned) :
    job.Evolves after := by
  obtain ⟨moved, hmove, rfl⟩ := map_move_eq_ok h
  have hmoved := evolves_move hmove (by simp) (by simp)
  refine ⟨hmoved.id, hmoved.role, hmoved.request, fun hc => ?_⟩
  have hm := hmoved.consistent hc
  have hstate : moved.state = .provisioned := (move_ok hmove).state
  have hrole : moved.role = .executor := by
    rw [hmoved.role]
    have hallowed := (move_ok hmove).allowed
    rw [hready] at hallowed
    simpa [JobState.canMove] using hallowed
  exact ⟨hm.correlationId, hm.errorDetail, hm.unplanned, hm.planned, hm.initiator, hm.executor,
    hm.resources, fun _ => ⟨hrole, by simp [hstate], by simp [hstate]⟩, hm.unmanaged⟩

/-! ## What the programs make of a job -/

/-- A flow that is to be tried again: the retry is counted, and beyond the limit the job
fails. -/
theorem afterFlow_retry {limit : Nat} {reason : String}
    (h : Cycle.afterFlow limit job now (.retry reason) = .ok after) :
    ∃ tried, job.retry now = .ok tried ∧
      (Cycle.retriesExceeded limit tried = true ∧
          tried.failed (Cycle.retryLimitMessage limit reason) now = .ok after ∨
        Cycle.retriesExceeded limit tried = false ∧ after = tried) := by
  rw [Cycle.afterFlow] at h
  cases hretry : job.retry now with
  | error e => rw [hretry] at h; cases h
  | ok tried =>
      rw [hretry] at h
      simp only [bind, Except.bind] at h
      split at h
      · next hexceeded => exact ⟨tried, rfl, .inl ⟨hexceeded, h⟩⟩
      · next hwithin =>
        cases h
        exact ⟨after, rfl, .inr ⟨by simpa using hwithin, rfl⟩⟩

/-- The answer of a data flow is none to whose job it is. -/
theorem same_afterFlow {limit : Nat} {outcome : FlowOutcome}
    (h : Cycle.afterFlow limit job now outcome = .ok after) :
    after.id = job.id ∧ after.role = job.role := by
  cases outcome with
  | ok => exact ⟨(move_ok h).id, (move_ok h).role⟩
  | fatal detail => exact ⟨(failed_ok h).id, (failed_ok h).role⟩
  | retry reason =>
      obtain ⟨tried, hretry, hafter⟩ := afterFlow_retry h
      have htried := retry_ok hretry
      rcases hafter with ⟨-, hfailed⟩ | ⟨-, rfl⟩
      · have hmoved := failed_ok hfailed
        exact ⟨hmoved.id.trans htried.id, hmoved.role.trans htried.role⟩
      · exact ⟨htried.id, htried.role⟩

theorem evolves_accept {outcome : ProvisionOutcome} (h : job.accept outcome now = .ok after) :
    job.Evolves after := by
  cases outcome with
  | provisioned resources => exact evolves_provisioned h
  | failed detail => exact evolves_failed h

theorem evolves_afterFlow {limit : Nat} {outcome : FlowOutcome}
    (hready : job.state = .provisioned)
    (h : Cycle.afterFlow limit job now outcome = .ok after) : job.Evolves after := by
  cases outcome with
  | ok => exact evolves_move h (by simp) (by simp)
  | fatal detail => exact evolves_failed h
  | retry reason =>
      obtain ⟨tried, hretry, ⟨-, hfailed⟩ | ⟨-, rfl⟩⟩ := afterFlow_retry h
      · exact (evolves_retry hretry hready).trans (evolves_failed hfailed)
      · exact evolves_retry hretry hready

/-- The answer of a data flow can be kept, whatever it is. -/
theorem exists_afterFlow (hrole : job.role = .executor) (hready : job.state = .provisioned)
    (limit : Nat) (now : Instant) (outcome : FlowOutcome) :
    ∃ after, Cycle.afterFlow limit job now outcome = .ok after := by
  have hfailed : ∀ (tried : Job) (detail : String), tried.state = .provisioned →
      ∃ after, tried.failed detail now = .ok after := by
    intro tried detail hstate
    exact exists_map_move (by rw [hstate]; cases tried.role <;> rfl) now
  cases outcome with
  | ok => exact exists_move (by rw [hrole, hready]; rfl) now
  | fatal detail => exact hfailed job detail hready
  | retry reason =>
      obtain ⟨tried, htried⟩ : ∃ tried, job.retry now = .ok tried :=
        exists_map_move (by rw [hrole, hready]; rfl) now
      rw [Cycle.afterFlow, htried]
      simp only [bind, Except.bind]
      split
      · exact hfailed tried _ (retry_ok htried).state
      · exact ⟨tried, rfl⟩

theorem stamp_move (h : job.move target now = .ok after) : after.stateTimestamp = now := by
  rw [(move_eq_ok.1 h).2]

theorem stamp_failed {detail : String} (h : job.failed detail now = .ok after) :
    after.stateTimestamp = now := by
  obtain ⟨moved, hmove, rfl⟩ := map_move_eq_ok h
  have hmoved := stamp_move hmove
  exact hmoved

theorem stamp_afterFlow {limit : Nat} {outcome : FlowOutcome}
    (h : Cycle.afterFlow limit job now outcome = .ok after) : after.stateTimestamp = now := by
  cases outcome with
  | ok => exact stamp_move h
  | fatal detail => exact stamp_failed h
  | retry reason =>
      obtain ⟨tried, hretry, ⟨-, hfailed⟩ | ⟨-, rfl⟩⟩ := afterFlow_retry h
      · exact stamp_failed hfailed
      · obtain ⟨moved, hmove, rfl⟩ := map_move_eq_ok hretry
        have hmoved := stamp_move hmove
        exact hmoved

theorem evolves_ended {failure : Option String} (h : Flow.ended job failure now = .ok after) :
    job.Evolves after := by
  rw [Flow.ended] at h
  split at h
  · cases hstart : job.executing now with
    | error e => rw [hstart] at h; cases h
    | ok started =>
        rw [hstart] at h
        refine (evolves_move hstart (by simp) (by simp)).trans ?_
        cases failure with
        | none => exact evolves_move h (by simp) (by simp)
        | some detail => exact evolves_failed h
  · cases failure with
    | none => exact evolves_move h (by simp) (by simp)
    | some detail => exact evolves_failed h

end Ferry.Job
