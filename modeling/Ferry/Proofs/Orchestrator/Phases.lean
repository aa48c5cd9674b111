import Ferry.Proofs.Job.Consistency
import Ferry.Proofs.Orchestrator.CycleRules
import Ferry.Proofs.Store.Origins
import Ferry.Proofs.Store.Queue
import Ferry.Proofs.Store.Reading

/-!
# What the turns of a cycle preserve

Most of what is said of one job through a cycle is that the turns of the other jobs do not
touch it. The turns are gone through once here, for anything that may be said: it has to be
preserved by the calls that go neither to the store nor to the data flow (`Undisturbed`),
and by the writes of the job whose turn it is (`Ignores`).

Provisioning and dispatch never fail of themselves, since the jobs of a batch are in the
state that the moves begin in. The completion may fail, and then what is said has to be
enough for a failure as well.

At the end, what each cycle keeps is kept by any number of them in a row (`Cycles.kept`).
-/

namespace Ferry

open Operation

/-! ## Batches -/

namespace Store.Table

variable {t : Table} {job : Job} {jobs : List Job} {state : JobState} {limit : Nat}

theorem WellKept.sole {r : Row} (h : t.WellKept) (hr : r ∈ t.rows) : t.Sole r :=
  ⟨hr, fun _ hr' => eq_of_id h hr hr', fun _ hr' => eq_of_correlationId h hr hr'⟩

theorem WellKept.keeps {id : String} (h : t.WellKept) (hget : t.get id = .ok (some job)) :
    t.Keeps job := by
  obtain ⟨-, r, hr, hread⟩ := get_eq_some hget
  exact ⟨r, h.sole (List.mem_of_find?_eq_some hr), hread⟩

theorem state_of_next (hnext : t.next state limit = .ok jobs) :
    ∀ other ∈ jobs, other.state = state := by
  intro other hother
  obtain ⟨r, -, hstate, hread⟩ := exists_row_of_next hnext hother
  exact JobState.name_inj
    (Cell.text.inj ((Row.shows_of_toJob? hread).state_eq.symm.trans hstate))

/-- In a batch a job is as it is stored. -/
theorem Keeps.eq_of_next (h : t.Keeps job) (hnext : t.next state limit = .ok jobs) :
    ∀ other ∈ jobs, other.id = job.id → other = job := by
  obtain ⟨r, hsole, hread⟩ := h
  intro other hother heq
  obtain ⟨row, hrow, -, hreadOther⟩ := exists_row_of_next hnext hother
  obtain rfl : row = r := hsole.eq_of_id row hrow ((Row.shows_of_toJob? hreadOther).id.trans
    ((congrArg _ heq).trans (Row.shows_of_toJob? hread).id.symm))
  exact Option.some.inj (hreadOther.symm.trans hread)

/-- No other job in a batch is for the same request. -/
theorem Keeps.eq_of_request (h : t.Keeps job) (hkept : t.WellKept)
    (hnext : t.next state limit = .ok jobs) :
    ∀ other ∈ jobs, other.request.id = job.request.id → other.id = job.id := by
  intro other hother hrequest
  have hother' := ((next_ok hkept hnext).2 other hother).2.2
  have hjob := (get_some hkept h.get).2.2
  obtain ⟨r, hsole, hread⟩ := h
  obtain ⟨row, hrow, -, hreadOther⟩ := exists_row_of_next hnext hother
  obtain rfl : row = r := hsole.eq_of_correlationId row hrow
    ((Row.shows_of_toJob? hreadOther).correlationId.trans
      ((congrArg _ (hother'.symm.trans (hrequest.trans hjob))).trans
        (Row.shows_of_toJob? hread).correlationId.symm))
  rw [Option.some.inj (hreadOther.symm.trans hread)]

/-- A job is in no batch of a state that it is not in. -/
theorem Keeps.ne_of_next (h : t.Keeps job) (hnext : t.next state limit = .ok jobs)
    (hstate : job.state ≠ state) : ∀ other ∈ jobs, other.id ≠ job.id :=
  fun other hother heq =>
    hstate (h.eq_of_next hnext other hother heq ▸ state_of_next hnext other hother)

end Store.Table

/-! ## Calls -/

/-- The call goes neither to the store nor to the data flow. -/
def Request.Aside : Request → Prop
  | .store _ | .startFlow _ => False
  | _ => True

namespace Discipline

variable {σ : Type}

/-- Neither the others nor calls on the side change that this holds. -/
structure Undisturbed (D : Discipline operationSignature σ)
    (E : OrchestratorError → σ → Prop) (P : σ → Prop) : Prop where
  stable : D.Stable P
  aside : ∀ q : Request, q.Aside → D.Preserves E P (ask q)

/-- No write of the job changes that `P` holds, whatever its other fields are. -/
def Ignores (D : Discipline operationSignature σ) (E : OrchestratorError → σ → Prop)
    (P : σ → Prop) (job : Job) : Prop :=
  ∀ after : Job, after.id = job.id → D.Preserves E P (store (.update after)) ∧
    ∀ expected, D.Preserves E P (store (.updateIfState after expected))

variable {D : Discipline operationSignature σ} {E : OrchestratorError → σ → Prop} {P : σ → Prop}
  {job after : Job} {jobs : List Job} {s : σ}

theorem Ignores.of_id (h : D.Ignores E P job) (hid : after.id = job.id) : D.Ignores E P after :=
  fun later hlater => h later (hlater.trans hid)

theorem Ignores.update (h : D.Ignores E P job) : D.Preserves E P (store (.update job)) :=
  (h job rfl).1

theorem Ignores.updateIfState (h : D.Ignores E P job) (expected : JobState) :
    D.Preserves E P (store (.updateIfState job expected)) :=
  (h job rfl).2 expected

variable (h : D.Undisturbed E P)

include h

theorem Undisturbed.count (c : Counter) (n : Nat) : D.Preserves E P (Operation.count c n) :=
  h.aside (.count c n) trivial

theorem Undisturbed.checkCount (job : Job) (outcome : FlowOutcome) :
    D.Preserves E P (Cycle.checkCount job outcome) := by
  rw [Cycle.checkCount]
  split
  · exact h.aside .overflow trivial
  · exact preserves_pure h.stable ()

/-- A write that is counted if it hits. -/
theorem preserves_swap {expected : JobState} (hjob : D.Ignores E P job) :
    D.Preserves E P (do
      if ← store (.updateIfState job expected) then
        countMove job : Operation Unit) :=
  preserves_bind (hjob.updateIfState expected) (preserves_countIf h.stable (h.count _ _))

/-! ## Provisioning -/

theorem preserves_provision (hjob : D.Ignores E P job) (hstate : job.state = .initial) :
    D.Preserves E P (Cycle.provision job) := by
  refine preserves_bind (h.aside .freshId trivial) fun definitionId => ?_
  refine preserves_bind (h.aside .now trivial) fun now => ?_
  refine preserves_moved (Job.exists_map_move (by rw [hstate]; rfl) now) fun begun hbegun => ?_
  have hmoved := Job.provision_ok hbegun
  have hbegun := hjob.of_id hmoved.id
  refine preserves_bind hbegun.update fun _ => ?_
  refine preserves_bind (h.count _ _) fun _ => ?_
  refine preserves_bind (h.aside (.provision begun) trivial) fun reply => ?_
  match reply with
  | .ok () => exact preserves_pure h.stable ()
  | .error e =>
      refine preserves_bind (h.aside .now trivial) fun now => ?_
      refine preserves_moved (Job.exists_map_move (by rw [hmoved.state]; rfl) now)
        fun failed hfailed => ?_
      refine preserves_bind (hbegun.of_id (Job.failed_ok hfailed).id).update fun _ => ?_
      exact preserves_bind (h.count _ _) fun _ => h.count _ _

theorem preserves_provisioned (hjobs : ∀ job ∈ jobs, D.Ignores E P job ∧ job.state = .initial) :
    D.Preserves E P (do
      forEach Cycle.provision jobs
      Operation.count (.jobsProcessed .provisioning) jobs.length
      pure jobs.length : Operation Nat) := by
  refine preserves_bind (preserves_forEach h.stable fun job hjob => ?_) fun _ => ?_
  · exact preserves_provision h (hjobs job hjob).1 (hjobs job hjob).2
  · exact preserves_processed h.stable (h.count _ _)

/-! ## Dispatch -/

/-- What is left to do when the peer did not take the request. -/
theorem preserves_unsent (hjob : D.Ignores E P job) (hstate : job.state = .sent)
    (detail : String) : D.Preserves E P (do
      Operation.count (.jobFailures .dispatch)
      let now ← ask .now
      let job ← move (job.failed detail now)
      if ← store (.updateIfState job .sent) then
        countMove job : Operation Unit) := by
  refine preserves_bind (h.count _ _) fun _ => ?_
  refine preserves_bind (h.aside .now trivial) fun now => ?_
  refine preserves_moved (Job.exists_map_move (by rw [hstate]; cases job.role <;> rfl) now)
    fun failed hfailed => ?_
  exact preserves_swap h (hjob.of_id (Job.failed_ok hfailed).id)

theorem preserves_send (hjob : D.Ignores E P job) (hstate : job.state = .provisioned)
    (hrole : job.role = .initiator) : D.Preserves E P (Cycle.send job) := by
  refine preserves_bind (h.aside .now trivial) fun now => ?_
  refine preserves_moved (Job.exists_move (by rw [hstate, hrole]; rfl) now) fun sent hsent => ?_
  have hmoved := Job.move_ok hsent
  have hsent := hjob.of_id hmoved.id
  refine preserves_bind hsent.update fun _ => ?_
  refine preserves_bind (h.count _ _) fun _ => ?_
  refine preserves_bind (h.aside (.send _ _) trivial) fun reply => ?_
  match reply with
  | .ok () => exact preserves_pure h.stable ()
  | .error e => exact preserves_unsent h hsent hmoved.state _

theorem preserves_execute (config : Config.Orchestrator) (hjob : D.Ignores E P job)
    (hstate : job.state = .provisioned) (hrole : job.role = .executor)
    (hflow : D.Preserves E P (ask (.startFlow job.request))) :
    D.Preserves E P (Cycle.execute config job) := by
  refine preserves_bind hflow fun outcome => ?_
  refine preserves_bind (h.count _ _) fun _ => ?_
  refine preserves_bind (h.aside .now trivial) fun now => ?_
  refine preserves_bind (h.checkCount _ _) fun _ => ?_
  refine preserves_moved (Job.exists_afterFlow hrole hstate config.maxFlowRetries now outcome)
    fun after hafter => ?_
  have hswap : D.Preserves E P (do
      if ← store (.updateIfState after .provisioned) then
        countMove after : Operation Unit) :=
    preserves_swap h (hjob.of_id (Job.evolves_afterFlow hstate hafter).id)
  dsimp only
  split
  · exact preserves_bind (h.count _ _) fun _ => hswap
  · exact hswap

/-! ## Completion -/

theorem preserves_complete (hE : ∀ e s, P s → E e s) (hjob : D.Ignores E P job) :
    D.Preserves E P (Cycle.complete job) := by
  refine preserves_bind (h.aside .now trivial) fun now => ?_
  refine preserves_move h.stable hE fun done hdone => ?_
  refine preserves_bind (hjob.of_id (Job.move_ok hdone).id).update fun _ => ?_
  exact h.count _ _

theorem preserves_inspected (hE : ∀ e s, P s → E e s) (hjobs : ∀ job ∈ jobs, D.Ignores E P job)
    {misplaced : List Job} : D.Preserves E P (do
      if !misplaced.isEmpty then
        throw (.invariantViolation (Cycle.misplacedMessage misplaced))
      let done ← Cycle.arrived jobs
      forEach Cycle.complete done
      Operation.count (.jobsProcessed .completion) jobs.length
      pure jobs.length : Operation Nat) := by
  intro s hs
  split
  · exact wpOr_throw fun s' hrely _ => hE _ s' (h.stable s s' hrely hs)
  · refine wpOr_then (wpOr_arrived h.stable (fun job => h.aside (.isComplete job) trivial) jobs hs)
      fun done s₁ _ ⟨hdone, h₁⟩ => ?_
    refine preserves_bind (preserves_forEach h.stable fun job hjob => ?_) (fun _ => ?_) s₁ h₁
    · exact preserves_complete h hE (hjobs job (hdone.subset hjob))
    · exact preserves_processed h.stable (h.count _ _)

/-! ## Cycles in a row -/

omit h

/-- So many cycles in a row, whatever they report. -/
inductive Cycles (D : Discipline operationSignature σ) (config : Config.Orchestrator) :
    Nat → σ → σ → Prop where
  | none (s : σ) : Cycles D config 0 s s
  | next {k : Nat} {s s' s'' : σ} {result : Except OrchestratorError CycleReport}
      (earlier : Cycles D config k s s') (cycle : D.Runs (cycle config).run s' result s'') :
      Cycles D config (k + 1) s s''

theorem Cycles.kept {config : Config.Orchestrator} {k : Nat} {s' : σ}
    (hcycles : D.Cycles config k s s') (hkept : ∀ s s' result,
      D.Runs (cycle config).run s result s' → P s → P s') (hs : P s) : P s' := by
  induction hcycles with
  | none s => exact hs
  | next _ hcycle ih => exact hkept _ _ _ hcycle (ih hs)

end Discipline

end Ferry
