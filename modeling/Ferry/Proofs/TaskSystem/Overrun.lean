import Ferry.Proofs.TaskSystem.RetryBound
import Ferry.Proofs.Orchestrator.Batches
import Ferry.Proofs.Store.Integrity

/-!
# A count that runs over

No count is greater than the largest number, and where the limit is 0 there is none to
go beyond. An executor's job whose flow never starts is then tried in one cycle after
another, and as cycles that do their work do not wait, nothing is between it and a full count
but time. The next retry is where a build that checks its arithmetic panics. One that does not
takes the count to 0, and the job waits like one that was never tried.

What a cycle that is alone with the store makes of a job is known, and whatever is
done alone can be done among others while they wait. So the runs are put together from
programs carried through one after the other.
-/

namespace Ferry.RetryCount

open Operation Store
open TaskSystem (Admits Duty Step Run)
open Batches (Others Scene alone reply handled TakesUp unwilling bareJob)

/-! ## Programs one after the other -/

section Alone

variable {limit : Nat} {t : Table} {d : Duty} {o : Others} {s s' : Scene}

/-- A step to a state in which all cycles have this limit. -/
def LimitedStep (limit : Nat) (s s' : TaskSystem) : Prop :=
  Step s s' ∧ Limited limit s'.tasks

/-- Tasks whose cycles all have this limit can leave the table so, from an empty store on. -/
def Reachable (limit : Nat) (t : Table) : Prop :=
  ∃ tasks, Limited limit tasks ∧ Relation.ReflTransGen (LimitedStep limit) {} ⟨t, tasks⟩

theorem reachable_empty (limit : Nat) : Reachable limit {} :=
  ⟨[], by simp [Limited], .refl⟩

theorem exists_run {c : TaskSystem} (h : Relation.ReflTransGen (LimitedStep limit) {} c) :
    ∃ run : Run, (∀ s ∈ run.states, Limited limit s.tasks) ∧ run.last = c := by
  obtain ⟨later, hchain, hlast⟩ := List.exists_isChain_cons_of_relationReflTransGen h
  refine ⟨⟨later, hchain.imp fun _ _ h => h.1⟩, ?_, hlast⟩
  exact hchain.induction (fun s => Limited limit s.tasks) _ (fun _ _ h _ => h.2)
    fun _ => by simp [Limited]

theorem limited_concat {done : List TaskSystem.Task} {p : Activity d.Answer} :
    Limited limit (done ++ [⟨d, p⟩]) ↔
      Limited limit done ∧ ∀ config, d = .cycle config → config.maxFlowRetries = limit := by
  rw [Limited, List.forall_mem_append, List.forall_mem_singleton]
  rfl

/-- A call of a program that is alone with the store is one that a task can make among others. -/
theorem admits_reply (o : Others) (q : Request) (s : Scene) :
    Admits s.table q (reply o q s).1 ∧
      TaskSystem.after s.table q (reply o q s).1 = (reply o q s).2.table := by
  cases q with
  | store c =>
      refine ⟨.inl rfl, ?_⟩
      show TaskSystem.after s.table (.store c) (c.perform s.table).1 = (c.perform s.table).2
      cases hr : (c.perform s.table).1 with
      | ok a => rfl
      | error e => exact (Table.perform_failed hr).symm
  | provision _ | send _ _ | acknowledge _ _ | startFlow _ | isComplete _ | now | freshId
  | count _ _ | isRunning | overflow => exact ⟨trivial, rfl⟩

/-- A call of the task that came last, while all others wait. -/
theorem limitedStep_call {done : List TaskSystem.Task} {q : Request}
    {next : q.Reply → Activity d.Answer}
    (hd : ∀ config, d = .cycle config → config.maxFlowRetries = limit)
    (hdone : Limited limit done) (r : q.Reply) (hadmits : Admits t q r) :
    LimitedStep limit ⟨t, done ++ [⟨d, .call q next⟩]⟩
      ⟨TaskSystem.after t q r, done ++ [⟨d, next r⟩]⟩ :=
  ⟨Step.call rfl r hadmits, limited_concat.2 ⟨hdone, hd⟩⟩

/-- What comes after the call is still to come. -/
theorem exists_of_call {P : TaskSystem → Prop} {done : List TaskSystem.Task} {q : Request}
    {next : q.Reply → Activity d.Answer}
    (hd : ∀ config, d = .cycle config → config.maxFlowRetries = limit)
    (hdone : Limited limit done) (r : q.Reply) (hadmits : Admits t q r)
    (hrest : ∃ s, Relation.ReflTransGen (LimitedStep limit)
      ⟨TaskSystem.after t q r, done ++ [⟨d, next r⟩]⟩ s ∧ P s) :
    ∃ s, Relation.ReflTransGen (LimitedStep limit) ⟨t, done ++ [⟨d, .call q next⟩]⟩ s ∧ P s := by
  obtain ⟨s, hreached, hs⟩ := hrest
  exact ⟨s, .head (limitedStep_call hd hdone r hadmits) hreached, hs⟩

/-- So a program may be carried through. -/
theorem limitedStep_run (hd : ∀ config, d = .cycle config → config.maxFlowRetries = limit)
    {done : List TaskSystem.Task} (hdone : Limited limit done) (p : Activity d.Answer) (s : Scene) :
    Relation.ReflTransGen (LimitedStep limit) ⟨s.table, done ++ [⟨d, p⟩]⟩
      ⟨(Program.run (reply o) p s).2.table,
        done ++ [⟨d, .done (Program.run (reply o) p s).1⟩]⟩ := by
  induction p generalizing s with
  | done a => exact .refl
  | call q next ih =>
      obtain ⟨hadmits, hafter⟩ := admits_reply o q s
      refine .head (limitedStep_call hd hdone _ hadmits) ?_
      rw [hafter]
      exact ih _ _

theorem Reachable.duty (h : Reachable limit s.table)
    (hd : ∀ config, d = .cycle config → config.maxFlowRetries = limit) {a : d.Answer}
    (hrun : Program.run (S := operationSignature) (reply o) d.program s = (a, s')) :
    Reachable limit s'.table := by
  obtain ⟨done, hdone, hreached⟩ := h
  have hrest := limitedStep_run (o := o) hd hdone d.program s
  rw [hrun] at hrest
  refine ⟨_, limited_concat.2 ⟨hdone, hd⟩, (hreached.tail ⟨.arrive d, ?_⟩).trans hrest⟩
  exact limited_concat.2 ⟨hdone, hd⟩

end Alone

/-! ### One job, cycle after cycle -/

/-- Alone with a store that holds only `job`, the operation ends without an error and leaves
`after` in its place. -/
def TurnsInto {α : Type} (o : Others) (f : Operation α) (job after : Job) : Prop :=
  ∀ asked k, ∃ a asked' k', alone o f ⟨⟨[Row.ofJob job]⟩, asked, k⟩ =
    (.ok a, ⟨⟨[Row.ofJob after]⟩, asked', k'⟩)

section Single

variable {o : Others} {config : Config.Orchestrator} {state : JobState} {job after : Job}
  {f : Operation Nat}

theorem ready_single (hread : (Row.ofJob job).toJob? = some job) :
    Batches.Ready config state ⟨[Row.ofJob job]⟩ := by
  have hfits : 1 ≤ Table.maxLimit := by decide
  refine ⟨List.nodup_singleton _, fun r hr => ⟨job, ?_⟩, .inr hfits⟩
  rw [List.mem_singleton.1 (Batches.mem_rows_of_batch hr).1, hread]

/-- A phase for another state than that of the job. -/
theorem turnsInto_same (hphase : TakesUp o config state f ⟨[Row.ofJob job]⟩)
    (hne : job.state ≠ state) : TurnsInto o f job job := by
  intro asked k
  obtain ⟨since, k', hrun⟩ := hphase asked k
  have hrow : Batches.turned o config.maxFlowRetries since
      (Batches.batch config ⟨[Row.ofJob job]⟩ state) (Row.ofJob job) = Row.ofJob job :=
    Batches.turned_of_not_mem fun hr =>
      hne (JobState.name_inj (Cell.text.inj (Batches.mem_rows_of_batch hr).2))
  rw [Batches.tableAfter, List.map_singleton, hrow] at hrun
  exact ⟨_, _, _, hrun⟩

/-- The phase for the state of the job. -/
theorem turnsInto_turned (hphase : TakesUp o config job.state f ⟨[Row.ofJob job]⟩)
    (hread : (Row.ofJob job).toJob? = some job) (hbatch : 0 < config.batchSize)
    (hnew : ∀ k, ∃ new, handled o config.maxFlowRetries k job = some new ∧
      job.changedTo new = after) : TurnsInto o f job after := by
  intro asked k
  obtain ⟨since, k', hrun⟩ := hphase asked k
  obtain ⟨new, hhandled, rfl⟩ := hnew (since job)
  have hqueue : Table.queue ⟨[Row.ofJob job]⟩ job.state = [Row.ofJob job] :=
    Table.queue_eq_rows (by simp [Row.ofJob]) (List.pairwise_singleton _ _)
  have hmem : Row.ofJob job ∈ Batches.batch config ⟨[Row.ofJob job]⟩ job.state := by
    obtain ⟨n, hn⟩ := Nat.exists_eq_succ_of_ne_zero hbatch.ne'
    rw [Batches.batch, hqueue, hn, List.take_succ_cons]
    exact List.mem_cons_self
  rw [Batches.tableAfter, List.map_singleton, Batches.turned_of_read hmem hread, hhandled] at hrun
  dsimp only at hrun
  rw [Row.updatedFrom_ofJob] at hrun
  exact ⟨_, _, _, hrun⟩

theorem turnsInto_completionPhase (hread : (Row.ofJob job).toJob? = some job)
    (hne : job.state ≠ .acknowledged) : TurnsInto o (Cycle.completionPhase config) job job := by
  have hnone : Table.queue ⟨[Row.ofJob job]⟩ .acknowledged = [] :=
    Table.queue_eq_nil (by simpa [Row.ofJob] using fun heq => hne (JobState.name_inj heq))
  exact turnsInto_same (Batches.takesUp_completionPhase (ready_single hread) (by simp [hnone])) hne

theorem turnsInto_cycle {mid : Job} (hprovision : TurnsInto o (Cycle.provisionPhase config) job mid)
    (hdispatch : TurnsInto o (Cycle.dispatchPhase config) mid after)
    (hcomplete : TurnsInto o (Cycle.completionPhase config) after after) :
    TurnsInto o (cycle config) job after := by
  intro asked k
  obtain ⟨p, asked₁, k₁, hprovision⟩ := hprovision asked k
  obtain ⟨d, asked₂, k₂, hdispatch⟩ := hdispatch asked₁ k₁
  obtain ⟨i, asked₃, k₃, hcomplete⟩ := hcomplete asked₂ k₂
  exact ⟨_, _, _, Batches.alone_cycle hprovision hdispatch hcomplete⟩

end Single

/-- An executor's job in which there is nothing to provision. -/
def plain (state : JobState) : Job :=
  bareJob "0" .executor state

/-- The job when it was tried so often. -/
def tireless (tries : UInt32) : Job :=
  { plain .provisioned with retryCount := tries }

def allowing (limit : Nat) : Config.Orchestrator :=
  { maxFlowRetries := limit }

section Run

variable {limit : Nat} {job after : Job}

theorem allowing_pos (limit : Nat) : 0 < (allowing limit).batchSize :=
  Nat.succ_pos 4

theorem read_plain (state : JobState) : (Row.ofJob (plain state)).toJob? = some (plain state) :=
  (Row.reads_ofJob_epoch rfl rfl).toJob?

theorem read_tireless (tries : UInt32) :
    (Row.ofJob (tireless tries)).toJob? = some (tireless tries) :=
  (Row.reads_ofJob_epoch rfl rfl).toJob?

/-- The job is taken on. -/
theorem reachable_initial (limit : Nat) : Reachable limit ⟨[Row.ofJob (plain .initial)]⟩ := by
  have hrun : alone unwilling (initiate .executor (plain .initial).request) ⟨{}, [], 0⟩ =
      (.ok "0", ⟨⟨[Row.ofJob (plain .initial)]⟩, [], 2⟩) := rfl
  exact Reachable.duty (d := .errand (.initiate .executor (plain .initial).request))
    (reachable_empty limit) (by simp) hrun

theorem Reachable.cycle (h : Reachable limit ⟨[Row.ofJob job]⟩)
    (hcycle : TurnsInto unwilling (Ferry.cycle (allowing limit)) job after) :
    Reachable limit ⟨[Row.ofJob after]⟩ := by
  obtain ⟨report, asked, k, hrun⟩ := hcycle [] 0
  exact Reachable.duty (d := .cycle (allowing limit)) h (by rintro config ⟨⟩; rfl) hrun

/-- A cycle begins to provision it. -/
theorem reachable_provisioning (limit : Nat) :
    Reachable limit ⟨[Row.ofJob (plain .provisioning)]⟩ := by
  have hread := read_plain
  have hprovision : TurnsInto unwilling (Cycle.provisionPhase (allowing limit)) (plain .initial)
      (plain .provisioning) :=
    turnsInto_turned (Batches.takesUp_provisionPhase (ready_single (hread _))) (hread _)
      (allowing_pos limit) fun k => ⟨_, rfl, rfl⟩
  have hdispatch : TurnsInto unwilling (Cycle.dispatchPhase (allowing limit)) (plain .provisioning)
      (plain .provisioning) :=
    turnsInto_same (Batches.takesUp_dispatchPhase (ready_single (hread _))) (by decide)
  exact (reachable_initial limit).cycle
    (turnsInto_cycle hprovision hdispatch (turnsInto_completionPhase (hread _) (by decide)))

/-- It is provisioned. -/
theorem reachable_provisioned (limit : Nat) : Reachable limit ⟨[Row.ofJob (tireless 0)]⟩ := by
  have hget : Table.get ⟨[Row.ofJob (plain .provisioning)]⟩ "0" =
      .ok (some (plain .provisioning)) :=
    (Table.keeps_ofJob (Row.reads_ofJob_epoch rfl rfl)).get
  have hperform : (Call.get "0").perform ⟨[Row.ofJob (plain .provisioning)]⟩ =
      (.ok (some (plain .provisioning)), ⟨[Row.ofJob (plain .provisioning)]⟩) := by
    rw [Call.perform, hget]
  have hrun : alone unwilling (applyResponse ⟨"0", .provisioned []⟩)
      ⟨⟨[Row.ofJob (plain .provisioning)]⟩, [], 0⟩ =
        (.ok (), ⟨⟨[Row.ofJob (tireless 0)]⟩, [], 1⟩) := by
    rw [applyResponse, Batches.alone_store hperform]
    rfl
  exact Reachable.duty (d := .respond ⟨"0", .provisioned []⟩) (reachable_provisioning limit)
    (by simp) hrun

theorem handled_tireless (hlimit : limit = 0 ∨ 2 ^ 32 - 1 ≤ limit) (tries : UInt32) (k : Nat) :
    handled unwilling limit k (tireless tries) = some (tireless (tries + 1)) := by
  have hnever : (decide (0 < limit) && decide (limit < (tries + 1).toNat)) = false := by
    have hbound := (tries + 1).toNat_lt
    rcases hlimit with rfl | hlarge
    · rfl
    · simp only [Bool.and_eq_false_imp, decide_eq_true_eq, decide_eq_false_iff_not]
      omega
  show some (if (decide (0 < limit) && decide (limit < (tries + 1).toNat)) = true then _ else _) = _
  rw [hnever]
  rfl

/-- Each cycle finds the flow busy, and nothing else happens to the job. -/
theorem Reachable.again (hlimit : limit = 0 ∨ 2 ^ 32 - 1 ≤ limit) {tries : UInt32}
    (h : Reachable limit ⟨[Row.ofJob (tireless tries)]⟩) :
    Reachable limit ⟨[Row.ofJob (tireless (tries + 1))]⟩ := by
  have hread := read_tireless
  have hprovision : TurnsInto unwilling (Cycle.provisionPhase (allowing limit)) (tireless tries)
      (tireless tries) :=
    turnsInto_same (Batches.takesUp_provisionPhase (ready_single (hread _))) nofun
  have hdispatch : TurnsInto unwilling (Cycle.dispatchPhase (allowing limit)) (tireless tries)
      (tireless (tries + 1)) :=
    turnsInto_turned (Batches.takesUp_dispatchPhase (ready_single (hread _))) (hread _)
      (allowing_pos limit) fun k => ⟨_, handled_tireless hlimit tries k, rfl⟩
  exact h.cycle (turnsInto_cycle hprovision hdispatch (turnsInto_completionPhase (hread _) nofun))

theorem reachable_tireless (hlimit : limit = 0 ∨ 2 ^ 32 - 1 ≤ limit) (n : Nat) :
    Reachable limit ⟨[Row.ofJob (tireless (.ofNat n))]⟩ := by
  induction n with
  | zero => exact reachable_provisioned limit
  | succ n ih =>
      rw [UInt32.ofNat_add]
      exact ih.again hlimit

theorem afterFlow_tireless (hlimit : limit = 0 ∨ 2 ^ 32 - 1 ≤ limit) (tries : UInt32) :
    Cycle.afterFlow limit (tireless tries) .epoch (.retry "no route") =
      .ok (tireless (tries + 1)) := by
  have hafter : Batches.afterStart unwilling limit 0 (tireless tries) = tireless (tries + 1) :=
    Option.some.inj (handled_tireless hlimit tries 0)
  rw [← hafter]
  exact Batches.afterFlow_eq (o := unwilling) rfl rfl

/-- The cycle that takes up a full job comes to a panic. -/
theorem exists_panics {done : List TaskSystem.Task} (hdone : Limited limit done) :
    ∃ s, Relation.ReflTransGen (LimitedStep limit) ⟨⟨[Row.ofJob (tireless 4294967295)]⟩,
      done ++ [(Duty.cycle (allowing limit)).task]⟩ s ∧
        s.table = ⟨[Row.ofJob (tireless 4294967295)]⟩ ∧ s.Panics := by
  have hd : ∀ config, Duty.cycle (allowing limit) = .cycle config →
      config.maxFlowRetries = limit := by
    rintro config ⟨⟩
    rfl
  have hnone : Table.next ⟨[Row.ofJob (tireless 4294967295)]⟩ .initial 5 = .ok [] :=
    Table.next_single_of_ne (by decide) 5
  have hjob : Table.next ⟨[Row.ofJob (tireless 4294967295)]⟩ .provisioned 5 =
      .ok [tireless 4294967295] :=
    Table.next_single (read_tireless _) (by decide)
  refine exists_of_call hd hdone (.ok []) (.inl hnone.symm) ?_
  refine exists_of_call hd hdone () trivial ?_
  refine exists_of_call hd hdone true trivial ?_
  refine exists_of_call hd hdone (.ok [tireless 4294967295]) (.inl hjob.symm) ?_
  refine exists_of_call hd hdone (FlowOutcome.retry "no route") trivial ?_
  refine exists_of_call hd hdone () trivial ?_
  refine exists_of_call hd hdone Time.Instant.epoch trivial ?_
  exact ⟨_, .refl, rfl, .cycle (allowing limit), _, List.mem_append_right _ List.mem_cons_self⟩

/-- In time the count of a job that waits for its flow is full, and the next retry is a panic.
Where it is none, the job waits with a count of 0. -/
def Overruns (limit : Nat) : Prop :=
  ∃ run : Run, (∀ s ∈ run.states, Limited limit s.tasks) ∧ run.last.Panics ∧
    run.last.table.next .provisioned 1 = .ok [tireless 4294967295] ∧
    Cycle.afterFlow limit (tireless 4294967295) .epoch (.retry "no route") = .ok (tireless 0)

theorem overruns (hlimit : limit = 0 ∨ 2 ^ 32 - 1 ≤ limit) : Overruns limit := by
  obtain ⟨tasks, hlimited, hreached⟩ := reachable_tireless hlimit 4294967295
  have harrive : LimitedStep limit ⟨⟨[Row.ofJob (tireless 4294967295)]⟩, tasks⟩
      ⟨⟨[Row.ofJob (tireless 4294967295)]⟩, tasks ++ [(Duty.cycle (allowing limit)).task]⟩ := by
    refine ⟨.arrive _, limited_concat.2 ⟨hlimited, ?_⟩⟩
    rintro config ⟨⟩
    rfl
  obtain ⟨s, hpanic, htable, hpanics⟩ := exists_panics hlimited
  obtain ⟨run, hlimited, rfl⟩ := exists_run ((hreached.tail harrive).trans hpanic)
  refine ⟨run, hlimited, hpanics, ?_, afterFlow_tireless hlimit 4294967295⟩
  rw [htable]
  exact Table.next_single (read_tireless _) Nat.one_pos

end Run

/-- In every run of cycles with one limit, whatever others do and whatever fails, no program
panics over a count, if and only if the limit is one that can be gone beyond; and only then each
retry of a job that a batch can show is counted. -/
theorem retries_counted_iff (limit : Nat) :
    ((∀ run : Run, (∀ s ∈ run.states, Limited limit s.tasks) → ∀ s ∈ run.states, ¬ s.Panics) ↔
      limit ≠ 0 ∧ limit < 2 ^ 32 - 1) ∧
    ((∀ run : Run, (∀ s ∈ run.states, Limited limit s.tasks) →
      ∀ n jobs, run.last.table.next .provisioned n = .ok jobs →
      ∀ job ∈ jobs, job.role = .executor → job.CountsRetry limit) ↔
      limit ≠ 0 ∧ limit < 2 ^ 32 - 1) := by
  have hcap : ¬ (limit ≠ 0 ∧ limit < 2 ^ 32 - 1) → Overruns limit :=
    fun hcap => overruns (by omega)
  refine ⟨⟨fun hnone => ?_, fun hlimit run hlimited s hs => ?_⟩,
    ⟨fun hcounts => ?_, fun hlimit run hlimited n jobs hnext job hjob hrole => ?_⟩⟩
  · by_contra h
    obtain ⟨run, hlimited, hpanics, -⟩ := hcap h
    exact hnone run hlimited run.last (List.getLast_mem _) hpanics
  · exact (invariant_run hlimit run hlimited s hs).not_panics
  · by_contra h
    obtain ⟨run, hlimited, -, hnext, -⟩ := hcap h
    obtain ⟨after, -, hcount⟩ := hcounts run hlimited 1 _ hnext (tireless 4294967295)
      List.mem_cons_self rfl .epoch "no route"
    have hbound := after.retryCount.toNat_lt
    have hfull : (tireless 4294967295).retryCount.toNat = 4294967295 := rfl
    omega
  · obtain ⟨r, hr, hstate, hread⟩ := Table.exists_row_of_next hnext hjob
    have hkept := invariant_run hlimit run hlimited run.last (List.getLast_mem _)
    have hready : job.state = .provisioned := Batches.state_of_read hread hstate
    exact (hkept.table r hr job hread).countsRetry hrole hready limit

/-- Without a limit a count runs over, and so it does under the largest limit there is. -/
theorem full_count_overruns : Overruns 0 ∧ Overruns 4294967295 :=
  ⟨overruns (.inl rfl), overruns (.inr (by decide))⟩

end Ferry.RetryCount
