import Ferry.Orchestrator.Worker
import Ferry.Proofs.TaskSystem.Basic

/-!
# What no interleaving of tasks can break

Every task of the system writes jobs that it has read, moved by the moves of
`Job`, and a copy of a stored job stays one however old it is. So the fields of what
is stored always agree, and the worker never meets what it takes for a corrupt store:
the state it asked for is the state its copies are in, which makes every move it
tries one the job may make, whatever has become of the stored job meanwhile.
-/

namespace Ferry.TaskSystem

open Operation Store Store.Table

variable {t t' : Table} {job : Job} {E : OrchestratorError → Table → Prop}

/-! ## A cycle -/

/-- The error is not fatal, so the loop of the worker goes on after it. -/
def NonFatal (e : OrchestratorError) (_ : Table) : Prop :=
  e.isFatal = false

theorem nonFatal_of_answerable (e : JobError) (t : Table) (h : Answerable e) :
    NonFatal (.store e) t := by
  cases e with
  | invalidTransition id role origin target => exact absurd rfl (h id role origin target)
  | notFound _ | duplicateCorrelationId _ | unknownState _ | unknownRole _ | database _ => rfl

/-- The job is a copy of one in the table, and was read in the state. -/
def CopiedIn (state : JobState) (t : Table) (job : Job) : Prop :=
  job.state = state ∧ t.Copied job

theorem CopiedIn.continues {state : JobState} (t t' : Table) (job : Job) (hc : t.Continues t')
    (h : CopiedIn state t job) : CopiedIn state t' job :=
  ⟨h.1, h.2.continues hc⟩

theorem wpOr_provision (h : CopiedIn .initial t job) :
    terms.wpOr NonFatal (Cycle.provision job) (fun _ _ => True) t := by
  obtain ⟨hstate, hcopied⟩ := h
  refine wpOr_ask trivial fun definitionId t₁ hrely₁ _ _ => ?_
  refine wpOr_ask trivial fun now t₂ hrely₂ _ _ => ?_
  obtain ⟨started, hstarted⟩ :
      ∃ started, job.provision (.forJob job definitionId) now = .ok started :=
    Job.exists_map_move (by rw [hstate]; rfl) now
  have hcopied₂ : t₂.Copied started :=
    (hcopied.continues (hrely₁.trans hrely₂)).evolves (Job.evolves_provision hstarted)
  refine Discipline.wpOr_moved hstarted ?_
  refine wpOr_store nonFatal_of_answerable hcopied₂ fun _ t₃ hrely₃ _ _ => ?_
  refine wpOr_ask trivial fun _ t₄ hrely₄ _ _ => ?_
  refine wpOr_ask trivial fun r t₅ hrely₅ _ _ => ?_
  cases r with
  | ok _ => exact Discipline.wpOr_pure fun _ _ _ => trivial
  | error e =>
      refine wpOr_ask trivial fun now t₆ hrely₆ _ _ => ?_
      obtain ⟨failed, hfailed⟩ : ∃ failed, started.failed e.message now = .ok failed :=
        Job.exists_map_move (by rw [(Job.provision_ok hstarted).state]; rfl) now
      have hcopied₆ : t₆.Copied failed :=
        (hcopied₂.continues (((hrely₃.trans hrely₄).trans hrely₅).trans hrely₆)).evolves
          (Job.evolves_failed hfailed)
      refine Discipline.wpOr_moved hfailed ?_
      refine wpOr_store nonFatal_of_answerable hcopied₆ fun _ _ _ _ _ => ?_
      refine wpOr_ask trivial fun _ _ _ _ _ => ?_
      exact wpOr_ask_last trivial fun _ _ _ => trivial

/-- A write over a state, and the counting of it if it hit. -/
theorem wpOr_swapped {expected : JobState} (hcopied : t.Copied job) :
    terms.wpOr NonFatal (do if ← store (.updateIfState job expected) then countMove job)
      (fun _ _ => True) t := by
  refine wpOr_store nonFatal_of_answerable hcopied fun hit t' _ _ _ => ?_
  exact Discipline.preserves_countIf Discipline.stable_true
    (preserves_ask Discipline.stable_true fun _ => trivial) hit t' trivial

theorem wpOr_send (h : CopiedIn .provisioned t job) (hrole : job.role = .initiator) :
    terms.wpOr NonFatal (Cycle.send job) (fun _ _ => True) t := by
  obtain ⟨hstate, hcopied⟩ := h
  refine wpOr_ask trivial fun now t₁ hrely₁ _ _ => ?_
  obtain ⟨sent, hsent⟩ : ∃ sent, job.sent now = .ok sent :=
    Job.exists_move (by rw [hstate, hrole]; rfl) now
  have hcopied₁ : t₁.Copied sent :=
    (hcopied.continues hrely₁).evolves (Job.evolves_move hsent (by simp) (by simp))
  refine Discipline.wpOr_moved hsent ?_
  refine wpOr_store nonFatal_of_answerable hcopied₁ fun _ t₂ hrely₂ _ _ => ?_
  refine wpOr_ask trivial fun _ t₃ hrely₃ _ _ => ?_
  refine wpOr_ask trivial fun r t₄ hrely₄ _ _ => ?_
  cases r with
  | ok _ => exact Discipline.wpOr_pure fun _ _ _ => trivial
  | error e =>
      refine wpOr_ask trivial fun _ t₅ hrely₅ _ _ => ?_
      refine wpOr_ask trivial fun now t₆ hrely₆ _ _ => ?_
      obtain ⟨failed, hfailed⟩ :
          ∃ failed, sent.failed ("dispatch failed: " ++ e.message) now = .ok failed :=
        Job.exists_map_move (by rw [(Job.move_ok hsent).state]; rfl) now
      refine Discipline.wpOr_moved hfailed (wpOr_swapped ?_)
      have hrely := (((hrely₂.trans hrely₃).trans hrely₄).trans hrely₅).trans hrely₆
      exact (hcopied₁.continues hrely).evolves (Job.evolves_failed hfailed)

theorem wpOr_execute (config : Config.Orchestrator) (h : CopiedIn .provisioned t job)
    (hrole : job.role = .executor) :
    terms.wpOr NonFatal (Cycle.execute config job) (fun _ _ => True) t := by
  obtain ⟨hstate, hcopied⟩ := h
  refine wpOr_ask trivial fun outcome t₁ hrely₁ _ _ => ?_
  refine wpOr_ask trivial fun _ t₂ hrely₂ _ _ => ?_
  refine wpOr_ask trivial fun now t₃ hrely₃ _ _ => wpOr_checkCount fun t₄ hrely₄ => ?_
  obtain ⟨after, hafter⟩ :=
    Job.exists_afterFlow hrole hstate config.maxFlowRetries now outcome
  have hcopied₄ : t₄.Copied after :=
    (hcopied.continues (((hrely₁.trans hrely₂).trans hrely₃).trans hrely₄)).evolves
      (Job.evolves_afterFlow hstate hafter)
  refine Discipline.wpOr_moved hafter ?_
  split
  · exact wpOr_ask trivial fun _ _ hrely₅ _ _ => wpOr_swapped (hcopied₄.continues hrely₅)
  · exact wpOr_swapped hcopied₄

theorem wpOr_dispatch (config : Config.Orchestrator) (t : Table) (job : Job)
    (h : CopiedIn .provisioned t job) :
    terms.wpOr NonFatal (Cycle.dispatch config job) (fun _ _ => True) t := by
  rw [Cycle.dispatch]
  split
  · next hrole => exact wpOr_send h hrole
  · next hrole => exact wpOr_execute config h hrole

theorem wpOr_arrived (jobs : List Job) :
    terms.wpOr E (Cycle.arrived jobs)
      (fun done t' => done.Sublist jobs ∧ t.Continues t') t :=
  have hP : terms.Stable (t.Continues ·) := fun _ _ hrely h => h.trans hrely
  Discipline.wpOr_arrived hP (fun _ => preserves_ask hP fun _ => trivial) jobs (.refl t)

theorem wpOr_complete (t : Table) (job : Job)
    (h : CopiedIn .acknowledged t job ∧ job.role = .initiator) :
    terms.wpOr NonFatal (Cycle.complete job) (fun _ _ => True) t := by
  obtain ⟨⟨hstate, hcopied⟩, hrole⟩ := h
  refine wpOr_ask trivial fun now t₁ hrely₁ _ _ => ?_
  obtain ⟨done, hdone⟩ : ∃ done, job.completed now = .ok done :=
    Job.exists_move (by rw [hstate, hrole]; rfl) now
  refine Discipline.wpOr_moved hdone ?_
  refine wpOr_store nonFatal_of_answerable ?_ fun _ _ _ _ _ => ?_
  · exact (hcopied.continues hrely₁).evolves (Job.evolves_move hdone (by simp) (by simp))
  · exact wpOr_ask_last trivial fun _ _ _ => trivial

/-- What each phase does after its loop. -/
theorem wpOr_processed (phase : Phase) (jobs : List Job) :
    terms.wpOr E (do count (.jobsProcessed phase) jobs.length; pure jobs.length)
      (fun _ _ => True) t :=
  Discipline.preserves_processed Discipline.stable_true
    (preserves_ask Discipline.stable_true fun _ => trivial) t trivial

theorem wpOr_provisionPhase (config : Config.Orchestrator) :
    terms.wpOr NonFatal (Cycle.provisionPhase config) (fun _ _ => True) t := by
  refine wpOr_store nonFatal_of_answerable trivial fun jobs t₁ _ hcoherent hread => ?_
  have hloop : terms.wpOr NonFatal (forEach Cycle.provision jobs) (fun _ _ => True) t₁ :=
    wpOr_forEach CopiedIn.continues (fun _ _ => wpOr_provision) (copied_of_next hcoherent hread)
  exact Discipline.wpOr_then hloop fun _ _ _ _ => wpOr_processed _ jobs

theorem wpOr_dispatchPhase (config : Config.Orchestrator) :
    terms.wpOr NonFatal (Cycle.dispatchPhase config) (fun _ _ => True) t := by
  refine wpOr_store nonFatal_of_answerable trivial fun jobs t₁ _ hcoherent hread => ?_
  have hloop : terms.wpOr NonFatal (forEach (Cycle.dispatch config) jobs) (fun _ _ => True) t₁ :=
    wpOr_forEach CopiedIn.continues (wpOr_dispatch config) (copied_of_next hcoherent hread)
  exact Discipline.wpOr_then hloop fun _ _ _ _ => wpOr_processed _ jobs

/-- An executor's job in the acknowledged state is one whose fields do not agree. -/
theorem role_of_acknowledged (h : CopiedIn .acknowledged t job) : job.role = .initiator := by
  cases hrole : job.role with
  | initiator => rfl
  | executor => exact absurd h.1 (h.2.consistent.executor hrole).2

theorem wpOr_completionPhase (config : Config.Orchestrator) :
    terms.wpOr NonFatal (Cycle.completionPhase config) (fun _ _ => True) t := by
  refine wpOr_store nonFatal_of_answerable trivial fun jobs t₁ _ hcoherent hread => ?_
  have hdrawn : ∀ job ∈ jobs, CopiedIn .acknowledged t₁ job := copied_of_next hcoherent hread
  have hnone : jobs.filter (fun job => job.role != .initiator) = [] := by
    refine List.filter_eq_nil_iff.2 fun job hjob => ?_
    simp [role_of_acknowledged (hdrawn job hjob)]
  dsimp only
  rw [hnone]
  refine Discipline.wpOr_then (wpOr_arrived jobs) fun done t₂ _ ⟨hsub, hrely₂⟩ => ?_
  have hloop : terms.wpOr NonFatal (forEach Cycle.complete done) (fun _ _ => True) t₂ := by
    refine wpOr_forEach (fun t t' job hc h => ⟨CopiedIn.continues t t' job hc h.1, h.2⟩)
      wpOr_complete fun job hjob => ?_
    have h := hdrawn job (hsub.subset hjob)
    exact ⟨CopiedIn.continues _ _ _ hrely₂ h, role_of_acknowledged h⟩
  exact Discipline.wpOr_then hloop fun _ _ _ _ => wpOr_processed _ jobs

theorem wpOr_cycle (config : Config.Orchestrator) :
    terms.wpOr NonFatal (cycle config) (fun _ _ => True) t :=
  Discipline.preserves_cycle (preserves_ask Discipline.stable_true fun _ => trivial)
    (fun _ _ => wpOr_provisionPhase config) (fun _ _ => wpOr_dispatchPhase config)
    (fun _ _ => wpOr_completionPhase config) t trivial

/-! ## The others -/

/-- Nothing is asked of the error that an operation ends with. -/
def AnyError (_ : OrchestratorError) (_ : Table) : Prop :=
  True

theorem wpOr_applyResponse (response : ProvisionResponse) :
    terms.wpOr AnyError (applyResponse response) (fun _ _ => True) t := by
  refine wpOr_store (fun _ _ _ => trivial) trivial fun found t₁ _ hcoherent hread => ?_
  cases found with
  | none => exact Discipline.wpOr_throw fun _ _ _ => trivial
  | some job =>
      have hcopied := copied_of_get hcoherent hread
      refine wpOr_ask trivial fun now t₂ hrely₂ _ _ => ?_
      refine Discipline.wpOr_move (fun _ _ _ _ _ => trivial) fun after hafter => ?_
      have hcopied₂ := (hcopied.continues hrely₂).evolves (Job.evolves_accept hafter)
      refine wpOr_store (fun _ _ _ => trivial) hcopied₂ fun _ _ _ _ _ => ?_
      refine wpOr_ask trivial fun _ _ _ _ _ => ?_
      exact wpOr_ask_last trivial fun _ _ _ => trivial

theorem wpOr_load (c : String) :
    terms.wpOr AnyError (Flow.load c) (fun job t' => t'.Copied job) t := by
  refine wpOr_store (fun _ _ _ => trivial) trivial fun found _ _ _ _ => ?_
  cases found with
  | none => exact Discipline.wpOr_throw fun _ _ _ => trivial
  | some id =>
      refine wpOr_store (fun _ _ _ => trivial) trivial fun found t₂ _ hcoherent hread => ?_
      cases found with
      | none => exact Discipline.wpOr_throw fun _ _ _ => trivial
      | some job =>
          exact Discipline.wpOr_pure fun t' hrely _ =>
            (copied_of_get hcoherent hread).continues hrely

theorem wpOr_finish (c : String) (failure : Option String) (rounds : Nat) :
    terms.wpOr AnyError (Flow.finish c failure rounds) (fun _ _ => True) t := by
  induction rounds generalizing t with
  | zero => exact Discipline.wpOr_pure fun _ _ _ => trivial
  | succ n ih =>
      refine Discipline.wpOr_then (wpOr_load c) fun job t₁ _ hcopied => ?_
      split
      · exact Discipline.wpOr_pure fun _ _ _ => trivial
      · refine wpOr_ask trivial fun now t₂ hrely₂ _ _ => ?_
        refine Discipline.wpOr_move (fun _ _ _ _ _ => trivial) fun after hafter => ?_
        have hcopied₂ := (hcopied.continues hrely₂).evolves (Job.evolves_ended hafter)
        refine wpOr_store (fun _ _ _ => trivial) hcopied₂ fun hit _ _ _ _ => ?_
        cases hit with
        | true => exact wpOr_ask_last trivial fun _ _ _ => trivial
        | false => exact ih

theorem wp_acknowledge (id : String) :
    terms.wp (Api.acknowledgeTransfer id) (fun _ _ => True) t := by
  refine wp_ask (c := .store (.get id)) trivial fun found t₁ _ hcoherent hadmits => ?_
  match found with
  | .error e => exact fun _ _ _ => trivial
  | .ok none => exact fun _ _ _ => trivial
  | .ok (some job) =>
      have hread : t₁.get id = .ok (some job) := by
        rcases hadmits with hr | ⟨_, hr⟩
        · exact hr.symm
        · cases hr
      change terms.wp (if job.role ≠ .initiator || job.state ≠ .sent then _ else _) _ _
      split
      · exact fun _ _ _ => trivial
      · refine wp_ask (c := .now) trivial fun now t₂ hrely₂ _ _ => ?_
        simp only [Program.bind]
        cases hafter : job.acknowledged now with
        | error e => exact fun _ _ _ => trivial
        | ok after =>
            have hcopied : t₂.Copied after :=
              ((copied_of_get hcoherent hread).continues hrely₂).evolves
                (Job.evolves_move hafter (by simp) (by simp))
            refine wp_ask (c := .store _) hcopied fun r _ _ _ _ => ?_
            match r with
            | .error e => exact fun _ _ _ => trivial
            | .ok false => exact fun _ _ _ => trivial
            | .ok true => exact wp_ask (c := .count _ _) trivial fun _ _ _ _ _ _ _ _ => trivial

theorem wpOr_initiate (role : Role) (request : TransferRequest) :
    terms.wpOr AnyError (initiate role request) (fun _ _ => True) t := by
  rw [initiate]
  split
  · exact Discipline.wpOr_bind (Discipline.wpOr_throw fun _ _ _ => trivial)
  · refine wpOr_store (fun _ _ _ => trivial) trivial fun found _ _ _ _ => ?_
    cases found with
    | some id => exact Discipline.wpOr_pure fun _ _ _ => trivial
    | none =>
        refine wpOr_ask trivial fun id _ _ _ _ => ?_
        refine wpOr_ask trivial fun now _ _ _ _ => ?_
        refine wpOr_ask (Job.consistent_new id role request now) fun r _ _ _ _ => ?_
        match r with
        | .ok () =>
            refine wpOr_ask trivial fun _ _ _ _ _ => ?_
            refine wpOr_ask trivial fun _ _ _ _ _ => ?_
            exact Discipline.wpOr_pure fun _ _ _ => trivial
        | .error e =>
            cases e with
            | duplicateCorrelationId c =>
                refine wpOr_store (fun _ _ _ => trivial) trivial fun found _ _ _ _ => ?_
                cases found with
                | some id => exact Discipline.wpOr_pure fun _ _ _ => trivial
                | none => exact Discipline.wpOr_throw fun _ _ _ => trivial
            | notFound _ | invalidTransition _ _ _ _ | unknownState _ | unknownRole _
            | database _ => exact Discipline.wpOr_throw fun _ _ _ => trivial

theorem wpOr_receive (inbound : InboundTransfer) :
    terms.wpOr AnyError (receive inbound) (fun _ _ => True) t := by
  refine Discipline.wpOr_then (wpOr_initiate .executor inbound.request) fun id _ _ _ => ?_
  split
  · exact Discipline.wpOr_pure fun _ _ _ => trivial
  · exact wpOr_ask trivial fun _ _ _ _ _ => Discipline.wpOr_pure fun _ _ _ => trivial

/-! ## Runs -/

/-- Of a cycle it is asked that it does not end with a fatal error. -/
def Duty.Fits : (d : Duty) → d.Answer → Prop
  | .cycle _, result => ∀ e, result = .error e → e.isFatal = false
  | _, _ => True

theorem wp_duty (d : Duty) : terms.wp d.program (fun a _ => d.Fits a) t := by
  match d with
  | .cycle config =>
      refine Discipline.wp_mono (fun result _ _ hresult e he => ?_) (wpOr_cycle config)
      subst he
      exact hresult
  | .respond response =>
      exact Discipline.wp_mono (fun _ _ _ _ => trivial) (wpOr_applyResponse response)
  | .errand (.finish c failure rounds) =>
      exact Discipline.wp_mono (fun _ _ _ _ => trivial) (wpOr_finish c failure rounds)
  | .errand (.acknowledge id) => exact wp_acknowledge id
  | .errand (.initiate role request) =>
      exact Discipline.wp_mono (fun _ _ _ _ => trivial) (wpOr_initiate role request)
  | .errand (.receive inbound) =>
      exact Discipline.wp_mono (fun _ _ _ _ => trivial) (wpOr_receive inbound)

/-- The fields of what is stored agree, and whatever is left of each program keeps to
the terms. -/
structure InOrder (s : TaskSystem) : Prop where
  coherent : s.table.Coherent
  tasks : ∀ task ∈ s.tasks, terms.wp task.rest (fun a _ => task.duty.Fits a) s.table

variable {s s' : TaskSystem}

theorem inOrder_empty : InOrder {} :=
  ⟨coherent_empty, by simp⟩

theorem inOrder_step (h : InOrder s) (hstep : Step s s') : InOrder s' := by
  cases hstep with
  | arrive duty =>
      exact ⟨h.coherent, List.forall_mem_append.2
        ⟨h.tasks, List.forall_mem_singleton.2 (wp_duty duty)⟩⟩
  | @call before later duty c next turn r admits =>
      have htasks := h.tasks
      rw [turn, List.forall_mem_append, List.forall_mem_cons] at htasks
      obtain ⟨hbefore, hmine, hlater⟩ := htasks
      obtain ⟨hcoherent, hcontinues, hrest⟩ :=
        Discipline.wp_call hmine h.coherent ⟨admits, rfl⟩
      refine ⟨hcoherent, List.forall_mem_append.2 ⟨?_, List.forall_mem_cons.2 ⟨hrest, ?_⟩⟩⟩
      · exact fun task htask => Discipline.wp_rely hcontinues (hbefore task htask)
      · exact fun task htask => Discipline.wp_rely hcontinues (hlater task htask)
  | restart => exact ⟨h.coherent, by simp⟩

theorem Run.inOrder (run : Run) : ∀ s ∈ run.states, InOrder s :=
  run.steps.induction InOrder run.states (fun _ _ hstep h => inOrder_step h hstep)
    fun _ => inOrder_empty

/-- Whatever the tasks do and whatever fails, every stored job is one whose fields
agree, and so is every job that is read. -/
theorem stored_jobs_consistent (run : Run) :
    (∃ jobs, run.last.table.Lists jobs ∧ ∀ job ∈ jobs, job.Consistent) ∧
    (∀ id job, run.last.table.get id = .ok (some job) → job.Consistent) ∧
    ∀ state limit jobs, run.last.table.next state limit = .ok jobs →
      ∀ job ∈ jobs, job.Consistent := by
  have h : run.last.table.Coherent := (run.inOrder run.last (List.getLast_mem _)).coherent
  refine ⟨h, fun id job hget => (copied_of_get h hget).consistent, ?_⟩
  exact fun state limit jobs hnext job hjob => (copied_of_next h hnext job hjob).2.consistent

/-! ## The worker's loop -/

/-- The calls of a worker with their replies. -/
abbrev Log :=
  List ((c : Worker.Request) × c.Reply)

/-- The worker's program made these calls, got these replies and ended with this answer. -/
inductive RanWith {α : Type} : Worker.Task α → Log → α → Prop where
  | done (a : α) : RanWith (.done a) [] a
  | call {c : Worker.Request} {next : c.Reply → Worker.Task α} {log : Log} {a : α} (r : c.Reply)
      (rest : RanWith (next r) log a) : RanWith (.call c next) (⟨c, r⟩ :: log) a

/-- The worker found the flag down, or was woken from its sleep. -/
def ToldToStop (log : Log) : Prop :=
  ⟨.isRunning, false⟩ ∈ log ∨ ∃ delay, ⟨.sleep delay, false⟩ ∈ log

theorem ToldToStop.of_subset {log log' : Log} (h : ToldToStop log) (hsub : log ⊆ log') :
    ToldToStop log' :=
  h.imp (fun hflag => hsub hflag) fun ⟨delay, hsleep⟩ => ⟨delay, hsub hsleep⟩

variable {goOn : Worker.Task (Option Worker.Exit)} {log : Log} {result : Option Worker.Exit}

theorem RanWith.of_leave {exit : Worker.Exit} (h : RanWith (Worker.leave exit) log result) :
    result = some exit := by
  cases h with
  | call _ rest => cases rest; rfl

/-- Whoever sleeps goes on, or was told to stop. -/
theorem RanWith.of_pause {delay : Nat} (h : RanWith (Worker.pause delay goOn) log result) :
    (∃ log' ⊆ log, RanWith goOn log' result) ∨ (result = some (.ok ()) ∧ ToldToStop log) := by
  cases h with
  | @call _ _ log' _ woke rest =>
      cases woke with
      | true => exact .inl ⟨log', List.subset_cons_self _ _, rest⟩
      | false => exact .inr ⟨rest.of_leave, .inr ⟨delay, List.mem_cons_self⟩⟩

/-- So does whoever has ended a cycle, unless with a fatal error. -/
theorem RanWith.of_settle {ended : Except OrchestratorError CycleReport}
    (hpassing : ∀ e, ended = .error e → e.isFatal = false)
    (h : RanWith (Worker.settle ended goOn) log result) :
    (∃ log' ⊆ log, RanWith goOn log' result) ∨ (result = some (.ok ()) ∧ ToldToStop log) := by
  -- each call before the sleep only makes the log longer
  have hlonger : ∀ {log₁ log₂ : Log}, log₁ ⊆ log₂ →
      (∃ log' ⊆ log₁, RanWith goOn log' result) ∨ (result = some (.ok ()) ∧ ToldToStop log₁) →
      (∃ log' ⊆ log₂, RanWith goOn log' result) ∨ (result = some (.ok ()) ∧ ToldToStop log₂) :=
    fun hsub => Or.imp (fun ⟨log', hlog', hgo⟩ => ⟨log', List.Subset.trans hlog' hsub, hgo⟩)
      fun ⟨hresult, htold⟩ => ⟨hresult, htold.of_subset hsub⟩
  cases ended with
  | ok report =>
      cases h with
      | call _ rest =>
          refine hlonger (List.subset_cons_self _ _) ?_
          simp only [Program.bind] at rest
          split at rest
          · cases rest with
            | call _ rest => exact hlonger (List.subset_cons_self _ _) rest.of_pause
          · exact .inl ⟨_, List.Subset.refl _, rest⟩
  | error e =>
      rw [Worker.settle, hpassing e rfl] at h
      cases h with
      | call _ rest =>
          refine hlonger (List.subset_cons_self _ _) ?_
          cases rest with
          | call _ rest => exact hlonger (List.subset_cons_self _ _) rest.of_pause

/-- A worker none of whose cycles ends with a fatal error ends when it is told to. -/
theorem RanWith.of_work {cycles : Nat} {exit : Worker.Exit}
    (h : RanWith (Worker.work cycles) log (some exit))
    (hpassing : ∀ e, (⟨.cycle, .error e⟩ : (c : Worker.Request) × c.Reply) ∈ log →
      e.isFatal = false) : exit = .ok () ∧ ToldToStop log := by
  induction cycles generalizing log with
  | zero => cases h
  | succ n ih =>
      cases h with
      | call wanted rest =>
          cases wanted with
          | false =>
              exact ⟨Option.some.inj rest.of_leave, .inl List.mem_cons_self⟩
          | true =>
              cases rest with
              | @call _ _ log _ ended rest =>
                  have hsub : log ⊆ ⟨.isRunning, true⟩ :: ⟨.cycle, ended⟩ :: log :=
                    fun _ hx => List.mem_cons_of_mem _ (List.mem_cons_of_mem _ hx)
                  have hended : ∀ e, ended = .error e → e.isFatal = false := by
                    rintro e rfl
                    exact hpassing e (by simp)
                  rcases rest.of_settle hended with ⟨log', hlog', hgo⟩ | ⟨hresult, htold⟩
                  · obtain ⟨hexit, htold⟩ := ih hgo fun e he => hpassing e (hsub (hlog' he))
                    exact ⟨hexit, htold.of_subset (List.Subset.trans hlog' hsub)⟩
                  · exact ⟨Option.some.inj hresult, htold.of_subset hsub⟩

/-- Whatever the tasks do and whatever fails, no cycle ends with a fatal error. So a worker whose
cycles are among those of a run ends only when it is told to stop. -/
theorem no_fatal_cycle (run : Run) :
    (∀ e, run.Ends (.error e) → e.isFatal = false) ∧
    ∀ cycles log exit, RanWith (Worker.work cycles) log (some exit) →
      (∀ ended, (⟨.cycle, ended⟩ : (c : Worker.Request) × c.Reply) ∈ log → run.Ends ended) →
      exit = .ok () ∧ ToldToStop log := by
  have hpassing : ∀ e, run.Ends (.error e) → e.isFatal = false := by
    rintro e ⟨s, hs, config, htask⟩
    have horder := run.inOrder s hs
    exact (horder.tasks _ htask) s.table (.refl _) horder.coherent e rfl
  refine ⟨hpassing, fun cycles log exit hran hends => ?_⟩
  exact hran.of_work fun e he => hpassing e (hends _ he)

end Ferry.TaskSystem
