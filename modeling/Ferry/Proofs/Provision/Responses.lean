import Ferry.Proofs.Store.Reading
import Ferry.Provision.Writer

/-!
# Which outcomes of provisioning are accepted

Whether a job may still have an outcome is left to the moves of its role, and
these allow more than a job that is being provisioned: every job that has not
ended may fail, and an executor that is provisioned may be provisioned again. An
outcome that comes late is therefore accepted in just these cases (`Late`), and
refused in all others.

Nothing else stands between an outcome and the table. Where no outcome comes
late, the first one for a job that is being provisioned decides it, and those
that follow change nothing.

The table here is any table, also one that others have written to.
-/

namespace Ferry

open Time (Instant)
open Store (Table Row Cell)

/-! ## One outcome -/

/-- The state an outcome takes a job to. -/
def ProvisionOutcome.target : ProvisionOutcome → JobState
  | .provisioned _ => .provisioned
  | .failed _ => .error

namespace Job

/-- The job that an outcome has decided. -/
def decidedBy (job : Job) (now : Instant) : ProvisionOutcome → Job
  | .provisioned resources =>
    { job with state := .provisioned, stateTimestamp := now, resources }
  | .failed detail =>
    { job with state := .error, stateTimestamp := now, errorDetail := some detail }

/-- The outcome comes late, and the moves of the role take it all the same. -/
def Late (job : Job) : ProvisionOutcome → Prop
  | .provisioned _ => job.role = .executor ∧ job.state = .provisioned
  | .failed _ => job.state ≠ .provisioning ∧ job.state.isTerminal = false

theorem accept_eq (job : Job) (outcome : ProvisionOutcome) (now : Instant) :
    job.accept outcome now =
      if JobState.canMove job.role job.state outcome.target then .ok (job.decidedBy now outcome)
      else .error (.invalidTransition job.id job.role job.state outcome.target) := by
  cases outcome with
  | provisioned resources =>
      rw [accept, provisioned, move, ProvisionOutcome.target]
      by_cases h : JobState.canMove job.role job.state .provisioned = true
      · rw [if_pos h, if_pos h]; rfl
      · rw [if_neg h, if_neg h]; rfl
  | failed detail =>
      rw [accept, failed, move, ProvisionOutcome.target]
      by_cases h : JobState.canMove job.role job.state .error = true
      · rw [if_pos h, if_pos h]; rfl
      · rw [if_neg h, if_neg h]; rfl

theorem decidedBy_id (job : Job) (now : Instant) (outcome : ProvisionOutcome) :
    (job.decidedBy now outcome).id = job.id := by
  cases outcome <;> rfl

theorem decidedBy_state (job : Job) (now : Instant) (outcome : ProvisionOutcome) :
    (job.decidedBy now outcome).state = outcome.target := by
  cases outcome <;> rfl

/-- An outcome is taken in just these cases. -/
theorem canMove_target_iff (job : Job) (outcome : ProvisionOutcome) :
    JobState.canMove job.role job.state outcome.target = true ↔
      job.state = .provisioning ∨ job.Late outcome := by
  cases outcome <;>
    (rw [ProvisionOutcome.target, Late]
     cases job.state <;> simp [JobState.canMove, JobState.isTerminal])

end Job

namespace Operation

/-! ## Operations carried out alone -/

variable {σ α β : Type} (reply : (q : Request) → σ → q.Reply × σ) (s : σ)

theorem run_call (q : Request) (next : q.Reply → Activity α) :
    Program.run (S := operationSignature) reply (.call q next) s =
      Program.run (S := operationSignature) reply (next (reply q s).1) (reply q s).2 :=
  rfl

theorem run_ask (q : Request) (g : q.Reply → Operation α) :
    Program.run (S := operationSignature) reply (ask q >>= g).run s =
      Program.run (S := operationSignature) reply (g (reply q s).1).run (reply q s).2 :=
  rfl

theorem run_store (c : Store.Call) (g : c.Answer → Operation α) :
    Program.run (S := operationSignature) reply (store c >>= g).run s =
      match reply (.store c) s with
      | (.ok a, s) => Program.run (S := operationSignature) reply (g a).run s
      | (.error e, s) => (.error (.store e), s) := by
  rw [run_store_bind]
  refine (run_call reply s (.store c) _).trans ?_
  rcases reply (.store c) s with ⟨r, s'⟩
  cases r <;> rfl

theorem run_bind (f : Operation α) (g : α → Operation β) :
    Program.run (S := operationSignature) reply (f >>= g).run s =
      match Program.run (S := operationSignature) reply f.run s with
      | (.ok a, s) => Program.run (S := operationSignature) reply (g a).run s
      | (.error e, s) => (.error e, s) := by
  have hbind : ∀ (p : Activity (Except OrchestratorError α)) (s : σ),
      Program.run (S := operationSignature) reply (p.bind (ExceptT.bindCont g)) s =
        match Program.run (S := operationSignature) reply p s with
        | (.ok a, s) => Program.run (S := operationSignature) reply (g a).run s
        | (.error e, s) => (.error e, s) := by
    intro p
    induction p with
    | done result => cases result <;> exact fun s => rfl
    | call q next ih => exact fun s => ih (reply q s).1 (reply q s).2
  exact hbind f.run s

end Operation

namespace Handoff

/-- The replies of a world in which nobody but the writer is at work. -/
def reply (now : Instant) : (c : Request) → Table → c.Reply × Table
  | .store c, t => c.perform t
  | .provision _, t => (.ok (), t)
  | .send .., t => (.ok (), t)
  | .acknowledge .., t => ((), t)
  | .startFlow _, t => (.ok, t)
  | .isComplete _, t => (false, t)
  | .now, t => (now, t)
  | .freshId, t => ("", t)
  | .count .., t => ((), t)
  | .isRunning, t => (true, t)
  | .overflow, t => ((), t)

/-- Carries out an operation in that world. -/
def alone {α : Type} (now : Instant) (f : Operation α) (t : Table) :
    Except OrchestratorError α × Table :=
  Program.run (S := operationSignature) (reply now) f.run t

section Alone

variable {α : Type} {now : Instant} {t : Table}

theorem alone_store (c : Store.Call) (g : c.Answer → Operation α) :
    alone now (Operation.store c >>= g) t = match c.perform t with
      | (.ok a, t) => alone now (g a) t
      | (.error e, t) => (.error (.store e), t) := by
  rw [alone, Operation.run_store, reply]
  rcases c.perform t with ⟨r, t'⟩
  cases r <;> rfl

theorem alone_ask (c : Request) (g : c.Reply → Operation α) :
    alone now (Operation.ask c >>= g) t = alone now (g (reply now c t).1) (reply now c t).2 :=
  rfl

theorem alone_move (moved : Except JobError Job) (g : Job → Operation α) :
    alone now (Operation.move moved >>= g) t = match moved with
      | .ok job => alone now (g job) t
      | .error e => (.error (.store e), t) := by
  cases moved <;> rfl

end Alone

/-- What becomes of one outcome, handled at a time. -/
def handle (t : Table) (response : ProvisionResponse) (now : Instant) :
    Except OrchestratorError Unit × Table :=
  alone now (applyResponse response) t

variable {t : Table} {response : ProvisionResponse} {now : Instant} {id : String} {job : Job}

theorem handle_error {e : JobError} (h : t.get response.jobId = .error e) :
    handle t response now = (.error (.store e), t) := by
  rw [handle, applyResponse, alone_store, Store.Call.perform, h]

theorem handle_none (h : t.get response.jobId = .ok none) :
    handle t response now = (.error (.store (.notFound response.jobId)), t) := by
  rw [handle, applyResponse, alone_store, Store.Call.perform, h]
  rfl

theorem update_eq_write (h : t.get id = .ok (some job)) {after : Job} (hid : after.id = job.id) :
    t.update after = .ok (t.write after none) := by
  obtain ⟨rfl, r, hr, _⟩ := Table.get_eq_some h
  rw [Table.update, if_pos (Table.hits_of_row? (r := r) (by rw [hid]; exact hr))]

theorem handle_some (response : ProvisionResponse) (h : t.get response.jobId = .ok (some job)) :
    handle t response now =
      if JobState.canMove job.role job.state response.outcome.target then
        (.ok (), t.write (job.decidedBy now response.outcome) none)
      else (.error (.store (.invalidTransition job.id job.role job.state response.outcome.target)),
        t) := by
  rw [handle, applyResponse, alone_store, Store.Call.perform, h]
  dsimp only
  rw [alone_ask]
  simp only [reply]
  rw [alone_move, Job.accept_eq]
  by_cases hmove : JobState.canMove job.role job.state response.outcome.target = true
  · have hupdate := update_eq_write h (Job.decidedBy_id job now response.outcome)
    rw [if_pos hmove, if_pos hmove]
    dsimp only
    rw [alone_store, Store.Call.perform, hupdate]
    rfl
  · rw [if_neg hmove, if_neg hmove]

/-! ## Any number of outcomes -/

/-- The table has a job with the id, and it is being provisioned. -/
def Awaits (t : Table) (id : String) : Prop :=
  ∃ job, t.get id = .ok (some job) ∧ job.state = .provisioning

/-- The outcome finds its job past provisioning, or not yet there, and is taken all
the same. -/
def ComesLate (t : Table) (response : ProvisionResponse) : Prop :=
  ∃ job, t.get response.jobId = .ok (some job) ∧ job.Late response.outcome

/-- An outcome is accepted if its job is being provisioned, and otherwise it is
refused and nothing changes. -/
structure AsPromised (t : Table) (response : ProvisionResponse) (now : Instant) : Prop where
  accepted : Awaits t response.jobId → (handle t response now).1 = .ok ()
  refused : ¬ Awaits t response.jobId →
    (∃ e, (handle t response now).1 = .error e) ∧ (handle t response now).2 = t

/-- The table after outcomes that are handled one after the other. -/
def handleAll (t : Table) : List (ProvisionResponse × Instant) → Table
  | [] => t
  | (response, now) :: rest => handleAll (handle t response now).2 rest

def AllAsPromised (t : Table) : List (ProvisionResponse × Instant) → Prop
  | [] => True
  | (response, now) :: rest =>
    AsPromised t response now ∧ AllAsPromised (handle t response now).2 rest

/-- None of the outcomes comes late when it is handled. -/
def NoneLate (t : Table) : List (ProvisionResponse × Instant) → Prop
  | [] => True
  | (response, now) :: rest => ¬ ComesLate t response ∧ NoneLate (handle t response now).2 rest

theorem asPromised_iff (t : Table) (response : ProvisionResponse) (now : Instant) :
    AsPromised t response now ↔ ¬ ComesLate t response := by
  cases hget : t.get response.jobId with
  | error e =>
      refine ⟨fun _ ⟨job, hjob, _⟩ => ?_, fun _ => ⟨fun ⟨job, hjob, _⟩ => ?_, fun _ => ?_⟩⟩
      · rw [hget] at hjob; cases hjob
      · rw [hget] at hjob; cases hjob
      · rw [handle_error hget]; exact ⟨⟨_, rfl⟩, rfl⟩
  | ok found =>
      cases found with
      | none =>
          refine ⟨fun _ ⟨job, hjob, _⟩ => ?_, fun _ => ⟨fun ⟨job, hjob, _⟩ => ?_, fun _ => ?_⟩⟩
          · rw [hget] at hjob; cases hjob
          · rw [hget] at hjob; cases hjob
          · rw [handle_none hget]; exact ⟨⟨_, rfl⟩, rfl⟩
      | some job =>
          have hawaits : Awaits t response.jobId ↔ job.state = .provisioning := by
            refine ⟨fun ⟨j, hj, hstate⟩ => ?_, fun hstate => ⟨job, hget, hstate⟩⟩
            rw [hget] at hj
            cases hj
            exact hstate
          have hlate : ComesLate t response ↔ job.Late response.outcome := by
            refine ⟨fun ⟨j, hj, h⟩ => ?_, fun h => ⟨job, hget, h⟩⟩
            rw [hget] at hj
            cases hj
            exact h
          have hexclusive : job.Late response.outcome → job.state ≠ .provisioning := by
            cases response.outcome with
            | provisioned resources => rintro ⟨_, hstate⟩ h; rw [hstate] at h; cases h
            | failed detail => exact And.left
          have hmove := Job.canMove_target_iff job response.outcome
          rw [hlate]
          constructor
          · intro h hl
            obtain ⟨⟨e, he⟩, _⟩ := h.refused fun haw => hexclusive hl (hawaits.1 haw)
            rw [handle_some _ hget, if_pos (hmove.2 (.inr hl))] at he
            cases he
          · intro hl
            refine ⟨fun haw => ?_, fun haw => ?_⟩
            · rw [handle_some _ hget, if_pos (hmove.2 (.inl (hawaits.1 haw)))]
            · have hno : ¬ JobState.canMove job.role job.state response.outcome.target = true := by
                intro h
                rcases hmove.1 h with hprov | h
                · exact haw (hawaits.2 hprov)
                · exact hl h
              rw [handle_some _ hget, if_neg hno]
              exact ⟨⟨_, rfl⟩, rfl⟩

theorem allAsPromised_iff (t : Table) (responses : List (ProvisionResponse × Instant)) :
    AllAsPromised t responses ↔ NoneLate t responses := by
  induction responses generalizing t with
  | nil => exact Iff.rfl
  | cons r rest ih => exact and_congr (asPromised_iff t r.1 r.2) (ih _)

/-- An outcome touches no row but that of its job. -/
theorem row?_handle_of_ne (h : response.jobId ≠ id) :
    (handle t response now).2.row? id = t.row? id := by
  cases hget : t.get response.jobId with
  | error e => rw [handle_error hget]
  | ok found =>
      cases found with
      | none => rw [handle_none hget]
      | some job =>
          rw [handle_some _ hget]
          split
          · rw [Table.row?_write, if_neg]
            rw [Job.decidedBy_id, (Table.get_eq_some hget).1]
            exact h
          · rfl

/-- A row in another state is that of no job being provisioned. -/
theorem not_awaits {s : JobState} (hs : s ≠ .provisioning)
    (h : ∀ r, t.row? id = some r → r.state = .text s.name) : ¬ Awaits t id := by
  rintro ⟨job, hget, hstate⟩
  obtain ⟨_, r, hr, hj⟩ := Table.get_eq_some hget
  have hshows := (Row.shows_of_toJob? hj).state
  rw [h r hr, Cell.text?, Option.bind_some, JobState.ofName?_name, hstate] at hshows
  exact hs (Option.some.inj hshows)

/-- What was decided stays. -/
theorem row?_handleAll_settled {s : JobState} {responses : List (ProvisionResponse × Instant)}
    (hs : s ≠ .provisioning) (h : ∀ r, t.row? id = some r → r.state = .text s.name)
    (hlate : NoneLate t responses) : (handleAll t responses).row? id = t.row? id := by
  induction responses generalizing t with
  | nil => rfl
  | cons e rest ih =>
      obtain ⟨response, now⟩ := e
      have hrow : (handle t response now).2.row? id = t.row? id := by
        by_cases hid : response.jobId = id
        · subst hid
          rw [(((asPromised_iff t response now).2 hlate.1).refused (not_awaits hs h)).2]
        · exact row?_handle_of_ne hid
      rw [handleAll, ih (by rw [hrow]; exact h) hlate.2, hrow]

/-- The outcomes of a list are accepted while their jobs are being provisioned, and
refused otherwise, just if none of them comes late; and then the first outcome for
a job that is being provisioned decides it, and nothing that follows changes it. -/
theorem outcomes_as_promised_iff (t : Table) (responses : List (ProvisionResponse × Instant)) :
    (AllAsPromised t responses ↔ NoneLate t responses) ∧
    (NoneLate t responses → ∀ id job, t.get id = .ok (some job) → job.state = .provisioning →
      (handleAll t responses).row? id =
        match responses.find? fun e => e.1.jobId = id with
        | none => t.row? id
        | some (response, now) =>
          (t.row? id).map (·.updatedFrom (job.decidedBy now response.outcome))) := by
  refine ⟨allAsPromised_iff t responses, fun hlate id job hget hstate => ?_⟩
  induction responses generalizing t with
  | nil => rfl
  | cons e rest ih =>
      obtain ⟨response, now⟩ := e
      by_cases hid : response.jobId = id
      · subst hid
        rw [List.find?_cons_of_pos (by simp), handleAll]
        obtain ⟨hjob, -⟩ := Table.get_eq_some hget
        have hmove := (Job.canMove_target_iff job response.outcome).2 (.inl hstate)
        have hrow : (handle t response now).2.row? response.jobId =
            (t.row? response.jobId).map (·.updatedFrom (job.decidedBy now response.outcome)) := by
          rw [handle_some _ hget, if_pos hmove, Table.row?_write,
            if_pos ((Job.decidedBy_id job now response.outcome).trans hjob)]
        dsimp only
        rw [← hrow]
        refine row?_handleAll_settled (s := response.outcome.target) ?_ (fun r hr => ?_) hlate.2
        · cases response.outcome <;> simp [ProvisionOutcome.target]
        · rw [hrow, Option.map_eq_some_iff] at hr
          obtain ⟨_, _, rfl⟩ := hr
          exact congrArg (Cell.text ∘ JobState.name)
            (Job.decidedBy_state job now response.outcome)
      · have hget' : (handle t response now).2.get id = .ok (some job) := by
          rw [Table.get_eq, row?_handle_of_ne hid, ← Table.get_eq]
          exact hget
        rw [List.find?_cons_of_neg (by simpa using hid), handleAll, ih _ hlate.2 hget',
          row?_handle_of_ne hid]

/-- An initiator's job that is being provisioned. -/
def waiting : Job where
  id := "job"
  correlationId := "transfer"
  role := .initiator
  state := .provisioning
  request := { id := "transfer", destination := { kind := localDirectory } }
  createdAt := .epoch
  stateTimestamp := .epoch

/-- The table of that job alone. -/
def waitingTable : Table :=
  ⟨[Row.ofJob waiting]⟩

/-- Two outcomes for the job, of which only the first should count. -/
def twoOutcomes : List (ProvisionResponse × Instant) :=
  [(⟨"job", .provisioned []⟩, .epoch), (⟨"job", .failed "late"⟩, .epoch)]

theorem keeps_waiting : waitingTable.Keeps waiting :=
  Table.keeps_ofJob (Row.reads_ofJob_epoch rfl rfl)

theorem get_waiting : waitingTable.get "job" = .ok (some waiting) :=
  keeps_waiting.get

theorem get_provisioned :
    (waitingTable.write (waiting.decidedBy .epoch (.provisioned [])) none).get "job" =
      .ok (some (waiting.decidedBy .epoch (.provisioned []))) := by
  have hkeeps : (waitingTable.write (waiting.decidedBy .epoch (.provisioned [])) none).Keeps
      (waiting.decidedBy .epoch (.provisioned [])) := keeps_waiting.write rfl (by decide)
  exact hkeeps.get

/-- A failure that is reported after the resources were is accepted, and the job has
failed. -/
theorem second_outcome_accepted :
    ¬ AllAsPromised waitingTable twoOutcomes ∧
    ((handleAll waitingTable twoOutcomes).get "job").map (fun found => found.map (·.state)) =
      .ok (some .error) := by
  have hfirst : (handle waitingTable ⟨"job", .provisioned []⟩ .epoch).2 =
      waitingTable.write (waiting.decidedBy .epoch (.provisioned [])) none := by
    rw [handle_some ⟨"job", .provisioned []⟩ get_waiting, if_pos (by decide)]
  constructor
  · rw [allAsPromised_iff]
    intro hlate
    have hnot := hlate.2.1
    rw [hfirst] at hnot
    exact hnot ⟨_, get_provisioned, by simp [Job.Late, Job.decidedBy, JobState.isTerminal]⟩
  · rw [twoOutcomes, handleAll, hfirst, handleAll, handleAll,
      handle_some ⟨"job", .failed "late"⟩ get_provisioned,
      if_pos (by decide)]
    decide +kernel

end Handoff

end Ferry
