import Ferry.Proofs.TaskSystem.Basic
import Ferry.Proofs.Job.Consistency
import Ferry.Proofs.Metrics
import Ferry.Proofs.Store.Rows

/-!
# Moves that are stored are counted

A program that has written a state to the store owes the counters a move to it. It is
nothing but the replies to its own calls that decide what it owes (`owed`), and what it
does about that can be read off the program (`Settles`): it calls nobody but counters
before it has counted the move, it counts none that it does not owe, and when it is done
it owes nothing. There is one rule per way to write, and every place that counts a move
is an instance of one of them.

So in every state of a run the moves that were counted and those that are still owed are
together the states that were written. The programs are those of a task system, any number of
each, and between any two calls somebody else may move the table as he likes and count
whatever is no move.
-/

namespace Ferry

open Operation Store

namespace Counting

open Service (Exchange)
open TaskSystem (Duty)

/-! ## What a program owes -/

/-- The state that a call has written to the store. -/
def written? : (q : Request) → q.Reply → Option JobState
  | .store (.create job), .ok () => some job.state
  | .store (.update job), .ok () => some job.state
  | .store (.updateIfState job _), .ok true => some job.state
  | _, _ => none

/-- What is owed after a call by who has owed this before. -/
def owedAfter (owed : Option JobState) : (q : Request) → q.Reply → Option JobState
  | .count (.stateTransitions _) _, _ => none
  | q, r => (written? q r).or owed

/-- What is owed after these calls, the latest of which is the first: the state written
last, unless a move has been counted since. -/
def owed : List Exchange → Option JobState
  | [] => none
  | e :: earlier => owedAfter (owed earlier) e.call e.reply

/-- Who owes the count of a move may count it, and any other counter, but makes no other call
before. -/
def Permits (owed : Option JobState) : Request → Prop
  | .count (.stateTransitions state) n => owed = some state ∧ n = 1
  | .count _ _ => True
  | _ => owed = none

theorem owedAfter_eq_none {q : Request} {r : q.Reply} (h : written? q r = none) :
    owedAfter none q r = none := by
  rw [owedAfter.eq_def]
  split
  · rfl
  · rw [h]
    rfl

/-- Who owes this and goes on with the program settles what he owes, and whatever he comes
to owe. -/
def Settles {α : Type} : Option JobState → Activity α → Prop
  | owed, .done _ => owed = none
  | owed, .call q next => Permits owed q ∧ ∀ r, Settles (owedAfter owed q r) (next r)

section Rules

variable {α β : Type} {state : JobState} {before : Option JobState}

theorem Settles.bind {f : Activity α} {g : α → Activity β} (hf : Settles before f)
    (hg : ∀ a, Settles none (g a)) : Settles before (f.bind g) := by
  induction f generalizing before with
  | done a =>
      obtain rfl : before = none := hf
      exact hg a
  | call q next ih => exact ⟨hf.1, fun r => ih r (hf.2 r)⟩

theorem settles_pure (a : α) : Settles none (pure a : Operation α).run :=
  rfl

theorem settles_throw (e : OrchestratorError) : Settles none (throw e : Operation α).run :=
  rfl

theorem settles_bind {f : Operation α} {g : α → Operation β} (hf : Settles before f.run)
    (hg : ∀ a, Settles none (g a).run) : Settles before (f >>= g).run := by
  refine Settles.bind hf fun result => ?_
  cases result with
  | ok a => exact hg a
  | error e => exact settles_throw e

/-- The call goes neither to the store nor to a counter. -/
def Aside : Request → Prop
  | .store _ | .count .. => False
  | _ => True

theorem settles_ask {q : Request} (hq : Aside q) : Settles none (ask q).run := by
  cases q with
  | store _ | count _ _ => exact hq.elim
  | provision _ | send _ _ | acknowledge _ _ | startFlow _ | isComplete _ | now | freshId
  | isRunning | overflow => exact ⟨rfl, fun _ => rfl⟩

theorem settles_move (moved : Except JobError Job) : Settles none (Operation.move moved).run := by
  cases moved <;> rfl

theorem settles_read {c : Store.Call} (hc : ∀ r, written? (.store c) r = none) :
    Settles none (store c).run := by
  refine ⟨rfl, fun r => ?_⟩
  rw [owedAfter_eq_none (hc r)]
  cases r <;> rfl

/-- The counter counts no moves. What it counts may be counted while a move is owed. -/
def Other : Counter → Prop
  | .stateTransitions _ => False
  | _ => True

theorem settles_count_owing (c : Counter) (hc : Other c) {n : Nat} {g : Unit → Operation α}
    (hg : Settles before (g ()).run) : Settles before (count c n >>= g).run := by
  cases c with
  | stateTransitions state => exact hc.elim
  | _ => exact ⟨trivial, fun _ => hg⟩

theorem settles_count (c : Counter) (hc : Other c) {n : Nat} :
    Settles none (count c n).run := by
  cases c with
  | stateTransitions state => exact hc.elim
  | _ => exact ⟨trivial, fun _ => rfl⟩

theorem settles_countMove (job : Job) : Settles (some job.state) (countMove job).run :=
  ⟨⟨rfl, rfl⟩, fun _ => rfl⟩

theorem settles_create {job : Job} {g : Except JobError Unit → Operation α}
    (hok : Settles (some job.state) (g (.ok ())).run)
    (herror : ∀ e, Settles none (g (.error e)).run) :
    Settles none (ask (.store (.create job)) >>= g).run := by
  refine ⟨rfl, fun r => ?_⟩
  cases r with
  | ok u => exact hok
  | error e => exact herror e

theorem settles_update {job : Job} {g : Unit → Operation α}
    (hg : Settles (some job.state) (g ()).run) :
    Settles none (store (.update job) >>= g).run := by
  refine ⟨rfl, fun r => ?_⟩
  cases r with
  | ok u => exact hg
  | error e => rfl

/-- A write over a state is counted if it hits. -/
theorem settles_swap (after : Job) (expected : JobState) {g : Operation Unit}
    (hg : Settles none g.run) :
    Settles none (do
      if ← store (.updateIfState after expected) then countMove after else g).run := by
  refine ⟨rfl, fun r => ?_⟩
  match r with
  | .ok true => exact settles_countMove after
  | .ok false => exact hg
  | .error e => rfl

theorem settles_forEach {f : Job → Operation Unit} (hf : ∀ job, Settles none (f job).run)
    (jobs : List Job) : Settles none (forEach f jobs).run := by
  induction jobs with
  | nil => rfl
  | cons job rest ih => exact settles_bind (hf job) fun _ => ih

end Rules

/-! ## The programs -/

theorem settles_initiate (role : Role) (request : TransferRequest) :
    Settles none (initiate role request).run := by
  rw [initiate]
  split
  · exact settles_throw (.invalidRequest "request id cannot be empty")
  · refine settles_bind (settles_read fun _ => rfl) fun found => ?_
    match found with
    | some id => exact settles_pure id
    | none =>
        refine settles_bind (settles_ask trivial) fun id => ?_
        refine settles_bind (settles_ask trivial) fun now => settles_create ?_ fun e => ?_
        · refine settles_count_owing (.jobsInitiated role) trivial ?_
          exact settles_bind (settles_countMove (.new id role request now)) fun _ => settles_pure id
        · cases e with
          | duplicateCorrelationId c =>
              refine settles_bind (settles_read fun _ => rfl) fun found => ?_
              match found with
              | some id => exact settles_pure id
              | none => exact settles_throw _
          | notFound _ | invalidTransition _ _ _ _ | unknownState _ | unknownRole _
          | database _ => exact settles_throw _

theorem settles_receive (inbound : InboundTransfer) : Settles none (receive inbound).run := by
  refine settles_bind (settles_initiate .executor inbound.request) fun id => ?_
  split
  · exact settles_pure id
  · exact settles_bind (settles_ask trivial) fun _ => settles_pure id

theorem settles_provision (job : Job) : Settles none (Cycle.provision job).run := by
  refine settles_bind (settles_ask trivial) fun _ => settles_bind (settles_ask trivial) fun _ => ?_
  refine settles_bind (settles_move _) fun begun => settles_update ?_
  refine settles_bind (settles_countMove begun) fun _ => ?_
  refine settles_bind (settles_ask trivial) fun r => ?_
  match r with
  | .ok () => exact settles_pure ()
  | .error e =>
      refine settles_bind (settles_ask trivial) fun _ => ?_
      refine settles_bind (settles_move _) fun failed => settles_update ?_
      refine settles_bind (settles_countMove failed) fun _ => ?_
      exact settles_count (.jobFailures .provisioning) trivial

theorem settles_provisionPhase (config : Config.Orchestrator) :
    Settles none (Cycle.provisionPhase config).run := by
  refine settles_bind (settles_read fun _ => rfl) fun jobs => ?_
  refine settles_bind (settles_forEach settles_provision jobs) fun _ => ?_
  exact settles_bind (settles_count (.jobsProcessed .provisioning) trivial) fun _ => settles_pure _

theorem settles_send (job : Job) : Settles none (Cycle.send job).run := by
  refine settles_bind (settles_ask trivial) fun _ => ?_
  refine settles_bind (settles_move _) fun sent => settles_update ?_
  refine settles_bind (settles_countMove sent) fun _ => ?_
  refine settles_bind (settles_ask trivial) fun r => ?_
  match r with
  | .ok () => exact settles_pure ()
  | .error e =>
      refine settles_bind (settles_count (.jobFailures .dispatch) trivial) fun _ => ?_
      refine settles_bind (settles_ask trivial) fun _ => ?_
      exact settles_bind (settles_move _) fun failed => settles_swap failed .sent (settles_pure ())

theorem settles_checkCount (job : Job) (outcome : FlowOutcome) :
    Settles none (Cycle.checkCount job outcome).run := by
  rw [Cycle.checkCount]
  split
  · exact settles_ask trivial
  · exact settles_pure ()

theorem settles_execute (config : Config.Orchestrator) (job : Job) :
    Settles none (Cycle.execute config job).run := by
  refine settles_bind (settles_ask trivial) fun outcome => ?_
  refine settles_bind (settles_count (.flowOutcomes outcome.verdict) trivial) fun _ => ?_
  refine settles_bind (settles_ask trivial) fun _ => ?_
  refine settles_bind (settles_checkCount job outcome) fun _ => ?_
  refine settles_bind (settles_move _) fun after => ?_
  have hswap := settles_swap after .provisioned (settles_pure ())
  split
  · exact settles_bind (settles_count (.jobFailures .flow) trivial) fun _ => hswap
  · exact hswap

theorem settles_dispatchPhase (config : Config.Orchestrator) :
    Settles none (Cycle.dispatchPhase config).run := by
  refine settles_bind (settles_read fun _ => rfl) fun jobs => ?_
  refine settles_bind (settles_forEach (fun job => ?_) jobs) fun _ => ?_
  · rw [Cycle.dispatch]
    split
    · exact settles_send job
    · exact settles_execute config job
  · exact settles_bind (settles_count (.jobsProcessed .dispatch) trivial) fun _ => settles_pure _

theorem settles_arrived (jobs : List Job) : Settles none (Cycle.arrived jobs).run := by
  induction jobs with
  | nil => exact settles_pure []
  | cons job rest ih =>
      exact settles_bind (settles_ask trivial) fun _ => settles_bind ih fun _ => settles_pure _

theorem settles_complete (job : Job) : Settles none (Cycle.complete job).run := by
  refine settles_bind (settles_ask trivial) fun _ => ?_
  exact settles_bind (settles_move _) fun done => settles_update (settles_countMove done)

theorem settles_completionPhase (config : Config.Orchestrator) :
    Settles none (Cycle.completionPhase config).run := by
  refine settles_bind (settles_read fun _ => rfl) fun jobs => ?_
  dsimp only
  split
  · exact settles_throw _
  · refine settles_bind (settles_arrived jobs) fun done => ?_
    refine settles_bind (settles_forEach settles_complete done) fun _ => ?_
    exact settles_bind (settles_count (.jobsProcessed .completion) trivial) fun _ => settles_pure _

theorem settles_cycle (config : Config.Orchestrator) : Settles none (cycle config).run := by
  refine settles_bind (settles_provisionPhase config) fun _ => ?_
  refine settles_bind (settles_ask trivial) fun goOn => ?_
  cases goOn with
  | false => rfl
  | true =>
      refine settles_bind (settles_dispatchPhase config) fun _ => ?_
      refine settles_bind (settles_ask trivial) fun goOn => ?_
      cases goOn with
      | false => rfl
      | true => exact settles_bind (settles_completionPhase config) fun _ => settles_pure _

theorem settles_applyResponse (response : ProvisionResponse) :
    Settles none (applyResponse response).run := by
  refine settles_bind (settles_read fun _ => rfl) fun found => ?_
  match found with
  | none => exact settles_throw _
  | some job =>
      refine settles_bind (settles_ask trivial) fun _ => ?_
      refine settles_bind (settles_move _) fun after => settles_update ?_
      refine settles_count_owing (.provisioningResponses response.outcome.isProvisioned) trivial ?_
      exact settles_countMove after

theorem settles_finish (c : String) (failure : Option String) (rounds : Nat) :
    Settles none (Flow.finish c failure rounds).run := by
  have hload : Settles none (Flow.load c).run := by
    refine settles_bind (settles_read fun _ => rfl) fun found => ?_
    match found with
    | none => exact settles_throw _
    | some id =>
        refine settles_bind (settles_read fun _ => rfl) fun found => ?_
        match found with
        | none => exact settles_throw _
        | some job => exact settles_pure job
  induction rounds with
  | zero => exact settles_pure ()
  | succ n ih =>
      refine settles_bind hload fun job => ?_
      split
      · exact settles_pure ()
      · refine settles_bind (settles_ask trivial) fun _ => ?_
        exact settles_bind (settles_move _) fun after => settles_swap after job.state ih

/-- The state of an acknowledged job is counted by its name. -/
theorem settles_acknowledge (id : String) : Settles none (Api.acknowledgeTransfer id) := by
  refine ⟨rfl, fun found => ?_⟩
  match found with
  | .error e => rfl
  | .ok none => rfl
  | .ok (some job) =>
      change Settles none (if job.role ≠ .initiator || job.state ≠ .sent then _ else _)
      split
      · rfl
      · refine ⟨rfl, fun now => ?_⟩
        simp only [Program.bind]
        cases hmoved : job.acknowledged now with
        | error e => rfl
        | ok after =>
            have hstate : after.state = .acknowledged := by rw [(Job.move_eq_ok.1 hmoved).2]
            refine ⟨rfl, fun r => ?_⟩
            match r with
            | .error e => rfl
            | .ok false => rfl
            | .ok true => exact ⟨⟨congrArg some hstate, rfl⟩, fun _ => rfl⟩

theorem settles_duty (d : Duty) : Settles none d.program := by
  match d with
  | .cycle config => exact settles_cycle config
  | .respond response => exact settles_applyResponse response
  | .errand (.finish c failure rounds) => exact settles_finish c failure rounds
  | .errand (.acknowledge id) => exact settles_acknowledge id
  | .errand (.initiate role request) => exact settles_initiate role request
  | .errand (.receive inbound) => exact settles_receive inbound

/-! ## Programs side by side -/

structure Task where
  duty : Duty
  /-- What is left of its program. -/
  rest : Activity duty.Answer
  /-- The calls it has made, the latest first. -/
  made : List Exchange := []

namespace Task

/-- The state the task has written and not yet counted. -/
def owes (task : Task) : Option JobState :=
  owed task.made

/-- The task has written to the store and is not done. -/
def Underway (task : Task) : Prop :=
  (∃ e ∈ task.made, written? e.call e.reply ≠ none) ∧ ∀ a, task.rest ≠ .done a

/-- The next call of the task goes to a counter. -/
def AboutToCount (task : Task) : Prop :=
  ∃ c n next, task.rest = .call (.count c n) next

end Task

/-- A store and counters, and the programs at work on them. -/
structure State where
  table : Table
  metrics : Metrics := {}
  /-- All calls of the programs, the latest first. -/
  journal : List Exchange := []
  tasks : List Task := []

namespace State

/-- How often the programs have written a state to the store. -/
def writes (s : State) (state : JobState) : Nat :=
  s.journal.countP fun e => written? e.call e.reply == some state

/-- How often a state was written and is not yet counted. -/
def debts (s : State) (state : JobState) : Nat :=
  s.tasks.countP fun task => task.owes == some state

/-- The counter of the moves to a state. -/
def moves (s : State) (state : JobState) : Nat :=
  s.metrics.count (.stateTransitions state)

end State

/-- The replies a call may get. A statement is carried out, or it fails. -/
def Admits (t : Table) : (q : Request) → q.Reply → Prop
  | .store c, r => r = (c.perform t).1 ∨ ∃ e, r = .error e
  | _, _ => True

/-- The counters after a call. -/
def counted (m : Metrics) : Request → Metrics
  | .count c n => m.add c n
  | _ => m

inductive Step (s : State) : State → Prop where
  | arrive (duty : Duty) : Step s { s with tasks := s.tasks ++ [⟨duty, duty.program, []⟩] }
  | call {before later duty q next made}
      (turn : s.tasks = before ++ ⟨duty, .call q next, made⟩ :: later)
      (r : q.Reply) (admits : Admits s.table q r) :
      Step s ⟨TaskSystem.after s.table q r, counted s.metrics q, ⟨q, r⟩ :: s.journal,
        before ++ ⟨duty, next r, ⟨q, r⟩ :: made⟩ :: later⟩
  /-- Somebody else writes what he likes, and counts what is no move. -/
  | others (table : Table) (metrics : Metrics)
      (spares : ∀ c, ¬ Other c → metrics.count c = s.metrics.count c) :
      Step s { s with table, metrics }

/-- A run from any store on, with all counters at zero. -/
structure Run where
  start : Table
  later : List State
  steps : ((⟨start, {}, [], []⟩ : State) :: later).IsChain Step

/-- The state a run has come to. -/
def Run.last (run : Run) : State :=
  ((⟨run.start, {}, [], []⟩ : State) :: run.later).getLast (List.cons_ne_nil _ _)

variable {s s' : State} {t : Table} {q : Request} {state : JobState}

/-- A call adds to what was counted or is owed just what it has written. -/
theorem moves_call {before : Option JobState} (h : Permits before q) (r : q.Reply) (m : Metrics)
    (state : JobState) :
    (counted m q).count (.stateTransitions state) +
        (if owedAfter before q r == some state then 1 else 0) =
      m.count (.stateTransitions state) + (if before == some state then 1 else 0) +
        if written? q r == some state then 1 else 0 := by
  cases q with
  | count c n =>
      rw [counted, Metrics.count_add]
      cases c with
      | stateTransitions counted =>
          obtain ⟨rfl, rfl⟩ := h
          simp [owedAfter, written?]
      | _ =>
          rw [if_neg (by simp)]
          rfl
  | store c =>
      obtain rfl : before = none := h
      simp [counted, owedAfter]
  | provision _ | send _ _ | acknowledge _ _ | startFlow _ | isComplete _ | now | freshId
  | isRunning | overflow =>
      obtain rfl : before = none := h
      simp [counted, owedAfter, written?]

/-- The invariant of runs: every task will count the moves it owes, and what is counted and owed of
each state are the writes of it. -/
structure Sound (s : State) : Prop where
  settles : ∀ task ∈ s.tasks, Settles task.owes task.rest
  balance : ∀ state, s.moves state + s.debts state = s.writes state

theorem sound_start (t : Table) : Sound ⟨t, {}, [], []⟩ where
  settles task htask := by cases htask
  balance state := rfl

theorem sound_step (h : Sound s) (hstep : Step s s') : Sound s' := by
  cases hstep with
  | arrive duty =>
      refine ⟨List.forall_mem_append.2 ⟨h.settles, ?_⟩, fun state => ?_⟩
      · exact List.forall_mem_singleton.2 (settles_duty duty)
      · have hbalance := h.balance state
        rw [State.debts, List.countP_append]
        exact hbalance
  | @call before later duty q next made turn r admits =>
      have hsettles := h.settles
      rw [turn, List.forall_mem_append, List.forall_mem_cons] at hsettles
      obtain ⟨hbefore, (hmine : Settles (owed made) (.call q next)), hlater⟩ := hsettles
      refine ⟨List.forall_mem_append.2 ⟨hbefore, ?_⟩, fun state => ?_⟩
      · exact List.forall_mem_cons.2 ⟨hmine.2 r, hlater⟩
      · have hbalance := h.balance state
        have hcall := moves_call hmine.1 r s.metrics state
        -- of all that is summed up only this task's debt, the journal and the counter change
        simp only [State.moves, State.debts, State.writes, Task.owes, turn, List.countP_append,
          List.countP_cons] at hbalance ⊢
        have hmade : owed (⟨q, r⟩ :: made) = owedAfter (owed made) q r := rfl
        rw [hmade]
        omega
  | others table metrics spares =>
      refine ⟨h.settles, fun state => ?_⟩
      rw [State.moves, spares (.stateTransitions state) id]
      exact h.balance state

/-- The moves that are counted are the states that were written. -/
structure Balanced (s : State) : Prop where
  /-- What was written is counted, or is yet to be. -/
  balance : ∀ state, s.moves state + s.debts state = s.writes state
  /-- Whoever has yet to count a move does nothing else first. -/
  prompt : ∀ task ∈ s.tasks, task.owes ≠ none → task.Underway ∧ task.AboutToCount
  /-- While nobody who has written is under way, what was written is counted. -/
  settled : (∀ task ∈ s.tasks, ¬ task.Underway) → ∀ state, s.moves state = s.writes state

theorem exists_written_of_owed {made : List Exchange} (h : owed made ≠ none) :
    ∃ e ∈ made, written? e.call e.reply ≠ none := by
  induction made with
  | nil => exact absurd rfl h
  | cons e earlier ih =>
      by_cases hwritten : written? e.call e.reply = none
      · -- what is still owed was owed before the last call
        have hearlier : owed earlier ≠ none := by
          intro hnone
          rw [owed, hnone] at h
          exact h (owedAfter_eq_none hwritten)
        obtain ⟨d, hd, hwrote⟩ := ih hearlier
        exact ⟨d, List.mem_cons_of_mem _ hd, hwrote⟩
      · exact ⟨e, List.mem_cons_self, hwritten⟩

theorem aboutToCount_of_settles {task : Task} (h : Settles task.owes task.rest)
    (howes : task.owes ≠ none) : task.AboutToCount := by
  obtain ⟨duty, rest, made⟩ := task
  cases rest with
  | done a => exact absurd h howes
  | call q next =>
      cases q with
      | count c n => exact ⟨c, n, next, rfl⟩
      | store _ | provision _ | send _ _ | acknowledge _ _ | startFlow _ | isComplete _ | now
      | freshId | isRunning | overflow => exact absurd h.1 howes

theorem Sound.prompt (h : Sound s) {task : Task} (htask : task ∈ s.tasks)
    (howes : task.owes ≠ none) : task.Underway ∧ task.AboutToCount := by
  obtain ⟨c, n, next, hrest⟩ := aboutToCount_of_settles (h.settles task htask) howes
  refine ⟨⟨exists_written_of_owed howes, fun a hdone => ?_⟩, c, n, next, hrest⟩
  rw [hdone] at hrest
  cases hrest

theorem balanced_of_sound (h : Sound s) : Balanced s where
  balance := h.balance
  prompt task htask howes := h.prompt htask howes
  settled hrest state := by
    have hdebts : s.debts state = 0 := by
      rw [State.debts, List.countP_eq_zero]
      intro task htask howes
      have howed : task.owes ≠ none := by simp [eq_of_beq howes]
      exact hrest task htask (h.prompt htask howed).1
    have hbalance := h.balance state
    omega

/-- In every run, whoever is at work and whatever happens to them, the moves that are counted
are those that were stored. -/
theorem Run.balanced (run : Run) : Balanced run.last :=
  balanced_of_sound <| run.steps.induction Sound _ (fun _ _ hstep h => sound_step h hstep)
    (fun _ => sound_start run.start) run.last (List.getLast_mem _)

end Counting

end Ferry
