import Ferry.Proofs.TaskSystem.Counting
import Ferry.Proofs.Interference
import Ferry.Proofs.Service.Calls
import Ferry.Proofs.Store.Queue
import Mathlib.Algebra.BigOperators.Group.List.Basic

/-!
# Which failures are counted

Each phase of a cycle fails jobs and counts the jobs it has failed. When provisioning
cannot start the failed job is stored first and then counted. When a request cannot be
sent or a flow cannot go on it is counted first, and then the store is asked to take the
failed job over the state it was last in. If the store does not take it, because
somebody else has moved the job meanwhile or because the database fails, nobody takes
back what was counted.

So what is counted are the failed jobs that the store has taken and those that it has
not. The two are told apart by the calls a cycle has made: the state it asked for last
says which phase it is in (`drawn`), and of a batch of provisioned jobs the side of a
job says whether it was to be sent or to be moved (`phaseOf`).
-/

namespace Ferry

namespace Failures

open Operation Store
open Service (Exchange Makes)
open TaskSystem (Duty)
open Counting (Task State written?)

/-! ## Whose failure it is -/

/-- The phase that takes up a job of the state. -/
def phaseOf : JobState → Role → Phase
  | .initial, _ => .provisioning
  | .provisioned, .initiator => .dispatch
  | .provisioned, .executor => .flow
  | _, _ => .completion

def drawnAfter (drawn : Option JobState) : Request → Option JobState
  | .store (.next state _) => some state
  | _ => drawn

/-- The state whose jobs were asked for last, the latest of the calls being the first. -/
def drawn : List Exchange → Option JobState
  | [] => none
  | e :: earlier => drawnAfter (drawn earlier) e.call

/-- The failed job that the store is asked to take. -/
def failed? : Request → Option Job
  | .store (.update job) | .store (.updateIfState job _) =>
    if job.state = .error then some job else none
  | _ => none

/-- The phase that asks the store to take a failed job. -/
def failing? (drawn : Option JobState) (q : Request) : Option Phase :=
  match drawn, failed? q with
  | some state, some job => some (phaseOf state job.role)
  | _, _ => none

def countedBy (phase : Phase) : Request → Nat
  | .count (.jobFailures p) n => if p = phase then n else 0
  | _ => 0

/-- How many failed jobs of a phase were counted. -/
def counted (phase : Phase) (made : List Exchange) : Nat :=
  (made.map fun e => countedBy phase e.call).sum

/-- How many failed jobs of a phase the store has taken. -/
def stored (phase : Phase) : List Exchange → Nat
  | [] => 0
  | e :: earlier => stored phase earlier +
    if failing? (drawn earlier) e.call = some phase ∧ written? e.call e.reply = some .error
    then 1 else 0

/-- How many failed jobs of a phase the store was asked to take and has not. -/
def missed (phase : Phase) : List Exchange → Nat
  | [] => 0
  | e :: earlier => missed phase earlier +
    if failing? (drawn earlier) e.call = some phase ∧ written? e.call e.reply ≠ some .error
    then 1 else 0

/-- What is open between the store and the counters. -/
inductive Due where
  | nothing
  /-- A failed job was stored and is to be counted. -/
  | uncounted
  /-- A failed job was counted, and the store is to be asked to take it. -/
  | unstored (phase : Phase)
deriving DecidableEq

def dueAfter (drawn : Option JobState) (due : Due) : (q : Request) → q.Reply → Due
  | .count (.jobFailures phase) _, _ =>
    if phase = .provisioning then .nothing else .unstored phase
  | q, r =>
    match failing? drawn q with
    | none => due
    | some phase =>
      if phase = .provisioning ∧ written? q r = some .error then .uncounted else .nothing

/-- What is open after these calls, the latest of which is the first. -/
def due : List Exchange → Due
  | [] => .nothing
  | e :: earlier => dueAfter (drawn earlier) (due earlier) e.call e.reply

/-- What a cycle has counted are the failures it has had stored, those the store did not take, and
the one at hand if it is counted already. Those of provisioning are stored first. -/
structure Fair (made : List Exchange) : Prop where
  provisioning : counted .provisioning made + (if due made = .uncounted then 1 else 0) =
    stored .provisioning made
  others : ∀ phase, phase ≠ .provisioning → counted phase made =
    stored phase made + missed phase made + if due made = .unstored phase then 1 else 0

theorem fair_nil : Fair [] :=
  ⟨rfl, fun _ _ => rfl⟩

/-! ## Calls -/

section Calls

variable {q : Request} {r : q.Reply} {made : List Exchange} {d : Option JobState} {job : Job}

/-- The state of the batch at hand and what is open. -/
structure At (d : Option JobState) (open? : Due) (made : List Exchange) : Prop where
  drawn : drawn made = d
  due : due made = open?

/-- The call has nothing to do with failed jobs. -/
def Aside (q : Request) : Prop :=
  failed? q = none ∧ ¬ q.CountsFailure

theorem countedBy_eq_zero (hq : ¬ q.CountsFailure) (phase : Phase) : countedBy phase q = 0 := by
  rw [countedBy.eq_def]
  split
  · exact absurd trivial hq
  · rfl

theorem failing?_eq_none (hq : failed? q = none) : failing? d q = none := by
  cases d <;> simp [failing?, hq]

theorem counted_cons (phase : Phase) (q : Request) (r : q.Reply) (made : List Exchange) :
    counted phase (⟨q, r⟩ :: made) = counted phase made + countedBy phase q := by
  rw [counted, List.map_cons, List.sum_cons, Nat.add_comm]
  rfl

theorem dueAfter_eq (hq : ¬ q.CountsFailure) (due : Due) : dueAfter d due q r =
    match failing? d q with
    | none => due
    | some phase =>
      if phase = .provisioning ∧ written? q r = some .error then .uncounted else .nothing := by
  rw [dueAfter.eq_def]
  split
  · exact absurd trivial hq
  · rfl

theorem at_aside {open? : Due} (hq : Aside q) (h : At d open? made) :
    At (drawnAfter d q) open? (⟨q, r⟩ :: made) := by
  refine ⟨congrArg (drawnAfter · q) h.drawn, ?_⟩
  rw [due, dueAfter_eq hq.2, failing?_eq_none hq.1]
  exact h.due

theorem Fair.aside (h : Fair made) (hq : Aside q) : Fair (⟨q, r⟩ :: made) := by
  have hdue : due (⟨q, r⟩ :: made) = due made := (at_aside hq ⟨rfl, rfl⟩).due
  have hstored : ∀ phase, stored phase (⟨q, r⟩ :: made) = stored phase made := by
    intro phase
    simp [stored, failing?_eq_none hq.1]
  have hmissed : ∀ phase, missed phase (⟨q, r⟩ :: made) = missed phase made := by
    intro phase
    simp [missed, failing?_eq_none hq.1]
  constructor
  · rw [counted_cons, countedBy_eq_zero hq.2, hdue, hstored]
    exact h.provisioning
  · intro phase hphase
    rw [counted_cons, countedBy_eq_zero hq.2, hdue, hstored, hmissed]
    exact h.others phase hphase

/-- A job that failed to be provisioned is counted after it was stored. -/
theorem Fair.countStored (h : Fair made) (hdue : due made = .uncounted) :
    Fair (⟨.count (.jobFailures .provisioning) 1, ()⟩ :: made) := by
  have hnone : failing? (drawn made) (.count (.jobFailures .provisioning) 1) = none :=
    failing?_eq_none rfl
  have hprovisioning := h.provisioning
  constructor
  · simp [counted_cons, countedBy, stored, hnone, due, dueAfter, hdue] at hprovisioning ⊢
    omega
  · intro phase hphase
    have hothers := h.others phase hphase
    simp [counted_cons, countedBy, stored, missed, hnone, due, dueAfter, hdue,
      hphase.symm] at hothers ⊢
    omega

/-- Any other is counted before. -/
theorem Fair.countUnstored (h : Fair made) (hdue : due made = .nothing) {phase : Phase}
    (hphase : phase ≠ .provisioning) : Fair (⟨.count (.jobFailures phase) 1, ()⟩ :: made) := by
  have hnone : failing? (drawn made) (.count (.jobFailures phase) 1) = none := failing?_eq_none rfl
  have hprovisioning := h.provisioning
  constructor
  · simp [counted_cons, countedBy, stored, hnone, due, dueAfter, hdue, hphase] at hprovisioning ⊢
    omega
  · intro other hother
    have hothers := h.others other hother
    by_cases heq : phase = other
    · subst heq
      simp [counted_cons, countedBy, stored, missed, hnone, due, dueAfter, hdue,
        hphase] at hothers ⊢
      omega
    · simp [counted_cons, countedBy, stored, missed, hnone, due, dueAfter, hdue, hphase,
        heq] at hothers ⊢
      omega

/-- The store is asked to take a failed job: one that failed to be provisioned while nothing is
open, and any other when it has been counted. -/
theorem Fair.ask (h : Fair made) {phase : Phase} (hq : ¬ q.CountsFailure)
    (hfailing : failing? (drawn made) q = some phase)
    (hdue : due made = if phase = .provisioning then .nothing else .unstored phase) :
    Fair (⟨q, r⟩ :: made) := by
  have hprovisioning := h.provisioning
  constructor
  · by_cases hphase : phase = .provisioning <;> by_cases hwritten : written? q r = some .error <;>
      simp [counted_cons, countedBy_eq_zero hq, stored, hfailing, due, dueAfter_eq hq, hdue,
        hphase, hwritten] at hprovisioning ⊢ <;> omega
  · intro other hother
    have hothers := h.others other hother
    by_cases heq : phase = other
    · subst heq
      by_cases hwritten : written? q r = some .error <;>
        simp [counted_cons, countedBy_eq_zero hq, stored, missed, hfailing, due, dueAfter_eq hq,
          hdue, hother, hwritten] at hothers ⊢ <;> omega
    · by_cases hphase : phase = .provisioning <;> by_cases hwritten : written? q r = some .error <;>
        simp [counted_cons, countedBy_eq_zero hq, stored, missed, hfailing, due, dueAfter_eq hq,
          hdue, heq, hother.symm, hphase, hwritten] at hothers ⊢ <;> omega

end Calls

/-! ## Programs -/

/-- Nothing but its own calls says what a cycle has counted. -/
def terms : Discipline operationSignature (List Exchange) where
  inv := Fair
  answers q made r made' := made' = ⟨q, r⟩ :: made
  rely := Eq
  guarantee _ _ := True
  rely_refl _ := rfl
  rely_trans := Eq.trans

/-- An operation that fails has no failure left to count or to store. -/
def Closed (_ : OrchestratorError) (made : List Exchange) : Prop :=
  due made = .nothing

section Rules

variable {α : Type} {Q : α → List Exchange → Prop} {made : List Exchange} {d : Option JobState}
  {open? : Due} {job : Job} {q : Request}

theorem wpOr_answer {a : α} (h : Q a made) : terms.wpOr Closed (pure a) Q made := by
  refine Discipline.wpOr_pure fun made' hrely _ => ?_
  obtain rfl : made = made' := hrely
  exact h

theorem wpOr_fail {e : OrchestratorError} (h : due made = .nothing) :
    terms.wpOr Closed (throw e) Q made := by
  refine Discipline.wpOr_throw fun made' hrely _ => ?_
  obtain rfl : made = made' := hrely
  exact h

theorem wpOr_aside {g : q.Reply → Operation α} (hq : Aside q) (h : At d open? made)
    (hg : ∀ r made', At (drawnAfter d q) open? made' → terms.wpOr Closed (g r) Q made') :
    terms.wpOr Closed (ask q >>= g) Q made := by
  rintro made₁ rfl hfair r made₂ rfl
  exact ⟨hfair.aside hq, trivial, hg r _ (at_aside hq h)⟩

theorem wpOr_checkCount {g : Unit → Operation α} {outcome : FlowOutcome} (h : At d open? made)
    (hg : ∀ made', At d open? made' → terms.wpOr Closed (g ()) Q made') :
    terms.wpOr Closed (Cycle.checkCount job outcome >>= g) Q made :=
  Discipline.wpOr_checkCount (fun _ => wpOr_aside ⟨rfl, not_false⟩ h fun _ => hg) (hg made h)

/-- The last call of an operation. -/
theorem wpOr_aside_last {Q : q.Reply → List Exchange → Prop} (hq : Aside q) (h : At d open? made)
    (hQ : ∀ r made', At (drawnAfter d q) open? made' → Q r made') :
    terms.wpOr Closed (ask q) Q made := by
  rintro made₁ rfl hfair r made₂ rfl
  refine ⟨hfair.aside hq, trivial, ?_⟩
  rintro made₃ rfl _
  exact hQ r _ (at_aside hq h)

theorem stable (P : List Exchange → Prop) : terms.Stable P := by
  rintro made _ rfl h
  exact h

theorem preserves_aside (hq : Aside q) (hdrawn : drawnAfter d q = d) :
    terms.Preserves Closed (At d open?) (ask q) :=
  fun _ h => wpOr_aside_last hq h fun _ _ hat => hdrawn ▸ hat

theorem wpOr_moved {moved : Except JobError Job} {g : Job → Operation α} (h : At d .nothing made)
    (hg : ∀ after, moved = .ok after → terms.wpOr Closed (g after) Q made) :
    terms.wpOr Closed (Operation.move moved >>= g) Q made := by
  refine Discipline.wpOr_move (fun e _ made' hrely _ => ?_) hg
  obtain rfl : made = made' := hrely
  exact h.due

theorem wpOr_store_aside {c : Store.Call} {g : c.Answer → Operation α} (hc : Aside (.store c))
    (h : At d .nothing made) (hg : ∀ a made', At (drawnAfter d (.store c)) .nothing made' →
      terms.wpOr Closed (g a) Q made') : terms.wpOr Closed (store c >>= g) Q made := by
  rintro made₁ rfl hfair r made₂ rfl
  have hat := at_aside (r := r) hc h
  refine ⟨hfair.aside hc, trivial, ?_⟩
  cases r with
  | ok a => exact hg a _ hat
  | error e => exact wpOr_fail hat.due

/-- A failed job is handed to the store. -/
theorem at_ask {phase : Phase} {r : q.Reply} (hq : ¬ q.CountsFailure)
    (hfailing : failing? d q = some phase) (hdrawn : drawnAfter d q = d) (h : At d open? made) :
    At d (if phase = .provisioning ∧ written? q r = some .error then .uncounted else .nothing)
      (⟨q, r⟩ :: made) := by
  refine ⟨?_, ?_⟩
  · rw [← hdrawn, ← h.drawn]
    rfl
  · rw [due, dueAfter_eq hq, h.drawn, hfailing]

/-- The job was not counted before, and is to be counted if the store takes it. -/
theorem wpOr_update_failed {g : Unit → Operation α} (hjob : job.state = .error)
    (h : At (some .initial) .nothing made) (hg : ∀ made',
      At (some .initial) .uncounted made' → terms.wpOr Closed (g ()) Q made') :
    terms.wpOr Closed (store (.update job) >>= g) Q made := by
  have hfailing : failing? (some .initial) (.store (.update job)) = some .provisioning := by
    simp [failing?, failed?, hjob, phaseOf]
  have hquiet : ¬ (Request.store (.update job)).CountsFailure := not_false
  rintro made₁ rfl hfair r made₂ rfl
  have hat := at_ask (r := r) hquiet hfailing rfl h
  refine ⟨hfair.ask hquiet (by rw [h.drawn, hfailing]) (by rw [h.due]; rfl), trivial, ?_⟩
  cases r with
  | ok u => exact hg _ (by simpa [written?, hjob] using hat)
  | error e => exact wpOr_fail (by simpa [written?] using hat.due)

theorem wpOr_count_stored (h : At d .uncounted made) :
    terms.wpOr Closed (count (.jobFailures .provisioning)) (fun _ => At d .nothing) made := by
  rintro made₁ rfl hfair ⟨⟩ made₂ rfl
  refine ⟨hfair.countStored h.due, trivial, ?_⟩
  rintro made₃ rfl _
  exact ⟨h.drawn, rfl⟩

theorem wpOr_count_unstored {g : Unit → Operation α} {phase : Phase}
    (hphase : phase ≠ .provisioning) (h : At d .nothing made)
    (hg : ∀ made', At d (.unstored phase) made' → terms.wpOr Closed (g ()) Q made') :
    terms.wpOr Closed (count (.jobFailures phase) >>= g) Q made := by
  rintro made₁ rfl hfair ⟨⟩ made₂ rfl
  exact ⟨hfair.countUnstored h.due hphase, trivial, hg _ ⟨h.drawn, if_neg hphase⟩⟩

/-- A write over a state. If the job has failed it was counted before, and whether the store
takes it or not nothing is open afterwards. -/
theorem wpOr_swap {state expected : JobState} {after : Job}
    (hphase : phaseOf state after.role ≠ .provisioning)
    (h : At (some state)
      (if after.state = .error then .unstored (phaseOf state after.role) else .nothing) made) :
    terms.wpOr Closed (do if ← store (.updateIfState after expected) then countMove after)
      (fun _ => At (some state) .nothing) made := by
  have hquiet : ¬ (Request.store (.updateIfState after expected)).CountsFailure := not_false
  have hrest := Discipline.preserves_countIf (stable (At (some state) .nothing))
    (preserves_aside (q := .count (.stateTransitions after.state) 1) ⟨rfl, not_false⟩ rfl)
  by_cases hfailed : after.state = .error
  · have hfailing : failing? (some state) (.store (.updateIfState after expected)) =
        some (phaseOf state after.role) := by
      simp [failing?, failed?, hfailed]
    rw [if_pos hfailed] at h
    rintro made₁ rfl hfair r made₂ rfl
    have hat := at_ask (r := r) hquiet hfailing rfl h
    rw [if_neg fun hboth => hphase hboth.1] at hat
    refine ⟨hfair.ask hquiet (by rw [h.drawn, hfailing]) ?_, trivial, ?_⟩
    · rw [h.due, if_neg hphase]
    · cases r with
      | ok hit => exact hrest hit _ hat
      | error e => exact wpOr_fail hat.due
  · rw [if_neg hfailed] at h
    have hnone : failed? (.store (.updateIfState after expected)) = none := if_neg hfailed
    exact wpOr_store_aside ⟨hnone, hquiet⟩ h fun hit made' hat => hrest hit made' hat

theorem wpOr_each {f : Job → Operation Unit} {jobs : List Job}
    (hf : ∀ job made, At d .nothing made →
      terms.wpOr Closed (f job) (fun _ => At d .nothing) made) (h : At d .nothing made) :
    terms.wpOr Closed (forEach f jobs) (fun _ => At d .nothing) made := by
  refine Discipline.wpOr_forEach (I := fun _ => At d .nothing) ?_ ?_ jobs h
  · rintro _ made made' rfl hat
    exact hat
  · exact fun job _ made _ hat => hf job made hat

end Rules

/-! ## The phases of a cycle -/

section Phases

variable {made : List Exchange} {job after : Job}

theorem wpOr_provision (h : At (some .initial) .nothing made) :
    terms.wpOr Closed (Cycle.provision job) (fun _ => At (some .initial) .nothing) made := by
  refine wpOr_aside ⟨rfl, not_false⟩ h fun definitionId made h => ?_
  refine wpOr_aside ⟨rfl, not_false⟩ h fun now made h => ?_
  refine wpOr_moved h fun begun hbegun => ?_
  have hnone : failed? (.store (.update begun)) = none :=
    if_neg (by rw [(Job.provision_ok hbegun).state]; decide)
  refine wpOr_store_aside ⟨hnone, not_false⟩ h fun _ made h => ?_
  refine wpOr_aside ⟨rfl, not_false⟩ h fun _ made h => ?_
  refine wpOr_aside ⟨rfl, not_false⟩ h fun r made h => ?_
  cases r with
  | ok _ => exact wpOr_answer h
  | error e =>
      refine wpOr_aside ⟨rfl, not_false⟩ h fun now made h => ?_
      refine wpOr_moved h fun failed hfailed => ?_
      refine wpOr_update_failed (Job.failed_ok hfailed).state h fun made h => ?_
      refine wpOr_aside ⟨rfl, not_false⟩ h fun _ made h => ?_
      exact wpOr_count_stored h

theorem wpOr_send (hrole : job.role = .initiator) (h : At (some .provisioned) .nothing made) :
    terms.wpOr Closed (Cycle.send job) (fun _ => At (some .provisioned) .nothing) made := by
  refine wpOr_aside ⟨rfl, not_false⟩ h fun now made h => ?_
  refine wpOr_moved h fun sent hsent => ?_
  have hnone : failed? (.store (.update sent)) = none :=
    if_neg (by rw [(Job.move_ok hsent).state]; decide)
  refine wpOr_store_aside ⟨hnone, not_false⟩ h fun _ made h => ?_
  refine wpOr_aside ⟨rfl, not_false⟩ h fun _ made h => ?_
  refine wpOr_aside ⟨rfl, not_false⟩ h fun r made h => ?_
  cases r with
  | ok _ => exact wpOr_answer h
  | error e =>
      -- between the counting and the write the job is moved, which cannot be refused
      refine wpOr_count_unstored (by decide) h fun made h => ?_
      refine wpOr_aside ⟨rfl, not_false⟩ h fun now made h => ?_
      obtain ⟨failed, hfailed⟩ :
          ∃ failed, sent.failed ("dispatch failed: " ++ e.message) now = .ok failed :=
        Job.exists_map_move (by rw [(Job.move_ok hsent).state]; rfl) now
      refine Discipline.wpOr_moved hfailed ?_
      have hphase : phaseOf .provisioned failed.role = .dispatch := by
        rw [(Job.failed_ok hfailed).role, (Job.move_ok hsent).role, hrole, phaseOf]
      refine wpOr_swap (by rw [hphase]; decide) ?_
      rw [if_pos (Job.failed_ok hfailed).state, hphase]
      exact h

theorem wpOr_execute (config : Config.Orchestrator) (hrole : job.role = .executor)
    (h : At (some .provisioned) .nothing made) :
    terms.wpOr Closed (Cycle.execute config job) (fun _ => At (some .provisioned) .nothing)
      made := by
  refine wpOr_aside ⟨rfl, not_false⟩ h fun outcome made h => ?_
  refine wpOr_aside ⟨rfl, not_false⟩ h fun _ made h => ?_
  refine wpOr_aside ⟨rfl, not_false⟩ h fun now made h => wpOr_checkCount h fun made h => ?_
  refine wpOr_moved h fun after hafter => ?_
  have hphase : phaseOf .provisioned after.role = .flow := by
    rw [(Job.same_afterFlow hafter).2, hrole, phaseOf]
  have hswap : ∀ made, At (some .provisioned)
      (if after.state = .error then .unstored .flow else .nothing) made →
      terms.wpOr Closed (do if ← store (.updateIfState after .provisioned) then countMove after)
        (fun _ => At (some .provisioned) .nothing) made := by
    intro made h
    rw [← hphase] at h
    exact wpOr_swap (by rw [hphase]; decide) h
  by_cases hfailed : after.state = .error
  · simp only [hfailed, if_true] at hswap ⊢
    exact wpOr_count_unstored (by decide) h hswap
  · simp only [hfailed, if_false] at hswap ⊢
    exact hswap made h

/-- From a state in which nothing is open to one in which nothing is. -/
def KeepsClosed {α : Type} (f : Operation α) : Prop :=
  ∀ made, due made = .nothing → terms.wpOr Closed f (fun _ made' => due made' = .nothing) made

theorem keepsClosed_phase {state : JobState} {limit : Nat} {f : Job → Operation Unit}
    {phase : Phase} (hf : ∀ job made, At (some state) .nothing made →
      terms.wpOr Closed (f job) (fun _ => At (some state) .nothing) made) :
    KeepsClosed (do
      let jobs ← store (.next state limit)
      forEach f jobs
      count (.jobsProcessed phase) jobs.length
      pure jobs.length) := by
  intro made h
  refine wpOr_store_aside ⟨rfl, not_false⟩ ⟨rfl, h⟩ fun jobs made h => ?_
  refine Discipline.wpOr_then (wpOr_each hf h) fun _ made _ h => ?_
  exact wpOr_aside ⟨rfl, not_false⟩ h fun _ made h => wpOr_answer h.due

theorem keepsClosed_provisionPhase (config : Config.Orchestrator) :
    KeepsClosed (Cycle.provisionPhase config) :=
  keepsClosed_phase fun _ _ h => wpOr_provision h

theorem keepsClosed_dispatchPhase (config : Config.Orchestrator) :
    KeepsClosed (Cycle.dispatchPhase config) := by
  refine keepsClosed_phase fun job made h => ?_
  rw [Cycle.dispatch]
  cases hrole : job.role with
  | initiator => exact wpOr_send hrole h
  | executor => exact wpOr_execute config hrole h

theorem wpOr_complete {d : Option JobState} (h : At d .nothing made) :
    terms.wpOr Closed (Cycle.complete job) (fun _ => At d .nothing) made := by
  refine wpOr_aside ⟨rfl, not_false⟩ h fun now made h => ?_
  refine wpOr_moved h fun done hdone => ?_
  have hnone : failed? (.store (.update done)) = none :=
    if_neg (by rw [(Job.move_ok hdone).state]; decide)
  refine wpOr_store_aside ⟨hnone, not_false⟩ h fun _ made h => ?_
  exact wpOr_aside_last ⟨rfl, not_false⟩ h fun _ _ h => h

theorem keepsClosed_completionPhase (config : Config.Orchestrator) :
    KeepsClosed (Cycle.completionPhase config) := by
  intro made h
  refine wpOr_store_aside ⟨rfl, not_false⟩ ⟨rfl, h⟩ fun jobs made h => ?_
  dsimp only
  split
  · exact Discipline.wpOr_bind (wpOr_fail h.due)
  · refine Discipline.wpOr_then (Discipline.wpOr_arrived (stable _)
      (fun _ => preserves_aside ⟨rfl, not_false⟩ rfl) jobs h) fun done made _ ⟨_, h⟩ => ?_
    refine Discipline.wpOr_then (wpOr_each (fun _ _ h => wpOr_complete h) h) fun _ made _ h => ?_
    exact wpOr_aside ⟨rfl, not_false⟩ h fun _ made h => wpOr_answer h.due

theorem keepsClosed_cycle (config : Config.Orchestrator) : KeepsClosed (cycle config) := by
  refine Discipline.preserves_cycle (fun made h => ?_) (keepsClosed_provisionPhase config)
    (keepsClosed_dispatchPhase config) (keepsClosed_completionPhase config)
  exact wpOr_aside_last ⟨rfl, not_false⟩ ⟨rfl, h⟩ fun _ _ hat => hat.due

end Phases

/-! ## Runs -/

/-- What is told of the calls of a cycle, and nothing of those of anybody else. -/
def ofCycle (f : List Exchange → Nat) (task : Task) : Nat :=
  match task.duty with
  | .cycle _ => f task.made
  | _ => 0

/-- The same of all cycles together. -/
def ofCycles (f : List Exchange → Nat) (s : State) : Nat :=
  (s.tasks.map (ofCycle f)).sum

/-- The counter of the jobs failed by a phase. -/
def failures (s : State) (phase : Phase) : Nat :=
  s.metrics.count (.jobFailures phase)

/-- How many cycles have stored a failed job and not yet counted it. -/
def uncounted (s : State) : Nat :=
  ofCycles (fun made => if due made = .uncounted then 1 else 0) s

/-- How many cycles have counted a failed job of a phase and not yet asked the store to
take it. -/
def unstored (s : State) (phase : Phase) : Nat :=
  ofCycles (fun made => if due made = .unstored phase then 1 else 0) s

/-- A step, in which nobody counts failures but by a call. -/
def Step (s s' : State) : Prop :=
  Counting.Step s s' ∧
    (s'.journal = s.journal → ∀ phase, failures s' phase = failures s phase)

/-- A run from any store on, with all counters at zero. -/
structure Run where
  start : Table
  later : List State
  steps : ((⟨start, {}, [], []⟩ : State) :: later).IsChain Step

/-- The state a run has come to. -/
def Run.last (run : Run) : State :=
  ((⟨run.start, {}, [], []⟩ : State) :: run.later).getLast (List.cons_ne_nil _ _)

/-- No cycle is under way. -/
def AtRest (s : State) : Prop :=
  ∀ task ∈ s.tasks, ∀ config, task.duty = .cycle config → ∃ a, task.rest = .done a

/-- A cycle has counted what it was to count, and goes on like that; nobody else counts. -/
structure Tracked (task : Task) : Prop where
  cycle : ∀ config, task.duty = .cycle config →
    Fair task.made ∧ terms.wp task.rest (fun _ made => due made = .nothing) task.made
  other : (∀ config, task.duty ≠ .cycle config) →
    Makes (fun q => ¬ q.CountsFailure) task.rest

structure Sound (s : State) : Prop where
  tasks : ∀ task ∈ s.tasks, Tracked task
  counted : ∀ phase, failures s phase = ofCycles (counted phase) s

section Runs

variable {s s' : State}

theorem tracked_duty (duty : Duty) : Tracked ⟨duty, duty.program, []⟩ := by
  refine ⟨fun config hduty => ?_, fun hother => ?_⟩
  · obtain rfl : duty = .cycle config := hduty
    refine ⟨fair_nil, Discipline.wp_mono (fun result made _ hresult => ?_)
      (keepsClosed_cycle config [] rfl)⟩
    cases result with
    | ok _ => exact hresult
    | error e => exact hresult
  · cases duty with
    | cycle config => exact absurd rfl (hother config)
    | respond response => exact Service.makes_applyResponse (fun _ hq => hq.2) response
    | errand e => exact Service.makes_errand (fun _ hq => hq.2) (fun _ _ => not_false) e

theorem Tracked.call {duty : Duty} {q : Request} {next : q.Reply → Activity duty.Answer}
    {made : List Exchange} (h : Tracked ⟨duty, .call q next, made⟩) (r : q.Reply) :
    Tracked ⟨duty, next r, ⟨q, r⟩ :: made⟩ := by
  refine ⟨fun config hduty => ?_, fun hother => (h.other hother).2 r⟩
  obtain ⟨hfair, hwp⟩ := h.cycle config hduty
  obtain ⟨hfair', -, hnext⟩ := hwp made rfl hfair r _ rfl
  exact ⟨hfair', hnext⟩

/-- What a task counts is counted as a cycle's. -/
theorem Tracked.ofCycle_counted {duty : Duty} {q : Request}
    {next : q.Reply → Activity duty.Answer} {made : List Exchange}
    (h : Tracked ⟨duty, .call q next, made⟩) (r : q.Reply) (phase : Phase) :
    ofCycle (counted phase) ⟨duty, next r, ⟨q, r⟩ :: made⟩ =
      ofCycle (counted phase) ⟨duty, .call q next, made⟩ + countedBy phase q := by
  cases duty with
  | cycle config => exact counted_cons phase q r made
  | respond _ | errand _ =>
      have hquiet : ¬ q.CountsFailure := (h.other fun config => by simp).1
      rw [countedBy_eq_zero hquiet]
      rfl

theorem failures_counted (m : Metrics) (q : Request) (phase : Phase) :
    (Counting.counted m q).count (.jobFailures phase) =
      m.count (.jobFailures phase) + countedBy phase q := by
  cases q with
  | count c n =>
      rw [Counting.counted, Metrics.count_add]
      cases c with
      | jobFailures p => simp [countedBy]
      | _ => rfl
  | _ => rfl

theorem sound_start (t : Table) : Sound ⟨t, {}, [], []⟩ where
  tasks task htask := by cases htask
  counted _ := rfl

theorem sound_step (h : Sound s) (hstep : Step s s') : Sound s' := by
  obtain ⟨hstep, hspares⟩ := hstep
  cases hstep with
  | arrive duty =>
      refine ⟨List.forall_mem_append.2
        ⟨h.tasks, List.forall_mem_singleton.2 (tracked_duty duty)⟩, fun phase => ?_⟩
      have hnew : ofCycle (counted phase) ⟨duty, duty.program, []⟩ = 0 := by
        cases duty <;> rfl
      rw [ofCycles, List.map_append, List.sum_append, List.map_singleton, hnew]
      exact h.counted phase
  | @call before later duty q next made turn r admits =>
      have htasks := h.tasks
      rw [turn, List.forall_mem_append, List.forall_mem_cons] at htasks
      obtain ⟨hbefore, hmine, hlater⟩ := htasks
      refine ⟨List.forall_mem_append.2
        ⟨hbefore, List.forall_mem_cons.2 ⟨hmine.call r, hlater⟩⟩, fun phase => ?_⟩
      have hcounted := h.counted phase
      have hturn := hmine.ofCycle_counted r phase
      rw [failures] at hcounted
      rw [failures, failures_counted, hcounted]
      simp only [ofCycles, turn, List.map_append, List.map_cons, List.sum_append, List.sum_cons,
        hturn]
      omega
  | others table metrics _ =>
      exact ⟨h.tasks, fun phase => (hspares rfl phase).trans (h.counted phase)⟩

theorem ofCycle_add (f g : List Exchange → Nat) (task : Task) :
    ofCycle (fun made => f made + g made) task = ofCycle f task + ofCycle g task := by
  rw [ofCycle, ofCycle, ofCycle]
  cases task.duty <;> rfl

theorem ofCycles_add (f g : List Exchange → Nat) (s : State) :
    ofCycles (fun made => f made + g made) s = ofCycles f s + ofCycles g s := by
  rw [ofCycles, ofCycles, ofCycles, ← List.sum_map_add]
  exact congrArg List.sum (List.map_congr_left fun task _ => ofCycle_add f g task)

theorem ofCycles_congr {f g : List Exchange → Nat}
    (h : ∀ task ∈ s.tasks, ∀ config, task.duty = .cycle config → f task.made = g task.made) :
    ofCycles f s = ofCycles g s := by
  refine congrArg List.sum (List.map_congr_left fun task htask => ?_)
  rw [ofCycle, ofCycle]
  cases hduty : task.duty with
  | cycle config => exact h task htask config hduty
  | respond _ | errand _ => rfl

theorem ofCycles_zero (s : State) : ofCycles (fun _ => 0) s = 0 := by
  refine List.sum_eq_zero fun n hn => ?_
  obtain ⟨task, -, rfl⟩ := List.mem_map.1 hn
  rw [ofCycle]
  cases task.duty <;> rfl

/-- A cycle that is done leaves nothing open. -/
theorem Sound.due_eq_nothing (h : Sound s) (hrest : AtRest s) :
    ∀ task ∈ s.tasks, ∀ config, task.duty = .cycle config → due task.made = .nothing := by
  intro task htask config hduty
  obtain ⟨a, hdone⟩ := hrest task htask config hduty
  obtain ⟨hfair, hwp⟩ := (h.tasks task htask).cycle config hduty
  rw [hdone] at hwp
  exact hwp task.made rfl hfair

/-- The counters of failures against what cycles have stored, while cycles are under way and when
there are none. -/
structure Tallied (s : State) : Prop where
  /-- A job that could not be provisioned is stored, and then counted. -/
  provisioning : failures s .provisioning + uncounted s = ofCycles (stored .provisioning) s
  /-- A job of another phase is counted, and then the store is asked to take it. -/
  others : ∀ phase, phase ≠ .provisioning → failures s phase =
    ofCycles (stored phase) s + ofCycles (missed phase) s + unstored s phase
  closed : AtRest s → uncounted s = 0 ∧ ∀ phase, unstored s phase = 0
  /-- The counter is the number of jobs that were stored as failed if and only if the store
  has taken all that were counted before. -/
  exact : AtRest s → ∀ phase, failures s phase = ofCycles (stored phase) s ↔
    phase = .provisioning ∨ ofCycles (missed phase) s = 0

theorem tallied_of_sound (h : Sound s) : Tallied s := by
  have hprovisioning : failures s .provisioning + uncounted s =
      ofCycles (stored .provisioning) s := by
    rw [h.counted, uncounted, ← ofCycles_add]
    exact ofCycles_congr fun task htask config hduty =>
      ((h.tasks task htask).cycle config hduty).1.provisioning
  have hothers : ∀ phase, phase ≠ .provisioning → failures s phase =
      ofCycles (stored phase) s + ofCycles (missed phase) s + unstored s phase := by
    intro phase hphase
    rw [h.counted, unstored, ← ofCycles_add, ← ofCycles_add]
    exact ofCycles_congr fun task htask config hduty =>
      ((h.tasks task htask).cycle config hduty).1.others phase hphase
  have hclosed : AtRest s → uncounted s = 0 ∧ ∀ phase, unstored s phase = 0 := by
    intro hrest
    have hnothing := h.due_eq_nothing hrest
    have hnone : ∀ d, d ≠ .nothing →
        ofCycles (fun made => if due made = d then 1 else 0) s = 0 := by
      intro d hd
      refine (ofCycles_congr fun task htask config hduty => ?_).trans (ofCycles_zero s)
      exact if_neg ((hnothing task htask config hduty).trans_ne hd.symm)
    exact ⟨hnone .uncounted nofun, fun phase => hnone (.unstored phase) nofun⟩
  refine ⟨hprovisioning, hothers, hclosed, fun hrest phase => ?_⟩
  obtain ⟨huncounted, hunstored⟩ := hclosed hrest
  by_cases hphase : phase = .provisioning
  · subst hphase
    rw [huncounted] at hprovisioning
    exact ⟨fun _ => .inl rfl, fun _ => hprovisioning⟩
  · have hcounted := hothers phase hphase
    rw [hunstored] at hcounted
    rw [or_iff_right hphase]
    omega

end Runs

/-- In every run of any number of cycles, whatever others do meanwhile and whatever fails, a
failure that was counted is a failed job that the store has taken, or one that a phase
after provisioning has asked it to take in vain. -/
theorem Run.tallied (run : Run) : Tallied run.last :=
  tallied_of_sound <| run.steps.induction Sound _ (fun _ _ hstep h => sound_step h hstep)
    (fun _ => sound_start run.start) run.last (List.getLast_mem _)

/-! ### A job that is acknowledged while it is sent -/

/-- The program that came first has its next call answered so. -/
def answered (reply : (q : Request) → Table → q.Reply) (s : State) : State :=
  match s.tasks with
  | ⟨duty, .call q next, made⟩ :: later =>
    ⟨TaskSystem.after s.table q (reply q s.table), Counting.counted s.metrics q,
      ⟨q, reply q s.table⟩ :: s.journal,
      ⟨duty, next (reply q s.table), ⟨q, reply q s.table⟩ :: made⟩ :: later⟩
  | _ => s

theorem step_answered {s : State} {reply : (q : Request) → Table → q.Reply} {duty : Duty}
    {q : Request} {next : q.Reply → Activity duty.Answer} {made : List Exchange}
    {later : List Task} (h : s.tasks = ⟨duty, .call q next, made⟩ :: later)
    (hadmits : Counting.Admits s.table q (reply q s.table)) : Step s (answered reply s) := by
  rw [answered, h]
  refine ⟨@Counting.Step.call s [] later duty q next made h _ hadmits, fun hjournal => ?_⟩
  exact absurd hjournal (List.cons_ne_self _ _)

/-- The peer does not take the request, and the worker is not stopped. -/
def reply : (q : Request) → Table → q.Reply
  | .store c, t => (c.perform t).1
  | .provision _, _ => .ok ()
  | .send .., _ => .error (.transport "timeout")
  | .startFlow _, _ => .ok
  | .isComplete _, _ => false
  | .now, _ => .epoch
  | .freshId, _ => "d"
  | .isRunning, _ => true
  | .acknowledge .., _ | .count .., _ | .overflow, _ => ()

/-- Batches hold these jobs. -/
def listing (jobs : List Job) : (q : Request) → Table → q.Reply
  | .store (.next ..), _ => .ok jobs
  | q, t => reply q t

theorem admits_reply (t : Table) (q : Request) : Counting.Admits t q (reply q t) := by
  cases q with
  | store c => exact .inl rfl
  | _ => trivial

def readyJob : Job :=
  { Job.new "a" .initiator { id := "a", destination := { kind := localDirectory } } .epoch with
    state := .provisioned }

/-- A cycle begins at a table of one provisioned job. -/
def begun : State :=
  { table := ⟨[Row.ofJob readyJob]⟩, tasks := [⟨.cycle {}, (cycle {}).run, []⟩] }

/-- The cycle has come to its dispatch. -/
def dispatching : State :=
  begun |> answered (listing []) |> answered reply |> answered reply

/-- It has found the job and has stored it as sent, and it has counted that the peer did not
take the request. -/
def unsent : State :=
  dispatching |> answered (listing [readyJob]) |> answered reply |> answered reply
    |> answered reply |> answered reply |> answered reply |> answered reply

def sentJob : Job :=
  { readyJob with state := .sent }

def acknowledgedJob : Job :=
  { readyJob with state := .acknowledged }

/-- The peer has taken it after all, and acknowledges the job. -/
def overtaken : State :=
  { unsent with
    table := ⟨[((Row.ofJob readyJob).updatedFrom sentJob).updatedFrom acknowledgedJob]⟩ }

/-- The store has not taken the failed job any more, and the cycle has come to the jobs that
are acknowledged. -/
def inspecting : State :=
  overtaken |> answered reply |> answered reply |> answered reply

theorem next_initial : begun.table.next .initial 5 = .ok [] :=
  Table.next_single_of_ne (by nofun) 5

theorem next_provisioned : dispatching.table.next .provisioned 5 = .ok [readyJob] :=
  Table.next_single (Row.reads_ofJob_epoch rfl rfl).toJob? (by decide)

theorem next_acknowledged : inspecting.table.next .acknowledged 5 = .ok [acknowledgedJob] := by
  have hreads : ((Row.ofJob readyJob).updatedFrom sentJob).Reads sentJob :=
    (Row.reads_ofJob_epoch rfl rfl).updatedFrom (by decide)
  have htable : inspecting.table =
    ⟨[((Row.ofJob readyJob).updatedFrom sentJob).updatedFrom acknowledgedJob]⟩ := rfl
  rw [htable]
  exact Table.next_single (hreads.updatedFrom (by decide)).toJob? (by decide)

/-- The job is acknowledged after it was counted and before it can be stored as failed. -/
def crossingRun : Run where
  start := begun.table
  later :=
    begun :: List.iterate (answered reply) (begun |> answered (listing [])) 3 ++
    List.iterate (answered reply) (dispatching |> answered (listing [readyJob])) 7 ++
    overtaken :: List.iterate (answered reply) (overtaken |> answered reply) 3 ++
    List.iterate (answered reply) (inspecting |> answered (listing [acknowledgedJob])) 3
  steps :=
    .cons_cons ⟨.arrive (.cycle {}), fun _ _ => rfl⟩ <|
    .cons_cons (step_answered rfl (.inl next_initial.symm)) <|
    .cons_cons (step_answered rfl (admits_reply _ _)) <|
    .cons_cons (step_answered rfl (admits_reply _ _)) <|
    .cons_cons (step_answered rfl (.inl next_provisioned.symm)) <|
    .cons_cons (step_answered rfl (admits_reply _ _)) <|
    .cons_cons (step_answered rfl (admits_reply _ _)) <|
    .cons_cons (step_answered rfl (admits_reply _ _)) <|
    .cons_cons (step_answered rfl (admits_reply _ _)) <|
    .cons_cons (step_answered rfl (admits_reply _ _)) <|
    .cons_cons (step_answered rfl (admits_reply _ _)) <|
    .cons_cons ⟨.others _ unsent.metrics fun _ _ => rfl, fun _ _ => rfl⟩ <|
    .cons_cons (step_answered rfl (admits_reply _ _)) <|
    .cons_cons (step_answered rfl (admits_reply _ _)) <|
    .cons_cons (step_answered rfl (admits_reply _ _)) <|
    .cons_cons (step_answered rfl (.inl next_acknowledged.symm)) <|
    .cons_cons (step_answered rfl (admits_reply _ _)) <|
    .cons_cons (step_answered rfl (admits_reply _ _)) <| .singleton _

/-- A job was counted as failed, and was never stored as that. -/
theorem counted_and_not_stored : ∃ run : Run, AtRest run.last ∧
    failures run.last .dispatch = 1 ∧ ∀ phase, ofCycles (stored phase) run.last = 0 := by
  refine ⟨crossingRun, ?_, rfl, fun phase => ?_⟩
  · intro task htask config _
    rw [List.mem_singleton.1 htask]
    exact ⟨_, rfl⟩
  · cases phase <;> rfl

end Failures

end Ferry
