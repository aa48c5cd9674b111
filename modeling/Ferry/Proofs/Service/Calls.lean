import Ferry.Proofs.Service.Terms

/-!
# What programs call

Which calls a program may come to is read off the program: no reply, and nothing
anybody else does, plays a part in it. The programs that serve clients, record ends of
flows or store outcomes keep to the store, the clock, the ids and the counters
(`Inward`), and of the worker's program each part turns to one collaborator besides.
-/

namespace Ferry

/-- The call reaches nobody outside the process and its store. -/
def Request.Inward : Request → Prop
  | .store _ | .now | .freshId | .overflow | .count .. => True
  | _ => False

/-- The call cannot fail and has to do with no job. -/
def Request.Harmless : Request → Prop
  | .now | .freshId | .count .. => True
  | _ => False

theorem Request.Harmless.inward {q : Request} (h : q.Harmless) : q.Inward := by
  cases q with
  | now | freshId | count _ _ => trivial
  | store _ | provision _ | send _ _ | acknowledge _ _ | startFlow _ | isComplete _
  | isRunning | overflow => exact h.elim

/-- The call adds to a counter of failed jobs. -/
def Request.CountsFailure : Request → Prop
  | .count (.jobFailures _) _ => True
  | _ => False

/-- The call reaches nobody outside, and does not count what only cycles count. -/
def Request.Clerical (q : Request) : Prop :=
  q.Inward ∧ ¬ q.CountsFailure

namespace Service

open Operation

/-- Every call that the program may come to is of this kind. -/
def Makes {α : Type} (P : Request → Prop) : Activity α → Prop
  | .done _ => True
  | .call q next => P q ∧ ∀ r, Makes P (next r)

/-- Whatever the replies, the program comes to a call of this kind, and makes only harmless calls
before it. -/
def TurnsTo {α : Type} (P : Request → Prop) : Activity α → Prop
  | .done _ => False
  | .call q next => P q ∨ (q.Harmless ∧ ∀ r, TurnsTo P (next r))

theorem quiet_of_harmless {q : Request} (hq : q.Harmless) : Quiet q := by
  cases q with
  | now | freshId | count _ _ => trivial
  | store _ | provision _ | send _ _ | acknowledge _ _ | startFlow _ | isComplete _
  | isRunning | overflow => exact hq.elim

variable {P : Request → Prop}

section Operations

variable {α β : Type}

theorem Makes.bind {f : Activity α} {g : α → Activity β} (hf : Makes P f)
    (hg : ∀ a, Makes P (g a)) : Makes P (f.bind g) := by
  induction f with
  | done a => exact hg a
  | call q next ih => exact ⟨hf.1, fun r => ih r (hf.2 r)⟩

theorem makes_pure (a : α) : Makes P (pure a : Operation α).run :=
  trivial

theorem makes_throw (e : OrchestratorError) : Makes P (throw e : Operation α).run :=
  trivial

theorem makes_bind {f : Operation α} {g : α → Operation β} (hf : Makes P f.run)
    (hg : ∀ a, Makes P (g a).run) : Makes P (f >>= g).run := by
  refine Makes.bind hf fun result => ?_
  cases result with
  | ok a => exact hg a
  | error e => exact makes_throw e

theorem makes_ask {q : Request} (hq : P q) : Makes P (ask q).run :=
  ⟨hq, fun _ => trivial⟩

theorem makes_call {call : Store.Call} (hcall : P (.store call)) : Makes P (store call).run := by
  refine ⟨hcall, fun r => ?_⟩
  cases r <;> trivial

theorem makes_move (moved : Except JobError Job) : Makes P (Operation.move moved).run := by
  cases moved <;> trivial

/-- What is done with the job that was moved. -/
theorem makes_bind_move {moved : Except JobError Job} {g : Job → Operation β}
    (hg : ∀ job, moved = .ok job → Makes P (g job).run) :
    Makes P (Operation.move moved >>= g).run := by
  cases moved with
  | ok job => exact hg job rfl
  | error e => exact makes_throw (.store e)

theorem makes_forEach {f : Job → Operation Unit} (hf : ∀ job, Makes P (f job).run)
    (jobs : List Job) : Makes P (forEach f jobs).run := by
  induction jobs with
  | nil => exact makes_pure ()
  | cons job rest ih => exact makes_bind (hf job) fun _ => ih

variable (hP : ∀ q : Request, q.Inward → P q)
include hP

theorem makes_store (call : Store.Call) : Makes P (store call).run :=
  makes_call (hP _ trivial)

theorem makes_now : Makes P (ask .now).run :=
  makes_ask (hP _ trivial)

theorem makes_freshId : Makes P (ask .freshId).run :=
  makes_ask (hP _ trivial)

theorem makes_checkCount (job : Job) (outcome : FlowOutcome) :
    Makes P (Cycle.checkCount job outcome).run := by
  rw [Cycle.checkCount]
  split
  · exact makes_ask (hP _ trivial)
  · exact makes_pure ()

theorem makes_count (n : Counter) (k : Nat) : Makes P (count n k).run :=
  makes_ask (hP _ trivial)

end Operations

/-! ## Taking on -/

section TakingOn

variable {role : Role} {request : TransferRequest} {inbound : InboundTransfer}

/-- Whoever takes on a request makes no job but a new one for it. -/
theorem makes_initiate_of
    (hharmless : ∀ q : Request, q.Harmless → ¬ q.CountsFailure → P q)
    (hfind : ∀ c, P (.store (.findId c)))
    (hcreate : ∀ id now, P (.store (.create (.new id role request now)))) :
    Makes P (initiate role request).run := by
  rw [initiate]
  split
  · exact makes_throw (.invalidRequest "request id cannot be empty")
  · refine makes_bind (makes_call (hfind request.id)) fun found => ?_
    cases found with
    | some id => exact makes_pure id
    | none =>
        refine makes_bind (makes_ask (hharmless .freshId trivial not_false)) fun id => ?_
        refine makes_bind (makes_ask (hharmless .now trivial not_false)) fun now => ?_
        refine makes_bind (makes_ask (hcreate id now)) fun r => ?_
        cases r with
        | ok u =>
            refine makes_bind (makes_ask (hharmless (.count _ _) trivial not_false)) fun _ => ?_
            refine makes_bind (makes_ask (hharmless (.count _ _) trivial not_false)) fun _ => ?_
            exact makes_pure id
        | error e =>
            cases e with
            | duplicateCorrelationId c =>
                refine makes_bind (makes_call (hfind c)) fun found => ?_
                cases found with
                | some id => exact makes_pure id
                | none => exact makes_throw _
            | notFound _ | invalidTransition _ _ _ _ | unknownState _ | unknownRole _
            | database _ => exact makes_throw _

/-- Whoever takes on a transfer tells nobody but who has sent it. -/
theorem makes_receive_of (hinitiate : Makes P (initiate .executor inbound.request).run)
    (hanswer : ∀ address, inbound.callbackAddress = some address →
      P (.acknowledge address inbound.processId)) : Makes P (receive inbound).run := by
  refine makes_bind hinitiate fun id => ?_
  split
  · exact makes_pure id
  · next address haddress =>
    exact makes_bind (makes_ask (hanswer address haddress)) fun _ => makes_pure id

end TakingOn

/-! ## The programs of the service -/

section Worker

variable (hP : ∀ q : Request, q.Inward → P q)
include hP

theorem makes_provision (hprovision : ∀ job, P (.provision job)) (job : Job) :
    Makes P (Cycle.provision job).run := by
  refine makes_bind (makes_freshId hP) fun _ => makes_bind (makes_now hP) fun _ => ?_
  refine makes_bind (makes_move _) fun _ => makes_bind (makes_store hP _) fun _ => ?_
  refine makes_bind (makes_count hP _ _) fun _ => makes_bind (makes_ask (hprovision _)) fun r => ?_
  match r with
  | .ok () => exact makes_pure ()
  | .error e =>
      refine makes_bind (makes_now hP) fun _ => makes_bind (makes_move _) fun _ => ?_
      refine makes_bind (makes_store hP _) fun _ => makes_bind (makes_count hP _ _) fun _ => ?_
      exact makes_count hP _ _

theorem makes_provisionPhase (hprovision : ∀ job, P (.provision job))
    (config : Config.Orchestrator) : Makes P (Cycle.provisionPhase config).run := by
  refine makes_bind (makes_store hP _) fun jobs => ?_
  refine makes_bind (makes_forEach (makes_provision hP hprovision) jobs) fun _ => ?_
  exact makes_bind (makes_count hP _ _) fun _ => makes_pure _

/-- A write over a state that is counted if it hits. -/
theorem makes_swap (after : Job) (expected : JobState) :
    Makes P (do if ← store (.updateIfState after expected) then countMove after).run := by
  refine makes_bind (makes_store hP _) fun hit => ?_
  cases hit with
  | true => exact makes_count hP _ _
  | false => exact makes_pure ()

theorem makes_send {job : Job} (hsend : ∀ now sent, job.sent now = .ok sent →
    P (.send sent.dispatchRequest sent.id)) : Makes P (Cycle.send job).run := by
  refine makes_bind (makes_now hP) fun now => makes_bind_move fun sent hsent => ?_
  refine makes_bind (makes_store hP _) fun _ => makes_bind (makes_count hP _ _) fun _ => ?_
  refine makes_bind (makes_ask (hsend now sent hsent)) fun r => ?_
  match r with
  | .ok () => exact makes_pure ()
  | .error e =>
      refine makes_bind (makes_count hP _ _) fun _ => makes_bind (makes_now hP) fun _ => ?_
      exact makes_bind (makes_move _) fun _ => makes_swap hP _ _

theorem makes_execute {job : Job} (hstart : P (.startFlow job.request))
    (config : Config.Orchestrator) : Makes P (Cycle.execute config job).run := by
  refine makes_bind (makes_ask hstart) fun _ => makes_bind (makes_count hP _ _) fun _ => ?_
  refine makes_bind (makes_now hP) fun _ => makes_bind (makes_checkCount hP _ _) fun _ => ?_
  refine makes_bind (makes_move _) fun after => ?_
  split
  · exact makes_bind (makes_count hP _ _) fun _ => makes_swap hP _ _
  · exact makes_swap hP _ _

theorem makes_dispatchPhase (hsend : ∀ request id, P (.send request id))
    (hstart : ∀ request, P (.startFlow request)) (config : Config.Orchestrator) :
    Makes P (Cycle.dispatchPhase config).run := by
  refine makes_bind (makes_store hP _) fun jobs => ?_
  refine makes_bind (makes_forEach (fun job => ?_) jobs) fun _ => ?_
  · rw [Cycle.dispatch]
    split
    · exact makes_send hP fun _ _ _ => hsend _ _
    · exact makes_execute hP (hstart _) config
  · exact makes_bind (makes_count hP _ _) fun _ => makes_pure _

theorem makes_complete (job : Job) : Makes P (Cycle.complete job).run := by
  refine makes_bind (makes_now hP) fun _ => makes_bind (makes_move _) fun _ => ?_
  exact makes_bind (makes_store hP _) fun _ => makes_count hP _ _

omit hP in
theorem makes_arrived (hcheck : ∀ job, P (.isComplete job)) (jobs : List Job) :
    Makes P (Cycle.arrived jobs).run := by
  induction jobs with
  | nil => exact makes_pure []
  | cons job rest ih =>
      exact makes_bind (makes_ask (hcheck _)) fun _ => makes_bind ih fun _ => makes_pure _

theorem makes_completionPhase (hcheck : ∀ job, P (.isComplete job))
    (config : Config.Orchestrator) : Makes P (Cycle.completionPhase config).run := by
  refine makes_bind (makes_store hP _) fun jobs => ?_
  have hrest : Makes P (Cycle.arrived jobs >>= fun done => forEach Cycle.complete done >>=
      fun _ => count (.jobsProcessed .completion) jobs.length >>=
      fun _ => pure jobs.length).run := by
    refine makes_bind (makes_arrived hcheck jobs) fun done => ?_
    refine makes_bind (makes_forEach (makes_complete hP) done) fun _ => ?_
    exact makes_bind (makes_count hP _ _) fun _ => makes_pure _
  dsimp only
  split
  · exact makes_bind (makes_throw _) fun _ => hrest
  · exact hrest

omit hP in
theorem makes_cycle (hP : ∀ q, (∀ a p, q ≠ .acknowledge a p) → P q)
    (config : Config.Orchestrator) : Makes P (cycle config).run := by
  have hinward : ∀ q : Request, q.Inward → P q := by
    refine fun q hq => hP q ?_
    rintro a p rfl
    exact hq
  refine makes_bind (makes_provisionPhase hinward (fun _ => hP _ (by simp)) config) fun _ => ?_
  refine makes_bind (makes_ask (hP _ (by simp))) fun goOn => ?_
  cases goOn with
  | false => exact makes_pure _
  | true =>
      refine makes_bind (makes_dispatchPhase hinward (fun _ _ => hP _ (by simp))
        (fun _ => hP _ (by simp)) config) fun _ => ?_
      refine makes_bind (makes_ask (hP _ (by simp))) fun goOn => ?_
      cases goOn with
      | false => exact makes_pure _
      | true =>
          refine makes_bind (makes_completionPhase hinward (fun _ => hP _ (by simp)) config)
            fun _ => ?_
          exact makes_pure _

end Worker

section Others

variable (hP : ∀ q : Request, q.Clerical → P q)
include hP

theorem makes_applyResponse (response : ProvisionResponse) :
    Makes P (applyResponse response).run := by
  refine makes_bind (makes_call (hP _ ⟨trivial, not_false⟩)) fun found => ?_
  match found with
  | none => exact makes_throw _
  | some job =>
      refine makes_bind (makes_ask (hP _ ⟨trivial, not_false⟩)) fun _ => ?_
      refine makes_bind (makes_move _) fun _ => ?_
      refine makes_bind (makes_call (hP _ ⟨trivial, not_false⟩)) fun _ => ?_
      refine makes_bind (makes_ask (hP _ ⟨trivial, not_false⟩)) fun _ => ?_
      exact makes_ask (hP _ ⟨trivial, not_false⟩)

theorem makes_finish (c : String) (failure : Option String) (rounds : Nat) :
    Makes P (Flow.finish c failure rounds).run := by
  induction rounds with
  | zero => exact makes_pure ()
  | succ n ih =>
      have hload : Makes P (Flow.load c).run := by
        refine makes_bind (makes_call (hP _ ⟨trivial, not_false⟩)) fun found => ?_
        match found with
        | none => exact makes_throw _
        | some id =>
            refine makes_bind (makes_call (hP _ ⟨trivial, not_false⟩)) fun found => ?_
            match found with
            | none => exact makes_throw _
            | some job => exact makes_pure job
      refine makes_bind hload fun job => ?_
      split
      · exact makes_pure ()
      · refine makes_bind (makes_ask (hP _ ⟨trivial, not_false⟩)) fun _ => ?_
        refine makes_bind (makes_move _) fun _ => ?_
        refine makes_bind (makes_call (hP _ ⟨trivial, not_false⟩)) fun hit => ?_
        cases hit with
        | true => exact makes_ask (hP _ ⟨trivial, not_false⟩)
        | false => exact ih

theorem makes_acknowledge (id : String) : Makes P (Api.acknowledgeTransfer id) := by
  refine ⟨hP _ ⟨trivial, not_false⟩, fun found => ?_⟩
  match found with
  | .error e => trivial
  | .ok none => trivial
  | .ok (some job) =>
      change Makes P (if job.role ≠ .initiator || job.state ≠ .sent then _ else _)
      split
      · trivial
      · refine ⟨hP .now ⟨trivial, not_false⟩, fun now => ?_⟩
        simp only [Program.bind]
        cases job.acknowledged now with
        | error e => trivial
        | ok after =>
            refine ⟨hP (.store _) ⟨trivial, not_false⟩, fun r => ?_⟩
            match r with
            | .error e => trivial
            | .ok false => trivial
            | .ok true => exact ⟨hP (.count _ _) ⟨trivial, not_false⟩, fun _ => trivial⟩

theorem makes_initiate (role : Role) (request : TransferRequest) :
    Makes P (initiate role request).run :=
  makes_initiate_of (fun q hq hnot => hP q ⟨hq.inward, hnot⟩) (fun _ => hP _ ⟨trivial, not_false⟩)
    fun _ _ => hP _ ⟨trivial, not_false⟩

theorem makes_receive (hanswer : ∀ address id, P (.acknowledge address id))
    (inbound : InboundTransfer) : Makes P (receive inbound).run :=
  makes_receive_of (makes_initiate hP _ _) fun _ _ => hanswer _ _

theorem makes_errand (hanswer : ∀ address id, P (.acknowledge address id)) (e : Errand) :
    Makes P e.program := by
  cases e with
  | finish c failure rounds => exact makes_finish hP c failure rounds
  | acknowledge id => exact makes_acknowledge hP id
  | initiate role request => exact makes_initiate hP role request
  | receive inbound => exact makes_receive hP hanswer inbound

end Others

end Service

end Ferry
