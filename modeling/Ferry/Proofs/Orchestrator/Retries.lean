import Ferry.Orchestrator.Cycle
import Ferry.Proofs.Interference
import Ferry.Proofs.Orchestrator.Phases
import Ferry.Proofs.Store.Origins

/-!
# How often a flow is tried

What becomes of an executor's job is told by the answers of the data flow alone (`FlowHistory`):
it stays provisioned for as long as they ask for a retry and no more of them do than are
allowed. The answer that ends this is the last, for then the job is in no batch of
provisioned jobs any more.

Between two cycles the count of retries is in the store, in 32 bits. A cycle finds the job
as the cycle before left it, since no one else writes it, and it asks the data flow once
for each time it takes the job up (`Progress`). The limit is looked at after the count was
raised, so the count goes one beyond the limit, and a limit has to leave room for that.
-/

namespace Ferry.Retries

open Operation Store Store.Table
open Time (Instant)

/-! ## What the answers of the flow make of a job -/

/-- So many retries are allowed; a limit of zero allows any number. -/
def Allowed (limit n : Nat) : Prop :=
  limit = 0 ∨ n ≤ limit

/-- How many answers ask for a retry. -/
def retries (outcomes : List FlowOutcome) : Nat :=
  outcomes.countP fun outcome => outcome.verdict = .retry

/-- The job after so many retries. -/
def tried (job : Job) (n : Nat) (moved : Instant) : Job :=
  { job with retryCount := UInt32.ofNat n, stateTimestamp := moved }

/-- These are all the answers of the data flow to a job that started as `job`, and they have made
the last job of it: one that waits after allowed retries, one that was started, or one that failed
for a fatal answer or a retry beyond the limit. -/
inductive FlowHistory (limit : Nat) (job : Job) : List FlowOutcome → Job → Prop where
  | waiting (reasons : List String) (moved : Instant) (hallowed : Allowed limit reasons.length) :
      FlowHistory limit job (reasons.map .retry) (tried job reasons.length moved)
  | started (reasons : List String) (moved : Instant) (hallowed : Allowed limit reasons.length) :
      FlowHistory limit job (reasons.map .retry ++ [.ok])
        { tried job reasons.length moved with state := .executing }
  | failed (reasons : List String) (detail : String) (moved : Instant)
      (hallowed : Allowed limit reasons.length) :
      FlowHistory limit job (reasons.map .retry ++ [.fatal detail])
        { tried job reasons.length moved with state := .error, errorDetail := some detail }
  | exceeded (reasons : List String) (last : String) (moved : Instant) (hlimit : 0 < limit)
      (hlength : reasons.length = limit) :
      FlowHistory limit job (reasons.map .retry ++ [.retry last])
        { tried job (limit + 1) moved with
          state := .error
          errorDetail :=
            some ("flow retry limit of " ++ toString limit ++ " exceeded: " ++ last) }

section FlowHistory

variable {limit : Nat} {job j after : Job} {outcomes : List FlowOutcome} {now : Instant}

theorem Allowed.succ {n : Nat} (h : Allowed limit n) (hmore : ¬ (0 < limit ∧ n = limit)) :
    Allowed limit (n + 1) := by
  rw [Allowed] at h ⊢
  omega

theorem FlowHistory.id (h : FlowHistory limit job outcomes j) : j.id = job.id := by
  cases h <;> rfl

theorem FlowHistory.role (h : FlowHistory limit job outcomes j) : j.role = job.role := by
  cases h <;> rfl

theorem FlowHistory.request (h : FlowHistory limit job outcomes j) : j.request = job.request := by
  cases h <;> rfl

/-- The job is not in a state that other phases look for. -/
theorem FlowHistory.state (h : FlowHistory limit job outcomes j)
    (hready : job.state = .provisioned) :
    j.state ≠ .initial ∧ j.state ≠ .acknowledged := by
  cases h with
  | waiting => simp [tried, hready]
  | started => simp
  | failed => simp
  | exceeded => simp

theorem tried_retry (hready : job.state = .provisioned) (hrole : job.role = .executor) (n : Nat)
    (moved now : Instant) : (tried job n moved).retry now = .ok (tried job (n + 1) now) := by
  have hallowed : JobState.canMove (tried job n moved).role (tried job n moved).state
      .provisioned = true := by
    rw [show (tried job n moved).role = .executor from hrole,
      show (tried job n moved).state = .provisioned from hready]
    rfl
  have hcount : UInt32.ofNat n + 1 = UInt32.ofNat (n + 1) := (UInt32.ofNat_add n 1).symm
  rw [Job.retry, Job.move_eq_ok.2 ⟨hallowed, rfl⟩]
  simp only [Except.map, tried, hcount, hready]

theorem retriesExceeded_tried {n : Nat} (hlimit : limit < 2 ^ 32 - 1) (hallowed : Allowed limit n) :
    Cycle.retriesExceeded limit (tried job (n + 1) now) = true ↔ 0 < limit ∧ n = limit := by
  rw [Cycle.retriesExceeded, Bool.and_eq_true, decide_eq_true_eq, decide_eq_true_eq]
  refine and_congr_right fun hpos => ?_
  have hle : n ≤ limit := hallowed.resolve_left hpos.ne'
  have hcount : (UInt32.ofNat (n + 1)).toNat = n + 1 := by
    refine UInt32.toNat_ofNat_of_lt' ?_
    have hsize : UInt32.size = 2 ^ 32 := rfl
    omega
  show limit < (UInt32.ofNat (n + 1)).toNat ↔ n = limit
  rw [hcount]
  omega

/-- The answers go on only where the job is still provisioned. -/
theorem FlowHistory.next (h : FlowHistory limit job outcomes j) (hready : job.state = .provisioned)
    (hwaits : j.state = .provisioned) (hrole : job.role = .executor)
    (hlimit : limit < 2 ^ 32 - 1) {outcome : FlowOutcome}
    (hafter : Cycle.afterFlow limit j now outcome = .ok after) :
    FlowHistory limit job (outcomes ++ [outcome]) (j.overwrittenBy after) := by
  cases h with
  | started | failed | exceeded => cases hwaits
  | waiting reasons moved hallowed =>
      cases outcome with
      | ok =>
          obtain ⟨-, rfl⟩ := Job.move_eq_ok.1 hafter
          exact .started reasons now.truncated hallowed
      | fatal detail =>
          obtain ⟨ended, hended, rfl⟩ := Job.map_move_eq_ok hafter
          obtain ⟨-, rfl⟩ := Job.move_eq_ok.1 hended
          exact .failed reasons detail now.truncated hallowed
      | retry reason =>
          rw [Cycle.afterFlow, tried_retry hready hrole] at hafter
          simp only [bind, Except.bind] at hafter
          split at hafter
          · next hexceeded =>
            obtain ⟨hpos, hlength⟩ := (retriesExceeded_tried hlimit hallowed).1 hexceeded
            obtain ⟨ended, hended, rfl⟩ := Job.map_move_eq_ok hafter
            obtain ⟨-, rfl⟩ := Job.move_eq_ok.1 hended
            rw [hlength]
            exact .exceeded reasons reason now.truncated hpos hlength
          · next hmore =>
            obtain rfl := Except.ok.inj hafter
            have hagain : Allowed limit (reasons ++ [reason]).length := by
              rw [List.length_append]
              exact hallowed.succ (mt (retriesExceeded_tried hlimit hallowed).2 hmore)
            have hhistory : FlowHistory limit job _ _ :=
              .waiting (reasons ++ [reason]) now.truncated hagain
            rw [List.map_append, List.length_append] at hhistory
            exact hhistory

theorem retries_map (reasons : List String) : retries (reasons.map .retry) = reasons.length := by
  rw [retries, List.countP_map]
  exact List.countP_eq_length.2 fun _ _ => rfl

theorem retries_concat (reasons : List String) (last : FlowOutcome) :
    retries (reasons.map .retry ++ [last]) = reasons.length + retries [last] := by
  rw [retries, List.countP_append, ← retries, ← retries, retries_map]

theorem FlowHistory.retryCount (h : FlowHistory limit job outcomes j) :
    j.retryCount = UInt32.ofNat (retries outcomes) := by
  cases h with
  | waiting => rw [retries_map]; rfl
  | started | failed => rw [retries_concat]; rfl
  | exceeded reasons last moved hpos hlength => rw [retries_concat, hlength]; rfl

theorem FlowHistory.retries_le (h : FlowHistory limit job outcomes j) (hpos : limit ≠ 0) :
    retries outcomes ≤ limit + 1 := by
  cases h with
  | waiting reasons moved hallowed =>
      rw [retries_map]
      exact Nat.le_succ_of_le (hallowed.resolve_left hpos)
  | started reasons moved hallowed | failed reasons detail moved hallowed =>
      rw [retries_concat]
      exact Nat.le_succ_of_le (hallowed.resolve_left hpos)
  | exceeded reasons last moved _ hlength =>
      rw [retries_concat, hlength]
      exact Nat.le_refl _

/-- An answer that was not the last asked for a retry, and the retry was allowed. -/
theorem FlowHistory.of_append {front more : List FlowOutcome} {outcome : FlowOutcome}
    (h : FlowHistory limit job (front ++ outcome :: more) j) (hmore : more ≠ []) :
    outcome.verdict = .retry ∧ Allowed limit (front.length + 1) := by
  have hretried : ∀ {reasons : List String} {rest : List FlowOutcome},
      Allowed limit reasons.length → reasons.map .retry = front ++ outcome :: rest →
      outcome.verdict = .retry ∧ Allowed limit (front.length + 1) := by
    intro reasons rest hallowed heq
    obtain ⟨reason, -, rfl⟩ : ∃ reason ∈ reasons, FlowOutcome.retry reason = outcome :=
      List.mem_map.1 (heq ▸ List.mem_append_right front List.mem_cons_self)
    have hlength := congrArg List.length heq
    simp only [List.length_map, List.length_append, List.length_cons] at hlength
    exact ⟨rfl, hallowed.imp_right fun hle => by omega⟩
  have hended : ∀ {reasons : List String} {last : FlowOutcome},
      Allowed limit reasons.length → reasons.map .retry ++ [last] = front ++ outcome :: more →
      outcome.verdict = .retry ∧ Allowed limit (front.length + 1) := by
    intro reasons last hallowed heq
    have hinit := congrArg List.dropLast heq
    rw [List.dropLast_concat, List.dropLast_append_of_ne_nil (List.cons_ne_nil _ _),
      List.dropLast_cons_of_ne_nil hmore] at hinit
    exact hretried hallowed hinit
  generalize hall : front ++ outcome :: more = all at h
  cases h with
  | waiting reasons moved hallowed => exact hretried hallowed hall.symm
  | started reasons moved hallowed | failed reasons detail moved hallowed =>
      exact hended hallowed hall.symm
  | exceeded reasons last moved hpos hlength => exact hended (.inr hlength.le) hall.symm

/-- While there are answers to come, the job waits. -/
theorem FlowHistory.waits {more : List FlowOutcome} (h : FlowHistory limit job outcomes j)
    (h' : FlowHistory limit job (outcomes ++ more) after) (hmore : more ≠ [])
    (hready : job.state = .provisioned) : j.state = .provisioned := by
  cases h with
  | waiting => exact hready
  | started reasons | failed reasons =>
      rw [List.append_assoc] at h'
      cases (h'.of_append hmore).1
  | exceeded reasons last moved hpos hlength =>
      rw [List.append_assoc] at h'
      have hallowed := (h'.of_append hmore).2
      rw [List.length_map, hlength] at hallowed
      rcases hallowed with hzero | hle <;> omega

end FlowHistory

/-! ## The terms -/

/-- The store, and what cycles have done with the one job. -/
structure State where
  table : Table
  /-- How often it was in a batch of provisioned jobs. -/
  taken : Nat := 0
  /-- What the data flow has answered for its request. -/
  outcomes : List FlowOutcome := []

/-- How often a job is in the batch that is answered. -/
def takes (id : String) : (c : Call) → c.Answer → Nat
  | .next .provisioned _, jobs => jobs.countP fun j => j.id == id
  | _, _ => 0

def State.answered (s : State) (id : String) (c : Call) (a : c.Answer) : State :=
  { s with table := (c.perform s.table).2, taken := s.taken + takes id c a }

def State.withOutcome (s : State) (outcome : FlowOutcome) : State :=
  { s with outcomes := s.outcomes ++ [outcome] }

/-- The terms on which cycles run. No call of the store fails, the clock shows times that
can be stored, and no one else writes the job. -/
def terms (job : Job) : Discipline operationSignature State where
  inv s := s.table.WellKept
  answers
    | .store c, s, r, s' =>
      ∃ a, r = .ok a ∧ (c.perform s.table).1 = .ok a ∧ s' = s.answered job.id c a
    | .startFlow request, s, outcome, s' =>
      s' = if request.id = job.request.id then s.withOutcome outcome else s
    | .now, s, now, s' => now.Storable ∧ s' = s
    | _, s, _, s' => s' = s
  rely s s' := s'.taken = s.taken ∧ s'.outcomes = s.outcomes ∧
    ∀ j : Job, j.id = job.id → s.table.Keeps j → s'.table.Keeps j
  guarantee _ _ := True
  rely_refl _ := ⟨rfl, rfl, fun _ _ h => h⟩
  rely_trans h h' := ⟨h'.1.trans h.1, h'.2.1.trans h.2.1,
    fun j hid hkeeps => h'.2.2 j hid (h.2.2 j hid hkeeps)⟩

/-- The job is stored so, cycles have taken it up so often, and these are the answers they got. -/
structure Progress (j : Job) (taken : Nat) (outcomes : List FlowOutcome) (s : State) : Prop where
  table : s.table.Keeps j
  taken : s.taken = taken
  outcomes : s.outcomes = outcomes

section Calls

variable {α : Type} {job j other : Job} {n : Nat} {os : List FlowOutcome} {s s' : State}
  {E : OrchestratorError → State → Prop}

theorem Progress.rely (h : Progress j n os s) (hid : j.id = job.id)
    (hrely : (terms job).rely s s') : Progress j n os s' :=
  ⟨hrely.2.2 j hid h.table, hrely.1.trans h.taken, hrely.2.1.trans h.outcomes⟩

theorem stable_progress (hid : j.id = job.id) : (terms job).Stable (Progress j n os) :=
  fun _ _ hrely h => h.rely hid hrely

theorem answers_aside {q : Request} {r : q.Reply} (hq : q.Aside)
    (h : (terms job).answers q s r s') : s' = s := by
  cases q with
  | store _ | startFlow _ => cases hq
  | now => exact h.2
  | provision _ | send _ _ | acknowledge _ _ | isComplete _ | freshId | count _ _
  | isRunning | overflow =>
      exact h

theorem undisturbed_progress (hid : j.id = job.id) :
    (terms job).Undisturbed E (Progress j n os) where
  stable := stable_progress hid
  aside q hq := by
    intro s h s₁ hrely hinv r s₂ hanswers
    obtain rfl := answers_aside hq hanswers
    exact ⟨hinv, trivial, fun s₃ hrely' _ => (h.rely hid hrely).rely hid hrely'⟩

/-- A write of another job. -/
theorem preserves_write {c : Call} (hid : j.id = job.id) (hspares : c.Spares j.id)
    (hcreate : ∀ new, c ≠ .create new) (htakes : ∀ a, takes job.id c a = 0) :
    (terms job).Preserves E (Progress j n os) (store c) := by
  intro s h s₁ hrely hinv r s₂ hanswers
  obtain ⟨a, rfl, -, rfl⟩ := hanswers
  have h₁ := h.rely hid hrely
  refine ⟨wellKept_perform hinv hcreate, trivial, fun s₃ hrely' _ => ?_⟩
  have h₂ : Progress j n os (s₁.answered job.id c a) :=
    ⟨h₁.table.perform hspares, by rw [State.answered, htakes, h₁.taken, Nat.add_zero],
      h₁.outcomes⟩
  exact h₂.rely hid hrely'

theorem ignores_progress (hid : j.id = job.id) (hne : other.id ≠ j.id) :
    (terms job).Ignores E (Progress j n os) other := by
  intro after hafter
  have hspares : after.id ≠ j.id := by rwa [hafter]
  exact ⟨preserves_write hid (c := .update after) hspares (fun _ h => nomatch h) fun _ => rfl,
    fun expected => preserves_write hid (c := .updateIfState after expected) hspares
      (fun _ h => nomatch h) fun _ => rfl⟩

/-- The data flow is asked for another job. -/
theorem preserves_startFlow {request : TransferRequest} (hid : j.id = job.id)
    (hne : request.id ≠ job.request.id) :
    (terms job).Preserves E (Progress j n os) (ask (.startFlow request)) := by
  intro s h s₁ hrely hinv outcome s₂ hanswers
  obtain rfl : s₂ = s₁ := hanswers.trans (if_neg hne)
  exact ⟨hinv, trivial, fun s₃ hrely' _ => (h.rely hid hrely).rely hid hrely'⟩

end Calls

/-! ## One cycle -/

/-- The stored job is what the answers of the flow have made of `job`, and there was one answer
for each time it was taken up. -/
def FollowsAnswers (limit : Nat) (job : Job) (s : State) : Prop :=
  ∃ j os, FlowHistory limit job os j ∧ Progress j os.length os s

section Cycle

variable {β : Type} {job j other : Job} {n : Nat} {os : List FlowOutcome} {s : State}
  {jobs : List Job} {E : OrchestratorError → State → Prop} {config : Config.Orchestrator}

theorem undisturbed_followsAnswers (limit : Nat) :
    (terms job).Undisturbed E (FollowsAnswers limit job) where
  stable := fun _ _ hrely ⟨j, os, hhistory, h⟩ => ⟨j, os, hhistory, h.rely hhistory.id hrely⟩
  aside q hq := by
    rintro s ⟨j, os, hhistory, h⟩
    have hcalm : (terms job).Undisturbed E (Progress j os.length os) :=
      undisturbed_progress hhistory.id
    exact Discipline.wpOr_mono (fun _ _ _ h' => ⟨j, os, hhistory, h'⟩) (hcalm.aside q hq s h)

/-- A batch is taken up. -/
theorem wpOr_next {state : JobState} {limit : Nat} {g : List Job → Operation β}
    {Q : β → State → Prop} (hid : j.id = job.id) (h : Progress j n os s)
    (hnext : ∀ jobs s', s'.table.WellKept → s'.table.next state limit = .ok jobs →
      Progress j (n + takes job.id (.next state limit) jobs) os s' →
      (terms job).wpOr E (g jobs) Q s') :
    (terms job).wpOr E (store (.next state limit) >>= g) Q s := by
  intro s₁ hrely hinv r s₂ hanswers
  obtain ⟨jobs, rfl, hjobs, rfl⟩ := hanswers
  have h₁ := h.rely hid hrely
  exact ⟨hinv, trivial, hnext jobs _ hinv hjobs
    ⟨h₁.table, congrArg (· + takes job.id (.next state limit) jobs) h₁.taken, h₁.outcomes⟩⟩

/-! ### The dispatch -/

/-- What became of the job is stored over it. -/
theorem wpOr_swap {after : Job} (hid : j.id = job.id) (hafter : after.id = j.id)
    (hstamp : after.stateTimestamp.Storable) (hwaits : j.state = .provisioned)
    (h : Progress j n os s) : (terms job).wpOr E (do
      if ← store (.updateIfState after .provisioned) then
        countMove after : Operation Unit) (fun _ => Progress (j.overwrittenBy after) n os) s := by
  intro s₁ hrely hinv r s₂ hanswers
  obtain ⟨hit, rfl, -, rfl⟩ := hanswers
  have h₁ := h.rely hid hrely
  -- the job is still stored as it was taken up, so the write hits
  obtain ⟨t, hhit, hkeeps⟩ := h₁.table.updateIfState_hit hafter hstamp hwaits
  have h₂ : Progress (j.overwrittenBy after) n os
      (s₁.answered job.id (.updateIfState after .provisioned) hit) := by
    refine ⟨?_, h₁.taken, h₁.outcomes⟩
    rw [State.answered, Call.perform, hhit]
    exact hkeeps
  have hcalm : (terms job).Undisturbed E (Progress (j.overwrittenBy after) n os) :=
    undisturbed_progress hid
  exact ⟨wellKept_perform hinv (by simp), trivial,
    Discipline.preserves_countIf hcalm.stable (hcalm.count _ _) hit _ h₂⟩

/-- The turn of the job itself. -/
theorem wpOr_execute (hhistory : FlowHistory config.maxFlowRetries job os j)
    (hready : job.state = .provisioned) (hwaits : j.state = .provisioned)
    (hrole : job.role = .executor) (hlimit : config.maxFlowRetries < 2 ^ 32 - 1)
    (h : Progress j n os s) : (terms job).wpOr E (Cycle.execute config j) (fun _ s' =>
      ∃ outcome after, FlowHistory config.maxFlowRetries job (os ++ [outcome]) after ∧
        Progress after n (os ++ [outcome]) s') s := by
  have hid := hhistory.id
  intro s₁ hrely hinv (outcome : FlowOutcome) s₂ hanswers
  have h₁ := h.rely hid hrely
  obtain rfl : s₂ = s₁.withOutcome outcome := hanswers.trans (if_pos (by rw [hhistory.request]))
  refine ⟨hinv, trivial, ?_⟩
  have h₂ : Progress j n (os ++ [outcome]) (s₁.withOutcome outcome) :=
    ⟨h₁.table, h₁.taken, congrArg (· ++ [outcome]) h₁.outcomes⟩
  have hcalm : (terms job).Undisturbed E (Progress j n (os ++ [outcome])) :=
    undisturbed_progress hid
  refine Discipline.wpOr_then (hcalm.count _ _ _ h₂) fun _ s₃ _ h₃ => ?_
  intro s₄ hrely₄ hinv₄ now s₅ hanswers
  obtain ⟨hstamp, rfl⟩ : now.Storable ∧ s₅ = s₄ := hanswers
  have h₄ := h₃.rely hid hrely₄
  refine ⟨hinv₄, trivial, ?_⟩
  refine Discipline.wpOr_then (hcalm.checkCount _ _ _ h₄) fun _ s₅ _ h₅ => ?_
  obtain ⟨after, hafter⟩ := Job.exists_afterFlow (hhistory.role.trans hrole) hwaits
    config.maxFlowRetries now outcome
  have hnext := hhistory.next hready hwaits hrole hlimit hafter
  have hafterId : after.id = j.id := (Job.evolves_afterFlow hwaits hafter).id
  have hstamped : after.stateTimestamp.Storable := Job.stamp_afterFlow hafter ▸ hstamp
  refine Discipline.wpOr_mono (fun _ _ _ h' => ⟨outcome, _, hnext, h'⟩)
    (Discipline.wpOr_moved hafter ?_)
  dsimp only
  split
  · exact Discipline.wpOr_then (hcalm.count _ _ _ h₅) fun _ _ _ h₆ =>
      wpOr_swap hid hafterId hstamped hwaits h₆
  · exact wpOr_swap hid hafterId hstamped hwaits h₅

/-- The turn of another job. -/
theorem preserves_dispatch (hid : j.id = job.id) (hne : other.id ≠ job.id)
    (hrequest : other.request.id ≠ job.request.id) (hstate : other.state = .provisioned) :
    (terms job).Preserves E (Progress j n os) (Cycle.dispatch config other) := by
  have hcalm : (terms job).Undisturbed E (Progress j n os) := undisturbed_progress hid
  have hother : (terms job).Ignores E (Progress j n os) other := ignores_progress hid (by rwa [hid])
  rw [Cycle.dispatch]
  cases hrole : other.role with
  | initiator => exact Discipline.preserves_send hcalm hother hstate hrole
  | executor =>
      exact Discipline.preserves_execute hcalm config hother hstate hrole
        (preserves_startFlow hid hrequest)

/-- Of the jobs that are still to come, one at most is the job, and then as it is stored. Each
of its turns to come is counted already. -/
structure Ahead (limit : Nat) (job : Job) (jobs : List Job) (s : State) : Prop where
  distinct : (jobs.map (·.id)).Nodup
  ready : ∀ other ∈ jobs, other.state = .provisioned
  requests : ∀ other ∈ jobs, other.request.id = job.request.id → other.id = job.id
  history : ∃ j os, FlowHistory limit job os j ∧
    Progress j (os.length + jobs.countP fun other => other.id == job.id) os s ∧
    ∀ other ∈ jobs, other.id = job.id → other = j

theorem Ahead.rely {s' : State} {limit : Nat} (h : Ahead limit job jobs s)
    (hrely : (terms job).rely s s') : Ahead limit job jobs s' := by
  obtain ⟨j, os, hhistory, hprogress, hself⟩ := h.history
  exact ⟨h.distinct, h.ready, h.requests, j, os, hhistory, hprogress.rely hhistory.id hrely, hself⟩

/-- The next turn, of the job or of another one. -/
theorem wpOr_dispatch_next {rest : List Job} (hready : job.state = .provisioned)
    (hrole : job.role = .executor) (hlimit : config.maxFlowRetries < 2 ^ 32 - 1)
    (h : Ahead config.maxFlowRetries job (other :: rest) s) :
    (terms job).wpOr E (Cycle.dispatch config other)
      (fun _ => Ahead config.maxFlowRetries job rest) s := by
  obtain ⟨hdistinct, hstate, hrequest, j, os, hhistory, hprogress, hself⟩ := h
  rw [List.map_cons, List.nodup_cons] at hdistinct
  obtain ⟨hotherState, hrestState⟩ := List.forall_mem_cons.1 hstate
  obtain ⟨hotherRequest, hrestRequest⟩ := List.forall_mem_cons.1 hrequest
  obtain ⟨hotherSelf, hrestSelf⟩ := List.forall_mem_cons.1 hself
  by_cases hother : other.id = job.id
  · obtain rfl := hotherSelf hother
    -- after its own turn all that come are others
    have hothers : ∀ k ∈ rest, k.id ≠ job.id := fun k hk heq =>
      hdistinct.1 (hother ▸ heq ▸ List.mem_map_of_mem hk)
    have hnone : rest.countP (fun k => k.id == job.id) = 0 :=
      List.countP_eq_zero.2 fun k hk => by simpa using hothers k hk
    rw [List.countP_cons_of_pos (by simpa using hother), hnone] at hprogress
    rw [Cycle.dispatch, hhistory.role, hrole]
    refine Discipline.wpOr_mono (fun _ s' _ h' => ?_)
      (wpOr_execute hhistory hready hotherState hrole hlimit hprogress)
    obtain ⟨outcome, after, hnext, h'⟩ := h'
    refine ⟨hdistinct.2, hrestState, hrestRequest, after, _, hnext, ?_,
      fun k hk heq => absurd heq (hothers k hk)⟩
    rwa [hnone, List.length_append]
  · rw [List.countP_cons_of_neg (by simpa using hother)] at hprogress
    exact Discipline.wpOr_mono
      (fun _ _ _ h' => ⟨hdistinct.2, hrestState, hrestRequest, j, os, hhistory, h', hrestSelf⟩)
      (preserves_dispatch hhistory.id hother (mt hotherRequest hother) hotherState s hprogress)

theorem wpOr_dispatch_all (hready : job.state = .provisioned) (hrole : job.role = .executor)
    (hlimit : config.maxFlowRetries < 2 ^ 32 - 1) (h : Ahead config.maxFlowRetries job jobs s) :
    (terms job).wpOr E (forEach (Cycle.dispatch config) jobs)
      (fun _ => FollowsAnswers config.maxFlowRetries job) s := by
  refine Discipline.wpOr_mono (fun _ _ _ hdone => ?_)
    (Discipline.wpOr_forEach (fun _ _ _ hrely hahead => hahead.rely hrely)
      (fun _ _ _ _ => wpOr_dispatch_next hready hrole hlimit) jobs h)
  obtain ⟨j, os, hhistory, hprogress, -⟩ := hdone.history
  exact ⟨j, os, hhistory, hprogress⟩

/-! ### The phases -/

theorem preserves_provisionPhase (hready : job.state = .provisioned) (limit : Nat) :
    (terms job).Preserves E (FollowsAnswers limit job) (Cycle.provisionPhase config) := by
  rintro s ⟨j, os, hhistory, h⟩
  refine wpOr_next hhistory.id h fun jobs s₁ _ hnext h₁ => ?_
  have hne := h₁.table.ne_of_next hnext (hhistory.state hready).1
  exact Discipline.wpOr_mono (fun _ _ _ h' => ⟨j, os, hhistory, h'⟩)
    (Discipline.preserves_provisioned (undisturbed_progress hhistory.id) (fun other hother =>
      ⟨ignores_progress hhistory.id (hne other hother), state_of_next hnext other hother⟩) s₁ h₁)

theorem preserves_dispatchPhase (hready : job.state = .provisioned) (hrole : job.role = .executor)
    (hlimit : config.maxFlowRetries < 2 ^ 32 - 1) :
    (terms job).Preserves E (FollowsAnswers config.maxFlowRetries job)
      (Cycle.dispatchPhase config) := by
  rintro s ⟨j, os, hhistory, h⟩
  refine wpOr_next hhistory.id h fun jobs s₁ hkept hnext h₁ => ?_
  have hcalm : (terms job).Undisturbed E (FollowsAnswers config.maxFlowRetries job) :=
    undisturbed_followsAnswers _
  have hrequests := h₁.table.eq_of_request hkept hnext
  have hself := h₁.table.eq_of_next hnext
  rw [hhistory.id] at hrequests hself
  rw [hhistory.request] at hrequests
  refine Discipline.wpOr_then (wpOr_dispatch_all hready hrole hlimit ⟨(next_ok hkept hnext).1,
    state_of_next hnext, hrequests, j, os, hhistory, h₁, hself⟩) fun _ s₂ _ h₂ => ?_
  exact Discipline.preserves_processed hcalm.stable (hcalm.count _ _) s₂ h₂

theorem preserves_completionPhase (hready : job.state = .provisioned) {limit : Nat}
    (hE : ∀ e s, FollowsAnswers limit job s → E e s) :
    (terms job).Preserves E (FollowsAnswers limit job) (Cycle.completionPhase config) := by
  rintro s ⟨j, os, hhistory, h⟩
  refine wpOr_next hhistory.id h fun jobs s₁ _ hnext h₁ => ?_
  have hne := h₁.table.ne_of_next hnext (hhistory.state hready).2
  exact Discipline.wpOr_mono (fun _ _ _ h' => ⟨j, os, hhistory, h'⟩)
    (Discipline.preserves_inspected (undisturbed_progress hhistory.id)
      (fun e s h' => hE e s ⟨j, os, hhistory, h'⟩)
      (fun other hother => ignores_progress hhistory.id (hne other hother)) s₁ h₁)

/-- Whether the cycle comes to its end or not. -/
theorem wp_cycle (hready : job.state = .provisioned) (hrole : job.role = .executor)
    (hlimit : config.maxFlowRetries < 2 ^ 32 - 1) (h : FollowsAnswers config.maxFlowRetries job s) :
    (terms job).wp (cycle config).run (fun _ => FollowsAnswers config.maxFlowRetries job) s := by
  let E : OrchestratorError → State → Prop := fun _ => FollowsAnswers config.maxFlowRetries job
  have hcalm : (terms job).Undisturbed E (FollowsAnswers config.maxFlowRetries job) :=
    undisturbed_followsAnswers _
  refine Discipline.wp_of_wpOr (Discipline.preserves_cycle (hcalm.aside .isRunning trivial)
    (preserves_provisionPhase hready _) (preserves_dispatchPhase hready hrole hlimit)
    (preserves_completionPhase hready fun _ _ => id) s h)

end Cycle

/-! ## Any number of cycles -/

section Cycles

variable {α : Type} {job : Job} {k : Nat} {s s' : State} {config : Config.Orchestrator}

theorem followsAnswers_cycles (hready : job.state = .provisioned) (hrole : job.role = .executor)
    (hlimit : config.maxFlowRetries < 2 ^ 32 - 1) (hcycles : (terms job).Cycles config k s s')
    (h : FollowsAnswers config.maxFlowRetries job s) :
    FollowsAnswers config.maxFlowRetries job s' := by
  refine hcycles.kept (fun s s' result hruns h => ?_) h
  exact (hruns.of_wp (wp_cycle hready hrole hlimit h)).2

/-- What the data flow has answered is not taken back. -/
theorem outcomes_of_answers {q : Request} {r : q.Reply} (h : (terms job).answers q s r s') :
    s.outcomes <+: s'.outcomes := by
  cases q with
  | store c =>
      obtain ⟨a, -, -, rfl⟩ := h
      exact List.prefix_rfl
  | startFlow request =>
      obtain rfl := h
      split
      · exact List.prefix_append _ _
      · exact List.prefix_rfl
  | now =>
      obtain ⟨-, rfl⟩ := h
      exact List.prefix_rfl
  | provision _ | send _ _ | acknowledge _ _ | isComplete _ | freshId | count _ _
  | isRunning | overflow =>
      obtain rfl := h
      exact List.prefix_rfl

theorem outcomes_of_runs {p : Activity α} {a : α} (hruns : (terms job).Runs p s a s') :
    s.outcomes <+: s'.outcomes := by
  induction hruns with
  | done hrely _ => exact hrely.2.1 ▸ List.prefix_rfl
  | call hrely _ hanswers _ ih => exact hrely.2.1 ▸ (outcomes_of_answers hanswers).trans ih

theorem outcomes_of_cycles (hcycles : (terms job).Cycles config k s s') :
    s.outcomes <+: s'.outcomes := by
  refine hcycles.kept (P := fun s' => s.outcomes <+: s'.outcomes)
    (fun s s' result hruns h => ?_) List.prefix_rfl
  exact h.trans (outcomes_of_runs hruns)

theorem followsAnswers_at_first {t : Table} (hkeeps : t.Keeps job) (hcount : job.retryCount = 0)
    (limit : Nat) : FollowsAnswers limit job { table := t } := by
  have hhistory : FlowHistory limit job [] (tried job 0 job.stateTimestamp) :=
    .waiting [] job.stateTimestamp (.inr (Nat.zero_le limit))
  have hnone : tried job 0 job.stateTimestamp = job := by
    rw [tried, show UInt32.ofNat 0 = job.retryCount from hcount.symm]
  rw [hnone] at hhistory
  exact ⟨job, [], hhistory, hkeeps, rfl, rfl⟩

end Cycles

/-- What becomes of an executor's job that is provisioned is told by the answers of the
data flow, of which there is one for each time it is taken up. The retries among them are
counted in the job, and once it is not provisioned any more the data flow is not asked for
it again. -/
theorem retried_as_told (config : Config.Orchestrator) {job : Job} {t : Table}
    (hkept : t.WellKept) (hget : t.get job.id = .ok (some job)) (hrole : job.role = .executor)
    (hready : job.state = .provisioned) (hcount : job.retryCount = 0)
    (hlimit : config.maxFlowRetries < 2 ^ 32 - 1) {k : Nat} {s : State}
    (hcycles : (terms job).Cycles config k { table := t } s) :
    ∃ after, s.table.get job.id = .ok (some after) ∧
      FlowHistory config.maxFlowRetries job s.outcomes after ∧
      s.outcomes.length = s.taken ∧
      (config.maxFlowRetries ≠ 0 ∨ retries s.outcomes < 2 ^ 32 →
        after.retryCount.toNat = retries s.outcomes) ∧
      (after.state ≠ .provisioned → ∀ (later : Nat) (s' : State),
        (terms job).Cycles config later s s' → s'.outcomes = s.outcomes) := by
  have hfirst := followsAnswers_at_first (hkept.keeps hget) hcount config.maxFlowRetries
  have hfollows := followsAnswers_cycles hready hrole hlimit hcycles hfirst
  obtain ⟨after, outcomes, hhistory, htable, htaken, rfl⟩ := hfollows
  refine ⟨after, hhistory.id ▸ htable.get, hhistory, htaken.symm, fun hbound => ?_, ?_⟩
  · rw [hhistory.retryCount]
    refine UInt32.toNat_ofNat_of_lt' (hbound.elim (fun hpos => ?_) id)
    have hle := hhistory.retries_le hpos
    have hsize : UInt32.size = 2 ^ 32 := rfl
    omega
  · intro hleft later s' hlater
    obtain ⟨after', outcomes', hhistory', -, -, rfl⟩ :=
      followsAnswers_cycles hready hrole hlimit hlater
        ⟨after, s.outcomes, hhistory, htable, htaken, rfl⟩
    obtain ⟨more, hmore⟩ := outcomes_of_cycles hlater
    rw [← hmore] at hhistory' ⊢
    by_contra hne
    exact hleft (hhistory.waits hhistory' (fun hnil => hne (by rw [hnil, List.append_nil])) hready)

/-! ### A flow that never starts -/

/-- An executor's job that was tried so often. -/
def stubborn (tries : UInt32) : Job where
  id := "a"
  correlationId := "a"
  role := .executor
  state := .provisioned
  request := { id := "a", destination := { kind := localDirectory } }
  manifest := some {}
  retryCount := tries
  createdAt := .epoch
  stateTimestamp := .epoch

/-- One retry is allowed. -/
def strict : Config.Orchestrator :=
  { batchSize := 1, maxFlowRetries := 1 }

/-- The job after the second retry. -/
def givenUp : Job :=
  { stubborn 2 with
    state := .error, errorDetail := some "flow retry limit of 1 exceeded: no route" }

def gaveUp : State :=
  ⟨⟨[Row.ofJob givenUp]⟩, 2, [.retry "no route", .retry "no route"]⟩

section Runs

variable {α : Type} {job : Job} {s s' : State} {t : Table} {result : α}

/-- A call of the store while nobody else is at work. -/
theorem runs_store {c : Call} {next : operationSignature.Reply (.store c) → Activity α}
    {a : c.Answer} (hkept : s.table.WellKept) (h : c.perform s.table = (.ok a, t))
    (rest : (terms job).Runs (next (.ok a)) ⟨t, s.taken + takes job.id c a, s.outcomes⟩
      result s') : (terms job).Runs (.call (.store c) next) s result s' := by
  refine Discipline.runs_call (.ok a) hkept ⟨a, rfl, by rw [h], ?_⟩ rest
  rw [State.answered, h]

theorem runs_flow {request : TransferRequest}
    {next : operationSignature.Reply (.startFlow request) → Activity α} (outcome : FlowOutcome)
    (hkept : s.table.WellKept) (hrequest : request.id = job.request.id)
    (rest : (terms job).Runs (next outcome) (s.withOutcome outcome) result s') :
    (terms job).Runs (.call (.startFlow request) next) s result s' :=
  Discipline.runs_call outcome hkept (if_pos hrequest).symm rest

end Runs

theorem next_stubborn (tries : UInt32) :
    Table.next ⟨[Row.ofJob (stubborn tries)]⟩ .provisioned 1 = .ok [stubborn tries] := by
  have hread := (Row.reads_ofJob_epoch (j := stubborn tries) rfl rfl).toJob?
  exact next_single hread Nat.one_pos

theorem wellKept_stubborn (tries : UInt32) : Table.WellKept ⟨[Row.ofJob (stubborn tries)]⟩ :=
  wellKept_single rfl

theorem runs_again : (terms (stubborn 0)).Runs (cycle strict).run
    { table := ⟨[Row.ofJob (stubborn 0)]⟩ } (.ok ⟨0, 1, 0⟩)
    ⟨⟨[Row.ofJob (stubborn 1)]⟩, 1, [.retry "no route"]⟩ := by
  have hkept := wellKept_stubborn
  have hnew : Table.next ⟨[Row.ofJob (stubborn 0)]⟩ .initial 1 = .ok [] :=
    next_single_of_ne (by nofun) 1
  have hunsent : Table.next ⟨[Row.ofJob (stubborn 1)]⟩ .acknowledged 1 = .ok [] :=
    next_single_of_ne (by nofun) 1
  refine runs_store (hkept 0) (congrArg (·, _) hnew) ?_
  refine Discipline.runs_call () (hkept 0) rfl ?_
  refine Discipline.runs_call true (hkept 0) rfl ?_
  refine runs_store (hkept 0) (congrArg (·, _) (next_stubborn 0)) ?_
  refine runs_flow (.retry "no route") (hkept 0) rfl ?_
  refine Discipline.runs_call () (hkept 0) rfl ?_
  refine Discipline.runs_call Time.Instant.epoch (hkept 0) ⟨Time.Instant.storable_epoch, rfl⟩ ?_
  refine runs_store (c := .updateIfState (stubborn 1) .provisioned) (a := true)
    (t := ⟨[Row.ofJob (stubborn 1)]⟩) (hkept 0) rfl ?_
  refine Discipline.runs_call () (hkept 1) rfl ?_
  refine Discipline.runs_call () (hkept 1) rfl ?_
  refine Discipline.runs_call true (hkept 1) rfl ?_
  refine runs_store (hkept 1) (congrArg (·, _) hunsent) ?_
  refine Discipline.runs_call () (hkept 1) rfl ?_
  exact .done ((terms _).rely_refl _) (hkept 1)

theorem runs_last : (terms (stubborn 0)).Runs (cycle strict).run
    ⟨⟨[Row.ofJob (stubborn 1)]⟩, 1, [.retry "no route"]⟩ (.ok ⟨0, 1, 0⟩) gaveUp := by
  have hkept := wellKept_stubborn 1
  have hended : Table.WellKept ⟨[Row.ofJob givenUp]⟩ := wellKept_single rfl
  have hnew : Table.next ⟨[Row.ofJob (stubborn 1)]⟩ .initial 1 = .ok [] :=
    next_single_of_ne (by nofun) 1
  have hunsent : Table.next ⟨[Row.ofJob givenUp]⟩ .acknowledged 1 = .ok [] :=
    next_single_of_ne (by nofun) 1
  refine runs_store hkept (congrArg (·, _) hnew) ?_
  refine Discipline.runs_call () hkept rfl ?_
  refine Discipline.runs_call true hkept rfl ?_
  refine runs_store hkept (congrArg (·, _) (next_stubborn 1)) ?_
  refine runs_flow (.retry "no route") hkept rfl ?_
  refine Discipline.runs_call () hkept rfl ?_
  refine Discipline.runs_call Time.Instant.epoch hkept ⟨Time.Instant.storable_epoch, rfl⟩ ?_
  refine Discipline.runs_call () hkept rfl ?_
  refine runs_store (c := .updateIfState givenUp .provisioned) (a := true)
    (t := ⟨[Row.ofJob givenUp]⟩) hkept rfl ?_
  refine Discipline.runs_call () hended rfl ?_
  refine Discipline.runs_call () hended rfl ?_
  refine Discipline.runs_call true hended rfl ?_
  refine runs_store hended (congrArg (·, _) hunsent) ?_
  refine Discipline.runs_call () hended rfl ?_
  exact .done ((terms _).rely_refl _) hended

theorem cycles_stubborn : (terms (stubborn 0)).Cycles strict 2
    { table := ⟨[Row.ofJob (stubborn 0)]⟩ } gaveUp :=
  .next (.next (.none _) runs_again) runs_last

/-- One retry is allowed, and the flow asks for two. -/
theorem retried_as_told_stubborn :
    Table.WellKept ⟨[Row.ofJob (stubborn 0)]⟩ ∧
    Table.get ⟨[Row.ofJob (stubborn 0)]⟩ (stubborn 0).id = .ok (some (stubborn 0)) ∧
    (stubborn 0).role = .executor ∧ (stubborn 0).state = .provisioned ∧
    (stubborn 0).retryCount = 0 ∧ strict.maxFlowRetries < 2 ^ 32 - 1 ∧
    (terms (stubborn 0)).Cycles strict 2 { table := ⟨[Row.ofJob (stubborn 0)]⟩ } gaveUp ∧
    gaveUp.table.get givenUp.id = .ok (some givenUp) ∧
    FlowHistory 1 (stubborn 0) gaveUp.outcomes givenUp ∧
    givenUp.retryCount.toNat = retries gaveUp.outcomes ∧
    ∀ (later : Nat) (s' : State), (terms (stubborn 0)).Cycles strict later gaveUp s' →
      s'.outcomes = gaveUp.outcomes := by
  have hkept := wellKept_stubborn 0
  have hget : Table.get ⟨[Row.ofJob (stubborn 0)]⟩ (stubborn 0).id = .ok (some (stubborn 0)) :=
    (keeps_ofJob (Row.reads_ofJob_epoch rfl rfl)).get
  have hlimit : strict.maxFlowRetries < 2 ^ 32 - 1 := by decide
  have hlast : gaveUp.table.get givenUp.id = .ok (some givenUp) :=
    (keeps_ofJob (Row.reads_ofJob_epoch rfl rfl)).get
  obtain ⟨after, hafter, hhistory, -, hcount, hlater⟩ :=
    retried_as_told strict hkept hget rfl rfl rfl hlimit cycles_stubborn
  obtain rfl : givenUp = after := Option.some.inj (Except.ok.inj (hlast.symm.trans hafter))
  exact ⟨hkept, hget, rfl, rfl, rfl, hlimit, cycles_stubborn, hlast, hhistory,
    hcount (.inl (by decide)), hlater (by decide)⟩

end Ferry.Retries
