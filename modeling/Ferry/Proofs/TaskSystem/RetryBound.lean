import Ferry.Proofs.TaskSystem.Starting
import Ferry.Proofs.Store.Queue

/-!
# The retry count stays below its bound

The retries of a job are counted in 32 bits, and the count is raised before anybody
compares it with the limit. What keeps it from running over is the limit all the same:
a job that has gone beyond it fails, and no move leads out of there. So a job that may
still be tried was tried no more often than the limit says, and if that is less than
the largest number, one more retry can be counted. Programs write what they have made
of jobs they were shown, so this holds of every job in the store, however old the copy was
that somebody wrote, and of every copy that is read (`RetryFits`), and no program panics over a
count (`TaskSystem.Panics`). The terms let a panic leave anything behind, so that a program that
keeps to them comes to none.

Nothing goes beyond the largest number, and where the limit is 0 there is none. Then a flow
that never starts is tried until the count is full, and once more.
-/

namespace Ferry

open Time (Instant)

/-! ## Jobs -/

namespace Job

/-- One more retry of the job fits the 32 bits of its count, unless it has failed and is not
tried again. -/
def RetryFits (job : Job) : Prop :=
  job.state = .error ∨ job.retryCount.toNat + 1 < 2 ^ 32

variable {job after tried : Job} {target : JobState} {now : Instant} {limit : Nat} {detail : String}

theorem retryFits_new (id : String) (role : Role) (request : TransferRequest) (now : Instant) :
    (new id role request now).RetryFits := by
  simp [RetryFits, new]

/-- No move leads out of `error`. -/
theorem RetryFits.lt_of_move (h : job.RetryFits) (hmove : job.move target now = .ok after) :
    job.retryCount.toNat + 1 < 2 ^ 32 := by
  have hallowed := (move_ok hmove).allowed
  rcases h with herror | hfits
  · rw [herror, JobState.not_canMove_of_isTerminal rfl] at hallowed
    cases hallowed
  · exact hfits

theorem RetryFits.move (h : job.RetryFits) (hmove : job.move target now = .ok after) :
    after.RetryFits := by
  have hfits := h.lt_of_move hmove
  obtain ⟨-, rfl⟩ := move_eq_ok.1 hmove
  exact .inr hfits

/-- A move that sets other fields than the count. -/
theorem RetryFits.map_move {f : Job → Job} (h : job.RetryFits)
    (hmove : (job.move target now).map f = .ok after)
    (hf : ∀ j, (f j).retryCount = j.retryCount) : after.RetryFits := by
  obtain ⟨moved, hmoved, rfl⟩ := map_move_eq_ok hmove
  have hfits := h.lt_of_move hmoved
  obtain ⟨-, rfl⟩ := move_eq_ok.1 hmoved
  exact .inr (by rwa [hf])

theorem RetryFits.failed (h : job.RetryFits) (hfailed : job.failed detail now = .ok after) :
    after.RetryFits :=
  h.map_move hfailed fun _ => rfl

theorem RetryFits.accept {outcome : ProvisionOutcome} (h : job.RetryFits)
    (haccept : job.accept outcome now = .ok after) : after.RetryFits := by
  cases outcome with
  | provisioned resources => exact h.map_move haccept fun _ => rfl
  | failed detail => exact h.failed haccept

theorem RetryFits.ended {failure : Option String} (h : job.RetryFits)
    (hended : Flow.ended job failure now = .ok after) : after.RetryFits := by
  rw [Flow.ended] at hended
  split at hended
  · cases hstart : job.executing now with
    | error e => rw [hstart] at hended; cases hended
    | ok started =>
        rw [hstart] at hended
        have hstarted : started.RetryFits := h.move hstart
        cases failure with
        | none => exact hstarted.move hended
        | some detail => exact hstarted.failed hended
  · cases failure with
    | none => exact h.move hended
    | some detail => exact h.failed hended

/-- Where another retry fits the count goes up by one. -/
theorem RetryFits.toNat_retryCount (h : job.RetryFits) (hretry : job.retry now = .ok tried) :
    tried.retryCount.toNat = job.retryCount.toNat + 1 := by
  obtain ⟨moved, hmoved, rfl⟩ := map_move_eq_ok hretry
  have hfits := h.lt_of_move hmoved
  obtain ⟨-, rfl⟩ := move_eq_ok.1 hmoved
  show (job.retryCount + 1).toNat = _
  rw [UInt32.toNat_add, UInt32.toNat_one, Nat.mod_eq_of_lt hfits]

/-- A job that has gone beyond the limit has failed, and within the limit another retry fits. -/
theorem RetryFits.afterFlow {outcome : FlowOutcome} (hlimit : limit ≠ 0 ∧ limit < 2 ^ 32 - 1)
    (h : job.RetryFits) (hafter : Cycle.afterFlow limit job now outcome = .ok after) :
    after.RetryFits := by
  cases outcome with
  | ok => exact h.move hafter
  | fatal detail => exact h.failed hafter
  | retry reason =>
      obtain ⟨tried, -, ⟨-, hfailed⟩ | ⟨hwithin, rfl⟩⟩ := afterFlow_retry hafter
      · exact .inl (failed_ok hfailed).state
      · have hle : after.retryCount.toNat ≤ limit := by
          simpa [Cycle.retriesExceeded, Nat.pos_of_ne_zero hlimit.1] using hwithin
        exact .inr (by omega)

/-- Where another retry fits no count runs over. -/
theorem RetryFits.not_overflows (h : job.RetryFits) (outcome : FlowOutcome) :
    Cycle.overflows job outcome = false := by
  cases outcome with
  | ok | fatal _ => rfl
  | retry reason =>
      rw [Cycle.overflows, retryOverflows, Bool.and_eq_false_imp]
      intro hallowed
      rcases h with herror | hfits
      · rw [herror, JobState.not_canMove_of_isTerminal rfl] at hallowed
        cases hallowed
      · exact decide_eq_false (Nat.not_le.2 hfits)

/-- Whenever a retry is asked for, the answer can be kept and the retry is counted. -/
def CountsRetry (limit : Nat) (job : Job) : Prop :=
  ∀ now reason, ∃ after, Cycle.afterFlow limit job now (.retry reason) = .ok after ∧
    after.retryCount.toNat = job.retryCount.toNat + 1

theorem RetryFits.countsRetry (h : job.RetryFits) (hrole : job.role = .executor)
    (hready : job.state = .provisioned) (limit : Nat) : job.CountsRetry limit := by
  intro now reason
  obtain ⟨after, hafter⟩ := exists_afterFlow hrole hready limit now (.retry reason)
  refine ⟨after, hafter, ?_⟩
  obtain ⟨tried, hretry, hlast⟩ := afterFlow_retry hafter
  have hcount := h.toNat_retryCount hretry
  rcases hlast with ⟨-, hfailed⟩ | ⟨-, rfl⟩
  · obtain ⟨moved, hmoved, rfl⟩ := map_move_eq_ok hfailed
    obtain ⟨-, rfl⟩ := move_eq_ok.1 hmoved
    exact hcount
  · exact hcount

end Job

/-! ## Tables -/

namespace Store

/-- The state and the count that are read are those that were written. -/
theorem Row.retryFits_of_read {r : Row} {new job : Job} (hnew : new.RetryFits)
    (hstate : r.state = .text new.state.name)
    (hcount : r.retryCount = .integer new.retryCount.toNat) (hread : r.toJob? = some job) :
    job.RetryFits := by
  have hsame : job.state = new.state :=
    JobState.name_inj (Cell.text.inj ((shows_of_toJob? hread).state_eq.symm.trans hstate))
  have hcolumn := (reads_of_toJob? hread).retryCount
  rw [hcount] at hcolumn
  have hcount : (new.retryCount.toNat : Int) = job.retryCount.toNat := Option.some.inj hcolumn
  rcases hnew with herror | hfits
  · exact .inl (hsame.trans herror)
  · exact .inr (by omega)

namespace Table

/-- One more retry fits the count of every job that can be read and has not failed. -/
def RetriesFit (t : Table) : Prop :=
  ∀ r ∈ t.rows, ∀ job, r.toJob? = some job → job.RetryFits

variable {t t' : Table} {job new : Job}

theorem retriesFit_empty : RetriesFit {} := by
  simp [RetriesFit]

/-- There are tables with a full count. -/
theorem exists_not_retriesFit : ∃ t : Table, ¬ t.RetriesFit := by
  let full : Job :=
    { Job.new "0" .executor { id := "0", destination := { kind := "" } } .epoch with
      state := .provisioned, retryCount := 4294967295 }
  have hread : (Row.ofJob full).toJob? = some full := (Row.reads_ofJob_epoch rfl rfl).toJob?
  refine ⟨⟨[Row.ofJob full]⟩, fun h => ?_⟩
  rcases h _ (List.mem_singleton_self _) full hread with herror | hfits
  · cases herror
  · exact absurd hfits (by decide)

theorem RetriesFit.write (h : t.RetriesFit) (hnew : new.RetryFits) (expected : Option JobState) :
    (t.write new expected).RetriesFit := by
  intro r' hr' job hread
  obtain ⟨r, hr, rfl⟩ := List.mem_map.1 hr'
  split at hread
  · exact Row.retryFits_of_read hnew rfl rfl hread
  · exact h r hr job hread

theorem RetriesFit.create (h : t.RetriesFit) (hnew : new.RetryFits)
    (hcreate : t.create new = .ok t') : t'.RetriesFit := by
  obtain ⟨-, -, rfl⟩ := create_eq_ok.1 hcreate
  intro r hr job hread
  rcases List.mem_append.1 hr with hr | hr
  · exact h r hr job hread
  · rw [List.mem_singleton.1 hr] at hread
    exact Row.retryFits_of_read hnew rfl rfl hread

theorem RetriesFit.get {id : String} (h : t.RetriesFit) (hget : t.get id = .ok (some job)) :
    job.RetryFits := by
  obtain ⟨-, r, hr, hread⟩ := get_eq_some hget
  exact h r (List.mem_of_find?_eq_some hr) job hread

theorem RetriesFit.next {state : JobState} {limit : Nat} {jobs : List Job} (h : t.RetriesFit)
    (hnext : t.next state limit = .ok jobs) (hjob : job ∈ jobs) : job.RetryFits := by
  obtain ⟨r, hr, -, hread⟩ := exists_row_of_next hnext hjob
  exact h r hr job hread

end Table

end Store

/-! ## Programs -/

namespace RetryCount

open Operation Store
open TaskSystem (Admits Duty Step Run InOrder)

/-- The jobs that a call hands to the store. -/
def handed : Request → List Job
  | .store (.create job) | .store (.update job) | .store (.updateIfState job _) => [job]
  | _ => []

/-- The call hands no job to the store, and is no panic. -/
def asks : Request → Bool
  | .store (.create _) | .store (.update _) | .store (.updateIfState ..) | .overflow => false
  | _ => true

theorem handed_of_asks {q : Request} (hq : asks q = true) : handed q = [] ∧ q ≠ .overflow := by
  cases q with
  | store c =>
      cases c with
      | create _ | update _ | updateIfState _ _ => cases hq
      | get _ | findId _ | next _ _ | count _ => exact ⟨rfl, by simp⟩
  | overflow => cases hq
  | provision _ | send _ _ | acknowledge _ _ | startFlow _ | isComplete _ | now | freshId
  | count _ _ | isRunning => exact ⟨rfl, by simp⟩

/-- The jobs that a reply shows. -/
def shown : (q : Request) → q.Reply → List Job
  | .store (.get _), .ok found => found.toList
  | .store (.next ..), .ok jobs => jobs
  | _, _ => []

section Calls

variable {t : Table} {q : Request}

theorem retriesFit_after (h : t.RetriesFit) (hq : ∀ job ∈ handed q, job.RetryFits) (r : q.Reply) :
    (TaskSystem.after t q r).RetriesFit := by
  cases q with
  | store c =>
      cases r with
      | error e => exact h
      | ok a =>
          show (c.perform t).2.RetriesFit
          have heffect := c.callEffect_perform t
          generalize (c.perform t).2 = t' at heffect ⊢
          cases heffect with
          | nothing => exact h
          | create job hcreate => exact h.create (hq job (by simp [handed])) hcreate
          | update job => exact h.write (hq job (by simp [handed])) none
          | updateIfState job expected => exact h.write (hq job (by simp [handed])) (some expected)
  | provision _ | send _ _ | acknowledge _ _ | startFlow _ | isComplete _ | now | freshId
  | count _ _ | isRunning | overflow => exact h

theorem retryFits_of_shown {r : q.Reply} (h : t.RetriesFit) (hadmits : Admits t q r) :
    ∀ job ∈ shown q r, job.RetryFits := by
  intro job hjob
  cases q with
  | store c =>
      cases r with
      | error e => cases c <;> cases hjob
      | ok a =>
          have hperform : (c.perform t).1 = .ok a := by
            rcases hadmits with hr | ⟨_, hr⟩
            · exact hr.symm
            · cases hr
          cases c with
          | get id => exact h.get (by rw [← Option.mem_toList.1 hjob]; exact hperform)
          | next state limit => exact h.next hperform hjob
          | create _ | update _ | updateIfState _ _ | findId _ | count _ => cases hjob
  | provision _ | send _ _ | acknowledge _ _ | startFlow _ | isComplete _ | now | freshId
  | count _ _ | isRunning | overflow => cases hjob

end Calls

/-- The others do what they like, so long as another retry fits every job they leave. After a
panic there is nothing to rely on. -/
def terms : Discipline operationSignature Table where
  inv := Table.RetriesFit
  answers q t r t' := Admits t q r ∧ (t' = TaskSystem.after t q r ∨ q = .overflow)
  rely _ _ := True
  guarantee _ _ := True
  rely_refl _ := trivial
  rely_trans _ _ := trivial

/-- Where another retry fits every stored job the operation comes to no panic, stores only jobs
it fits as well, and ends with an error or an answer of which `P` holds. -/
def SafeWith {α : Type} (f : Operation α) (P : α → Prop) : Prop :=
  ∀ t, terms.wpOk f (fun a _ => P a) t

/-- Where another retry fits every stored job the operation comes to no panic and stores only
jobs it fits as well. -/
abbrev Safe {α : Type} (f : Operation α) : Prop :=
  SafeWith f fun _ => True

section Rules

variable {α β : Type} {P : α → Prop} {Q : β → Prop} {f : Operation α} {q : Request}
  {c : Store.Call} {jobs : List Job} {after : Job}

theorem wp_ask {R : α → Prop} {next : q.Reply → Activity α} {t : Table}
    (hno : q ≠ .overflow) (hq : ∀ job ∈ handed q, job.RetryFits)
    (h : ∀ r, (∀ job ∈ shown q r, job.RetryFits) → ∀ t', terms.wp (next r) (fun a _ => R a) t') :
    terms.wp (.call q next) (fun a _ => R a) t := by
  rintro t₁ - hfits r t₂ ⟨hadmits, hafter⟩
  obtain rfl := hafter.resolve_right hno
  exact ⟨retriesFit_after hfits hq r, trivial, h r (retryFits_of_shown hfits hadmits) _⟩

/-- A program that keeps to the terms has not come to a panic. -/
theorem not_wp_overflow {R : α → Table → Prop} {next : Unit → Activity α} {t : Table}
    (ht : t.RetriesFit) : ¬ terms.wp (.call .overflow next) R t := by
  intro h
  obtain ⟨t', hfull⟩ := Table.exists_not_retriesFit
  have hanswers : terms.answers .overflow t () t' := ⟨trivial, .inr rfl⟩
  exact hfull (Discipline.wp_call h ht hanswers).1

theorem safeWith_pure {a : α} (h : P a) : SafeWith (pure a) P :=
  fun _ => Discipline.wpOk_pure fun _ _ _ => h

theorem safeWith_throw (e : OrchestratorError) : SafeWith (throw e) P :=
  fun _ => Discipline.wpOk_throw e

theorem safeWith_bind {g : α → Operation β} (hf : SafeWith f P) (hg : ∀ a, P a → SafeWith (g a) Q) :
    SafeWith (f >>= g) Q :=
  fun t => Discipline.wpOk_bind
    (Discipline.wpOk_mono (fun a t' _ ha => hg a ha t') (hf t))

theorem safeWith_move {moved : Except JobError Job} {g : Job → Operation β}
    (h : ∀ after, moved = .ok after → SafeWith (g after) Q) : SafeWith (move moved >>= g) Q :=
  fun t => Discipline.wpOk_move fun after hafter => h after hafter t

/-- A call that hands over no job and is shown none. -/
theorem safeWith_ask {g : q.Reply → Operation β} (hq : asks q = true) (h : ∀ r, SafeWith (g r) Q) :
    SafeWith (ask q >>= g) Q := by
  obtain ⟨hnone, hno⟩ := handed_of_asks hq
  exact fun _ => wp_ask hno (by simp [hnone]) fun r _ => h r

theorem safe_last (hq : asks q = true) : Safe (ask q) := by
  obtain ⟨hnone, hno⟩ := handed_of_asks hq
  exact fun _ => wp_ask hno (by simp [hnone]) fun r _ _ =>
    Discipline.wpOk_pure fun _ _ _ => trivial

theorem safeWith_store {g : c.Answer → Operation β} (hc : ∀ job ∈ handed (.store c), job.RetryFits)
    (h : ∀ a, (∀ job ∈ shown (.store c) (.ok a), job.RetryFits) → SafeWith (g a) Q) :
    SafeWith (store c >>= g) Q := by
  refine fun t => wp_ask (by simp) hc fun r hr t' => ?_
  cases r with
  | ok a => exact h a hr t'
  | error e => exact Discipline.wpOk_throw _

theorem safeWith_read {g : c.Answer → Operation β} (hc : handed (.store c) = [])
    (h : ∀ a, (∀ job ∈ shown (.store c) (.ok a), job.RetryFits) → SafeWith (g a) Q) :
    SafeWith (store c >>= g) Q :=
  safeWith_store (by simp [hc]) h

theorem safeWith_write {g : c.Answer → Operation β} (hc : handed (.store c) = [after])
    (hafter : after.RetryFits) (h : ∀ a, SafeWith (g a) Q) : SafeWith (store c >>= g) Q :=
  safeWith_store (by simpa [hc]) fun a _ => h a

/-- A write over a state is counted if it hits. -/
theorem safe_swap (hafter : after.RetryFits) (expected : JobState) {g : Operation Unit}
    (hg : Safe g) : Safe (do
      if ← store (.updateIfState after expected) then countMove after else g) := by
  refine safeWith_write rfl hafter fun hit => ?_
  cases hit with
  | true => exact safe_last rfl
  | false => exact hg

theorem safe_forEach {f : Job → Operation Unit} (hf : ∀ job ∈ jobs, Safe (f job)) :
    Safe (forEach f jobs) := by
  induction jobs with
  | nil => exact safeWith_pure trivial
  | cons job rest ih =>
      obtain ⟨hfirst, hrest⟩ := List.forall_mem_cons.1 hf
      exact safeWith_bind hfirst fun _ _ => ih hrest

end Rules

/-! ### A cycle -/

section Cycle

variable {job : Job} {config : Config.Orchestrator}

theorem safe_provision (h : job.RetryFits) : Safe (Cycle.provision job) := by
  refine safeWith_ask rfl fun _ => safeWith_ask rfl fun now => safeWith_move fun begun hbegun => ?_
  have hfits : begun.RetryFits := h.map_move hbegun fun _ => rfl
  refine safeWith_write rfl hfits fun _ => safeWith_ask rfl fun _ => safeWith_ask rfl fun r => ?_
  cases r with
  | ok _ => exact safeWith_pure trivial
  | error e =>
      refine safeWith_ask rfl fun now => safeWith_move fun failed hfailed => ?_
      refine safeWith_write rfl (hfits.failed hfailed) fun _ => safeWith_ask rfl fun _ => ?_
      exact safe_last rfl

theorem safe_provisionPhase : Safe (Cycle.provisionPhase config) := by
  refine safeWith_read rfl fun jobs hjobs => ?_
  refine safeWith_bind (safe_forEach fun job hjob => safe_provision (hjobs job hjob)) fun _ _ => ?_
  exact safeWith_ask rfl fun _ => safeWith_pure trivial

theorem safe_send (h : job.RetryFits) : Safe (Cycle.send job) := by
  refine safeWith_ask rfl fun now => safeWith_move fun sent hsent => ?_
  have hfits : sent.RetryFits := h.move hsent
  refine safeWith_write rfl hfits fun _ => safeWith_ask rfl fun _ => safeWith_ask rfl fun r => ?_
  cases r with
  | ok _ => exact safeWith_pure trivial
  | error e =>
      refine safeWith_ask rfl fun _ => safeWith_ask rfl fun now =>
        safeWith_move fun failed hfailed => ?_
      exact safe_swap (hfits.failed hfailed) .sent (safeWith_pure trivial)

variable (hlimit : config.maxFlowRetries ≠ 0 ∧ config.maxFlowRetries < 2 ^ 32 - 1)
include hlimit

theorem safe_execute (h : job.RetryFits) : Safe (Cycle.execute config job) := by
  refine safeWith_ask rfl fun outcome => safeWith_ask rfl fun _ => safeWith_ask rfl fun now => ?_
  rw [Cycle.checkCount_bind, h.not_overflows outcome, if_neg Bool.false_ne_true]
  refine safeWith_move fun after hafter => ?_
  have hswap := safe_swap (h.afterFlow hlimit hafter) .provisioned (safeWith_pure (a := ()) trivial)
  split
  · exact safeWith_ask rfl fun _ => hswap
  · exact hswap

theorem safe_dispatchPhase : Safe (Cycle.dispatchPhase config) := by
  refine safeWith_read rfl fun jobs hjobs => safeWith_bind (safe_forEach fun job hjob => ?_) ?_
  · rw [Cycle.dispatch]
    split
    · exact safe_send (hjobs job hjob)
    · exact safe_execute hlimit (hjobs job hjob)
  · exact fun _ _ => safeWith_ask rfl fun _ => safeWith_pure trivial

omit hlimit

theorem safeWith_arrived (jobs : List Job) :
    SafeWith (Cycle.arrived jobs) fun done => done.Sublist jobs := by
  intro t
  refine Discipline.wpOk_mono (fun _ _ _ h => h.1) (Discipline.wpOk_iff.2
    (Discipline.wpOr_arrived Discipline.stable_true (fun _ t _ => ?_) jobs trivial))
  exact Discipline.wpOk_iff.1 (safe_last rfl t)

theorem safe_complete (h : job.RetryFits) : Safe (Cycle.complete job) := by
  refine safeWith_ask rfl fun now => safeWith_move fun done hdone => ?_
  exact safeWith_write rfl (h.move hdone) fun _ => safe_last rfl

theorem safe_completionPhase : Safe (Cycle.completionPhase config) := by
  refine safeWith_read rfl fun jobs hjobs => ?_
  dsimp only
  split
  · exact safeWith_throw _
  · refine safeWith_bind (safeWith_arrived jobs) fun done hdone => ?_
    refine safeWith_bind (safe_forEach fun job hjob => ?_) fun _ _ => ?_
    · exact safe_complete (hjobs job (hdone.subset hjob))
    · exact safeWith_ask rfl fun _ => safeWith_pure trivial

include hlimit

theorem safe_cycle : Safe (cycle config) := by
  have hpreserves : ∀ {α : Type} {f : Operation α}, Safe f →
      terms.Preserves (fun _ _ => True) (fun _ => True) f :=
    fun hf t _ => Discipline.wpOk_iff.1 (hf t)
  exact fun t => Discipline.wpOk_iff.2 (Discipline.preserves_cycle (hpreserves (safe_last rfl))
    (hpreserves safe_provisionPhase) (hpreserves (safe_dispatchPhase hlimit))
    (hpreserves safe_completionPhase) t trivial)

end Cycle

/-! ### The others -/

theorem safe_initiate (role : Role) (request : TransferRequest) :
    Safe (initiate role request) := by
  rw [initiate]
  split
  · exact safeWith_throw (.invalidRequest "request id cannot be empty")
  · refine safeWith_read rfl fun found _ => ?_
    cases found with
    | some id => exact safeWith_pure trivial
    | none =>
        refine safeWith_ask rfl fun id => safeWith_ask rfl fun now => fun _ => ?_
        refine wp_ask (by simp) ?_ fun r _ => ?_
        · exact List.forall_mem_singleton.2 (Job.retryFits_new id role request now)
        · cases r with
          | ok _ => exact safeWith_ask rfl fun _ => safeWith_ask rfl fun _ => safeWith_pure trivial
          | error e =>
              cases e with
              | duplicateCorrelationId c =>
                  refine safeWith_read rfl fun found _ => ?_
                  cases found with
                  | some id => exact safeWith_pure trivial
                  | none => exact safeWith_throw _
              | notFound _ | invalidTransition _ _ _ _ | unknownState _ | unknownRole _
              | database _ => exact safeWith_throw _

theorem safe_receive (inbound : InboundTransfer) : Safe (receive inbound) := by
  refine safeWith_bind (safe_initiate .executor inbound.request) fun id _ => ?_
  split
  · exact safeWith_pure trivial
  · exact safeWith_ask rfl fun _ => safeWith_pure trivial

theorem safe_applyResponse (response : ProvisionResponse) : Safe (applyResponse response) := by
  refine safeWith_read rfl fun found hfound => ?_
  cases found with
  | none => exact safeWith_throw _
  | some job =>
      have hfits : job.RetryFits := hfound job List.mem_cons_self
      refine safeWith_ask rfl fun now => safeWith_move fun after hafter => ?_
      refine safeWith_write rfl (hfits.accept hafter) fun _ => ?_
      exact safeWith_ask rfl fun _ => safe_last rfl

theorem safeWith_load (c : String) : SafeWith (Flow.load c) Job.RetryFits := by
  refine safeWith_read rfl fun found _ => ?_
  cases found with
  | none => exact safeWith_throw _
  | some id =>
      refine safeWith_read rfl fun found hfound => ?_
      cases found with
      | none => exact safeWith_throw _
      | some job => exact safeWith_pure (hfound job List.mem_cons_self)

theorem safe_finish (c : String) (failure : Option String) (rounds : Nat) :
    Safe (Flow.finish c failure rounds) := by
  induction rounds with
  | zero => exact safeWith_pure trivial
  | succ n ih =>
      refine safeWith_bind (safeWith_load c) fun job hfits => ?_
      split
      · exact safeWith_pure trivial
      · refine safeWith_ask rfl fun now => safeWith_move fun after hafter => ?_
        exact safe_swap (hfits.ended hafter) job.state ih

theorem wp_acknowledge (id : String) (t : Table) :
    terms.wp (Api.acknowledgeTransfer id) (fun _ _ => True) t := by
  refine wp_ask (q := .store (.get id)) (by simp) (by simp [handed]) fun found hfound _ => ?_
  cases found with
  | error e => exact fun _ _ _ => trivial
  | ok found =>
      cases found with
      | none => exact fun _ _ _ => trivial
      | some job =>
          have hfits : job.RetryFits := hfound job List.mem_cons_self
          change terms.wp (if job.role ≠ .initiator || job.state ≠ .sent then _ else _) _ _
          split
          · exact fun _ _ _ => trivial
          · refine wp_ask (q := .now) (by simp) (by simp [handed]) fun now _ _ => ?_
            simp only [Program.bind]
            cases hafter : job.acknowledged now with
            | error e => exact fun _ _ _ => trivial
            | ok after =>
                have hmoved : after.RetryFits := hfits.move hafter
                refine wp_ask (q := .store _) (by simp) (List.forall_mem_singleton.2 hmoved)
                  fun r _ _ => ?_
                cases r with
                | error e => exact fun _ _ _ => trivial
                | ok hit =>
                    cases hit with
                    | false => exact fun _ _ _ => trivial
                    | true =>
                        exact wp_ask (q := .count _ _) (by simp) (by simp [handed])
                          fun _ _ _ _ _ _ => trivial

/-! ## Runs -/

/-- All cycles among the tasks have this limit. -/
def Limited (limit : Nat) (tasks : List TaskSystem.Task) : Prop :=
  ∀ task ∈ tasks, ∀ config, task.duty = .cycle config → config.maxFlowRetries = limit

section Runs

variable {limit : Nat} {s s' : TaskSystem}

theorem wp_duty (hlimit : limit ≠ 0 ∧ limit < 2 ^ 32 - 1) {d : Duty}
    (hd : ∀ config, d = .cycle config → config.maxFlowRetries = limit) (t : Table) :
    terms.wp d.program (fun _ _ => True) t := by
  have hsafe : ∀ {α : Type} {f : Operation α}, Safe f → terms.wp f.run (fun _ _ => True) t :=
    fun hf => Discipline.wp_mono (fun _ _ _ _ => trivial) (hf t)
  match d with
  | .cycle config => exact hsafe (safe_cycle (hd config rfl ▸ hlimit))
  | .respond response => exact hsafe (safe_applyResponse response)
  | .errand (.finish c failure rounds) => exact hsafe (safe_finish c failure rounds)
  | .errand (.acknowledge id) => exact wp_acknowledge id t
  | .errand (.initiate role request) => exact hsafe (safe_initiate role request)
  | .errand (.receive inbound) => exact hsafe (safe_receive inbound)

/-- Another retry fits every stored job, and whatever is left of each program comes to no panic
and keeps it so. -/
structure Invariant (s : TaskSystem) : Prop where
  table : s.table.RetriesFit
  tasks : ∀ task ∈ s.tasks, terms.wp task.rest (fun _ _ => True) s.table

theorem invariant_empty : Invariant {} :=
  ⟨Table.retriesFit_empty, by simp⟩

theorem invariant_step (hlimit : limit ≠ 0 ∧ limit < 2 ^ 32 - 1) (hlimited : Limited limit s'.tasks)
    (h : Invariant s) (hstep : Step s s') : Invariant s' := by
  cases hstep with
  | arrive duty =>
      have hduty : ∀ config, duty = .cycle config → config.maxFlowRetries = limit :=
        hlimited duty.task (List.mem_append_right _ (List.mem_singleton_self _))
      exact ⟨h.table, List.forall_mem_append.2
        ⟨h.tasks, List.forall_mem_singleton.2 (wp_duty hlimit hduty s.table)⟩⟩
  | @call before later duty q next turn r admits =>
      have htasks := h.tasks
      rw [turn, List.forall_mem_append, List.forall_mem_cons] at htasks
      obtain ⟨hbefore, hmine, hlater⟩ := htasks
      obtain ⟨htable, -, hrest⟩ := Discipline.wp_call hmine h.table ⟨admits, .inl rfl⟩
      refine ⟨htable, List.forall_mem_append.2 ⟨?_, List.forall_mem_cons.2 ⟨hrest, ?_⟩⟩⟩
      · exact fun task htask => Discipline.wp_rely trivial (hbefore task htask)
      · exact fun task htask => Discipline.wp_rely trivial (hlater task htask)
  | restart => exact ⟨h.table, by simp⟩

theorem invariant_run (hlimit : limit ≠ 0 ∧ limit < 2 ^ 32 - 1) (run : Run)
    (hlimited : ∀ s ∈ run.states, Limited limit s.tasks) : ∀ s ∈ run.states, Invariant s :=
  (List.IsChain.iff_mem.1 run.steps).induction Invariant run.states
    (fun _ s' ⟨_, hs', hstep⟩ h => invariant_step hlimit (hlimited s' hs') h hstep)
    fun _ => invariant_empty

theorem Invariant.not_panics (h : Invariant s) : ¬ s.Panics := by
  rintro ⟨duty, next, hmem⟩
  exact not_wp_overflow h.table (h.tasks ⟨duty, .call .overflow next⟩ hmem)

end Runs

end RetryCount

end Ferry
