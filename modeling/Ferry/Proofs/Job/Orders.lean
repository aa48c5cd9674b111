import Ferry.Proofs.Job.Consistency
import Mathlib.Data.List.Induction

/-!
# Two orders for one state

The end of provisioning and the retry of a flow are different orders, and each writes a
field of its own, but both ask for the state `provisioned`. Whether a job may make a move
is decided by where it stands and by the state that is asked for, so each of the two is
also taken where only the other is meant: a retry ends the provisioning of a job, of an
initiator's as well, and is counted; and what is given to an executor's job that waits for
its flow replaces the resources it has.

Orders are followed here as a job that is changed in place follows them: the check comes
first, and then one field after the other is written. A refusal comes before the first
field, so nothing is half done (`Order.carryOut_run`), and the functions that hand back a
new job say the same.

A sequence of orders keeps the two meanings apart just when no order in it is taken in the
other's place and no count runs over (`orders_accounted`).
-/

namespace Ferry.Job

open Time (Instant)

/-- What a job can be told to do, with all that goes with it. -/
inductive Order where
  | provision (manifest : ResourceManifest)
  | provisioned (resources : List ProvisionedResource)
  | sent
  | acknowledged
  | executing
  | retry
  | completed
  | failed (detail : String)

/-- The job that follows an order, or its refusal. -/
def follow (job : Job) (now : Instant) : Order → Except JobError Job
  | .provision manifest => job.provision manifest now
  | .provisioned resources => job.provisioned resources now
  | .sent => job.sent now
  | .acknowledged => job.acknowledged now
  | .executing => job.executing now
  | .retry => job.retry now
  | .completed => job.completed now
  | .failed detail => job.failed detail now

/-- A change of a job in place. Where it ends in an error the job stays as it is by then. -/
abbrev InPlace := ExceptT JobError (StateM Job)

namespace Order

def target : Order → JobState
  | provision _ => .provisioning
  | provisioned _ | retry => .provisioned
  | sent => .sent
  | acknowledged => .acknowledged
  | executing => .executing
  | completed => .completed
  | failed _ => .error

/-- The field that belongs to the order. -/
def write : Order → Job → Job
  | provision manifest, job => { job with manifest := some manifest }
  | provisioned resources, job => { job with resources }
  | retry, job => { job with retryCount := job.retryCount + 1 }
  | failed detail, job => { job with errorDetail := some detail }
  | sent, job | acknowledged, job | executing, job | completed, job => job

def carryOut (o : Order) (now : Instant) : InPlace Unit := do
  let job ← get
  if JobState.canMove job.role job.state o.target then
    modify fun job => { job with state := o.target }
    modify fun job => { job with stateTimestamp := now }
    modify o.write
  else throw (.invalidTransition job.id job.role job.state o.target)

end Order

variable {job : Job} {o : Order} {now : Instant}

theorem follow_eq (job : Job) (now : Instant) (o : Order) :
    job.follow now o = (job.move o.target now).map o.write := by
  have hsame : ∀ r : Except JobError Job, r.map (fun j => j) = r := by
    intro r
    cases r <;> rfl
  cases o with
  | provision _ | provisioned _ | retry | failed _ => rfl
  | sent | acknowledged | executing | completed => exact (hsame _).symm

theorem Order.carryOut_run (o : Order) (now : Instant) (job : Job) :
    (o.carryOut now).run.run job =
      if JobState.canMove job.role job.state o.target then
        (.ok (), o.write { job with state := o.target, stateTimestamp := now })
      else (.error (.invalidTransition job.id job.role job.state o.target), job) := by
  change StateT.run (ExceptT.run
    (if JobState.canMove job.role job.state o.target then _ else _)) job = _
  split <;> rfl

/-! ## One order -/

/-- An order that a job is given. -/
structure Step where
  before : Job
  order : Order
  now : Instant

namespace Step

variable {s : Step}

def reply (s : Step) : Except JobError Unit :=
  ((s.order.carryOut s.now).run.run s.before).1

def after (s : Step) : Job :=
  ((s.order.carryOut s.now).run.run s.before).2

def accepted (s : Step) : Bool :=
  s.reply.isOk

/-- A move from `provisioned` to `provisioned` is made. -/
def again (s : Step) : Bool :=
  s.accepted && s.before.state = .provisioned && s.after.state = .provisioned

/-- A retry is accepted, wherever the job stands. -/
def retried (s : Step) : Bool :=
  match s.order with
  | .retry => s.accepted
  | _ => false

/-- The resources of an accepted end of provisioning, wherever the job stands. -/
def given? (s : Step) : Option (List ProvisionedResource) :=
  match s.order with
  | .provisioned resources => if s.accepted then some resources else none
  | _ => none

/-- The order does what another one is there for, or counts past the end of its counter. -/
inductive Confuses (s : Step) : Prop where
  | retryEnds (horder : s.order = .retry) (haccepted : s.accepted = true)
      (hstate : s.before.state = .provisioning)
  | provisionedAgain (resources : List ProvisionedResource)
      (horder : s.order = .provisioned resources) (haccepted : s.accepted = true)
      (hstate : s.before.state = .provisioned)
  | overrun (horder : s.order = .retry) (haccepted : s.accepted = true)
      (hfull : s.before.retryCount.toNat + 1 = UInt32.size)

/-- All that an order can do. -/
theorem cases (s : Step) :
    (s.accepted = true ∧ JobState.canMove s.before.role s.before.state s.order.target = true ∧
      s.reply = .ok () ∧
      s.after = s.order.write { s.before with state := s.order.target, stateTimestamp := s.now }) ∨
    (s.accepted = false ∧ JobState.canMove s.before.role s.before.state s.order.target = false ∧
      s.reply = .error (.invalidTransition s.before.id s.before.role s.before.state
        s.order.target) ∧
      s.after = s.before) := by
  have hrun := s.order.carryOut_run s.now s.before
  cases h : JobState.canMove s.before.role s.before.state s.order.target with
  | true =>
      rw [h, if_pos rfl] at hrun
      have hreply : s.reply = .ok () := congrArg Prod.fst hrun
      exact .inl ⟨by rw [accepted, hreply]; rfl, rfl, hreply, congrArg Prod.snd hrun⟩
  | false =>
      rw [h, if_neg Bool.false_ne_true] at hrun
      have hreply := congrArg Prod.fst hrun
      exact .inr ⟨by rw [accepted, show s.reply = _ from hreply]; rfl, rfl, hreply,
        congrArg Prod.snd hrun⟩

theorem follow_before (s : Step) :
    s.before.follow s.now s.order = s.reply.map fun _ => s.after := by
  rw [follow_eq, Job.move]
  rcases s.cases with ⟨-, hmove, hreply, hafter⟩ | ⟨-, hmove, hreply, hafter⟩
  · rw [hreply, hafter, if_pos hmove]
    rfl
  · rw [hreply, hafter, if_neg (by simp [hmove])]
    rfl

theorem after_kept (s : Step) : s.after.id = s.before.id ∧ s.after.role = s.before.role := by
  rcases s.cases with ⟨-, -, -, hafter⟩ | ⟨-, -, -, hafter⟩
  · rw [hafter]
    cases s.order <;> exact ⟨rfl, rfl⟩
  · rw [hafter]
    exact ⟨rfl, rfl⟩

theorem state_after (h : s.accepted = true) : s.after.state = s.order.target := by
  rcases s.cases with ⟨-, -, -, hafter⟩ | ⟨hrefused, -, -, -⟩
  · rw [hafter]
    cases s.order <;> rfl
  · rw [h] at hrefused
    cases hrefused

/-- The two states from which a job can come to be provisioned. -/
theorem state_before (h : s.accepted = true) (htarget : s.order.target = .provisioned) :
    s.before.state = .provisioning ∨
      s.before.state = .provisioned ∧ s.before.role = .executor := by
  rcases s.cases with ⟨-, hmove, -, -⟩ | ⟨hrefused, -, -, -⟩
  · rw [htarget] at hmove
    cases hs : s.before.state <;> rw [hs] at hmove <;> simp_all [JobState.canMove]
  · rw [h] at hrefused
    cases hrefused

theorem executor_of_again (h : s.again = true) : s.before.role = .executor := by
  simp only [again, Bool.and_eq_true, decide_eq_true_eq] at h
  obtain ⟨⟨haccepted, hbefore⟩, hafter⟩ := h
  rw [state_after haccepted] at hafter
  rcases state_before haccepted hafter with hstate | ⟨-, hrole⟩
  · rw [hbefore] at hstate
    cases hstate
  · exact hrole

theorem retryCount_after (s : Step) :
    s.after.retryCount = if s.retried then s.before.retryCount + 1 else s.before.retryCount := by
  rcases s.cases with ⟨haccepted, -, -, hafter⟩ | ⟨hrefused, -, -, hafter⟩
  · rw [hafter, retried, haccepted]
    cases s.order <;> rfl
  · rw [hafter, retried, hrefused]
    cases s.order <;> rfl

theorem resources_after (s : Step) : s.after.resources = s.given?.getD s.before.resources := by
  rcases s.cases with ⟨haccepted, -, -, hafter⟩ | ⟨hrefused, -, -, hafter⟩
  · rw [hafter, given?, haccepted]
    cases s.order <;> rfl
  · rw [hafter, given?, hrefused]
    cases s.order <;> rfl

/-- Orders that are not confused are counted as what they are. -/
theorem again_eq_retried (h : ¬ s.Confuses) : s.again = s.retried := by
  cases haccepted : s.accepted with
  | false =>
      rw [again, haccepted, retried]
      cases s.order <;> simp [haccepted]
  | true =>
      rw [again, haccepted, state_after haccepted]
      cases horder : s.order with
      | retry =>
          have hstate := (state_before haccepted (by rw [horder]; rfl)).resolve_left fun hs =>
            h (.retryEnds horder haccepted hs)
          simp [retried, horder, haccepted, hstate.1, Order.target]
      | provisioned resources =>
          have hstate : s.before.state ≠ .provisioned := fun hs =>
            h (.provisionedAgain resources horder haccepted hs)
          simp [retried, horder, hstate]
      | provision _ | sent | acknowledged | executing | completed | failed _ =>
          simp [retried, horder, Order.target]

theorem toNat_retryCount_after (h : ¬ s.Confuses) :
    s.after.retryCount.toNat = s.before.retryCount.toNat + if s.again then 1 else 0 := by
  rw [retryCount_after, again_eq_retried h]
  cases hretried : s.retried with
  | false => rfl
  | true =>
      obtain ⟨horder, haccepted⟩ : s.order = .retry ∧ s.accepted = true := by
        rw [retried] at hretried
        cases horder : s.order <;> rw [horder] at hretried <;> simp_all
      have hroom : s.before.retryCount.toNat + 1 ≠ UInt32.size := fun hfull =>
        h (.overrun horder haccepted hfull)
      have hlt := s.before.retryCount.toNat_lt
      have hsize : UInt32.size = 2 ^ 32 := rfl
      show (s.before.retryCount + 1).toNat = s.before.retryCount.toNat + 1
      rw [UInt32.toNat_add, UInt32.toNat_one]
      omega

end Step

/-! ## Any orders -/

/-- What becomes of a job that is given orders one after the other. -/
def final (job : Job) : List (Order × Instant) → Job
  | [] => job
  | (o, now) :: rest => (Step.after ⟨job, o, now⟩).final rest

def steps (job : Job) : List (Order × Instant) → List Step
  | [] => []
  | (o, now) :: rest => ⟨job, o, now⟩ :: (Step.after ⟨job, o, now⟩).steps rest

variable {orders : List (Order × Instant)}

theorem final_concat (job : Job) (orders : List (Order × Instant)) (o : Order) (now : Instant) :
    job.final (orders ++ [(o, now)]) = Step.after ⟨job.final orders, o, now⟩ := by
  induction orders generalizing job with
  | nil => rfl
  | cons c rest ih => exact ih _

theorem steps_concat (job : Job) (orders : List (Order × Instant)) (o : Order) (now : Instant) :
    job.steps (orders ++ [(o, now)]) = job.steps orders ++ [⟨job.final orders, o, now⟩] := by
  induction orders generalizing job with
  | nil => rfl
  | cons c rest ih => exact congrArg _ (ih _)

theorem final_kept (job : Job) (orders : List (Order × Instant)) :
    (job.final orders).id = job.id ∧ (job.final orders).role = job.role := by
  induction orders using List.reverseRecOn with
  | nil => exact ⟨rfl, rfl⟩
  | append_singleton orders c ih =>
      obtain ⟨hid, hrole⟩ := Step.after_kept ⟨job.final orders, c.1, c.2⟩
      rw [final_concat]
      exact ⟨hid.trans ih.1, hrole.trans ih.2⟩

/-- A step is the last one of some of the orders. -/
theorem exists_of_mem_steps {s : Step} (h : s ∈ job.steps orders) :
    ∃ pre o now, pre ++ [(o, now)] <+: orders ∧ s = ⟨job.final pre, o, now⟩ := by
  induction orders using List.reverseRecOn with
  | nil => cases h
  | append_singleton orders c ih =>
      rw [steps_concat, List.mem_append, List.mem_singleton] at h
      rcases h with h | h
      · obtain ⟨pre, o, now, hpre, hs⟩ := ih h
        exact ⟨pre, o, now, hpre.trans (List.prefix_append orders [c]), hs⟩
      · exact ⟨orders, c.1, c.2, List.prefix_refl _, h⟩

theorem steps_upto {pre : List (Order × Instant)} (h : pre <+: orders) :
    job.steps pre <+: job.steps orders := by
  obtain ⟨rest, rfl⟩ := h
  induction rest using List.reverseRecOn with
  | nil => simp
  | append_singleton rest c ih =>
      rw [← List.append_assoc, steps_concat]
      exact ih.trans (List.prefix_append _ _)

theorem role_of_mem_steps {s : Step} (h : s ∈ job.steps orders) : s.before.role = job.role := by
  obtain ⟨pre, o, now, -, rfl⟩ := exists_of_mem_steps h
  exact (final_kept job pre).2

/-- Retries are told from ends of provisioning, and both from what is refused. -/
structure Apart (job : Job) (orders : List (Order × Instant)) : Prop where
  unchanged : ∀ s ∈ job.steps orders, s.accepted = false → s.after = s.before
  counted : (job.final orders).retryCount.toNat = (job.steps orders).countP Step.again
  initiator : job.role = .initiator → (job.final orders).retryCount = 0
  resources : ∀ s ∈ job.steps orders, s.after.resources ≠ s.before.resources →
    s.before.state = .provisioning ∧ s.after.state = .provisioned

theorem toNat_retryCount_final (hzero : job.retryCount = 0)
    (h : ∀ s ∈ job.steps orders, ¬ s.Confuses) :
    (job.final orders).retryCount.toNat = (job.steps orders).countP Step.again := by
  induction orders using List.reverseRecOn with
  | nil =>
      show job.retryCount.toNat = 0
      rw [hzero]
      rfl
  | append_singleton orders c ih =>
      rw [steps_concat] at h ⊢
      have hbefore := ih fun s hs => h s (List.mem_append_left _ hs)
      rw [final_concat, Step.toNat_retryCount_after (h _ (by simp)), List.countP_append,
        List.countP_singleton, ← hbefore]

theorem apart_of_not_confuses (hzero : job.retryCount = 0)
    (h : ∀ s ∈ job.steps orders, ¬ s.Confuses) : Apart job orders where
  unchanged s _ hrefused := by
    rcases s.cases with ⟨haccepted, -⟩ | ⟨-, -, -, hafter⟩
    · rw [hrefused] at haccepted
      cases haccepted
    · exact hafter
  counted := toNat_retryCount_final hzero h
  initiator hrole := by
    have hnone : (job.steps orders).countP Step.again = 0 := by
      refine List.countP_eq_zero.2 fun s hs hagain => ?_
      have hexecutor := Step.executor_of_again hagain
      rw [role_of_mem_steps hs, hrole] at hexecutor
      cases hexecutor
    exact UInt32.toNat_inj.1 ((toNat_retryCount_final hzero h).trans hnone)
  resources s hs hchanged := by
    rw [Step.resources_after] at hchanged
    cases hgiven : s.given? with
    | none => exact absurd (by rw [hgiven]; rfl) hchanged
    | some resources =>
        rw [Step.given?] at hgiven
        cases horder : s.order with
        | provisioned _ =>
            have haccepted : s.accepted = true := by simp_all
            have htarget : s.order.target = .provisioned := by rw [horder]; rfl
            refine ⟨(Step.state_before haccepted htarget).resolve_right ?_,
              (Step.state_after haccepted).trans htarget⟩
            exact fun hstate => h s hs (.provisionedAgain _ horder haccepted hstate.1)
        | provision _ | sent | acknowledged | executing | retry | completed | failed _ =>
            rw [horder] at hgiven
            cases hgiven

theorem not_confuses_of_apart (h : ∀ pre, pre <+: orders → Apart job pre) :
    ∀ s ∈ job.steps orders, ¬ s.Confuses := by
  intro s hs hconfuses
  obtain ⟨pre, o, now, hpre, rfl⟩ := exists_of_mem_steps hs
  have hbefore := (h pre ((List.prefix_append pre _).trans hpre)).counted
  have hafter := (h _ hpre).counted
  rw [final_concat, steps_concat, List.countP_append, List.countP_singleton, ← hbefore,
    Step.retryCount_after] at hafter
  have hlt := (job.final pre).retryCount.toNat_lt
  have hsize : UInt32.size = 2 ^ 32 := rfl
  cases hconfuses with
  | retryEnds horder haccepted hstate =>
      simp only at horder hstate
      subst horder
      simp only [Step.retried, haccepted, Step.again, hstate, if_true, UInt32.toNat_add,
        UInt32.toNat_one] at hafter
      simp at hafter
      omega
  | provisionedAgain resources horder haccepted hstate =>
      simp only at horder hstate
      subst horder
      simp [Step.retried, Step.again, haccepted, hstate, Step.state_after haccepted,
        Order.target] at hafter
  | overrun horder haccepted hfull =>
      simp only at horder hfull
      subst horder
      simp only [Step.retried, haccepted, if_true, UInt32.toNat_add, UInt32.toNat_one] at hafter
      split at hafter <;> omega

/-- After any sequence of orders: each that was refused has left the job as it was, the count is
that of the accepted retries in 32 bits, the resources are the last that were given, and retries
are told from ends of provisioning just if no order confused them. -/
structure Account (job : Job) (orders : List (Order × Instant)) : Prop where
  /-- Changing the job in place is the same as handing back a new one. -/
  followed : ∀ s ∈ job.steps orders,
    s.before.follow s.now s.order = s.reply.map fun _ => s.after
  refused : ∀ s ∈ job.steps orders, s.accepted = false →
    s.reply = .error (.invalidTransition job.id job.role s.before.state s.order.target) ∧
      s.after = s.before
  retryCount : (job.final orders).retryCount.toNat =
    (job.steps orders).countP Step.retried % UInt32.size
  resources : (job.final orders).resources =
    ((job.steps orders).filterMap Step.given?).getLast?.getD []
  apart_iff : (∀ pre, pre <+: orders → Apart job pre) ↔ ∀ s ∈ job.steps orders, ¬ s.Confuses

/-- The count is that of the retries that are taken, the resources are those that were given
last, and the two orders are told apart just when neither is taken for the other. -/
theorem orders_accounted (id : String) (role : Role) (request : TransferRequest) (now : Instant)
    (orders : List (Order × Instant)) : Account (new id role request now) orders where
  followed s _ := s.follow_before
  refused s hs hrefused := by
    obtain ⟨pre, o, now, -, rfl⟩ := exists_of_mem_steps hs
    obtain ⟨hid, hrole⟩ := final_kept (new id role request _) pre
    rcases Step.cases _ with ⟨haccepted, -⟩ | ⟨-, -, hreply, hafter⟩
    · rw [hrefused] at haccepted
      cases haccepted
    · rw [hreply, hafter, hid, hrole]
      exact ⟨rfl, rfl⟩
  retryCount := by
    induction orders using List.reverseRecOn with
    | nil => rfl
    | append_singleton orders c ih =>
        rw [final_concat, steps_concat, Step.retryCount_after, List.countP_append,
          List.countP_singleton]
        split
        · rw [UInt32.toNat_add, ih, UInt32.toNat_one]
          exact Nat.mod_add_mod _ UInt32.size 1
        · exact ih
  resources := by
    induction orders using List.reverseRecOn with
    | nil => rfl
    | append_singleton orders c ih =>
        rw [final_concat, steps_concat, Step.resources_after, ih, List.filterMap_append]
        cases hgiven : Step.given? _ with
        | none => simp [hgiven]
        | some resources => simp [hgiven]
  apart_iff := by
    refine ⟨not_confuses_of_apart, fun h pre hpre => ?_⟩
    exact apart_of_not_confuses rfl fun s hs => h s ((steps_upto hpre).subset hs)

/-- A retry ends the provisioning of an initiator's job, which then has one retry. -/
theorem retry_ends_provisioning :
    ¬ Apart (new "a" .initiator ⟨"a", "", "", "", ⟨localDirectory, .empty⟩, true, .empty⟩ .epoch)
      [(.provision {}, .epoch), (.retry, .epoch)] := by
  intro h
  exact absurd (h.initiator rfl) (by decide)

end Ferry.Job
