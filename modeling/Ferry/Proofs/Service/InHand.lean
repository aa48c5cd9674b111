import Ferry.Proofs.Job.Consistency
import Ferry.Proofs.Orchestrator.CycleRules
import Ferry.Proofs.Service.Calls

/-!
# A job in hand

A job that is being provisioned is in somebody's hand: first the worker's, who has
stored that provisioning begins and is about to have it started, then the
provisioner's, and at last the writer's, who has taken up the outcome and is about to
store it. Worker and writer must not let it fall, for nobody else will pick it up.

That they do not is a matter of their programs alone. A program is followed here call
by call, and what is followed is where it stands with one job (`Hand`). While it holds
the job it may not turn to anything else, and once it has handed it on it may not come
back to it; a program that does so has gone astray. All that is asked of the replies
is what a table may answer (`Credible`).
-/

namespace Ferry

namespace Request

/-- The call makes or writes the job or has it provisioned. -/
def Touches (id : String) : Request → Prop
  | .store (.create _) => True
  | .store (.update job) | .store (.updateIfState job _) | .provision job => job.id = id
  | _ => False

/-- The call stores that the job's provisioning begins. -/
def Begins (id : String) : Request → Prop
  | .store (.update job) => job.id = id ∧ job.state = .provisioning
  | _ => False

/-- The call is a step towards the end of the job's provisioning: it has it started, or
looks at the job to store the outcome, or stores it. -/
def ProvisioningStep (id : String) : Request → Prop
  | .provision job => job.id = id
  | .store (.get k) => k = id
  | .store (.update job) => job.id = id ∧ job.state ≠ .provisioning
  | _ => False

/-- The store has failed the call. -/
def Failed : (c : Request) → c.Reply → Prop
  | .store _, .error _ => True
  | _, _ => False

theorem Harmless.not_touches {id : String} {c : Request} (h : c.Harmless) : ¬ c.Touches id := by
  cases c with
  | store _ | provision _ | send _ _ | acknowledge _ _ | startFlow _ | isComplete _
  | isRunning | overflow => exact h.elim
  | now | freshId | count _ _ => exact not_false

end Request

namespace Service

open Operation

/-- Where a program stands with a job. -/
inductive Hand where
  /-- The job is new, if it is there at all. -/
  | untouched
  /-- The job is being provisioned, and the program is to see to it. -/
  | holding
  /-- The job is being provisioned, and the program has nothing more to do with it. -/
  | handedOn
  | astray

namespace Hand

/-- The state the job is in. -/
def state : Hand → JobState
  | untouched => .initial
  | _ => .provisioning

/-- Where a program stands with the job it may make the call. It does nothing to a new job but
begin its provisioning, then makes the steps of that and harmless calls only, and once the job is
out of its hands leaves it alone. -/
def Permits (id : String) : Hand → Request → Prop
  | untouched, c => c.Touches id → c.Begins id
  | holding, c => c.Harmless ∨ c.ProvisioningStep id
  | handedOn, c => ¬ c.Touches id ∧ ¬ c.ProvisioningStep id
  | astray, _ => False

/-- What a call that may be made and its reply lead to. Whoever has failed to look at
the job or to write it will not try again. -/
def after (id : String) : Hand → (c : Request) → c.Reply → Hand
  | untouched, .store (.update job), .ok () => if job.id = id then holding else untouched
  | holding, .provision _, .ok () => handedOn
  | holding, .store (.get _), .error _ => handedOn
  | holding, .store (.update _), _ => handedOn
  | m, _, _ => m

/-- The table may answer so. Jobs that are read in one state have different ids, and this
one is not among them unless it is in that state. -/
def Credible (id : String) (m : Hand) : (c : Request) → c.Reply → Prop
  | .store (.next state _), .ok jobs =>
    (jobs.map (·.id)).Nodup ∧ ∀ job ∈ jobs, job.id = id → state = m.state
  | .store (.get k), .ok found =>
    k = id → m = holding → ∃ job, found = some job ∧ job.id = id ∧ job.state = .provisioning
  | _, _ => True

variable {id : String} {m : Hand} {c : Request}

theorem after_untouched (id : String) (c : Request) (r : c.Reply) :
    untouched.after id c r = untouched ∨ untouched.after id c r = holding := by
  cases c with
  | store s =>
      cases s with
      | update job =>
          cases r with
          | ok _ => exact (em (job.id = id)).symm.imp (fun h => if_neg h) fun h => if_pos h
          | error _ => exact .inl rfl
      | create _ | updateIfState _ _ | get _ | findId _ | next _ _ | count _ => exact .inl rfl
  | provision _ | send _ _ | acknowledge _ _ | startFlow _ | isComplete _ | now | freshId
  | count _ _ | isRunning | overflow => exact .inl rfl

theorem after_holding (id : String) (c : Request) (r : c.Reply) :
    holding.after id c r = holding ∨ holding.after id c r = handedOn := by
  cases c with
  | store s =>
      cases s with
      | get _ =>
          cases r with
          | ok _ => exact .inl rfl
          | error _ => exact .inr rfl
      | update _ => exact .inr rfl
      | create _ | updateIfState _ _ | findId _ | next _ _ | count _ => exact .inl rfl
  | provision _ =>
      cases r with
      | ok _ => exact .inr rfl
      | error _ => exact .inl rfl
  | send _ _ | acknowledge _ _ | startFlow _ | isComplete _ | now | freshId | count _ _
  | isRunning | overflow => exact .inl rfl

theorem after_ne_astray (hm : m ≠ astray) (r : c.Reply) : m.after id c r ≠ astray := by
  cases m with
  | untouched => rcases after_untouched id c r with h | h <;> simp [h]
  | holding => rcases after_holding id c r with h | h <;> simp [h]
  | handedOn => exact hm
  | astray => exact absurd rfl hm

/-- A program that does not hold the job and does not touch it stands with it as before. -/
theorem after_of_not_touches (hm : m ≠ holding) (hc : ¬ c.Touches id) (r : c.Reply) :
    m.after id c r = m := by
  unfold after
  split
  · next job _ => exact if_neg hc
  · exact absurd rfl hm
  · exact absurd rfl hm
  · exact absurd rfl hm
  · rfl

theorem after_of_harmless (hc : c.Harmless) (r : c.Reply) : m.after id c r = m := by
  cases c with
  | now | freshId | count _ _ => cases m <;> rfl
  | store _ | provision _ | send _ _ | acknowledge _ _ | startFlow _ | isComplete _
  | isRunning | overflow => exact hc.elim

theorem permits_of_harmless (hm : m ≠ astray) (hc : c.Harmless) : m.Permits id c := by
  cases m with
  | untouched => exact fun htouches => absurd htouches hc.not_touches
  | holding => exact .inl hc
  | handedOn =>
      refine ⟨hc.not_touches, fun hsees => ?_⟩
      cases c with
      | now | freshId | count _ _ => exact hsees
      | store _ | provision _ | send _ _ | acknowledge _ _ | startFlow _ | isComplete _
      | isRunning | overflow => exact hc
  | astray => exact absurd rfl hm

/-- The call is none of the job's business. -/
theorem permits_elsewhere (hm : m ≠ holding) (hm' : m ≠ astray) (hc : ¬ c.Touches id)
    (hsees : ¬ c.ProvisioningStep id) : m.Permits id c := by
  cases m with
  | untouched => exact fun htouches => absurd htouches hc
  | holding => exact absurd rfl hm
  | handedOn => exact ⟨hc, hsees⟩
  | astray => exact absurd rfl hm'

theorem exists_credible (id : String) (m : Hand) (c : Request) : ∃ r, m.Credible id c r := by
  cases c with
  | store s => exact ⟨.error (.notFound ""), by cases s <;> trivial⟩
  | provision _ | send _ _ => exact ⟨.ok (), trivial⟩
  | acknowledge _ _ | count _ _ | overflow => exact ⟨(), trivial⟩
  | startFlow _ => exact ⟨.ok, trivial⟩
  | isComplete _ | isRunning => exact ⟨true, trivial⟩
  | now => exact ⟨.epoch, trivial⟩
  | freshId => exact ⟨"", trivial⟩

end Hand

/-- The terms on which a program deals with one job. -/
def handling (id : String) : Discipline operationSignature Hand where
  inv m := m ≠ .astray
  answers c m r m' := m.Credible id c r ∧
    (m.Permits id c → m' = m.after id c r) ∧ (¬ m.Permits id c → m' = .astray)
  rely := Eq
  guarantee _ _ := True
  rely_refl := Eq.refl
  rely_trans := Eq.trans

/-- The program does not end while it still holds the job. -/
def HoldsNothing {α : Type} (_ : α) (m : Hand) : Prop :=
  m ≠ .holding

section Rules

variable {α : Type} {id : String} {m : Hand} {c : Request} {job after : Job}

theorem wp_permitted {next : c.Reply → Activity α} {Q : α → Hand → Prop}
    (hpermits : m ≠ .astray → m.Permits id c)
    (h : ∀ r, m.Credible id c r → (handling id).wp (next r) Q (m.after id c r)) :
    (handling id).wp (.call c next) Q m := by
  rintro _ rfl hm r m' ⟨hcredible, hafter, -⟩
  obtain rfl := hafter (hpermits hm)
  exact ⟨Hand.after_ne_astray hm r, trivial, h r hcredible⟩

/-- What a program that is followed does next. -/
theorem permits_of_wp {next : c.Reply → Activity α} {Q : α → Hand → Prop}
    (h : (handling id).wp (.call c next) Q m) (hm : m ≠ .astray) : m.Permits id c ∧
      ∀ r, m.Credible id c r → (handling id).wp (next r) Q (m.after id c r) := by
  have hpermits : m.Permits id c := by
    by_contra hnot
    obtain ⟨r, hr⟩ := Hand.exists_credible id m c
    exact (h m rfl hm r .astray ⟨hr, fun hyes => absurd hyes hnot, fun _ => rfl⟩).1 rfl
  refine ⟨hpermits, fun r hr => ?_⟩
  exact (h m rfl hm r _ ⟨hr, fun _ => rfl, fun hnot => absurd hpermits hnot⟩).2.2

variable {Q : α → Hand → Prop}

theorem wpOr_permitted {g : c.Reply → Operation α} (hpermits : m ≠ .astray → m.Permits id c)
    (h : ∀ r, m.Credible id c r → (handling id).wpOr HoldsNothing (g r) Q (m.after id c r)) :
    (handling id).wpOr HoldsNothing (ask c >>= g) Q m :=
  wp_permitted hpermits h

theorem wpOr_harmless {g : c.Reply → Operation α} (hc : c.Harmless)
    (h : ∀ r, (handling id).wpOr HoldsNothing (g r) Q m) :
    (handling id).wpOr HoldsNothing (ask c >>= g) Q m := by
  refine wpOr_permitted (fun hm => Hand.permits_of_harmless hm hc) fun r _ => ?_
  rw [Hand.after_of_harmless hc]
  exact h r

theorem wpOr_harmless_last {Q : c.Reply → Hand → Prop} (hc : c.Harmless) (h : ∀ r, Q r m) :
    (handling id).wpOr HoldsNothing (ask c) Q m := by
  refine wp_permitted (fun hm => Hand.permits_of_harmless hm hc) fun r _ => ?_
  rw [Hand.after_of_harmless hc]
  rintro _ rfl _
  exact h r

theorem stable (P : Hand → Prop) : (handling id).Stable P := by
  rintro m _ rfl h
  exact h

theorem preserves_harmless {P : Hand → Prop} (hc : c.Harmless) :
    (handling id).Preserves HoldsNothing P (ask c) :=
  fun _ h => wpOr_harmless_last hc fun _ => h

theorem wpOr_free_throw {e : OrchestratorError} (hm : m ≠ .holding) :
    (handling id).wpOr HoldsNothing (throw e) Q m := by
  refine Discipline.wpOr_throw ?_
  rintro _ rfl _
  exact hm

theorem wpOr_same {a : α} (h : Q a m) : (handling id).wpOr HoldsNothing (pure a) Q m := by
  refine Discipline.wpOr_pure ?_
  rintro _ rfl _
  exact h

/-- A statement of the store that is permitted, and what follows its answer or its
error. -/
theorem wpOr_store_permitted {s : Store.Call} {g : s.Answer → Operation α}
    (hpermits : m ≠ .astray → m.Permits id (.store s))
    (hfails : ∀ e, m.after id (.store s) (.error e) ≠ .holding)
    (h : ∀ a, m.Credible id (.store s) (.ok a) →
      (handling id).wpOr HoldsNothing (g a) Q (m.after id (.store s) (.ok a))) :
    (handling id).wpOr HoldsNothing (store s >>= g) Q m := by
  refine wp_permitted (c := .store s) hpermits fun r hr => ?_
  cases r with
  | ok a => exact h a hr
  | error e => exact wpOr_free_throw (hfails e)

theorem wpOr_elsewhere {g : c.Reply → Operation α} (hm : m ≠ .holding) (hc : ¬ c.Touches id)
    (hsees : ¬ c.ProvisioningStep id)
    (h : ∀ r, m.Credible id c r → (handling id).wpOr HoldsNothing (g r) Q m) :
    (handling id).wpOr HoldsNothing (ask c >>= g) Q m := by
  refine wpOr_permitted (fun hm' => Hand.permits_elsewhere hm hm' hc hsees) fun r hr => ?_
  rw [Hand.after_of_not_touches hm hc]
  exact h r hr

theorem wpOr_checkCount_elsewhere {g : Unit → Operation α} {outcome : FlowOutcome}
    (hm : m ≠ .holding) (h : (handling id).wpOr HoldsNothing (g ()) Q m) :
    (handling id).wpOr HoldsNothing (Cycle.checkCount job outcome >>= g) Q m :=
  Discipline.wpOr_checkCount (fun _ => wpOr_elsewhere hm not_false not_false fun _ _ => h) h

theorem preserves_elsewhere {P : Hand → Prop} (hP : ∀ m, P m → m ≠ .holding)
    (hc : ¬ c.Touches id) (hsees : ¬ c.ProvisioningStep id) :
    (handling id).Preserves HoldsNothing P (ask c) := by
  intro m h
  refine wp_permitted (fun hm' => Hand.permits_elsewhere (hP m h) hm' hc hsees) fun r _ => ?_
  rw [Hand.after_of_not_touches (hP m h) hc]
  exact wpOr_same h

theorem wpOr_store_elsewhere {s : Store.Call} {g : s.Answer → Operation α} (hm : m ≠ .holding)
    (hc : ¬ (Request.store s).Touches id) (hsees : ¬ (Request.store s).ProvisioningStep id)
    (h : ∀ a, m.Credible id (.store s) (.ok a) → (handling id).wpOr HoldsNothing (g a) Q m) :
    (handling id).wpOr HoldsNothing (store s >>= g) Q m := by
  refine wpOr_store_permitted (fun hm' => Hand.permits_elsewhere hm hm' hc hsees)
    (fun e => ?_) fun a ha => ?_
  · rwa [Hand.after_of_not_touches hm hc]
  · rw [Hand.after_of_not_touches hm hc]
    exact h a ha

/-- A move of a job that the program does not hold may be refused. -/
theorem wpOr_free_move {moved : Except JobError Job} {g : Job → Operation α}
    (hm : m ≠ .holding)
    (h : ∀ job, moved = .ok job → (handling id).wpOr HoldsNothing (g job) Q m) :
    (handling id).wpOr HoldsNothing (Operation.move moved >>= g) Q m := by
  refine Discipline.wpOr_move (fun e _ => ?_) h
  rintro _ rfl _
  exact hm

end Rules

/-! ## Other jobs -/

section Others

variable {id : String} {m : Hand} {job : Job}

theorem wpOr_update_other {α : Type} {g : Unit → Operation α} {Q : α → Hand → Prop}
    (hm : m ≠ .holding) (hjob : job.id ≠ id) (h : (handling id).wpOr HoldsNothing (g ()) Q m) :
    (handling id).wpOr HoldsNothing (store (.update job) >>= g) Q m :=
  wpOr_store_elsewhere hm hjob (fun hsees => hjob hsees.1) fun _ _ => h

/-- A write of another job over a state, and the counting of it if it hit. -/
theorem wpOr_swap_other {expected : JobState} (hm : m ≠ .holding) (hjob : job.id ≠ id) :
    (handling id).wpOr HoldsNothing (do if ← store (.updateIfState job expected) then countMove job)
      (fun _ m' => m' = m) m := by
  refine wpOr_store_elsewhere hm hjob not_false fun hit _ => ?_
  exact Discipline.preserves_countIf (stable _) (preserves_harmless trivial) hit m rfl

theorem wpOr_provision_other (hm : m ≠ .holding) (hjob : job.id ≠ id) :
    (handling id).wpOr HoldsNothing (Cycle.provision job) (fun _ m' => m' = m) m := by
  refine wpOr_harmless trivial fun definitionId => wpOr_harmless trivial fun now => ?_
  refine wpOr_free_move hm fun started hstarted => ?_
  have hid : started.id ≠ id := by rwa [(Job.provision_ok hstarted).id]
  refine wpOr_update_other hm hid (wpOr_harmless trivial fun _ => ?_)
  refine wpOr_elsewhere hm hid hid fun r _ => ?_
  cases r with
  | ok _ => exact wpOr_same rfl
  | error e =>
      refine wpOr_harmless trivial fun now => wpOr_free_move hm fun failed hfailed => ?_
      refine wpOr_update_other hm (by rwa [(Job.failed_ok hfailed).id]) ?_
      exact wpOr_harmless trivial fun _ => wpOr_harmless_last trivial fun _ => rfl

theorem wpOr_send_other (hm : m ≠ .holding) (hjob : job.id ≠ id) :
    (handling id).wpOr HoldsNothing (Cycle.send job) (fun _ m' => m' = m) m := by
  refine wpOr_harmless trivial fun now => wpOr_free_move hm fun sent hsent => ?_
  have hid : sent.id ≠ id := by rwa [(Job.move_ok hsent).id]
  refine wpOr_update_other hm hid (wpOr_harmless trivial fun _ => ?_)
  refine wpOr_elsewhere hm not_false not_false fun r _ => ?_
  cases r with
  | ok _ => exact wpOr_same rfl
  | error e =>
      refine wpOr_harmless trivial fun _ => wpOr_harmless trivial fun now => ?_
      refine wpOr_free_move hm fun failed hfailed => wpOr_swap_other hm ?_
      rwa [(Job.failed_ok hfailed).id]

theorem wpOr_execute_other (config : Config.Orchestrator) (hm : m ≠ .holding)
    (hjob : job.id ≠ id) :
    (handling id).wpOr HoldsNothing (Cycle.execute config job) (fun _ m' => m' = m) m := by
  refine wpOr_elsewhere hm not_false not_false fun outcome _ => ?_
  refine wpOr_harmless trivial fun _ => wpOr_harmless trivial fun now => ?_
  refine wpOr_checkCount_elsewhere hm (wpOr_free_move hm fun after hafter => ?_)
  have hid : after.id ≠ id := by rwa [(Job.same_afterFlow hafter).1]
  split
  · exact wpOr_harmless trivial fun _ => wpOr_swap_other hm hid
  · exact wpOr_swap_other hm hid

theorem wpOr_dispatch_other (config : Config.Orchestrator) (hm : m ≠ .holding)
    (hjob : job.id ≠ id) :
    (handling id).wpOr HoldsNothing (Cycle.dispatch config job) (fun _ m' => m' = m) m := by
  rw [Cycle.dispatch]
  split
  · exact wpOr_send_other hm hjob
  · exact wpOr_execute_other config hm hjob

theorem wpOr_complete_other (hm : m ≠ .holding) (hjob : job.id ≠ id) :
    (handling id).wpOr HoldsNothing (Cycle.complete job) (fun _ m' => m' = m) m := by
  refine wpOr_harmless trivial fun now => wpOr_free_move hm fun done hdone => ?_
  refine wpOr_update_other hm (by rwa [(Job.move_ok hdone).id]) ?_
  exact wpOr_harmless_last trivial fun _ => rfl

/-- A loop over other jobs. -/
theorem wpOr_forEach_others {f : Job → Operation Unit} (hm : m ≠ .holding)
    (hturn : ∀ job, job.id ≠ id → (handling id).wpOr HoldsNothing (f job) (fun _ m' => m' = m) m)
    {jobs : List Job} (hjobs : ∀ job ∈ jobs, job.id ≠ id) :
    (handling id).wpOr HoldsNothing (forEach f jobs) (fun _ m' => m' = m) m := by
  refine Discipline.wpOr_mono (fun _ _ _ h => h.1) (Discipline.wpOr_forEach
    (I := fun rest m' => m' = m ∧ ∀ job ∈ rest, job.id ≠ id) ?_ ?_ jobs ⟨rfl, hjobs⟩)
  · rintro rest m₁ _ rfl h
    exact h
  · rintro job rest m' _ ⟨rfl, hrest⟩
    refine Discipline.wpOr_mono (fun _ m' _ h => ?_) (hturn job (hrest job List.mem_cons_self))
    exact ⟨h, fun k hk => hrest k (List.mem_cons_of_mem _ hk)⟩

end Others

/-! ## The worker -/

section Worker

variable {id : String} {m : Hand} {job : Job}

/-- The worker takes up the job, and hands it on unless it fails. -/
theorem wpOr_provision_this (hjob : job.id = id) :
    (handling id).wpOr HoldsNothing (Cycle.provision job)
      (fun _ m' => m' = .handedOn) .untouched := by
  refine wpOr_harmless trivial fun definitionId => wpOr_harmless trivial fun now => ?_
  refine wpOr_free_move (by simp) fun started hstarted => ?_
  have hmoved := Job.provision_ok hstarted
  have hid : started.id = id := hmoved.id.trans hjob
  refine wpOr_store_permitted (fun _ _ => ⟨hid, hmoved.state⟩) (fun e => by simp [Hand.after])
    fun _ _ => ?_
  rw [show Hand.untouched.after id (.store (.update started)) (.ok ()) = .holding from if_pos hid]
  refine wpOr_harmless trivial fun _ => wpOr_permitted (fun _ => .inr hid) fun r _ => ?_
  cases r with
  | ok _ => exact wpOr_same rfl
  | error e =>
      refine wpOr_harmless trivial fun now => ?_
      -- in its hand the job is being provisioned, so it may fail
      obtain ⟨failed, hfailed⟩ : ∃ failed, started.failed e.message now = .ok failed :=
        Job.exists_map_move (by rw [hmoved.state]; rfl) now
      have hmoved' := Job.failed_ok hfailed
      refine Discipline.wpOr_moved hfailed ?_
      refine wpOr_store_permitted (fun _ => .inr ⟨hmoved'.id.trans hid, ?_⟩)
        (fun e => by simp [Hand.after]) fun _ _ => ?_
      · rw [hmoved'.state]
        decide
      · exact wpOr_harmless trivial fun _ => wpOr_harmless_last trivial fun _ => rfl

/-- Of the jobs that are still to come, the one that is followed is new, and it comes
only once. -/
structure Upcoming (id : String) (jobs : List Job) (m : Hand) : Prop where
  free : m ≠ .holding
  distinct : (jobs.map (·.id)).Nodup
  untouched : id ∈ jobs.map (·.id) → m = .untouched

theorem wpOr_provision_next {rest : List Job} (h : Upcoming id (job :: rest) m) :
    (handling id).wpOr HoldsNothing (Cycle.provision job) (fun _ => Upcoming id rest) m := by
  obtain ⟨hfirst, hrest⟩ := List.nodup_cons.1 h.distinct
  by_cases hjob : job.id = id
  · obtain rfl := h.untouched (hjob ▸ List.mem_cons_self)
    refine Discipline.wpOr_mono ?_ (wpOr_provision_this hjob)
    rintro _ _ _ rfl
    exact ⟨by simp, hrest, fun hmem => absurd hmem (hjob ▸ hfirst)⟩
  · refine Discipline.wpOr_mono ?_ (wpOr_provision_other h.free hjob)
    rintro _ _ _ rfl
    exact ⟨h.free, hrest, fun hmem => h.untouched (List.mem_cons_of_mem _ hmem)⟩

theorem wpOr_provision_all {jobs : List Job} (h : Upcoming id jobs m) :
    (handling id).wpOr HoldsNothing (forEach Cycle.provision jobs) HoldsNothing m := by
  refine Discipline.wpOr_mono (fun _ _ _ hdone => Upcoming.free hdone)
    (Discipline.wpOr_forEach (I := Upcoming id) ?_ (fun _ _ _ _ => wpOr_provision_next) jobs h)
  rintro rest m₁ _ rfl hrest
  exact hrest

theorem wpOr_provisionPhase (config : Config.Orchestrator) (hm : m ≠ .holding) :
    (handling id).wpOr HoldsNothing (Cycle.provisionPhase config) HoldsNothing m := by
  refine wpOr_store_elsewhere hm not_false not_false fun jobs hread => ?_
  have hnew : id ∈ jobs.map (·.id) → m = .untouched := by
    intro hmem
    obtain ⟨job, hjob, hid⟩ := List.mem_map.1 hmem
    have hstate := hread.2 job hjob hid
    cases m with
    | untouched => rfl
    | holding | handedOn | astray => cases hstate
  refine Discipline.wpOr_then (wpOr_provision_all ⟨hm, hread.1, hnew⟩) fun _ m' _ hm' => ?_
  exact Discipline.preserves_processed (stable _) (preserves_harmless trivial) m' hm'

/-- Jobs that are read in a state past provisioning are others. -/
theorem ne_of_credible {state : JobState} {limit : Nat} {jobs : List Job}
    (h : m.Credible id (.store (.next state limit)) (.ok jobs)) (hinitial : state ≠ .initial)
    (hprovisioning : state ≠ .provisioning) : ∀ job ∈ jobs, job.id ≠ id := by
  intro job hjob hid
  have hstate := h.2 job hjob hid
  cases m with
  | untouched => exact hinitial hstate
  | holding | handedOn | astray => exact hprovisioning hstate

theorem wpOr_dispatchPhase (config : Config.Orchestrator) (hm : m ≠ .holding) :
    (handling id).wpOr HoldsNothing (Cycle.dispatchPhase config) (fun _ m' => m' = m) m := by
  refine wpOr_store_elsewhere hm not_false not_false fun jobs hread => ?_
  have hothers := ne_of_credible hread (by simp) (by simp)
  exact Discipline.wpOr_then
    (wpOr_forEach_others hm (fun _ => wpOr_dispatch_other config hm) hothers)
    fun _ m' _ => Discipline.preserves_processed (stable (· = m)) (preserves_harmless trivial) m'

theorem wpOr_completionPhase (config : Config.Orchestrator) (hm : m ≠ .holding) :
    (handling id).wpOr HoldsNothing (Cycle.completionPhase config) (fun _ m' => m' = m) m := by
  refine wpOr_store_elsewhere hm not_false not_false fun jobs hread => ?_
  have hothers := ne_of_credible hread (by simp) (by simp)
  dsimp only
  split
  · exact Discipline.wpOr_bind (wpOr_free_throw hm)
  · have hfree : ∀ m', m' = m → m' ≠ .holding := by
      rintro _ rfl
      exact hm
    refine Discipline.wpOr_then (Discipline.wpOr_arrived (stable (· = m))
      (fun _ => preserves_elsewhere hfree not_false not_false) jobs rfl) ?_
    rintro done _ _ ⟨hsub, rfl⟩
    exact Discipline.wpOr_then (wpOr_forEach_others hm (fun _ => wpOr_complete_other hm)
      fun job hjob => hothers job (hsub.subset hjob))
      fun _ m' _ => Discipline.preserves_processed (stable (· = _)) (preserves_harmless trivial) m'

/-- A cycle takes up the job if it finds it new, and hands it on in time. -/
theorem wp_cycle (config : Config.Orchestrator) (hm : m ≠ .holding) :
    (handling id).wp (cycle config).run HoldsNothing m := by
  refine Discipline.wp_of_wpOr (Discipline.preserves_cycle
    (preserves_elsewhere (fun _ hm => hm) not_false not_false)
    (fun _ => wpOr_provisionPhase config) ?_ ?_ m hm)
  · refine fun m hm => Discipline.wpOr_mono ?_ (wpOr_dispatchPhase config hm)
    rintro _ _ _ rfl
    exact hm
  · refine fun m hm => Discipline.wpOr_mono ?_ (wpOr_completionPhase config hm)
    rintro _ _ _ rfl
    exact hm

end Worker

/-! ## The writer -/

/-- An outcome that is taken up can be stored. -/
theorem exists_accept {job : Job} (hstate : job.state = .provisioning)
    (outcome : ProvisionOutcome) (now : Time.Instant) :
    ∃ after, job.accept outcome now = .ok after ∧ after.id = job.id ∧
      after.state ≠ .provisioning := by
  cases outcome with
  | provisioned resources =>
      obtain ⟨after, hafter⟩ : ∃ after, job.provisioned resources now = .ok after :=
        Job.exists_map_move (by rw [hstate]; rfl) now
      have hmoved := Job.provisioned_ok hafter
      exact ⟨after, hafter, hmoved.id, by rw [hmoved.state]; decide⟩
  | failed detail =>
      obtain ⟨after, hafter⟩ : ∃ after, job.failed detail now = .ok after :=
        Job.exists_map_move (by rw [hstate]; rfl) now
      have hmoved := Job.failed_ok hafter
      exact ⟨after, hafter, hmoved.id, by rw [hmoved.state]; decide⟩

/-- The writer holds the job whose outcome it has taken up, until it has stored it or
failed to. -/
theorem wp_applyResponse (response : ProvisionResponse) :
    (handling response.jobId).wp (applyResponse response).run HoldsNothing .holding := by
  have happly : (handling response.jobId).wpOr HoldsNothing (applyResponse response)
      HoldsNothing .holding := by
    refine wpOr_store_permitted (fun _ => .inr rfl) (fun e => by simp [Hand.after])
      fun found hread => ?_
    obtain ⟨job, rfl, hid, hstate⟩ := hread rfl rfl
    refine wpOr_harmless trivial fun now => ?_
    obtain ⟨after, hafter, hid', hstate'⟩ := exists_accept hstate response.outcome now
    refine Discipline.wpOr_moved hafter ?_
    refine wpOr_store_permitted (fun _ => .inr ⟨hid'.trans hid, hstate'⟩)
      (fun e => by simp [Hand.after]) fun _ _ => ?_
    refine wpOr_harmless trivial fun _ => wpOr_harmless_last trivial fun _ => ?_
    simp [HoldsNothing, Hand.after]
  refine Discipline.wp_mono (fun result m' _ h => ?_) happly
  cases result with
  | ok _ | error _ => exact h

/-! ## What comes next -/

/-- Whatever the replies, the program comes to a step towards the end of the job's provisioning,
and makes only harmless calls before it. -/
def AttendsTo {α : Type} (id : String) : Activity α → Prop :=
  TurnsTo (·.ProvisioningStep id)

section Next

variable {α : Type} {id : String} {p : Activity α}

theorem attendsTo_of_wp (h : (handling id).wp p HoldsNothing .holding) : AttendsTo id p := by
  induction p with
  | done a => exact absurd rfl (h .holding rfl nofun)
  | call c next ih =>
      obtain ⟨hpermits, hnext⟩ := permits_of_wp h (by simp)
      rcases hpermits with hharmless | hsees
      · refine .inr ⟨hharmless, fun r => ih r ?_⟩
        have hcredible : Hand.holding.Credible id c r := by
          cases c with
          | now | freshId | count _ _ => trivial
          | store _ | provision _ | send _ _ | acknowledge _ _ | startFlow _ | isComplete _
          | isRunning | overflow => exact hharmless.elim
        have hstays : Hand.holding.after id c r = .holding := Hand.after_of_harmless hharmless r
        exact hstays ▸ hnext r hcredible
      · exact .inl hsees

theorem not_attendsTo_of_wp {Q : α → Hand → Prop} (h : (handling id).wp p Q .handedOn) :
    ¬ AttendsTo id p := by
  induction p with
  | done a => exact not_false
  | call c next ih =>
      obtain ⟨hpermits, hnext⟩ := permits_of_wp h (by simp)
      rintro (hsees | ⟨hharmless, hattends⟩)
      · exact hpermits.2 hsees
      · obtain ⟨r, hr⟩ := Hand.exists_credible id .handedOn c
        refine ih r ?_ (hattends r)
        have hstays : Hand.handedOn.after id c r = .handedOn := Hand.after_of_harmless hharmless r
        exact hstays ▸ hnext r hr

end Next

end Service

end Ferry
