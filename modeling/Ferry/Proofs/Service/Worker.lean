import Ferry.Proofs.Job.Consistency
import Ferry.Proofs.Service.Terms

/-!
# The worker keeps to its terms

The worker reads a batch of jobs and writes them one after the other, much later
than it read them. For new jobs, for initiators that are provisioned and for
those that are acknowledged the copies stay good, since these jobs are the
worker's own and nobody touches them; each turn of a loop writes one job and
leaves the others of the batch as they were read (`SparesOthers`). Executors are not
the worker's once they are provisioned, for their data flow may end at any time.
What the worker writes of them it writes over the state it read.
-/

namespace Ferry.Service

open Operation World

variable {w w' : World} {job after : Job} {st : Standing} {id : String}

theorem sparesOthers_of_rely (h : Share.worker.terms.rely w w') (id : String) :
    SparesOthers id w w' :=
  ⟨h.1, fun k st _ ho => h.2.owned k st ho⟩

theorem World.Owned.rely (ho : w.Owned id st) (h : Share.worker.terms.rely w w') :
    w'.Owned id st :=
  h.2.owned id st ho

/-- The worker writes a job of its own: in the world `w₁` just before, it still is,
and from the first world to the last no other job of the worker was touched. -/
theorem wpOk_update_owned {α : Type} {g : Unit → Operation α} {Q : α → World → Prop}
    {target : JobState} (hmoved : job.MovedTo after target) (ho : w.Owned job.id job.standing)
    (h : ∀ w₁ w' : World, w₁.Sound → w₁.Owned job.id job.standing →
      w₁.WritesStanding w' job.id after.standing → SparesOthers job.id w w' → w'.Sound →
      (⟨.store (.update after), .ok ()⟩ : Exchange) ∈ w'.journal →
      Share.worker.terms.wpOk (g ()) Q w') :
    Share.worker.terms.wpOk (store (.update after) >>= g) Q w := by
  refine wpOk_update fun w₁ hrely hs st hst => ?_
  have ho₁ := ho.rely hrely
  rw [hmoved.id] at hst ⊢
  obtain rfl : job.standing = st := by
    rw [ho₁.standing] at hst
    exact Option.some.inj hst
  rw [hmoved.state, ← hmoved.standing]
  have hfollows : Standing.Follows (some job.standing) (some after.standing) := by
    rw [hmoved.standing]
    exact .moved hmoved.allowed
  refine ⟨hfollows, ho₁.not_awaited hs, fun w₂ hwrites => ⟨?_, fun hs₂ hjournal => ?_⟩⟩
  · refine hwrites.sparesWriter fun st' hst' hw => ?_
    rw [ho₁.standing] at hst'
    cases hst'
    exact ho₁.not_writing hw
  · rw [← ho₁.standing] at hfollows
    exact h w₁ w₂ hs ho₁ hwrites
      ((sparesOthers_of_rely hrely job.id).trans (hwrites.sparesOthers hfollows))
      hs₂ hjournal

/-- The worker writes a job over a state that is not the writer's business. -/
theorem wpOk_swap_sparesOthers {α : Type} {g : Bool → Operation α} {Q : α → World → Prop}
    {expected : JobState} (hid : after.id = id) (hexpected : expected ≠ .provisioning)
    (hmove : ∀ w₁ st, Share.worker.terms.rely w w₁ → w₁.standing? id = some st →
      st.state = expected → JobState.canMove st.role expected after.state = true)
    (h : ∀ b w', SparesOthers id w w' → w'.Sound → Share.worker.terms.wpOk (g b) Q w') :
    Share.worker.terms.wpOk (store (.updateIfState after expected) >>= g) Q w := by
  subst hid
  refine wpOk_swap hexpected (fun w₁ hrely hs st hst hstate => ?_)
    fun w' hrely hs => h false w' (sparesOthers_of_rely hrely _) hs
  have hfollows : Standing.Follows (some st) (some (st.inState after.state)) :=
    .moved (hstate ▸ hmove w₁ st hrely hst hstate)
  refine ⟨hfollows, fun w₂ hwrites => ⟨?_, fun hs₂ => ?_⟩⟩
  · refine hwrites.sparesWriter fun st' hst' _ hprov => ?_
    rw [hst] at hst'
    cases hst'
    exact hexpected (hstate.symm.trans hprov)
  · rw [← hst] at hfollows
    exact h true w₂ ((sparesOthers_of_rely hrely _).trans (hwrites.sparesOthers hfollows)) hs₂

/-! ## Provisioning -/

/-- A new job that was just stored as being provisioned is the worker's. -/
theorem owned_provisioning (hs : w.Sound) (ho : w.Owned id st) (hnew : st.state = .initial)
    (hwrites : w.WritesStanding w' id (st.inState .provisioning)) :
    w'.Owned id (st.inState .provisioning) := by
  refine ⟨hwrites.standing?_self, .inr (.inl ⟨rfl, ?_, fun hw => ?_⟩)⟩
  · rw [hwrites.awaited_eq]
    exact ho.not_awaited hs
  · rw [hwrites.writing_eq] at hw
    obtain ⟨_, st', hst', hne⟩ := hs.writing id hw
    rw [ho.standing] at hst'
    cases hst'
    exact hne hnew

/-- Once provisioning has started, the job is no longer the worker's but awaited. -/
theorem provision_started (hs : w.Sound) (ho : w.Owned job.id st)
    (hstate : st.state = .provisioning) (h : Answers (.provision job) w (.ok ()) w') :
    w'.Sound ∧ w.Legal w' ∧ w.SparesWriter w' ∧ SparesOthers job.id w w' := by
  obtain ⟨_, rfl⟩ := h
  have hnot := ho.not_awaited hs
  refine ⟨⟨hs.table, List.nodup_cons.2 ⟨hnot, hs.awaited_nodup⟩, ?_, ?_, hs.flows,
    hs.sends_nodup, hs.sends, ⟨nofun, hs.journal⟩⟩, fun _ => .same _,
    ⟨rfl, fun _ _ _ hst _ => hst⟩, .refl w, fun k stk hk hok => ⟨hok.standing, ?_⟩⟩
  · intro k hk
    rcases List.mem_cons.1 hk with rfl | hk
    · exact ⟨st, ho.standing, hstate⟩
    · exact hs.awaited k hk
  · intro k hk
    obtain ⟨hknot, hkst⟩ := hs.writing k hk
    refine ⟨fun hmem => ?_, hkst⟩
    rcases List.mem_cons.1 hmem with rfl | hmem
    · exact ho.not_writing hk hstate
    · exact hknot hmem
  · refine hok.share.imp_right (Or.imp_left fun ⟨hprov, hknot, hw⟩ => ⟨hprov, fun hmem => ?_, hw⟩)
    rcases List.mem_cons.1 hmem with heq | hmem
    · exact hk heq
    · exact hknot hmem

theorem provision_sparesOthers (ho : w.Owned job.id job.standing) (hnew : job.state = .initial) :
    Share.worker.terms.wpOk (Cycle.provision job) (fun _ w' => SparesOthers job.id w w') w := by
  refine wpOk_quiet trivial fun definitionId w₁ hrely₁ _ => ?_
  refine wpOk_quiet trivial fun now w₂ hrely₂ _ => ?_
  refine Discipline.wpOk_move fun started hstarted => ?_
  have hmoved := Job.provision_ok hstarted
  have hothers₂ := (sparesOthers_of_rely hrely₁ job.id).trans (sparesOthers_of_rely hrely₂ job.id)
  refine wpOk_update_owned hmoved ((ho.rely hrely₁).rely hrely₂)
    fun w₃ w₄ hs₃ ho₃ hwrites hothers₄ hs₄ _ => ?_
  have ho₄ : w₄.Owned started.id started.standing := by
    rw [hmoved.standing] at hwrites
    rw [hmoved.id, hmoved.standing]
    exact owned_provisioning hs₃ ho₃ hnew hwrites
  refine wpOk_quiet trivial fun _ w₅ hrely₅ _ => ?_
  refine Discipline.wpOk_ask fun w₆ hrely₆ hs₆ r w₇ hans => ?_
  have ho₆ := (ho₄.rely hrely₅).rely hrely₆
  have hothers₆ : SparesOthers job.id w w₆ :=
    ((hothers₂.trans hothers₄).trans (sparesOthers_of_rely hrely₅ _)).trans
      (sparesOthers_of_rely hrely₆ _)
  match r with
  | .ok () =>
      obtain ⟨hs₇, hlegal, hspares, hothers₇⟩ :=
        provision_started hs₆ ho₆ hmoved.state hans
      rw [hmoved.id] at hothers₇
      exact ⟨hs₇, ⟨hlegal, hspares⟩, Discipline.wpOk_pure fun w' hrely _ =>
        (hothers₆.trans hothers₇).trans (sparesOthers_of_rely hrely _)⟩
  | .error e =>
      have hnoted : w₆.OnlyJournaled w₇ := by
        obtain ⟨_, rfl⟩ := hans
        exact onlyJournaled_after rfl rfl
      have hrely₇ : Share.worker.terms.rely w₆ w₇ :=
        ⟨hnoted.legal.advances, hnoted.sparesWorker⟩
      refine ⟨hnoted.sound hs₆, ⟨hnoted.legal, hnoted.sparesWriter⟩, ?_⟩
      refine wpOk_quiet trivial fun now w₈ hrely₈ _ => ?_
      refine Discipline.wpOk_move fun failed hfailed => ?_
      refine wpOk_update_owned (Job.failed_ok hfailed) ((ho₆.rely hrely₇).rely hrely₈)
        fun _ w₉ _ _ _ hothers₉ _ _ => ?_
      rw [hmoved.id] at hothers₉
      have hothers : SparesOthers job.id w w₉ :=
        ((hothers₆.trans (sparesOthers_of_rely hrely₇ _)).trans
          (sparesOthers_of_rely hrely₈ _)).trans hothers₉
      refine wpOk_quiet trivial fun _ w₁₀ hrely₁₀ _ => ?_
      exact wpOk_quiet_last trivial fun _ w' hrely _ =>
        (hothers.trans (sparesOthers_of_rely hrely₁₀ _)).trans (sparesOthers_of_rely hrely _)

/-- A batch that was read from the queue of a state, some of it not yet taken up. -/
structure Batch (P : World → Job → Prop) (jobs : List Job) (w : World) : Prop where
  distinct : (jobs.map (·.id)).Nodup
  each : ∀ job ∈ jobs, P w job

/-- Where `P` holds of a job it still does after the worker has dealt with another one. -/
def Survives (P : World → Job → Prop) : Prop :=
  ∀ w w' id job, SparesOthers id w w' → job.id ≠ id → P w job → P w' job

/-- A loop over a batch takes up each job as it was read. -/
theorem wpOk_batch {P : World → Job → Prop} {f : Job → Operation Unit} {jobs : List Job}
    (hP : Survives P)
    (hrely : ∀ w w' job, Share.worker.terms.rely w w' → P w job → P w' job)
    (hturn : ∀ w job, P w job →
      Share.worker.terms.wpOk (f job) (fun _ w' => SparesOthers job.id w w') w)
    (h : Batch P jobs w) :
    Share.worker.terms.wpOk (forEach f jobs) (fun _ _ => True) w := by
  refine Discipline.wpOk_mono (fun _ _ _ _ => trivial)
    (Discipline.wpOk_forEach (I := Batch P) ?_ ?_ jobs h)
  · exact fun jobs w w' h hb => ⟨hb.distinct, fun job hj => hrely w w' job h (hb.each job hj)⟩
  · intro job rest w _ hb
    obtain ⟨hnot, hrest⟩ := List.nodup_cons.1 (List.map_cons ▸ hb.distinct)
    refine Discipline.wpOk_mono (fun _ w' _ hothers => ⟨hrest, fun k hk => ?_⟩)
      (hturn w job (hb.each job List.mem_cons_self))
    refine hP w w' job.id k hothers ?_ (hb.each k (List.mem_cons_of_mem _ hk))
    rintro heq
    exact hnot (List.mem_map.2 ⟨k, hk, heq⟩)

/-- The worker owns the job in the standing it was read with, and `P` holds of it. -/
def OwnedAsRead (P : Job → Prop) (w : World) (job : Job) : Prop :=
  w.Owned job.id job.standing ∧ P job

theorem survives_ownedAsRead (P : Job → Prop) : Survives (OwnedAsRead P) :=
  fun _ _ _ _ hothers hne h => ⟨hothers.others _ _ hne h.1, h.2⟩

theorem OwnedAsRead.rely {P : Job → Prop} (w w' : World) (job : Job)
    (h : Share.worker.terms.rely w w') (hm : OwnedAsRead P w job) : OwnedAsRead P w' job :=
  ⟨hm.1.rely h, hm.2⟩

theorem wpOk_provisionPhase (config : Config.Orchestrator) :
    Share.worker.terms.wpOk (Cycle.provisionPhase config) (fun _ _ => True) w := by
  refine wpOk_read trivial fun jobs w₁ _ hs₁ hread => ?_
  obtain ⟨hdistinct, hjobs⟩ := Store.Table.next_ok hs₁.table hread
  refine Discipline.wpOk_bind ?_
  refine Discipline.wpOk_mono (fun _ _ _ _ => ?_)
    (wpOk_batch (survives_ownedAsRead (·.state = .initial)) OwnedAsRead.rely
      (fun w job h => provision_sparesOthers h.1 h.2) ⟨hdistinct, fun job hj => ?_⟩)
  · exact wpOk_quiet trivial fun _ _ _ _ => Discipline.wpOk_pure fun _ _ _ => trivial
  · obtain ⟨hstate, htells⟩ := hjobs job hj
    exact ⟨⟨htells.1, .inl hstate⟩, hstate⟩

/-! ## Dispatch -/

/-- The journal says that the job was stored as sent, and not that it was sent. -/
structure AboutToSend (w : World) (id : String) : Prop where
  standing : ∃ st, w.standing? id = some st ∧ st.role = .initiator ∧ st.state.PastSending
  unsent : id ∉ w.sends
  marked : ∃ e ∈ w.journal, e.MarksSent id

theorem AboutToSend.rely (h : AboutToSend w id) (hrely : Share.worker.terms.rely w w') :
    AboutToSend w' id := by
  obtain ⟨st, hst, hrole, hpast⟩ := h.standing
  obtain ⟨st', hst', hleads⟩ := hrely.1 id st hst
  obtain ⟨e, he, hmarks⟩ := h.marked
  refine ⟨⟨st', hst', hleads.role.trans hrole, (hrole ▸ hleads.state).pastSending hpast⟩, ?_,
    e, hrely.2.journal e he, hmarks⟩
  rw [hrely.2.sends]
  exact h.unsent

/-- The call of the peer. -/
theorem sent_once {request : TransferRequest} {r : Except DispatchError Unit} (hs : w.Sound)
    (hready : AboutToSend w id) (h : Answers (.send request id) w r w') :
    w'.Sound ∧ w.Legal w' ∧ w.SparesWriter w' ∧ SparesOthers id w w' := by
  obtain ⟨_, rfl⟩ := h
  have hsends : (w.after (.send request id) r).sends = id :: w.sends := rfl
  refine ⟨⟨hs.table, hs.awaited_nodup, hs.awaited, hs.writing, hs.flows, ?_, ?_, ?_, hs.journal⟩,
    fun _ => .same _, ⟨rfl, fun _ _ _ hst _ => hst⟩, .refl w,
    fun k stk _ hok => ⟨hok.standing, hok.share⟩⟩
  · rw [hsends]
    exact List.nodup_cons.2 ⟨hready.unsent, hs.sends_nodup⟩
  · intro k hk
    rw [hsends] at hk
    rcases List.mem_cons.1 hk with rfl | hk
    · exact hready.standing
    · exact hs.sends k hk
  · rintro k hk
    obtain rfl : id = k := Option.some.inj hk
    exact hready.marked

theorem send_sparesOthers (ho : w.Owned job.id job.standing) (hrole : job.role = .initiator)
    (hready : job.state = .provisioned) :
    Share.worker.terms.wpOk (Cycle.send job) (fun _ w' => SparesOthers job.id w w') w := by
  refine wpOk_quiet trivial fun now w₁ hrely₁ _ => ?_
  refine Discipline.wpOk_move fun sent hsent => ?_
  have hmoved := Job.move_ok hsent
  refine wpOk_update_owned hmoved (ho.rely hrely₁) fun w₂ w₃ hs₂ ho₂ hwrites hothers₃ hs₃ hmem => ?_
  have hothers₃ := (sparesOthers_of_rely hrely₁ job.id).trans hothers₃
  -- the job was provisioned a moment ago, so its request cannot have been sent
  have habout : AboutToSend w₃ job.id := by
    refine ⟨⟨sent.standing, hwrites.standing?_self, hmoved.role.trans hrole, .inl hmoved.state⟩,
      ?_, _, hmem, sent, rfl, hmoved.id, hmoved.role.trans hrole, hmoved.state⟩
    rw [hwrites.sends_eq]
    intro hid
    obtain ⟨st, hst, _, hpast⟩ := hs₂.sends job.id hid
    rw [ho₂.standing] at hst
    cases hst
    simp [Job.standing, hready, JobState.PastSending] at hpast
  refine wpOk_quiet trivial fun _ w₄ hrely₄ _ => ?_
  have hothers₄ := hothers₃.trans (sparesOthers_of_rely hrely₄ job.id)
  refine Discipline.wpOk_ask fun w₅ hrely₅ hs₅ r w₆ hans => ?_
  rw [hmoved.id] at hans
  obtain ⟨hs₆, hlegal, hspares, hothers₆⟩ :=
    sent_once hs₅ ((habout.rely hrely₄).rely hrely₅) hans
  have hothers₆ := (hothers₄.trans (sparesOthers_of_rely hrely₅ job.id)).trans hothers₆
  refine ⟨hs₆, ⟨hlegal, hspares⟩, ?_⟩
  cases r with
  | ok _ =>
      exact Discipline.wpOk_pure fun w' hrely _ => hothers₆.trans (sparesOthers_of_rely hrely _)
  | error e =>
      refine wpOk_quiet trivial fun _ w₇ hrely₇ _ => ?_
      refine wpOk_quiet trivial fun now w₈ hrely₈ _ => ?_
      refine Discipline.wpOk_move fun failed hfailed => ?_
      have hmoved' := Job.failed_ok hfailed
      have hothers₈ :=
        (hothers₆.trans (sparesOthers_of_rely hrely₇ _)).trans (sparesOthers_of_rely hrely₈ _)
      refine wpOk_swap_sparesOthers (hmoved'.id.trans hmoved.id) (by decide) ?_
        fun b w₉ hothers₉ _ => ?_
      · intro _ st _ _ _
        rw [hmoved'.state]
        cases st.role <;> rfl
      · have hothers₉ := hothers₈.trans hothers₉
        cases b with
        | true =>
            exact wpOk_quiet_last trivial fun _ w' hrely _ =>
              hothers₉.trans (sparesOthers_of_rely hrely _)
        | false =>
            exact Discipline.wpOk_pure fun w' hrely _ =>
              hothers₉.trans (sparesOthers_of_rely hrely _)

/-- What the answer of the data flow makes of an executor's job is one move away
from it. -/
theorem afterFlow_ok {limit : Nat} {now : Time.Instant} {outcome : FlowOutcome}
    (hready : job.state = .provisioned) (h : Cycle.afterFlow limit job now outcome = .ok after) :
    after.id = job.id ∧ JobState.canMove job.role .provisioned after.state = true := by
  refine ⟨(Job.same_afterFlow h).1, ?_⟩
  cases outcome with
  | ok =>
      rw [(Job.move_ok h).state, ← hready]
      exact (Job.move_ok h).allowed
  | fatal detail =>
      rw [(Job.failed_ok h).state, ← hready]
      exact (Job.failed_ok h).allowed
  | retry reason =>
      obtain ⟨tried, hretry, ⟨-, hfailed⟩ | ⟨-, rfl⟩⟩ := Job.afterFlow_retry h
      · rw [(Job.failed_ok hfailed).state]
        cases job.role <;> rfl
      · rw [(Job.retry_ok hretry).state, ← hready]
        exact hready ▸ (Job.retry_ok hretry).allowed

/-- The job was read as provisioned. If it is an initiator's it is the worker's
own, and otherwise it has been taken on by an executor that is past provisioning. -/
structure Provisioned (w : World) (job : Job) : Prop where
  state : job.state = .provisioned
  request : job.request.id = job.correlationId
  owned : job.role = .initiator → w.Owned job.id job.standing
  stands : ∃ st, w.standing? job.id = some st ∧ job.standing.Leads st

theorem Provisioned.survives : Survives Provisioned := by
  intro w w' id job hothers hne h
  obtain ⟨st, hst, hleads⟩ := h.stands
  obtain ⟨st', hst', hleads'⟩ := hothers.advances job.id st hst
  exact ⟨h.state, h.request, fun hrole => hothers.others _ _ hne (h.owned hrole),
    st', hst', hleads.trans hleads'⟩

theorem Provisioned.rely (w w' : World) (job : Job) (hrely : Share.worker.terms.rely w w')
    (h : Provisioned w job) : Provisioned w' job := by
  obtain ⟨st, hst, hleads⟩ := h.stands
  obtain ⟨st', hst', hleads'⟩ := hrely.1 job.id st hst
  exact ⟨h.state, h.request, fun hrole => (h.owned hrole).rely hrely,
    st', hst', hleads.trans hleads'⟩

/-- The call that starts a data flow. -/
theorem flow_started {r : FlowOutcome} (hs : w.Sound) (hjob : Provisioned w job)
    (hrole : job.role = .executor) (h : Answers (.startFlow job.request) w r w') :
    w'.Sound ∧ w.Legal w' ∧ w.SparesWriter w' ∧ SparesOthers id w w' := by
  obtain ⟨_, rfl⟩ := h
  match r with
  | .ok =>
      refine ⟨⟨hs.table, hs.awaited_nodup, hs.awaited, hs.writing, ?_, hs.sends_nodup, hs.sends,
        ⟨nofun, hs.journal⟩⟩, fun _ => .same _, ⟨rfl, fun _ _ _ hst _ => hst⟩, .refl w,
        fun k stk _ hok => ⟨hok.standing, hok.share⟩⟩
      intro c hc
      rcases List.mem_cons.1 hc with rfl | hc
      · obtain ⟨st, hst, hleads⟩ := hjob.stands
        refine ⟨job.id, st, hst, hleads.correlationId.trans hjob.request.symm,
          hleads.role.trans hrole, hleads.state.pastProvisioning ?_⟩
        simp [Job.standing, hjob.state, JobState.PastProvisioning]
      · exact hs.flows c hc
  | .retry reason =>
      have hnoted : w.OnlyJournaled (w.after (.startFlow job.request) (.retry reason)) :=
        onlyJournaled_after rfl rfl
      exact ⟨hnoted.sound hs, hnoted.legal, hnoted.sparesWriter, hnoted.sparesOthers id⟩
  | .fatal detail =>
      have hnoted : w.OnlyJournaled (w.after (.startFlow job.request) (.fatal detail)) :=
        onlyJournaled_after rfl rfl
      exact ⟨hnoted.sound hs, hnoted.legal, hnoted.sparesWriter, hnoted.sparesOthers id⟩

theorem execute_sparesOthers (config : Config.Orchestrator) (hjob : Provisioned w job)
    (hrole : job.role = .executor) :
    Share.worker.terms.wpOk (Cycle.execute config job)
      (fun _ w' => SparesOthers job.id w w') w := by
  refine Discipline.wpOk_ask fun w₁ hrely₁ hs₁ outcome w₂ hans => ?_
  obtain ⟨hs₂, hlegal, hspares, hothers₂⟩ := flow_started hs₁ (hjob.rely _ _ _ hrely₁) hrole hans
  have hothers₂ := (sparesOthers_of_rely hrely₁ job.id).trans hothers₂
  refine ⟨hs₂, ⟨hlegal, hspares⟩, ?_⟩
  refine wpOk_quiet trivial fun _ w₃ hrely₃ _ => ?_
  refine wpOk_quiet trivial fun now w₄ hrely₄ _ => wpOk_checkCount fun w₅ hrely₅ => ?_
  refine Discipline.wpOk_move fun after hafter => ?_
  obtain ⟨hid, hmove⟩ := afterFlow_ok hjob.state hafter
  have hothers₅ := ((hothers₂.trans (sparesOthers_of_rely hrely₃ _)).trans
    (sparesOthers_of_rely hrely₄ _)).trans (sparesOthers_of_rely hrely₅ _)
  have hstore : ∀ w₆, SparesOthers job.id w w₆ → Share.worker.terms.wpOk (do
      if ← store (.updateIfState after .provisioned) then countMove after)
      (fun _ w' => SparesOthers job.id w w') w₆ := by
    intro w₆ hothers₆
    refine wpOk_swap_sparesOthers hid (by decide) ?_ fun b w₇ hothers₇ _ => ?_
    · intro w' st hrely hst hstate
      obtain ⟨st₁, hst₁, hleads₁⟩ := hjob.stands
      obtain ⟨st₂, hst₂, hleads₂⟩ := (hothers₆.advances.trans hrely.1) job.id st₁ hst₁
      rw [hst] at hst₂
      cases hst₂
      rw [hleads₂.role, hleads₁.role]
      exact hmove
    · have hothers₇ := hothers₆.trans hothers₇
      match b with
      | true =>
          exact wpOk_quiet_last trivial fun _ w' hrely _ =>
            hothers₇.trans (sparesOthers_of_rely hrely _)
      | false =>
          exact Discipline.wpOk_pure fun w' hrely _ => hothers₇.trans (sparesOthers_of_rely hrely _)
  split
  · refine wpOk_quiet trivial fun _ w₆ hrely₆ _ => ?_
    exact hstore w₆ (hothers₅.trans (sparesOthers_of_rely hrely₆ _))
  · exact hstore w₅ hothers₅

theorem dispatch_sparesOthers (config : Config.Orchestrator) (hjob : Provisioned w job) :
    Share.worker.terms.wpOk (Cycle.dispatch config job)
      (fun _ w' => SparesOthers job.id w w') w := by
  rw [Cycle.dispatch]
  split
  · next hrole => exact send_sparesOthers (hjob.owned hrole) hrole hjob.state
  · next hrole => exact execute_sparesOthers config hjob hrole

theorem wpOk_dispatchPhase (config : Config.Orchestrator) :
    Share.worker.terms.wpOk (Cycle.dispatchPhase config) (fun _ _ => True) w := by
  refine wpOk_read trivial fun jobs w₁ _ hs₁ hread => ?_
  obtain ⟨hdistinct, hjobs⟩ := Store.Table.next_ok hs₁.table hread
  refine Discipline.wpOk_bind ?_
  refine Discipline.wpOk_mono (fun _ _ _ _ => ?_)
    (wpOk_batch Provisioned.survives Provisioned.rely
      (fun w job h => dispatch_sparesOthers config h) ⟨hdistinct, fun job hj => ?_⟩)
  · exact wpOk_quiet trivial fun _ _ _ _ => Discipline.wpOk_pure fun _ _ _ => trivial
  · obtain ⟨hstate, hst, hreq⟩ := hjobs job hj
    exact ⟨hstate, hreq, fun hrole => ⟨hst, .inr (.inr ⟨hrole, .inl hstate⟩)⟩,
      job.standing, hst, .refl _⟩

/-! ## Completion -/

/-- Jobs are asked for one by one and all calls go unnoticed. -/
theorem wpOk_arrived (jobs : List Job) :
    Share.worker.terms.wpOk (Cycle.arrived jobs)
      (fun done w' => done.Sublist jobs ∧ Share.worker.terms.rely w w') w := by
  have hstable : Share.worker.terms.Stable (Share.worker.terms.rely w) :=
    fun _ _ hrely h => Share.worker.terms.rely_trans h hrely
  refine Discipline.wpOk_iff.2 (Discipline.wpOr_arrived hstable (fun job w₁ h₁ => ?_) jobs
    (Share.worker.terms.rely_refl w))
  exact Discipline.wpOk_iff.1 (wpOk_quiet_last trivial fun _ w₂ hrely _ => hstable w₁ w₂ hrely h₁)

theorem complete_sparesOthers (ho : w.Owned job.id job.standing) :
    Share.worker.terms.wpOk (Cycle.complete job) (fun _ w' => SparesOthers job.id w w') w := by
  refine wpOk_quiet trivial fun now w₁ hrely₁ _ => ?_
  refine Discipline.wpOk_move fun done hdone => ?_
  refine wpOk_update_owned (Job.move_ok hdone) (ho.rely hrely₁)
    fun _ w₂ _ _ _ hothers₂ _ _ => ?_
  exact wpOk_quiet_last trivial fun _ w' hrely _ =>
    ((sparesOthers_of_rely hrely₁ _).trans hothers₂).trans (sparesOthers_of_rely hrely _)

theorem wpOk_completionPhase (config : Config.Orchestrator) :
    Share.worker.terms.wpOk (Cycle.completionPhase config) (fun _ _ => True) w := by
  refine wpOk_read trivial fun jobs w₁ _ hs₁ hread => ?_
  obtain ⟨hdistinct, hjobs⟩ := Store.Table.next_ok hs₁.table hread
  dsimp only
  split
  · exact Discipline.wpOk_bind (Discipline.wpOk_throw _)
  · next hmisplaced =>
    have hrole : ∀ job ∈ jobs, job.role = .initiator := by
      simpa using hmisplaced
    refine Discipline.wpOk_bind (Discipline.wpOk_mono (fun done w₂ _ hdone => ?_)
      (wpOk_arrived jobs))
    obtain ⟨hsub, hrely₂⟩ := hdone
    refine Discipline.wpOk_bind ?_
    refine Discipline.wpOk_mono (fun _ _ _ _ => ?_)
      (wpOk_batch (survives_ownedAsRead fun _ => True) OwnedAsRead.rely
        (fun w job h => complete_sparesOthers h.1)
        ⟨hdistinct.sublist (hsub.map _), fun job hj => ⟨?_, trivial⟩⟩)
    · exact wpOk_quiet trivial fun _ _ _ _ => Discipline.wpOk_pure fun _ _ _ => trivial
    · obtain ⟨hstate, hst, -⟩ := hjobs job (hsub.subset hj)
      refine World.Owned.rely ⟨hst, .inr (.inr ⟨?_, .inr hstate⟩)⟩ hrely₂
      exact hrole job (hsub.subset hj)

/-- A cycle keeps to the worker's terms, wherever it begins. -/
theorem wpOk_cycle (config : Config.Orchestrator) :
    Share.worker.terms.wpOk (cycle config) (fun _ _ => True) w := by
  refine Discipline.wpOk_iff.2 (Discipline.preserves_cycle ?_
    (fun _ _ => Discipline.wpOk_iff.1 (wpOk_provisionPhase config))
    (fun _ _ => Discipline.wpOk_iff.1 (wpOk_dispatchPhase config))
    (fun _ _ => Discipline.wpOk_iff.1 (wpOk_completionPhase config)) w trivial)
  exact fun _ _ => Discipline.wpOk_iff.1 (wpOk_quiet_last trivial fun _ _ _ _ => trivial)

end Ferry.Service
