import Ferry.Proofs.Service.Terms

/-!
# The writer and the tasks keep to their terms

The writer overwrites as freely as the worker does, but it takes up a job only
while that job is being provisioned and somebody has reported back on it, and
then the job is the writer's until it has written it.

A task owns nothing. What it writes it writes over the state it has read, so all
it needs to know is that the move from there is one the job may make, and that
in that state the job is nobody's: an executor past provisioning, an initiator
that was sent, or a job that does not exist yet.
-/

namespace Ferry.Service

open Operation World

variable {w w' : World} {job after : Job} {st : Standing} {id : String}

/-! ## The writer -/

/-- The writer has taken up the outcome of a job that waits for it. -/
structure TakenUp (w : World) (id : String) : Prop where
  writing : w.writing = some id
  waits : ∃ st, w.standing? id = some st ∧ st.state = .provisioning

theorem TakenUp.rely (h : TakenUp w id) (hrely : Share.writer.terms.rely w w') :
    TakenUp w' id := by
  obtain ⟨st, hst, hstate⟩ := h.waits
  exact ⟨hrely.2.writing.trans h.writing, st, hrely.2.held id st h.writing hst hstate, hstate⟩

theorem TakenUp.not_owned (h : TakenUp w id) : ¬ w.Owned id st := by
  obtain ⟨st', hst', hstate⟩ := h.waits
  intro ho
  rw [ho.standing] at hst'
  cases hst'
  exact ho.not_writing h.writing hstate

theorem accept_ok {outcome : ProvisionOutcome} {now : Time.Instant}
    (h : job.accept outcome now = .ok after) : ∃ target, job.MovedTo after target := by
  cases outcome with
  | provisioned resources => exact ⟨_, Job.provisioned_ok h⟩
  | failed detail => exact ⟨_, Job.failed_ok h⟩

theorem wpOk_applyResponse (response : ProvisionResponse) (h : TakenUp w response.jobId) :
    Share.writer.terms.wpOk (applyResponse response) (fun _ _ => True) w := by
  refine wpOk_read trivial fun found w₁ hrely₁ hs₁ hread => ?_
  match found with
  | none => exact Discipline.wpOk_throw _
  | some job =>
      obtain ⟨hid, hst, -⟩ := Store.Table.get_some hs₁.table hread
      have htaken₁ := h.rely hrely₁
      have hstate : job.state = .provisioning := by
        obtain ⟨st, hst', hstate⟩ := htaken₁.waits
        rw [← hid] at hst'
        cases hst.symm.trans hst'
        exact hstate
      refine wpOk_quiet trivial fun now w₂ hrely₂ _ => ?_
      refine Discipline.wpOk_move fun after hafter => ?_
      obtain ⟨target, hmoved⟩ := accept_ok hafter
      refine wpOk_update fun w₃ hrely₃ hs₃ st₃ hst₃ => ?_
      have htaken₃ := (htaken₁.rely hrely₂).rely hrely₃
      have hst₃' : w₃.standing? job.id = some job.standing := by
        have hst₂ := hrely₂.2.held job.id job.standing (hid ▸ htaken₁.writing) hst hstate
        exact hrely₃.2.held job.id job.standing
          (hid ▸ (htaken₁.rely hrely₂).writing) hst₂ hstate
      rw [hmoved.id] at hst₃ ⊢
      obtain rfl : job.standing = st₃ := Option.some.inj (hst₃'.symm.trans hst₃)
      rw [hmoved.state]
      rw [← hid] at htaken₃
      refine ⟨.moved hmoved.allowed, (hs₃.writing _ htaken₃.writing).1, fun w₄ hwrites =>
        ⟨hwrites.sparesWorker fun _ => htaken₃.not_owned, fun _ _ => ?_⟩⟩
      refine wpOk_quiet trivial fun _ _ _ _ => ?_
      exact wpOk_quiet_last trivial fun _ _ _ _ => trivial

/-! ## Data flows that have ended -/

/-- An executor past provisioning is not the worker's. -/
theorem not_owned_of_executor (hst : w.standing? id = some st) (hrole : st.role = .executor)
    (hpast : st.state.PastProvisioning) {st' : Standing} : ¬ w.Owned id st' := by
  intro ho
  obtain rfl : st = st' := Option.some.inj (hst.symm.trans ho.standing)
  rcases ho.share with hnew | ⟨hprov, -⟩ | ⟨hinit, -⟩
  · exact hpast.1 hnew
  · exact hpast.2 hprov
  · rw [hrole] at hinit; cases hinit

/-- The job after its data flow is where one write may take it: one move on, or
the two moves through `executing`. -/
theorem ended_ok {failure : Option String} {now : Time.Instant}
    (h : Flow.ended job failure now = .ok after) :
    after.id = job.id ∧
      Standing.Follows (some job.standing) (some (job.standing.inState after.state)) := by
  rw [Flow.ended] at h
  split at h
  · next hready =>
    cases hstart : job.executing now with
    | error e => rw [hstart] at h; cases h
    | ok running =>
        rw [hstart] at h
        have hrunning := Job.move_ok hstart
        have hrole : job.role = .executor := by
          have hallowed := hrunning.allowed
          rw [hready] at hallowed
          simpa [JobState.canMove] using hallowed
        cases failure with
        | none =>
            have hdone : running.MovedTo after .completed := Job.move_ok h
            rw [hdone.state]
            exact ⟨hdone.id.trans hrunning.id, .finished hrole hready⟩
        | some detail =>
            have hfailed : running.MovedTo after .error := Job.failed_ok h
            rw [hfailed.state]
            refine ⟨hfailed.id.trans hrunning.id, .moved ?_⟩
            simp [Job.standing, hready, JobState.canMove, JobState.isTerminal]
  · cases failure with
    | none =>
        have hdone : job.MovedTo after .completed := Job.move_ok h
        rw [hdone.state]
        exact ⟨hdone.id, .moved hdone.allowed⟩
    | some detail =>
        have hfailed : job.MovedTo after .error := Job.failed_ok h
        rw [hfailed.state]
        exact ⟨hfailed.id, .moved hfailed.allowed⟩

theorem launched_rely {c : String} (h : w.Launched c) (hrely : Share.task.terms.rely w w') :
    w'.Launched c :=
  h.advances hrely.1

/-- The job that data was moved for is an executor's, past provisioning. -/
theorem wpOk_load {c : String} (h : w.Launched c) :
    Share.task.terms.wpOk (Flow.load c) (fun job w' => w'.Launched c ∧ job.role = .executor ∧
      job.state.PastProvisioning ∧ ∃ st, w'.standing? job.id = some st ∧ job.standing.Leads st)
      w := by
  refine wpOk_read trivial fun found w₁ hrely₁ hs₁ hread => ?_
  match found with
  | none => exact Discipline.wpOk_throw _
  | some id =>
      obtain ⟨st, hst, hc⟩ := Store.Table.findId_some hs₁.table hread
      obtain ⟨id', st', hst', hc', hrole, hpast⟩ := launched_rely h hrely₁
      obtain rfl := hs₁.table.id_unique hst hst' (hc.trans hc'.symm)
      obtain rfl : st = st' := Option.some.inj (hst.symm.trans hst')
      refine wpOk_read trivial fun found w₂ hrely₂ hs₂ hread => ?_
      match found with
      | none => exact Discipline.wpOk_throw _
      | some job =>
          obtain ⟨rfl, hjob, -⟩ := Store.Table.get_some hs₂.table hread
          obtain ⟨st₂, hst₂, hleads⟩ := hrely₂.1 job.id st hst
          obtain rfl : job.standing = st₂ := Option.some.inj (hjob.symm.trans hst₂)
          refine Discipline.wpOk_pure fun w' hrely _ => ?_
          have hlaunched := launched_rely (launched_rely (launched_rely h hrely₁) hrely₂) hrely
          exact ⟨hlaunched, hleads.role.trans hrole, hleads.state.pastProvisioning hpast,
            hrely.1 job.id job.standing hjob⟩

theorem wpOk_finish {c : String} (failure : Option String) (rounds : Nat) (h : w.Launched c) :
    Share.task.terms.wpOk (Flow.finish c failure rounds) (fun _ _ => True) w := by
  induction rounds generalizing w with
  | zero => exact Discipline.wpOk_pure fun _ _ _ => trivial
  | succ n ih =>
      refine Discipline.wpOk_bind (Discipline.wpOk_mono (fun job w₁ _ hloaded => ?_) (wpOk_load h))
      obtain ⟨hlaunched, hrole, hpast, st₁, hst₁, hleads₁⟩ := hloaded
      split
      · exact Discipline.wpOk_pure fun _ _ _ => trivial
      · refine wpOk_quiet trivial fun now w₂ hrely₂ _ => ?_
        refine Discipline.wpOk_move fun after hafter => ?_
        obtain ⟨hid, hfollows⟩ := ended_ok hafter
        refine wpOk_swap hpast.2 (fun w₃ hrely₃ hs₃ st hst hstate => ?_)
          fun w' hrely _ => ih (launched_rely (launched_rely hlaunched hrely₂) hrely)
        rw [hid] at hst ⊢
        -- nothing but the state could have changed, and the state has not
        obtain rfl : job.standing = st := by
          obtain ⟨st₂, hst₂, hleads₂⟩ := (hrely₂.1.trans hrely₃.1) job.id st₁ hst₁
          obtain rfl : st = st₂ := Option.some.inj (hst.symm.trans hst₂)
          have hleads := hleads₁.trans hleads₂
          cases st
          exact (Standing.mk.injEq ..).mpr
            ⟨hleads.correlationId.symm, hleads.role.symm, hstate.symm⟩
        refine ⟨hfollows, fun w₄ hwrites => ⟨⟨
          hwrites.sparesWorker fun _ => not_owned_of_executor hst hrole hpast,
          hwrites.sparesWriter fun st' hst' _ => ?_⟩, fun _ => ?_⟩⟩
        · obtain rfl : job.standing = st' := Option.some.inj (hst.symm.trans hst')
          exact hpast.2
        · exact wpOk_quiet_last trivial fun _ _ _ _ => trivial

/-! ## Clients and peers -/

theorem wp_acknowledge (id : String) :
    Share.task.terms.wp (Api.acknowledgeTransfer id) (fun _ _ => True) w := by
  refine wp_read trivial fun found w₁ hrely₁ hs₁ hread => ?_
  match found with
  | .error e => exact fun _ _ _ => trivial
  | .ok none => exact fun _ _ _ => trivial
  | .ok (some job) =>
      obtain ⟨rfl, hjob, -⟩ := Store.Table.get_some hs₁.table (hread _ rfl)
      change Share.task.terms.wp
        (if job.role ≠ .initiator || job.state ≠ .sent then _ else _) _ _
      split
      · exact fun _ _ _ => trivial
      · next hsent =>
        have hrole : job.role = .initiator := by
          by_contra hne
          exact hsent (by simp [hne])
        refine wp_quiet (c := .now) trivial fun now w₂ hrely₂ _ => ?_
        simp only [Program.bind]
        cases hafter : job.acknowledged now with
        | error e => exact fun _ _ _ => trivial
        | ok after =>
            have hmoved := Job.move_ok hafter
            refine wp_swap (by decide) (fun w₃ hrely₃ _ st hst hstate => ?_)
              fun r w' _ _ hr => ?_
            · rw [hmoved.id] at hst ⊢
              obtain ⟨st', hst', hleads⟩ := (hrely₂.1.trans hrely₃.1) job.id job.standing hjob
              obtain rfl : st = st' := Option.some.inj (hst.symm.trans hst')
              have hrole' : st.role = .initiator := hleads.role.trans hrole
              rw [hmoved.state]
              refine ⟨.moved (by rw [hstate, hrole']; rfl), fun w₄ hwrites =>
                ⟨⟨?_, ?_⟩, fun _ => ?_⟩⟩
              · refine hwrites.sparesWorker fun st' ho => ?_
                obtain rfl : st = st' := Option.some.inj (hst.symm.trans ho.standing)
                have hshare := ho.share
                simp [hstate] at hshare
              · refine hwrites.sparesWriter fun st' hst' _ hprov => ?_
                obtain rfl : st = st' := Option.some.inj (hst.symm.trans hst')
                simp [hstate] at hprov
              · exact wp_quiet (c := .count _ _) trivial fun _ _ _ _ _ _ _ => trivial
            · cases r with
              | error e => exact fun _ _ _ => trivial
              | ok swapped =>
                  cases swapped with
                  | true => exact absurd rfl hr
                  | false => exact fun _ _ _ => trivial

theorem wpOk_initiate (role : Role) (request : TransferRequest) :
    Share.task.terms.wpOk (initiate role request) (fun _ _ => True) w := by
  rw [initiate]
  split
  · exact Discipline.wpOk_bind (Discipline.wpOk_throw _)
  · refine wpOk_read trivial fun found w₁ _ _ _ => ?_
    match found with
    | some id => exact Discipline.wpOk_pure fun _ _ _ => trivial
    | none =>
        refine wpOk_quiet trivial fun id w₂ _ _ => ?_
        refine wpOk_quiet trivial fun now w₃ _ _ => ?_
        refine Discipline.wpOk_ask fun w₄ _ hs₄ r w₅ hans => ?_
        match r with
        | .ok () =>
            obtain ⟨hnone, hwrites⟩ := Answers.created hs₄ rfl hans
            have hfollows : Standing.Follows (w₄.standing? id)
                (some (Job.new id role request now).standing) := by
              rw [show w₄.standing? id = none from hnone]
              exact .created request.id role
            have hawaited : id ∉ w₄.awaited := by
              intro hid
              obtain ⟨st, hst, _⟩ := hs₄.awaited id hid
              rw [show w₄.standing? id = none from hnone] at hst
              cases hst
            refine ⟨hwrites.sound hs₄ hfollows hawaited, ⟨hwrites.legal hfollows,
              hwrites.sparesWorker fun _ => not_owned_of_none hnone,
              hwrites.sparesWriter fun st' hst' => ?_⟩, ?_⟩
            · rw [hnone] at hst'
              cases hst'
            · refine wpOk_quiet trivial fun _ _ _ _ => ?_
              refine wpOk_quiet trivial fun _ _ _ _ => ?_
              exact Discipline.wpOk_pure fun _ _ _ => trivial
        | .error e =>
            have hnoted := Answers.onlyJournaled_of_error hans
            refine ⟨hnoted.sound hs₄, ⟨hnoted.legal, hnoted.sparesWorker, hnoted.sparesWriter⟩, ?_⟩
            cases e with
            | duplicateCorrelationId c =>
                refine wpOk_read trivial fun found _ _ _ _ => ?_
                match found with
                | some id => exact Discipline.wpOk_pure fun _ _ _ => trivial
                | none => exact Discipline.wpOk_throw _
            | notFound _ | invalidTransition _ _ _ _ | unknownState _ | unknownRole _
            | database _ => exact Discipline.wpOk_throw _

theorem wpOk_receive (inbound : InboundTransfer) :
    Share.task.terms.wpOk (receive inbound) (fun _ _ => True) w := by
  refine Discipline.wpOk_bind (Discipline.wpOk_mono (fun id w₁ _ _ => ?_)
    (wpOk_initiate .executor inbound.request))
  split
  · exact Discipline.wpOk_pure fun _ _ _ => trivial
  · refine wpOk_quiet trivial fun _ _ _ _ => ?_
    exact Discipline.wpOk_pure fun _ _ _ => trivial

end Ferry.Service
