import Ferry.Completion
import Ferry.Orchestrator.Cycle
import Ferry.Proofs.Orchestrator.CycleRules
import Ferry.Proofs.Provision.Responses
import Ferry.Proofs.Service.Worker
import Ferry.Proofs.Store.Queue
import Ferry.Proofs.Store.Reading

/-!
# Which acknowledged jobs are ever asked for

Each cycle asks for the jobs at the front of the queue of acknowledged jobs whether their
data has arrived. A job whose data has not arrived is not written, so it keeps the time of
its last move and with it its place: the front of the queue that is not done is asked for
again and again (`passOver`). As many such jobs as a cycle takes up are enough for all
that stand behind them never to be asked for.

The others may do anything between two calls, also to the same table, but they make no
new acknowledgments and leave the jobs alone that were acknowledged when the cycles began.
-/

namespace Ferry.Inspection

open Operation Store Store.Table

def kept (ids : List Cell) (t : Table) : List Row :=
  t.rows.filter fun r => ids.contains r.id

/-- The reply is the one that all cycles get: the verdict on the job, and that the worker is to
run. Other calls may be answered anyhow. -/
def FixedReply (verdict : Job → Bool) : (q : Request) → q.Reply → Prop
  | .isComplete job, r => r = verdict job
  | .isRunning, r => r = true
  | _, _ => True

/-- Each row with one of the ids is acknowledged or completed, and no other row is
acknowledged. -/
def OnlyAcknowledged (ids : List Cell) (t : Table) : Prop :=
  ∀ r ∈ t.rows, (r.state = .text JobState.acknowledged.name → r.id ∈ ids) ∧
    (r.id ∈ ids → r.state = .text JobState.acknowledged.name ∨
      r.state = .text JobState.completed.name)

/-- The terms on which cycles run. Calls of the store may fail. -/
def terms (verdict : Job → Bool) (ids : List Cell) : Discipline operationSignature Table where
  inv := OnlyAcknowledged ids
  answers
    | .store c, t, r, t' =>
      (r = (c.perform t).1 ∧ t' = (c.perform t).2) ∨ ((∃ e, r = .error e) ∧ t' = t)
    | q, t, r, t' => FixedReply verdict q r ∧ t' = t
  rely t t' := kept ids t' = kept ids t
  guarantee _ _ := True
  rely_refl _ := rfl
  rely_trans h h' := h'.trans h

/-- So many cycles in a row, each of them without an error. -/
inductive Cycles (config : Config.Orchestrator) (verdict : Job → Bool) (ids : List Cell) :
    Nat → Table → Table → Prop where
  | none (t : Table) : Cycles config verdict ids 0 t t
  | next {k : Nat} {t t' t'' : Table} {report : CycleReport}
      (earlier : Cycles config verdict ids k t t')
      (cycle : (terms verdict ids).Runs (cycle config).run t' (.ok report) t'') :
      Cycles config verdict ids (k + 1) t t''

variable {verdict : Job → Bool} {ids : List Cell} {t t' : Table} {j : Job}
  {expected : Option JobState} {β : Type} {Q : β → Table → Prop}

theorem mem_kept {r : Row} : r ∈ kept ids t ↔ r ∈ t.rows ∧ r.id ∈ ids := by
  rw [kept, List.mem_filter, List.contains_iff_mem]

/-! ## What writes leave alone -/

theorem kept_write (ids : List Cell) (t : Table) (j : Job) (expected : Option JobState) :
    kept ids (t.write j expected) = (kept ids t).map fun r =>
      if matchesJob j expected r then r.updatedFrom j else r := by
  rw [kept, Table.write, List.filter_map]
  refine congrArg (List.map _) (List.filter_congr fun r _ => ?_)
  simp only [Function.comp_apply]
  split <;> rfl

theorem OnlyAcknowledged.write (h : OnlyAcknowledged ids t) (hstate : j.state ≠ .acknowledged)
    (hids : ∀ r ∈ t.rows, matchesJob j expected r = true → r.id ∈ ids → j.state = .completed) :
    OnlyAcknowledged ids (t.write j expected) := by
  intro r' hr'
  obtain ⟨r, hr, rfl⟩ := List.mem_map.1 hr'
  split
  · next hmatch =>
    constructor
    · intro hack
      exact absurd (JobState.name_inj (Cell.text.inj hack)) hstate
    · intro hid
      exact .inr (congrArg (fun s => Cell.text (JobState.name s)) (hids r hr hmatch hid))
  · exact h r hr

theorem OnlyAcknowledged.write_other (h : OnlyAcknowledged ids t) (hstate : j.state ≠ .acknowledged)
    (hids : ∀ r ∈ t.rows, matchesJob j expected r = true → r.id ∉ ids) :
    OnlyAcknowledged ids (t.write j expected) ∧ kept ids (t.write j expected) = kept ids t := by
  refine ⟨h.write hstate fun r hr hmatch hid => absurd hid (hids r hr hmatch), ?_⟩
  rw [kept_write]
  refine (List.map_congr_left fun r hr => ?_).trans (List.map_id _)
  obtain ⟨hmem, hid⟩ := mem_kept.1 hr
  rw [if_neg fun hmatch => hids r hmem hmatch hid]
  rfl

theorem OnlyAcknowledged.update (h : OnlyAcknowledged ids t) (hid : .text j.id ∉ ids)
    (hstate : j.state ≠ .acknowledged) :
    OnlyAcknowledged ids ((Call.update j).perform t).2 ∧
      kept ids ((Call.update j).perform t).2 = kept ids t := by
  rw [Call.perform, Table.update]
  split
  · refine h.write_other hstate fun r _ hmatch hmem => hid ?_
    simp only [matchesJob, Bool.and_true, beq_iff_eq] at hmatch
    rwa [← hmatch]
  · exact ⟨h, rfl⟩

theorem OnlyAcknowledged.updateIfState (h : OnlyAcknowledged ids t) {expected : JobState}
    (hstate : j.state ≠ .acknowledged) (hack : expected ≠ .acknowledged)
    (hcompleted : expected ≠ .completed) :
    OnlyAcknowledged ids ((Call.updateIfState j expected).perform t).2 ∧
      kept ids ((Call.updateIfState j expected).perform t).2 = kept ids t := by
  refine h.write_other hstate fun r hr hmatch hmem => ?_
  simp only [matchesJob, Bool.and_eq_true, beq_iff_eq] at hmatch
  rcases (h r hr).2 hmem with hrow | hrow
  · exact hack (JobState.name_inj (Cell.text.inj (hmatch.2.symm.trans hrow)))
  · exact hcompleted (JobState.name_inj (Cell.text.inj (hmatch.2.symm.trans hrow)))

/-! ## Calls -/

theorem wpOk_fixed {q : Request} {g : q.Reply → Operation β}
    (hq : ∀ t r t', (terms verdict ids).answers q t r t' → FixedReply verdict q r ∧ t' = t)
    (h : ∀ r t₁, kept ids t₁ = kept ids t → FixedReply verdict q r →
      (terms verdict ids).wpOk (g r) Q t₁) :
    (terms verdict ids).wpOk (ask q >>= g) Q t := by
  intro t₁ hrely hinv r t₂ hanswers
  obtain ⟨htold, rfl⟩ := hq t₁ r t₂ hanswers
  exact ⟨hinv, trivial, h r t₂ hrely htold⟩

theorem wpOk_called {c : Store.Call} {g : c.Answer → Operation β}
    (h : ∀ t₁, kept ids t₁ = kept ids t → OnlyAcknowledged ids t₁ →
      OnlyAcknowledged ids (c.perform t₁).2 ∧
      ∀ a, (c.perform t₁).1 = .ok a → (terms verdict ids).wpOk (g a) Q (c.perform t₁).2) :
    (terms verdict ids).wpOk (store c >>= g) Q t := by
  refine Discipline.wpOk_store fun t₁ hrely hinv r t₂ hanswers => ?_
  obtain ⟨hinv', hnext⟩ := h t₁ hrely hinv
  rcases hanswers with ⟨rfl, rfl⟩ | ⟨⟨e, rfl⟩, rfl⟩
  · exact ⟨hinv', trivial, hnext⟩
  · exact ⟨hinv, trivial, fun a ha => by cases ha⟩

/-! ## What leaves the jobs alone -/

/-- Unless it fails, the operation leaves the rows with the ids as they were. -/
def Spares {α : Type} (verdict : Job → Bool) (ids : List Cell) (f : Operation α) : Prop :=
  ∀ t, (terms verdict ids).wpOk f (fun _ t' => kept ids t' = kept ids t) t

section Spares

variable {α : Type} {f : Operation α} {g : α → Operation β} {job : Job}

theorem spares_pure (a : α) : Spares verdict ids (pure a : Operation α) :=
  fun _ => Discipline.wpOk_pure fun _ hrely _ => hrely

theorem spares_bind (hf : Spares verdict ids f) (hg : ∀ a, Spares verdict ids (g a)) :
    Spares verdict ids (f >>= g) := by
  intro t
  refine Discipline.wpOk_bind (Discipline.wpOk_mono (fun a t₁ _ h₁ => ?_) (hf t))
  exact Discipline.wpOk_mono (fun _ t₂ _ h₂ => h₂.trans h₁) (hg a t₁)

theorem spares_ask {q : Request}
    (hq : ∀ t r t', (terms verdict ids).answers q t r t' → FixedReply verdict q r ∧ t' = t) :
    Spares verdict ids (ask q) := by
  intro t t₁ hrely hinv r t₂ hanswers
  obtain ⟨-, rfl⟩ := hq t₁ r t₂ hanswers
  exact ⟨hinv, trivial, fun t₃ hrely₃ _ _ _ => hrely₃.trans hrely⟩

theorem spares_count (c : Counter) (n : Nat) : Spares verdict ids (count c n) :=
  spares_ask fun _ _ _ h => h

theorem spares_move {moved : Except JobError Job} {g : Job → Operation β}
    (h : ∀ after, moved = .ok after → Spares verdict ids (g after)) :
    Spares verdict ids (move moved >>= g) :=
  fun t => Discipline.wpOk_move fun after hafter => h after hafter t

theorem spares_store {c : Store.Call}
    (hc : ∀ t, OnlyAcknowledged ids t →
      OnlyAcknowledged ids (c.perform t).2 ∧ kept ids (c.perform t).2 = kept ids t) :
    Spares verdict ids (store c) := by
  intro t t₁ hrely hinv r t₂ hanswers
  rcases hanswers with ⟨rfl, rfl⟩ | ⟨⟨e, rfl⟩, rfl⟩
  · obtain ⟨hinv', hkept⟩ := hc t₁ hinv
    refine ⟨hinv', trivial, ?_⟩
    cases (c.perform t₁).1 with
    | ok a => exact fun t₃ hrely₃ _ _ _ => hrely₃.trans (hkept.trans hrely)
    | error e => exact fun _ _ _ _ ha => by cases ha
  · exact ⟨hinv, trivial, fun _ _ _ _ ha => by cases ha⟩

theorem spares_forEach {f : Job → Operation Unit} {jobs : List Job}
    (h : ∀ job ∈ jobs, Spares verdict ids (f job)) : Spares verdict ids (forEach f jobs) := by
  induction jobs with
  | nil => exact spares_pure ()
  | cons job rest ih =>
      exact spares_bind (h job List.mem_cons_self) fun _ =>
        ih fun job hjob => h job (List.mem_cons_of_mem _ hjob)

/-- A batch of jobs in another state is a batch of other jobs. -/
theorem spares_next {state : JobState} {limit : Nat} {g : List Job → Operation β}
    (hack : state ≠ .acknowledged) (hcompleted : state ≠ .completed)
    (h : ∀ jobs, (∀ job ∈ jobs, .text job.id ∉ ids ∧ job.state = state) →
      Spares verdict ids (g jobs)) :
    Spares verdict ids (store (.next state limit) >>= g) := by
  intro t
  refine wpOk_called fun t₁ hkept halone => ⟨halone, fun jobs hjobs => ?_⟩
  refine Discipline.wpOk_mono (fun _ t₂ _ h₂ => h₂.trans hkept) (h jobs (fun job hjob => ?_) t₁)
  obtain ⟨r, hmem, hstate, hread⟩ := exists_row_of_next hjobs hjob
  have hshows := Row.shows_of_toJob? hread
  constructor
  · intro hid
    rw [← hshows.id] at hid
    rcases (halone r hmem).2 hid with hrow | hrow
    · exact hack (JobState.name_inj (Cell.text.inj (hstate.symm.trans hrow)))
    · exact hcompleted (JobState.name_inj (Cell.text.inj (hstate.symm.trans hrow)))
  · exact JobState.name_inj (Cell.text.inj (hshows.state_eq.symm.trans hstate))

theorem spares_update (hid : .text job.id ∉ ids) (hstate : job.state ≠ .acknowledged) :
    Spares verdict ids (store (.update job)) :=
  spares_store fun _ h => h.update hid hstate

theorem spares_updateIfState {expected : JobState} (hstate : job.state ≠ .acknowledged)
    (hack : expected ≠ .acknowledged) (hcompleted : expected ≠ .completed) :
    Spares verdict ids (store (.updateIfState job expected)) :=
  spares_store fun _ h => h.updateIfState hstate hack hcompleted

/-! ### The other phases -/

theorem spares_provision (hid : .text job.id ∉ ids) :
    Spares verdict ids (Cycle.provision job) := by
  refine spares_bind (spares_ask fun _ _ _ h => h) fun definitionId => ?_
  refine spares_bind (spares_ask fun _ _ _ h => h) fun now => ?_
  refine spares_move fun begun hbegun => ?_
  have hmoved := Job.provision_ok hbegun
  refine spares_bind (spares_update (by rwa [hmoved.id]) (by rw [hmoved.state]; decide)) fun _ => ?_
  refine spares_bind (spares_count _ _) fun _ => ?_
  refine spares_bind (spares_ask fun _ _ _ h => h) fun r => ?_
  match r with
  | .ok () => exact spares_pure ()
  | .error e =>
      refine spares_bind (spares_ask fun _ _ _ h => h) fun now => ?_
      refine spares_move fun after hafter => ?_
      have hfailed := Job.failed_ok hafter
      refine spares_bind (spares_update (by rwa [hfailed.id, hmoved.id])
        (by rw [hfailed.state]; decide)) fun _ => ?_
      exact spares_bind (spares_count _ _) fun _ => spares_count _ _

theorem spares_provisionPhase (config : Config.Orchestrator) :
    Spares verdict ids (Cycle.provisionPhase config) := by
  refine spares_next (by decide) (by decide) fun jobs hjobs => ?_
  refine spares_bind (spares_forEach fun job hjob => spares_provision (hjobs job hjob).1)
    fun _ => ?_
  exact spares_bind (spares_count _ _) fun _ => spares_pure _

theorem spares_countIf {hit : Bool} :
    Spares verdict ids (if hit then countMove job else pure ()) := by
  split
  · exact spares_count _ _
  · exact spares_pure ()

theorem spares_send (hid : .text job.id ∉ ids) : Spares verdict ids (Cycle.send job) := by
  refine spares_bind (spares_ask fun _ _ _ h => h) fun now => ?_
  refine spares_move fun sent hsent => ?_
  have hmoved := Job.move_ok hsent
  refine spares_bind (spares_update (by rwa [hmoved.id]) (by rw [hmoved.state]; decide)) fun _ => ?_
  refine spares_bind (spares_count _ _) fun _ => ?_
  refine spares_bind (spares_ask fun _ _ _ h => h) fun r => ?_
  match r with
  | .ok () => exact spares_pure ()
  | .error e =>
      refine spares_bind (spares_count _ _) fun _ => ?_
      refine spares_bind (spares_ask fun _ _ _ h => h) fun now => ?_
      refine spares_move fun after hafter => ?_
      have hfailed := Job.failed_ok hafter
      exact spares_bind (spares_updateIfState (by rw [hfailed.state]; decide) (by decide)
        (by decide)) fun _ => spares_countIf

theorem spares_checkCount (job : Job) (outcome : FlowOutcome) :
    Spares verdict ids (Cycle.checkCount job outcome) := by
  rw [Cycle.checkCount]
  split
  · exact spares_ask fun _ _ _ h => h
  · exact spares_pure ()

theorem spares_execute (config : Config.Orchestrator) (hstate : job.state = .provisioned) :
    Spares verdict ids (Cycle.execute config job) := by
  refine spares_bind (spares_ask fun _ _ _ h => h) fun outcome => ?_
  refine spares_bind (spares_count _ _) fun _ => ?_
  refine spares_bind (spares_ask fun _ _ _ h => h) fun now => ?_
  refine spares_bind (spares_checkCount job outcome) fun _ => ?_
  refine spares_move fun after hafter => ?_
  have hack : after.state ≠ .acknowledged := by
    intro heq
    have hmove := (Service.afterFlow_ok hstate hafter).2
    rw [heq] at hmove
    cases hmove
  have hstore : Spares verdict ids (store (.updateIfState after .provisioned) >>= fun hit =>
      if hit then countMove after else pure ()) :=
    spares_bind (spares_updateIfState hack (by decide) (by decide)) fun _ => spares_countIf
  split
  · exact spares_bind (spares_count _ _) fun _ => hstore
  · exact hstore

theorem spares_dispatchPhase (config : Config.Orchestrator) :
    Spares verdict ids (Cycle.dispatchPhase config) := by
  refine spares_next (by decide) (by decide) fun jobs hjobs => ?_
  refine spares_bind (spares_forEach fun job hjob => ?_) fun _ => ?_
  · rw [Cycle.dispatch]
    split
    · exact spares_send (hjobs job hjob).1
    · exact spares_execute config (hjobs job hjob).2
  · exact spares_bind (spares_count _ _) fun _ => spares_pure _

end Spares

/-! ## One cycle -/

/-- The verdict on the job in a row. -/
def arrived (verdict : Job → Bool) (r : Row) : Bool :=
  match r.toJob? with
  | some job => verdict job
  | none => false

/-- What has become of a row, if jobs with the first ids are to be completed and those
with the second ids are still to come. -/
structure Touched (closed left : List Cell) (r r' : Row) : Prop where
  id : r'.id = r.id
  others : r.id ∉ closed → r' = r
  closed : r.id ∈ closed → r.id ∉ left → r'.state = .text JobState.completed.name

theorem wpOk_arrived (jobs : List Job) (t : Table) :
    (terms verdict ids).wpOk (Cycle.arrived jobs)
      (fun done t' => done = jobs.filter verdict ∧ kept ids t' = kept ids t) t := by
  induction jobs generalizing t with
  | nil => exact Discipline.wpOk_pure fun _ hrely _ => ⟨rfl, hrely⟩
  | cons job rest ih =>
      refine wpOk_fixed (fun _ _ _ h => h) fun complete t₁ h₁ htold => ?_
      refine Discipline.wpOk_bind (Discipline.wpOk_mono (fun more t₂ _ hmore => ?_) (ih t₁))
      obtain ⟨rfl, h₂⟩ := hmore
      refine Discipline.wpOk_pure fun t₃ hrely _ => ⟨?_, hrely.trans (h₂.trans h₁)⟩
      have hverdict : complete = verdict job := htold
      rw [List.filter_cons, hverdict]

theorem wpOk_complete {closed : List Cell} {rows : List Row} {job : Job} {rest : List Job}
    (hjob : .text job.id ∈ closed) (h : List.Forall₂
      (Touched closed ((job :: rest).map fun j => .text j.id)) rows (kept ids t)) :
    (terms verdict ids).wpOk (Cycle.complete job) (fun _ t' => List.Forall₂
      (Touched closed (rest.map fun j => .text j.id)) rows (kept ids t')) t := by
  refine wpOk_fixed (fun _ _ _ h => h) fun now t₁ h₁ _ => ?_
  refine Discipline.wpOk_move fun after hafter => ?_
  have hmoved := Job.move_ok hafter
  rw [← h₁] at h
  refine wpOk_called fun t₂ h₂ halone₂ => ?_
  rw [← h₂] at h
  have halone : OnlyAcknowledged ids ((Call.update after).perform t₂).2 := by
    rw [Call.perform, Table.update]
    split
    · exact halone₂.write (by rw [hmoved.state]; decide) fun _ _ _ _ => hmoved.state
    · exact halone₂
  refine ⟨halone, fun _ hok => ?_⟩
  have hdone : List.Forall₂ (Touched closed (rest.map fun j => .text j.id)) rows
      (kept ids ((Call.update after).perform t₂).2) := by
    rw [Call.perform, Table.update] at hok ⊢
    split at hok
    · next hhit =>
      rw [if_pos hhit]
      show List.Forall₂ _ rows (kept ids (t₂.write after none))
      rw [kept_write, List.forall₂_map_right_iff]
      refine h.imp fun r r' htouched => ?_
      by_cases hid : r'.id = .text after.id
      · rw [if_pos (by simp [matchesJob, hid])]
        have hrow : r.id = .text job.id := by rw [← htouched.id, hid, hmoved.id]
        refine ⟨htouched.id, fun hnot => absurd (hrow ▸ hjob) hnot, fun _ _ => ?_⟩
        show Cell.text after.state.name = _
        rw [hmoved.state]
      · rw [if_neg (by simp [matchesJob, hid])]
        refine ⟨htouched.id, htouched.others, fun hclosed hleft => htouched.closed hclosed ?_⟩
        rw [List.map_cons, List.mem_cons, not_or]
        refine ⟨fun heq => hid ?_, hleft⟩
        rw [htouched.id, heq, hmoved.id]
    · cases hok
  refine Discipline.wpOk_mono (fun _ t₃ _ h₃ => ?_)
    (spares_count (.stateTransitions after.state) 1 ((Call.update after).perform t₂).2)
  rwa [h₃]

/-- The acknowledged jobs, the one that waits longest first. -/
theorem queue_eq (h : OnlyAcknowledged ids t) : t.queue .acknowledged =
    inTurn ((kept ids t).filter fun r => r.state == .text JobState.acknowledged.name) := by
  rw [queue, kept, List.filter_filter]
  refine congrArg inTurn (List.filter_congr fun r hr => ?_)
  rw [Bool.eq_iff_iff, Bool.and_eq_true, beq_iff_eq]
  exact ⟨fun hack => ⟨hack, List.contains_iff_mem.2 ((h r hr).1 hack)⟩, fun hboth => hboth.1⟩

/-- The rows whose jobs a cycle completes. -/
def batch (verdict : Job → Bool) (config : Config.Orchestrator) (rows : List Row) : List Row :=
  ((inTurn (rows.filter fun r => r.state == .text JobState.acknowledged.name)).take
    (min config.batchSize maxLimit)).filter (arrived verdict)

theorem ids_of_read (verdict : Job → Bool) {rows : List Row} {jobs : List Job}
    (h : List.Forall₂ (fun r j => Row.toJob? r = some j) rows jobs) :
    (jobs.filter verdict).map (fun j => Cell.text j.id) =
      (rows.filter (arrived verdict)).map (·.id) := by
  induction h with
  | nil => rfl
  | @cons r j rows jobs hread _ ih =>
      have hverdict : arrived verdict r = verdict j := by rw [arrived, hread]
      rw [List.filter_cons, List.filter_cons, hverdict]
      split
      · rw [List.map_cons, List.map_cons, ih, (Row.shows_of_toJob? hread).id]
      · exact ih

theorem wpOk_completionPhase (config : Config.Orchestrator) {rows : List Row}
    (h : kept ids t = rows) :
    (terms verdict ids).wpOk (Cycle.completionPhase config) (fun _ t' =>
      List.Forall₂ (Touched ((batch verdict config rows).map (·.id)) []) rows (kept ids t')) t := by
  refine wpOk_called fun t₁ h₁ halone => ⟨halone, fun jobs hjobs => ?_⟩
  have hids := ids_of_read verdict (next_rows hjobs)
  rw [queue_eq halone, h₁, h] at hids
  dsimp only
  split
  · exact Discipline.wpOk_bind (Discipline.wpOk_throw _)
  · refine Discipline.wpOk_bind (Discipline.wpOk_mono (fun done t₂ _ hdone => ?_)
      (wpOk_arrived jobs t₁))
    obtain ⟨rfl, h₂⟩ := hdone
    have hbegin : List.Forall₂ (Touched ((batch verdict config rows).map (·.id))
        ((jobs.filter verdict).map fun j => .text j.id)) rows (kept ids t₂) := by
      rw [h₂, h₁, h, List.forall₂_same]
      intro r _
      refine ⟨rfl, fun _ => rfl, fun hclosed hleft => absurd ?_ hleft⟩
      rwa [hids]
    refine Discipline.wpOk_bind (Discipline.wpOk_mono (fun _ t₃ _ hend => ?_)
      (Discipline.wpOk_forEach (I := fun left t' => left ⊆ jobs.filter verdict ∧ List.Forall₂
        (Touched ((batch verdict config rows).map (·.id)) (left.map fun j => .text j.id)) rows
        (kept ids t')) ?_ ?_ (jobs.filter verdict) ⟨List.Subset.refl _, hbegin⟩))
    · refine Discipline.wpOk_bind (Discipline.wpOk_mono (fun _ t₄ _ h₄ => ?_)
        (spares_count (.jobsProcessed .completion) jobs.length t₃))
      refine Discipline.wpOk_pure fun t₅ hrely _ => ?_
      rw [hrely, h₄]
      exact hend.2
    · intro left t₃ t₄ hrely hI
      rwa [hrely]
    · intro job left t₃ _ hI
      have hjob : Cell.text job.id ∈ (batch verdict config rows).map (·.id) := by
        rw [batch, ← hids]
        exact List.mem_map_of_mem (hI.1 List.mem_cons_self)
      have hleft : left ⊆ jobs.filter verdict := fun _ hmem => hI.1 (List.mem_cons_of_mem _ hmem)
      exact Discipline.wpOk_mono (fun _ _ _ h₄ => ⟨hleft, h₄⟩) (wpOk_complete hjob hI.2)

theorem wpOk_cycle (config : Config.Orchestrator) {rows : List Row} (h : kept ids t = rows) :
    (terms verdict ids).wpOk (cycle config) (fun _ t' =>
      List.Forall₂ (Touched ((batch verdict config rows).map (·.id)) []) rows (kept ids t')) t := by
  have hspared : ∀ {f : Operation Nat}, Spares verdict ids f → ∀ t, kept ids t = rows →
      (terms verdict ids).wpOr (fun _ _ => True) f (fun _ t' => kept ids t' = rows) t :=
    fun hf t h => Discipline.wpOk_iff.1 (Discipline.wpOk_mono (fun _ _ _ h' => h'.trans h) (hf t))
  have hflag : ∀ {Q : Table → Prop} t, kept ids t = rows → (terms verdict ids).wpOr
      (fun _ _ => True) (ask .isRunning) (fun goOn t' => kept ids t' = rows ∧
        (goOn = false → Q t')) t := by
    rintro Q t h t₁ hrely hinv goOn t₂ ⟨hgoOn, rfl⟩
    obtain rfl : goOn = true := hgoOn
    exact ⟨hinv, trivial, fun t₃ hrely' _ => ⟨hrely'.trans (hrely.trans h), nofun⟩⟩
  exact Discipline.wpOk_iff.2 (Discipline.wpOr_cycle hflag hflag
    (hspared (spares_provisionPhase config) t h) (hspared (spares_dispatchPhase config))
    fun _ h' => Discipline.wpOk_iff.1 (wpOk_completionPhase config h'))

/-! ## Any number of cycles -/

theorem filter_touched {closed : List Cell} {rows rows' : List Row}
    (h : List.Forall₂ (Touched closed []) rows rows') :
    rows'.filter (fun r => r.state == .text JobState.acknowledged.name) =
      (rows.filter fun r => r.state == .text JobState.acknowledged.name).filter
        fun r => !closed.contains r.id := by
  rw [List.filter_filter]
  induction h with
  | nil => rfl
  | @cons r r' rows rows' htouched _ ih =>
      by_cases hclosed : r.id ∈ closed
      · have hstate := htouched.closed hclosed List.not_mem_nil
        rw [List.filter_cons_of_neg (by rw [hstate]; decide), ih,
          List.filter_cons_of_neg (by simp [hclosed])]
      · rw [htouched.others hclosed, List.filter_cons, List.filter_cons, ih]
        simp [hclosed]

theorem filter_closed {q : List Row} (hq : (q.map (·.id)).Nodup) (n : Nat) (done : Row → Bool) :
    q.filter (fun r => !(((q.take n).filter done).map (·.id)).contains r.id) =
      passOver n done q := by
  have hids : ∀ r ∈ q, r.id ∈ ((q.take n).filter done).map (·.id) ↔
      r ∈ q.take n ∧ done r = true := by
    intro r hr
    rw [List.mem_map]
    constructor
    · rintro ⟨r', hr', hid⟩
      have hmem := (List.mem_filter.1 hr')
      rw [← List.inj_on_of_nodup_map hq (List.mem_of_mem_take hmem.1) hr hid]
      exact hmem
    · intro hmem
      exact ⟨r, List.mem_filter.2 hmem, rfl⟩
  generalize ((q.take n).filter done).map (·.id) = closed at hids ⊢
  have hdisjoint := List.disjoint_take_drop (List.Nodup.of_map _ hq) (Nat.le_refl n)
  conv_lhs => rw [← List.take_append_drop n q]
  rw [List.filter_append, passOver]
  congr 1
  · refine List.filter_congr fun r hr => congrArg not ?_
    rw [Bool.eq_iff_iff, List.contains_iff_mem, hids r (List.mem_of_mem_take hr)]
    exact ⟨fun h => h.2, fun h => ⟨hr, h⟩⟩
  · refine List.filter_eq_self.2 fun r hr => ?_
    have hnot : r.id ∉ closed := fun hmem =>
      hdisjoint ((hids r (List.mem_of_mem_drop hr)).1 hmem).1 hr
    simpa using hnot

/-- The jobs after any number of cycles, and the queue of those still waiting. -/
structure Passed (config : Config.Orchestrator) (verdict : Job → Bool) (k : Nat)
    (rows : List Row) (q : List Row) (rows' : List Row) (q' : List Row) : Prop where
  rows : List.Forall₂ (fun r r' : Row => r'.id = r.id ∧
    (r' = r ∨ r'.state = .text JobState.completed.name)) rows rows'
  queue : q' = (passOver (min config.batchSize maxLimit) (arrived verdict))^[k] q

theorem forall₂_trans {α : Type} {R S T : α → α → Prop} {l₁ l₂ l₃ : List α}
    (hRST : ∀ a b c, R a b → S b c → T a c) (h : List.Forall₂ R l₁ l₂)
    (h' : List.Forall₂ S l₂ l₃) : List.Forall₂ T l₁ l₃ := by
  induction h generalizing l₃ with
  | nil =>
      cases h'
      exact .nil
  | cons hab _ ih =>
      cases h' with
      | cons hbc htail => exact .cons (hRST _ _ _ hab hbc) (ih htail)

theorem Passed.map_id {config : Config.Orchestrator} {k : Nat} {rows q rows' q' : List Row}
    (h : Passed config verdict k rows q rows' q') : rows'.map (·.id) = rows.map (·.id) := by
  refine List.forall₂_eq_eq_eq ▸ ?_
  rw [List.forall₂_map_left_iff, List.forall₂_map_right_iff]
  exact h.rows.flip.imp fun _ _ hrow => hrow.1

theorem nodup_queue (halone : OnlyAcknowledged ids t) (hids : ((kept ids t).map (·.id)).Nodup) :
    ((t.queue .acknowledged).map (·.id)).Nodup := by
  rw [queue_eq halone, inTurn]
  exact ((List.mergeSort_perm _ _).map _).nodup_iff.2 (hids.sublist (List.filter_sublist.map _))

theorem passed_cycles {config : Config.Orchestrator} {k : Nat} (halone : OnlyAcknowledged ids t)
    (hids : ((kept ids t).map (·.id)).Nodup) (h : Cycles config verdict ids k t t') :
    OnlyAcknowledged ids t' ∧
      Passed config verdict k (kept ids t) (t.queue .acknowledged) (kept ids t')
      (t'.queue .acknowledged) := by
  induction h with
  | none t => exact ⟨halone, List.forall₂_same.2 fun r _ => ⟨rfl, .inl rfl⟩, rfl⟩
  | @next k t t' t'' report _ hcycle ih =>
      obtain ⟨halone', hpassed⟩ := ih halone hids
      obtain ⟨halone'', htouched⟩ := hcycle.of_wp (wpOk_cycle config rfl)
      have htouched := htouched report rfl
      refine ⟨halone'', forall₂_trans (fun r r' r'' hrow htouch => ?_) hpassed.rows htouched, ?_⟩
      · refine ⟨htouch.id.trans hrow.1, ?_⟩
        by_cases hclosed : r'.id ∈ (batch verdict config (kept ids t')).map (·.id)
        · exact .inr (htouch.closed hclosed List.not_mem_nil)
        · rw [htouch.others hclosed]
          exact hrow.2
      · have hnodup := nodup_queue halone' (hpassed.map_id.symm ▸ hids)
        rw [queue_eq halone'', filter_touched htouched, ← filter_inTurn,
          Function.iterate_succ_apply', ← hpassed.queue]
        rw [queue_eq halone'] at hnodup ⊢
        exact filter_closed hnodup _ _

/-! ## Who is completed -/

/-- No two rows have the same id. -/
def Keyed (t : Table) : Prop :=
  (t.rows.filterMap fun r => r.id.text?).Nodup

def Completed (t : Table) (r : Row) : Prop :=
  ∃ r' ∈ t.rows, r'.id = r.id ∧ r'.state = .text JobState.completed.name

/-- After so many cycles the queue of acknowledged jobs is what is left when each cycle passes
over its batch, those no longer in it have been completed, and a complete job is completed once the
cycles have come to it. -/
structure InTurn (config : Config.Orchestrator) (verdict : Job → Bool) (k : Nat)
    (t t' : Table) : Prop where
  queue : t'.queue .acknowledged =
    (passOver (min config.batchSize maxLimit) (arrived verdict))^[k] (t.queue .acknowledged)
  completed : ∀ r ∈ t.queue .acknowledged, Completed t' r ↔ r ∉ t'.queue .acknowledged
  /-- Jobs that are not done stand before this one, but fewer than a cycle takes up. -/
  soon : ∀ before r after, t.queue .acknowledged = before ++ r :: after → arrived verdict r = true →
    before.length < k * (min config.batchSize maxLimit -
      before.countP fun r => !arrived verdict r) → Completed t' r
  /-- All jobs that stand before this one are done, and the cycles could take up the whole
  queue. -/
  inTime : ∀ before r after, t.queue .acknowledged = before ++ r :: after →
    (∀ r' ∈ before, arrived verdict r' = true) → arrived verdict r = true →
    (t.queue .acknowledged).length ≤ k * min config.batchSize maxLimit → Completed t' r
  /-- As many jobs that are not done stand before this one as a cycle takes up. -/
  never : ∀ before r after, t.queue .acknowledged = before ++ r :: after →
    min config.batchSize maxLimit ≤ (before.countP fun r => !arrived verdict r) →
    r ∈ t'.queue .acknowledged

section Passing

variable {config : Config.Orchestrator} {k : Nat} {q q' : List Row} {r : Row}

/-- A job that was acknowledged has been completed if and only if it is not in the queue. -/
theorem Passed.completed_iff (h : Passed config verdict k (kept ids t) q (kept ids t') q')
    (hids : ((kept ids t').map (·.id)).Nodup) (hr : r ∈ t.queue .acknowledged)
    (hid : r.id ∈ ids) : Completed t' r ↔ r ∉ t'.queue .acknowledged := by
  obtain ⟨hrow, hack⟩ := mem_queue.1 hr
  constructor
  · rintro ⟨r', hr', hsame, hdone⟩ hwaits
    have hmem : r ∈ kept ids t' := mem_kept.2 ⟨(mem_queue.1 hwaits).1, hid⟩
    have hmem' : r' ∈ kept ids t' := mem_kept.2 ⟨hr', hsame ▸ hid⟩
    rw [List.inj_on_of_nodup_map hids hmem' hmem hsame, hack] at hdone
    exact absurd hdone (by decide)
  · intro hgone
    obtain ⟨n, hn, hget⟩ := List.getElem_of_mem (mem_kept.2 ⟨hrow, hid⟩)
    have hn' : n < (kept ids t').length := h.rows.length_eq ▸ hn
    have hpair := h.rows.get hn hn'
    rw [List.get_eq_getElem, List.get_eq_getElem, hget] at hpair
    have hmem := (mem_kept.1 (List.getElem_mem hn')).1
    refine ⟨_, hmem, hpair.1, hpair.2.resolve_left fun heq => hgone ?_⟩
    exact mem_queue.2 ⟨heq ▸ hmem, hack⟩

theorem Passed.not_mem_queue {rows rows' before after : List Row}
    (h : Passed config verdict k rows q rows' q') (hnodup : q.Nodup)
    (hq : q = before ++ r :: after) (hdone : arrived verdict r = true)
    (hlt : before.length < k * (min config.batchSize maxLimit -
      before.countP fun r => !arrived verdict r)) : r ∉ q' := by
  rw [hq] at hnodup
  rw [h.queue, hq]
  refine not_mem_iterate_passOver hdone ?_ ?_ hlt
  · exact fun hmem => (List.nodup_append.1 hnodup).2.2 r hmem r List.mem_cons_self rfl
  · exact (List.nodup_cons.1 (List.nodup_append.1 hnodup).2.1).1

end Passing

/-- The ids of the acknowledged jobs. -/
def waiting (t : Table) : List Cell :=
  (t.queue .acknowledged).map (·.id)

theorem Keyed.countP_le (h : Keyed t) (id : String) :
    t.rows.countP (fun r => r.id == .text id) ≤ 1 := by
  have hcount := List.nodup_iff_count_le_one.1 h id
  rw [List.count_filterMap] at hcount
  refine (List.countP_mono_left fun r _ hr => ?_).trans hcount
  rw [beq_iff_eq] at hr
  rw [hr]
  exact beq_self_eq_true _

/-- The acknowledged rows hold jobs. -/
def Readable (t : Table) : Prop :=
  ∀ r ∈ t.queue .acknowledged, ∃ job, r.toJob? = some job

theorem Keyed.nodup_waiting (h : Keyed t) (hjobs : Readable t) :
    ((kept (waiting t) t).map (·.id)).Nodup := by
  rw [List.nodup_iff_count_le_one]
  intro id
  by_cases hmem : id ∈ (kept (waiting t) t).map (·.id)
  · obtain ⟨r, hr, rfl⟩ := List.mem_map.1 hmem
    obtain ⟨r₀, hr₀, hid⟩ := List.mem_map.1 (mem_kept.1 hr).2
    obtain ⟨job, hjob⟩ := hjobs r₀ hr₀
    rw [← hid, (Row.shows_of_toJob? hjob).id, List.count, List.countP_map]
    exact List.filter_sublist.countP_le.trans (h.countP_le job.id)
  · rw [List.count_eq_zero_of_not_mem hmem]
    exact Nat.zero_le 1

theorem onlyAcknowledged_waiting (hids : ((kept (waiting t) t).map (·.id)).Nodup) :
    OnlyAcknowledged (waiting t) t := by
  intro r hr
  constructor
  · intro hack
    exact List.mem_map_of_mem (mem_queue.2 ⟨hr, hack⟩)
  · intro hid
    obtain ⟨r₀, hr₀, heq⟩ := List.mem_map.1 hid
    obtain ⟨hrow, hack⟩ := mem_queue.1 hr₀
    have hmem₀ : r₀ ∈ kept (waiting t) t := mem_kept.2 ⟨hrow, List.mem_map_of_mem hr₀⟩
    rw [List.inj_on_of_nodup_map hids (mem_kept.2 ⟨hr, hid⟩) hmem₀ heq.symm]
    exact .inl hack

/-- What becomes of the acknowledged jobs is decided by the order in which they stand. -/
theorem completed_in_turn (config : Config.Orchestrator) (verdict : Job → Bool) {k : Nat}
    {t t' : Table} (hkeyed : Keyed t)
    (hjobs : Readable t) (hcycles : Cycles config verdict (waiting t) k t t') :
    InTurn config verdict k t t' := by
  have hids := hkeyed.nodup_waiting hjobs
  have halone := onlyAcknowledged_waiting hids
  obtain ⟨-, hpassed⟩ := passed_cycles halone hids hcycles
  have hcompleted : ∀ r ∈ t.queue .acknowledged,
      Completed t' r ↔ r ∉ t'.queue .acknowledged := fun r hr =>
    hpassed.completed_iff (hpassed.map_id.symm ▸ hids) hr (List.mem_map_of_mem hr)
  have hsoon : ∀ before r after, t.queue .acknowledged = before ++ r :: after →
      arrived verdict r = true → before.length < k * (min config.batchSize maxLimit -
        before.countP fun r => !arrived verdict r) → Completed t' r := by
    intro before r after hq hdone hlt
    have hr : r ∈ t.queue .acknowledged := by
      rw [hq]
      exact List.mem_append_right _ List.mem_cons_self
    have hnodup := List.Nodup.of_map _ (nodup_queue halone hids)
    exact (hcompleted r hr).2 (hpassed.not_mem_queue hnodup hq hdone hlt)
  constructor
  case queue => exact hpassed.queue
  case completed => exact hcompleted
  case soon => exact hsoon
  case inTime =>
    intro before r after hq hbefore hdone hlength
    refine hsoon before r after hq hdone ?_
    have hnone : (before.countP fun r => !arrived verdict r) = 0 :=
      List.countP_eq_zero.2 fun r' hr' => by simp [hbefore r' hr']
    rw [hq, List.length_append, List.length_cons] at hlength
    rw [hnone, Nat.sub_zero]
    omega
  case never =>
    intro before r after hq hle
    rw [hpassed.queue, hq, iterate_passOver_append hle]
    exact List.mem_append_right _ List.mem_cons_self

/-! ### A transfer whose data never arrives -/

/-- A world in which nobody but the worker is at work. -/
def reply (verdict : Job → Bool) : (c : Request) → Table → c.Reply × Table
  | .isComplete job, t => (verdict job, t)
  | c, t => Handoff.reply .epoch c t

def carryOut (config : Config.Orchestrator) (verdict : Job → Bool) (t : Table) :
    Except OrchestratorError CycleReport × Table :=
  Program.run (S := operationSignature) (reply verdict) (cycle config).run t

theorem Cycles.carryOut {config : Config.Orchestrator} {k : Nat} {t₀ : Table}
    {report : CycleReport} (h : Cycles config verdict ids k t₀ t) (halone : OnlyAcknowledged ids t)
    (hreport : (carryOut config verdict t).1 = .ok report) :
    Cycles config verdict ids (k + 1) t₀ (Inspection.carryOut config verdict t).2 := by
  have hcycle : (terms verdict ids).Runs (cycle config).run t (.ok report)
      (Inspection.carryOut config verdict t).2 := by
    rw [← hreport]
    refine Discipline.runs_alone (fun c s => ?_) halone (wpOk_cycle config rfl)
    cases c with
    | store c => exact .inl ⟨rfl, rfl⟩
    | isComplete job => exact ⟨rfl, rfl⟩
    | isRunning => exact ⟨rfl, rfl⟩
    | _ => exact ⟨trivial, rfl⟩
  exact .next h hcycle

/-- A cycle that has no job to hand on. -/
theorem carryOut_idle {config : Config.Orchestrator}
    (hinitial : t.next .initial config.batchSize = .ok [])
    (hprovisioned : t.next .provisioned config.batchSize = .ok []) :
    carryOut config verdict t = Program.run (S := operationSignature) (reply verdict)
      (Cycle.completionPhase config >>= fun n => pure ⟨0, 0, n⟩ : Operation CycleReport).run t := by
  obtain ⟨counted, goOn, handOn, counted', goOn', inspect, hcycle, hcounted, hgoOn, hhandOn,
      hcounted', hgoOn', hinspect⟩ : ∃ counted goOn handOn counted' goOn' inspect,
      (cycle config).run = .call (.store (.next .initial config.batchSize)) counted ∧
      counted (.ok []) = .call (.count (.jobsProcessed .provisioning) 0) goOn ∧
      goOn () = .call .isRunning handOn ∧
      handOn true = .call (.store (.next .provisioned config.batchSize)) counted' ∧
      counted' (.ok []) = .call (.count (.jobsProcessed .dispatch) 0) goOn' ∧
      goOn' () = .call .isRunning inspect ∧
      inspect true = (Cycle.completionPhase config >>= fun n => pure ⟨0, 0, n⟩ :
        Operation CycleReport).run :=
    ⟨_, _, _, _, _, _, rfl, rfl, rfl, rfl, rfl, rfl, rfl⟩
  simp only [carryOut, hcycle, Program.run, reply, Handoff.reply, Call.perform, hinitial,
    hprovisioned, hcounted, hgoOn, hhandOn, hcounted', hgoOn', hinspect]

/-- An acknowledged job with a destination of this kind. -/
def acknowledgedJob (id kind : String) : Job where
  id := id
  correlationId := id
  role := .initiator
  state := .acknowledged
  request := { id, destination := { kind := localDirectory } }
  resources := [{ id, definitionId := id, kind, isDestination := true }]
  createdAt := .epoch
  stateTimestamp := .epoch

/-- Two jobs that wait. Nobody checks destinations of the first one's kind. -/
def twoJobs : Table :=
  ⟨[Row.ofJob (acknowledgedJob "a" "bucket"), Row.ofJob (acknowledgedJob "b" localDirectory)]⟩

/-- The directories have arrived, and nothing else is checked. -/
def directoriesArrived (job : Job) : Bool :=
  ((Checkers.empty.register localDirectory ()).examine (fun _ _ => true) job.resources).1

theorem keyed_twoJobs : Keyed twoJobs := by
  rw [Keyed]
  decide +kernel

theorem queue_twoJobs : twoJobs.queue .acknowledged = twoJobs.rows :=
  queue_eq_rows (by decide +kernel) (by decide +kernel)

theorem reads_acknowledgedJob (id kind : String) :
    (Row.ofJob (acknowledgedJob id kind)).Reads (acknowledgedJob id kind) :=
  Row.reads_ofJob_epoch rfl rfl

theorem toJob?_twoJobs (r : Row) (hr : r ∈ twoJobs.rows) :
    ∃ job, r.toJob? = some job ∧ job.role = .initiator := by
  obtain rfl | rfl : r = Row.ofJob (acknowledgedJob "a" "bucket") ∨
      r = Row.ofJob (acknowledgedJob "b" localDirectory) := by simpa [twoJobs] using hr
  · exact ⟨_, (reads_acknowledgedJob "a" "bucket").toJob?, rfl⟩
  · exact ⟨_, (reads_acknowledgedJob "b" localDirectory).toJob?, rfl⟩

theorem readable_twoJobs : Readable twoJobs := by
  intro r hr
  rw [queue_twoJobs] at hr
  exact (toJob?_twoJobs r hr).imp fun _ h => h.1

theorem onlyAcknowledged_twoJobs : OnlyAcknowledged (waiting twoJobs) twoJobs :=
  onlyAcknowledged_waiting (keyed_twoJobs.nodup_waiting readable_twoJobs)

theorem next_twoJobs {n : Nat} (hn : n = 1 ∨ n = 2) : twoJobs.next .acknowledged n =
    .ok ([acknowledgedJob "a" "bucket", acknowledgedJob "b" localDirectory].take n) := by
  have hread : ∀ id kind, readRow (Row.ofJob (acknowledgedJob id kind)) =
      .ok (acknowledgedJob id kind) := by
    intro id kind
    rw [readRow, (reads_acknowledgedJob id kind).toJob?]
  have hmin : min n maxLimit = n := by
    rw [maxLimit, Width.bound63]
    omega
  rw [Table.next, queue_twoJobs, hmin, twoJobs]
  rcases hn with rfl | rfl
  · simp [hread]
  · simp [hread]
    rfl

theorem carryOut_idle_twoJobs (config : Config.Orchestrator) (verdict : Job → Bool) :
    carryOut config verdict twoJobs = Program.run (S := operationSignature) (reply verdict)
      (Cycle.completionPhase config >>= fun n => pure ⟨0, 0, n⟩ : Operation CycleReport).run
      twoJobs :=
  carryOut_idle (next_eq_nil (by decide +kernel) _) (next_eq_nil (by decide +kernel) _)

/-- A cycle that takes up one job asks for the first one only, and all is as it was. -/
theorem carryOut_twoJobs :
    carryOut { batchSize := 1 } directoriesArrived twoJobs = (.ok ⟨0, 0, 1⟩, twoJobs) := by
  rw [carryOut_idle_twoJobs]
  obtain ⟨asked, told, counted, hphase, hasked, htold, hcounted⟩ : ∃ asked told counted,
      (Cycle.completionPhase { batchSize := 1 } >>= fun n => pure ⟨0, 0, n⟩ :
        Operation CycleReport).run = .call (.store (.next .acknowledged 1)) asked ∧
      asked (.ok [acknowledgedJob "a" "bucket"]) =
        .call (.isComplete (acknowledgedJob "a" "bucket")) told ∧
      told false = .call (.count (.jobsProcessed .completion) 1) counted ∧
      counted () = .done (.ok ⟨0, 0, 1⟩) := ⟨_, _, _, rfl, rfl, rfl, rfl⟩
  have hnext := next_twoJobs (.inl rfl)
  have hverdict : directoriesArrived (acknowledgedJob "a" "bucket") = false := by decide +kernel
  simp only [hphase, Program.run, reply, Handoff.reply, Call.perform, hnext, hasked, hverdict,
    htold, hcounted, List.take]

def secondDone : Job :=
  { acknowledgedJob "b" localDirectory with state := .completed }

/-- A cycle that takes up both jobs completes the second. -/
theorem carryOut_twoJobs_both :
    (carryOut { batchSize := 2 } directoriesArrived twoJobs).1 = .ok ⟨0, 0, 2⟩ := by
  rw [carryOut_idle_twoJobs]
  obtain ⟨asked, told, told', timed, stored, moved, counted, hphase, hasked, htold, htold', htimed,
      hstored, hmoved, hcounted⟩ : ∃ asked told told' timed stored moved counted,
      (Cycle.completionPhase { batchSize := 2 } >>= fun n => pure ⟨0, 0, n⟩ :
        Operation CycleReport).run = .call (.store (.next .acknowledged 2)) asked ∧
      asked (.ok [acknowledgedJob "a" "bucket", acknowledgedJob "b" localDirectory]) =
        .call (.isComplete (acknowledgedJob "a" "bucket")) told ∧
      told false = .call (.isComplete (acknowledgedJob "b" localDirectory)) told' ∧
      told' true = .call .now timed ∧
      timed .epoch = .call (.store (.update secondDone)) stored ∧
      stored (.ok ()) = .call (.count (.stateTransitions .completed) 1) moved ∧
      moved () = .call (.count (.jobsProcessed .completion) 2) counted ∧
      counted () = .done (.ok ⟨0, 0, 2⟩) :=
    ⟨_, _, _, _, _, _, _, rfl, rfl, rfl, rfl, rfl, rfl, rfl, rfl⟩
  have hnext := next_twoJobs (.inr rfl)
  have hwaits : directoriesArrived (acknowledgedJob "a" "bucket") = false := by decide +kernel
  have hdone : directoriesArrived (acknowledgedJob "b" localDirectory) = true := by decide +kernel
  have hupdate : twoJobs.update secondDone = .ok (twoJobs.write secondDone none) :=
    if_pos (by decide +kernel)
  simp only [hphase, Program.run, reply, Handoff.reply, Call.perform, hnext, hasked, hwaits, hdone,
    htold, htold', htimed, hupdate, Call.written, hstored, hmoved, hcounted, List.take]

theorem completed_in_turn_both : ∃ t',
    Keyed twoJobs ∧ Readable twoJobs ∧
    Cycles { batchSize := 2 } directoriesArrived (waiting twoJobs) 1 twoJobs t' ∧
    InTurn { batchSize := 2 } directoriesArrived 1 twoJobs t' := by
  have hcycles := (Cycles.none twoJobs).carryOut onlyAcknowledged_twoJobs carryOut_twoJobs_both
  exact ⟨_, keyed_twoJobs, readable_twoJobs, hcycles,
    completed_in_turn _ _ keyed_twoJobs readable_twoJobs hcycles⟩

theorem cycles_twoJobs :
    Cycles { batchSize := 1 } directoriesArrived (waiting twoJobs) 2 twoJobs twoJobs := by
  have hreport := congrArg Prod.fst carryOut_twoJobs
  have hsame := congrArg Prod.snd carryOut_twoJobs
  have hone := (Cycles.none twoJobs).carryOut onlyAcknowledged_twoJobs hreport
  rw [hsame] at hone
  have htwo := hone.carryOut onlyAcknowledged_twoJobs hreport
  rwa [hsame] at htwo

/-- The job whose data has arrived is not completed in as many cycles as it takes to take
up all jobs. -/
theorem arrived_not_completed : ¬ ∀ (χ : Type) (checkers : Checkers χ)
    (answer : χ → ProvisionedResource → Bool) (config : Config.Orchestrator) (t t' : Table),
    Keyed t →
    (∀ r ∈ t.queue .acknowledged, ∃ job, r.toJob? = some job ∧ job.role = .initiator) →
    1 ≤ config.batchSize →
    Cycles config (fun job => (checkers.examine answer job.resources).1) (waiting t)
      (((t.queue .acknowledged).length + config.batchSize - 1) / config.batchSize) t t' →
    ∀ r ∈ t.queue .acknowledged,
      arrived (fun job => (checkers.examine answer job.resources).1) r = true →
      Completed t' r := by
  intro h
  have hsecond : Row.ofJob (acknowledgedJob "b" localDirectory) ∈ twoJobs.queue .acknowledged := by
    rw [queue_twoJobs]
    exact List.mem_cons_of_mem _ List.mem_cons_self
  have harrived : arrived directoriesArrived (Row.ofJob (acknowledgedJob "b" localDirectory)) =
      true := by
    rw [arrived, (reads_acknowledgedJob "b" localDirectory).toJob?]
    decide +kernel
  obtain ⟨r, hr, hid, hstate⟩ := h Unit (Checkers.empty.register localDirectory ())
    (fun _ _ => true) { batchSize := 1 } twoJobs twoJobs keyed_twoJobs
    (by rw [queue_twoJobs]; exact toJob?_twoJobs) (Nat.le_refl 1)
    (by rw [queue_twoJobs]; exact cycles_twoJobs) _ hsecond harrived
  have hnot : ∀ r ∈ twoJobs.rows, r.state ≠ .text JobState.completed.name := by
    decide +kernel
  exact hnot r hr hstate

end Ferry.Inspection
