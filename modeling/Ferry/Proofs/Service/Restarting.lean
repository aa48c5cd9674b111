import Ferry.Proofs.Service.Attendance
import Ferry.Proofs.Service.Launching

/-!
# When a flow is started again

The worker starts the flow of an executor's job and stores afterwards that it did. If
the store fails it then, or the process dies in between, nothing tells that the flow was
started. The job is still stored as provisioned, a later cycle comes upon it, and its
flow is started again.

That is the only way. A flow that was started is started again only if in between the
start was lost like this (`Loses`).
-/

namespace Ferry.Service

open World

variable {w w' : World} {s s' : Service} {c : String} {q : Request} {m : Launch}

/-! ## Starts, and how they are lost -/

/-- In this step somebody has the flow of the request started, and is answered so. -/
def Starts (c : String) (outcome : FlowOutcome) (s s' : Service) : Prop :=
  ∃ request : TransferRequest, request.id = c ∧
    s'.world.journal = ⟨.startFlow request, outcome⟩ :: s.world.journal

/-- The worker has started the flow, and that is not stored: the store fails it, or the
process dies before. -/
inductive Loses (c : String) (s : Service) : Service → Prop where
  | failed {job : Job} {next} {e : JobError}
      (turn : s.worker = .call (.store (.updateIfState job .provisioned)) next)
      (records : (Request.store (.updateIfState job .provisioned)).Records c) :
      Loses c s { s with
        world := s.world.after (.store (.updateIfState job .provisioned)) (.error e)
        worker := next (.error e) }
  | died (pending : TurnsTo (·.Records c) s.worker) : Loses c s { world := s.world.outlived }

/-- Some step of the list loses a start. -/
def LostIn (states : List Service) (c : String) : Prop :=
  StepIn (Loses c) states

/-! ## The service, with one flow in mind -/

/-- The worker starts the flow only where it may and stores that it did, and nobody else starts
it. -/
structure Watched (c : String) (s : Service) (m : Launch) : Prop where
  fits : m.Fits s.world c
  worker : (launching c).wp s.worker Recorded (s.world, m)
  writer : Makes (¬ ·.Starts c) s.writer
  tasks : ∀ t ∈ s.tasks, Makes (¬ ·.Starts c) t.rest

theorem watched_empty (c : String) : Watched c {} .startable where
  fits := trivial
  worker := by
    rintro ⟨w, _⟩ ⟨-, rfl⟩ _
    simp [Recorded]
  writer := trivial
  tasks := by simp

/-- Whoever comes, the errand starts no flow. -/
theorem makes_tasks {tasks : List Task} (e : Errand)
    (h : ∀ t ∈ tasks, Makes (¬ ·.Starts c) t.rest) :
    ∀ t ∈ tasks ++ [e.task], Makes (¬ ·.Starts c) t.rest := by
  refine List.forall_mem_append.2 ⟨h, List.forall_mem_singleton.2 ?_⟩
  exact makes_errand (fun q hq => hq.1.not_starts c) (fun _ _ => not_false) e

/-- Writer and tasks start no flow, whatever happens. -/
theorem Watched.others (h : Watched c s m) (hstep : Step s s') :
    Makes (¬ ·.Starts c) s'.writer ∧ ∀ t ∈ s'.tasks, Makes (¬ ·.Starts c) t.rest := by
  cases hstep with
  | begin _ _ | work _ _ _ | publish _ _ => exact ⟨h.writer, h.tasks⟩
  | take idle inbox => exact ⟨makes_applyResponse (fun q hq => hq.1.not_starts c) _, h.tasks⟩
  | write turn r admits =>
      have hwriter := h.writer
      rw [turn] at hwriter
      exact ⟨hwriter.2 r, h.tasks⟩
  | flowEnds failure rounds flows => exact ⟨h.writer, makes_tasks _ h.tasks⟩
  | arrive errand outside => exact ⟨h.writer, makes_tasks errand h.tasks⟩
  | @serve before after errand q next turn r admits =>
      have htasks := h.tasks
      rw [turn, List.forall_mem_append, List.forall_mem_cons] at htasks
      obtain ⟨hbefore, hmine, hlater⟩ := htasks
      exact ⟨h.writer, List.forall_mem_append.2
        ⟨hbefore, List.forall_mem_cons.2 ⟨hmine.2 r, hlater⟩⟩⟩
  | restart => exact ⟨trivial, by simp⟩

/-- If a flow is started, it is the worker who starts it. -/
theorem Watched.worker_of_starts {outcome : FlowOutcome} (h : Watched c s m)
    (hstep : Step s s') (hstarts : Starts c outcome s s') : ∃ request next,
      request.id = c ∧ s.worker = .call (.startFlow request) next ∧
      s' = { s with
        world := s.world.after (.startFlow request) outcome, worker := next outcome } := by
  obtain ⟨request, hc, hjournal⟩ := hstarts
  cases hstep with
  | @work q next turn r admits =>
      obtain ⟨rfl, hr⟩ := Exchange.mk.inj (List.cons.inj hjournal).1
      obtain rfl := eq_of_heq hr
      exact ⟨request, next, hc, turn, rfl⟩
  | @write q next turn r admits =>
      obtain ⟨rfl, -⟩ := Exchange.mk.inj (List.cons.inj hjournal).1
      have hwriter := h.writer
      rw [turn] at hwriter
      exact absurd hc hwriter.1
  | @serve before after errand q next turn r admits =>
      obtain ⟨rfl, -⟩ := Exchange.mk.inj (List.cons.inj hjournal).1
      exact absurd hc (h.tasks ⟨errand, .call _ next⟩ (by simp [turn])).1
  | begin _ _ | publish _ _ | take _ _ | flowEnds _ _ _ | arrive _ _ | restart =>
      exact absurd hjournal.symm (List.cons_ne_self _ _)

/-- A call of the worker. -/
theorem Watched.call {next : q.Reply → Activity (Except OrchestratorError CycleReport)}
    {r : q.Reply} (hw : Watched c s m) (h : InOrder s) (turn : s.worker = .call q next)
    (admits : s.world.Admits q r) : Watched c
      { s with world := s.world.after q r, worker := next r } (m.after c q r) := by
  have hstep := Step.work turn r admits
  have hworker := hw.worker
  rw [turn] at hworker
  obtain ⟨hfits, hnext⟩ := Launch.next_of_wp hworker hw.fits h.sound ⟨admits, rfl⟩
    (inOrder_step h hstep).2.advances
  exact ⟨hfits, hnext, (hw.others hstep).1, (hw.others hstep).2⟩

/-! ## Once a flow was started -/

namespace Launch

/-- As far as the program can tell, the flow was started. -/
def Begun (m : Launch) : Prop :=
  m = unrecorded ∨ m = settled

/-- A flow that was started must not be started. -/
theorem not_fits_of_begun {request : TransferRequest} {outcome : FlowOutcome} (hm : m.Begun)
    (hc : request.id = c) : ¬ (m.after c (.startFlow request) outcome).Fits w c := by
  rcases hm with rfl | rfl
  · exact not_false
  · rw [show settled.after c (.startFlow request) outcome = astray from if_pos hc]
    exact not_false

theorem after_settled (c : String) (q : Request) (r : q.Reply) :
    settled.after c q r = settled ∨ settled.after c q r = astray := by
  cases q with
  | startFlow request =>
      exact (em (request.id = c)).symm.imp (fun h => if_neg h) fun h => if_pos h
  | store _ | provision _ | send _ _ | acknowledge _ _ | isComplete _ | now | freshId
  | count _ _ | isRunning | overflow => exact .inl rfl

end Launch

/-- The worker forgets a start only if the store fails to record it. -/
theorem Watched.begun_or_lost {next : q.Reply → Activity (Except OrchestratorError CycleReport)}
    {r : q.Reply} (hw : Watched c s m) (h : InOrder s) (hm : m.Begun)
    (turn : s.worker = .call q next) (admits : s.world.Admits q r) :
    (m.after c q r).Begun ∨
      Loses c s { s with world := s.world.after q r, worker := next r } := by
  have hfits := (hw.call h turn admits).fits
  rcases hm with rfl | rfl
  · rcases Launch.records_or_harmless hfits.ne_astray with hrecords | hharmless
    · cases q with
      | store q =>
          cases q with
          | updateIfState job expected =>
              cases expected with
              | provisioned =>
                  cases r with
                  | ok hit => exact .inl (.inr (if_pos hrecords))
                  | error e => exact .inr (.failed turn hrecords)
              | _ => exact hrecords.elim
          | _ => exact hrecords.elim
      | _ => exact hrecords.elim
    · exact .inl (.inl (Launch.after_of_harmless hharmless r))
  · exact .inl (.inr ((Launch.after_settled c q r).resolve_right hfits.ne_astray))

/-- What the program goes by lasts as long as it is left alone. -/
theorem Watched.rely (hw : Watched c s m) (hstep : Step s s') (ha : s.world.Advances s'.world)
    (hworker : s'.worker = s.worker) : Watched c s' m := by
  obtain ⟨hwriter, htasks⟩ := hw.others hstep
  have hrely : (launching c).rely (s.world, m) (s'.world, m) := ⟨ha, rfl⟩
  refine ⟨hw.fits.advances ha, ?_, hwriter, htasks⟩
  rw [hworker]
  exact Discipline.wp_rely hrely hw.worker

/-- A step leaves the worker dealing with the flow as it should, and with its start in mind
unless that is lost. -/
theorem watched_step (h : InOrder s) (hw : Watched c s m) (hstep : Step s s') :
    ∃ m', Watched c s' m' ∧ (m.Begun → m'.Begun ∨ Loses c s s') := by
  obtain ⟨-, hlegal⟩ := inOrder_step h hstep
  obtain ⟨hwriter, htasks⟩ := hw.others hstep
  rcases step_worker h hstep with ⟨config, report, idle, rfl⟩ | ⟨q, next, r, turn, admits, rfl⟩ |
    rfl | ⟨hworker, -⟩
  · have hidle := hw.worker
    rw [idle] at hidle
    have hm : m ≠ .unrecorded := hidle (s.world, m) ⟨.refl _, rfl⟩ hw.fits
    refine ⟨m, ⟨hw.fits, ?_, hwriter, htasks⟩, .inl⟩
    refine Discipline.wp_mono (fun result _ _ hdone => ?_) (Launch.wpOr_cycle config hm)
    cases result with
    | ok _ | error _ => exact hdone
  · exact ⟨_, hw.call h turn admits, fun hm => hw.begun_or_lost h hm turn admits⟩
  · have hidle : ∀ m', m' ≠ .unrecorded → (launching c).wp
        (.done (.ok {}) : Activity (Except OrchestratorError CycleReport)) Recorded
        (s.world.outlived, m') := by
      rintro m' hm' ⟨w, _⟩ ⟨-, rfl⟩ _
      exact hm'
    by_cases hm : m = .unrecorded
    · subst hm
      refine ⟨.startable, ⟨trivial, hidle _ (by simp), hwriter, htasks⟩, fun _ => .inr ?_⟩
      exact .died (Launch.turnsTo_of_wp h.sound hw.worker)
    · exact ⟨m, ⟨hw.fits.advances hlegal.advances, hidle m hm, hwriter, htasks⟩, .inl⟩
  · exact ⟨m, hw.rely hstep hlegal.advances hworker, .inl⟩

/-- After a start that succeeded the worker has it in mind. -/
theorem Watched.begun_of_starts (hw : Watched c s m) (h : InOrder s) (hstep : Step s s')
    (hstarts : Starts c .ok s s') : ∃ m', Watched c s' m' ∧ m'.Begun := by
  obtain ⟨request, next, hc, turn, rfl⟩ := hw.worker_of_starts hstep hstarts
  have hw' := hw.call h turn (r := FlowOutcome.ok) trivial
  refine ⟨_, hw', ?_⟩
  cases m with
  | startable => exact .inl (if_pos hc)
  | unrecorded => exact absurd hw'.fits (Launch.not_fits_of_begun (.inl rfl) hc)
  | settled => exact absurd hw'.fits (Launch.not_fits_of_begun (.inr rfl) hc)
  | astray => exact hw.fits.elim

/-- A flow whose start the worker has in mind is not started. -/
theorem Watched.not_starts {outcome : FlowOutcome} (hw : Watched c s m) (h : InOrder s)
    (hm : m.Begun) (hstep : Step s s') : ¬ Starts c outcome s s' := by
  intro hstarts
  obtain ⟨request, next, hc, turn, rfl⟩ := hw.worker_of_starts hstep hstarts
  exact Launch.not_fits_of_begun hm hc (hw.call h turn (r := outcome) trivial).fits

/-! ## Runs -/

theorem watched_chain {later : List Service} (h : InOrder s) (hw : Watched c s m)
    (hsteps : (s :: later).IsChain Step) : ∀ t ∈ s :: later, ∃ m, Watched c t m := by
  refine kept_by_chain (fun h hP hstep => ?_) h ⟨m, hw⟩ hsteps
  obtain ⟨m, hw⟩ := hP
  exact (watched_step h hw hstep).imp fun _ h => h.1

/-- A start stays in mind unless it is lost. -/
theorem begun_chain {later : List Service} (h : InOrder s) (hw : Watched c s m) (hm : m.Begun)
    (hsteps : (s :: later).IsChain Step) :
    (∃ m', Watched c ((s :: later).getLast (List.cons_ne_nil _ _)) m' ∧ m'.Begun) ∨
      LostIn (s :: later) c := by
  refine kept_unless (P := fun t => ∃ m, Watched c t m ∧ m.Begun) (fun h hP hstep => ?_) h
    ⟨m, hw, hm⟩ hsteps
  obtain ⟨m, hw, hm⟩ := hP
  obtain ⟨m', hw', hthen⟩ := watched_step h hw hstep
  exact (hthen hm).imp_left fun hm' => ⟨m', hw', hm'⟩

/-- Between two starts of the flow of one request of which the first succeeded, that start
was lost: the store failed to record it, or the process died before. -/
theorem started_again_only_if_lost (run : Run) {c : String} {outcome : FlowOutcome}
    {before between later : List Service} {s s' t : Service}
    (hsplit : run.states = before ++ s :: (s' :: between) ++ t :: later)
    (hfirst : Starts c .ok s s')
    (hagain : Starts c outcome ((s' :: between).getLast (List.cons_ne_nil _ _)) t) :
    LostIn (s' :: between) c := by
  have hchain : (before ++ s :: (s' :: between) ++ t :: later).IsChain Step :=
    hsplit ▸ (run.steps : run.states.IsChain Step)
  obtain ⟨hbefore, -, hlast⟩ := List.isChain_append.1 hchain
  obtain ⟨hstep, hsteps⟩ := List.isChain_cons_cons.1 hbefore.right_of_append
  have hmem : s ∈ run.states := by simp [hsplit]
  have h := (inOrder_chain inOrder_empty run.steps).1 s hmem
  obtain ⟨m, hw⟩ := watched_chain inOrder_empty (watched_empty c) run.steps s hmem
  obtain ⟨m', hw', hm'⟩ := hw.begun_of_starts h hstep hfirst
  have h' := (inOrder_step h hstep).1
  refine (begun_chain h' hw' hm' hsteps).resolve_left ?_
  rintro ⟨m'', hw'', hm''⟩
  have hinOrder := (inOrder_chain h' hsteps).1 _ (List.getLast_mem (List.cons_ne_nil s' between))
  refine hw''.not_starts hinOrder hm'' (hlast _ ?_ t rfl) hagain
  simp [List.getLast?_eq_some_getLast]

/-! ## A start that is lost -/

/-- A look finds this job, and nothing goes wrong with other calls. -/
def finding (job : Job) (w : World) : (q : Request) → q.Reply
  | .store (.get _) => .ok (some job)
  | q => w.reply q

/-- What is read of the job while it is being provisioned. -/
def plainStarted : Job :=
  { plainJob with
    state := .provisioning, manifest := some (ResourceManifest.forJob plainJob "j") }

/-- What is read of it once it is provisioned. -/
def plainReady : Job :=
  { plainStarted with state := .provisioned }

/-- Its row then. -/
def plainRow : Store.Row :=
  ((Store.Row.ofJob plainJob).updatedFrom plainStarted).updatedFrom plainReady

/-- The writer has found the job. -/
def plainFound : Service :=
  plainTaken.written (finding plainStarted)

/-- It has stored the outcome. -/
def plainWritten : Service :=
  plainFound |> written World.reply |> written World.reply |> written World.reply
    |> written World.reply

/-- The worker has come to its dispatch. -/
def plainStored : Service :=
  plainWritten |> worked World.reply |> worked World.reply

/-- The worker has found the job provisioned. -/
def plainDispatched : Service :=
  plainStored.worked (listing [plainReady])

/-- It has started the flow, and the store fails to record that. -/
def plainLost : Service :=
  plainDispatched |> worked World.reply |> worked World.reply |> worked World.reply
    |> worked failing

/-- The next cycle begins. -/
def plainBegunAgain : Service :=
  { plainLost with worker := (cycle {}).run }

/-- It has found no new job and has come to its dispatch. -/
def plainAgain : Service :=
  plainBegunAgain.worked (listing []) |> worked World.reply |> worked World.reply

theorem reads_plainStarted :
    ((Store.Row.ofJob plainJob).updatedFrom plainStarted).Reads plainStarted :=
  (Store.Row.reads_ofJob_epoch rfl rfl).updatedFrom (by decide)

theorem reads_plainReady : plainRow.Reads plainReady :=
  reads_plainStarted.updatedFrom (by decide)

theorem get_plainStarted : plainTaken.world.table.get "j" = .ok (some plainStarted) := by
  have htable : plainTaken.world.table =
    ⟨[(Store.Row.ofJob plainJob).updatedFrom plainStarted]⟩ := rfl
  have hget := (Store.Table.sole_single _).get reads_plainStarted.toJob?
  exact htable ▸ hget

theorem next_plainReady : plainStored.world.table.next .provisioned 5 = .ok [plainReady] :=
  Store.Table.next_single reads_plainReady.toJob? (by decide)

theorem next_plainLost : plainLost.world.table.next .initial 5 = .ok [] := by
  have htable : plainLost.world.table = ⟨[plainRow]⟩ := rfl
  rw [htable]
  exact Store.Table.next_single_of_ne (by nofun) 5

/-- The worker and the writer from then on. -/
def plainAfter : List Service :=
  List.iterate (written World.reply) plainFound 5 ++
  List.iterate (worked World.reply) (plainWritten.worked World.reply) 2 ++
  List.iterate (worked World.reply) plainDispatched 4 ++
  plainLost :: plainBegunAgain ::
  List.iterate (worked World.reply) (plainBegunAgain.worked (listing [])) 3 ++
  List.iterate (worked World.reply) (plainAgain.worked (listing [plainReady])) 2

/-- The store fails once, when the worker has started a flow and stores that. The next
cycle starts it again. -/
def doubleRun : Run where
  later := plainBefore ++ plainTaken :: plainAfter
  steps := isChain_plain <|
    .cons_cons (step_written rfl (admits_get get_plainStarted)) <|
    .cons_cons (step_written rfl (admits_reply _ _)) <|
    .cons_cons (step_written rfl (admits_reply _ _)) <|
    .cons_cons (step_written rfl (admits_reply _ _)) <|
    .cons_cons (step_written rfl (admits_reply _ _)) <|
    .cons_cons (step_worked rfl (admits_reply _ _)) <|
    .cons_cons (step_worked rfl (admits_reply _ _)) <|
    .cons_cons (step_worked rfl (admits_next next_plainReady)) <|
    .cons_cons (step_worked rfl (admits_reply _ _)) <|
    .cons_cons (step_worked rfl (admits_reply _ _)) <|
    .cons_cons (step_worked rfl (admits_reply _ _)) <|
    .cons_cons (step_worked rfl (.inr ⟨_, rfl⟩)) <|
    .cons_cons (.begin {} rfl) <|
    .cons_cons (step_worked rfl (admits_next next_plainLost)) <|
    .cons_cons (step_worked rfl (admits_reply _ _)) <|
    .cons_cons (step_worked rfl (admits_reply _ _)) <|
    .cons_cons (step_worked rfl (admits_next next_plainReady)) <|
    .cons_cons (step_worked rfl (admits_reply _ _)) <| .singleton _

/-- The worker has started the flow. -/
def plainExecuted : Service :=
  plainDispatched.worked World.reply

theorem lost_in_doubleRun : Starts "a" .ok plainDispatched plainExecuted ∧
    LostIn (plainExecuted :: (doubleRun.states.drop 24).take 8) "a" := by
  have hsplit : doubleRun.states = doubleRun.states.take 22 ++
      plainDispatched :: (plainExecuted :: (doubleRun.states.drop 24).take 8) ++
      doubleRun.last :: [] := rfl
  have hfirst : Starts "a" .ok plainDispatched plainExecuted := ⟨plainRequest, rfl, rfl⟩
  exact ⟨hfirst, started_again_only_if_lost doubleRun hsplit hfirst ⟨plainRequest, rfl, rfl⟩⟩

/-- One failure of the store is enough: the start of an executor's flow is not recorded, and
the next cycle starts it again. -/
theorem started_twice_after_one_failure : ∃ (run : Run) (job : Job)
    (before after earlier : List Exchange), run.Uninterrupted ∧ job.role = .executor ∧
    run.last.world.journal = ⟨.startFlow job.request, .ok⟩ :: before ++
      ⟨.store (.updateIfState job .provisioned), .error (.database "injected")⟩ :: after ++
      ⟨.startFlow job.request, .ok⟩ :: earlier ∧
    ∀ e ∈ before ++ after ++ earlier, ¬ e.call.Failed e.reply := by
  refine ⟨doubleRun, { plainReady with state := .executing },
    (plainAgain.worked (listing [plainReady])).world.journal.take 4,
    (plainLost.world.journal.drop 1).take 2, plainDispatched.world.journal,
    uninterrupted_of_tasks rfl, rfl, rfl, ?_⟩
  repeat refine List.forall_mem_cons.2 ⟨not_false, ?_⟩
  exact List.forall_mem_nil _

end Ferry.Service
