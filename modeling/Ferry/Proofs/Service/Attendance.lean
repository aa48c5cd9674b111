import Ferry.Proofs.Service.Following
import Ferry.Proofs.Service.Receipt
import Ferry.Proofs.Store.Queue
import Ferry.Proofs.Store.Reading

/-!
# Who attends to a job that is being provisioned

A job leaves provisioning only if somebody sees to it, and at any moment there is one
at most who will: the worker has yet to start its provisioning or to store that it
could not, or it is under way, or its outcome waits for the writer, or the writer has
yet to store it (`Attended`).

Calls of the store may fail, and there are three that must not. If the writer fails to
look at the job or to store the outcome, it drops the outcome; if the worker fails to
store that provisioning could not start, it ends its cycle, and no later cycle looks at
the job. Such a call forsakes the job (`Forsakes`), and that is the only way for a job
to be left alone while the process lives. A job that is left alone stays in
provisioning for good, also if the process is restarted.
-/

namespace Ferry.Service

open World

variable {w w' : World} {s s' : Service} {id : String} {c : Request} {m : Hand}

/-! ## Attended, forsaken, stranded -/

/-- The end of the job's provisioning is still to come from somebody: from whoever provisions it,
from the writer, or from the worker. -/
inductive Attended (s : Service) (id : String) : Prop where
  /-- Its provisioning is under way. -/
  | running (asked : id ∈ s.world.asked)
  /-- There is an outcome that the writer has yet to take up. -/
  | published {outcome : ProvisionOutcome} (inbox : ⟨id, outcome⟩ ∈ s.world.inbox)
  /-- The writer has taken up the outcome and has yet to store it. -/
  | applied (writing : s.world.writing = some id) (attends : AttendsTo id s.writer)
  /-- The worker has yet to start the provisioning, or to store that it could not. -/
  | pending (attends : AttendsTo id s.worker)

/-- Nobody will see to the job, although it is being provisioned. -/
structure Stranded (s : Service) (id : String) : Prop where
  provisioning : s.world.Provisioning id
  unattended : ¬ Attended s id

/-- The worker or the writer was about to see to a job in provisioning, and the store
failed it. -/
inductive Forsakes (id : String) (s : Service) : Service → Prop where
  | worker {c : Store.Call} {next} {e : JobError} (turn : s.worker = .call (.store c) next)
      (sees : (Request.store c).ProvisioningStep id) (provisioning : s.world.Provisioning id) :
      Forsakes id s { s with
        world := s.world.after (.store c) (.error e), worker := next (.error e) }
  | writer {c : Store.Call} {next} {e : JobError} (turn : s.writer = .call (.store c) next)
      (sees : (Request.store c).ProvisioningStep id) (provisioning : s.world.Provisioning id)
      (writing : s.world.writing = some id) :
      Forsakes id s { s with
        world := s.world.after (.store c) (.error e), writer := next (.error e) }

theorem attended_of_awaited (h : id ∈ s.world.awaited) : Attended s id := by
  rcases List.mem_append.1 h with hasked | hinbox
  · exact .running hasked
  · obtain ⟨response, hresponse, rfl⟩ := List.mem_map.1 hinbox
    exact .published hresponse

/-- Who is not awaited, and whom neither the worker nor the writer tends, is not
attended. -/
theorem not_attended (hawaited : id ∉ s.world.awaited)
    (hwriter : s.world.writing = some id → ¬ AttendsTo id s.writer)
    (hworker : ¬ AttendsTo id s.worker) :
    ¬ Attended s id := by
  rintro (hasked | hinbox | ⟨hwriting, hattends⟩ | hattends)
  · exact hawaited (List.mem_append_left _ hasked)
  · exact hawaited (List.mem_append_right _ (List.mem_map.2 ⟨_, hinbox, rfl⟩))
  · exact hwriter hwriting hattends
  · exact hworker hattends

/-- A job in provisioning that the worker does not tend is one that it leaves alone. -/
theorem Followed.handedOn (hf : Followed s id) (hprov : s.world.Provisioning id)
    (hworker : ¬ AttendsTo id s.worker) : (handling id).wp s.worker HoldsNothing .handedOn := by
  obtain hpast | ⟨m, hfits, hwp⟩ := hf.worker
  · exact absurd hprov hpast.not_provisioning
  · cases m with
    | untouched => exact absurd hprov hfits.not_provisioning
    | holding => exact absurd (attendsTo_of_wp hwp) hworker
    | handedOn => exact hwp
    | astray => exact hfits.elim

/-- One that it tends it holds. -/
theorem Followed.holding (hf : Followed s id) (hprov : s.world.Provisioning id)
    (hworker : AttendsTo id s.worker) : Hand.holding.Fits s.world id ∧
      (handling id).wp s.worker HoldsNothing .holding := by
  obtain hpast | ⟨m, hfits, hwp⟩ := hf.worker
  · exact absurd hprov hpast.not_provisioning
  · cases m with
    | untouched => exact absurd hprov hfits.not_provisioning
    | holding => exact ⟨hfits, hwp⟩
    | handedOn => exact absurd hworker (not_attendsTo_of_wp hwp)
    | astray => exact hfits.elim

/-- What a call of the store leaves of a job when it fails. -/
theorem onlyJournaled_failed (w : World) (c : Store.Call) (e : JobError) :
    w.OnlyJournaled (w.after (.store c) (.error e)) :=
  onlyJournaled_after rfl rfl

/-- Whoever sees to the job in its hand and fails leaves it alone from then on. -/
theorem handedOn_failed {α : Type} {c : Store.Call} {e : JobError}
    {next : Except JobError c.Answer → Activity α} (hsees : (Request.store c).ProvisioningStep id)
    (hwp : (handling id).wp (.call (.store c) next) HoldsNothing .holding) :
    (handling id).wp (next (.error e)) HoldsNothing .handedOn := by
  have hnext := (permits_of_wp hwp (by simp)).2 (.error e) (by cases c <;> trivial)
  have hafter : Hand.holding.after id (.store c) (.error e) = .handedOn := by
    cases c with
    | get _ | update _ => rfl
    | create _ | updateIfState _ _ | findId _ | next _ _ | count _ => exact hsees.elim
  exact hafter ▸ hnext

/-- A job that is forsaken is stranded. -/
theorem stranded_of_forsakes (h : InOrder s) (hf : Followed s id) (hforsakes : Forsakes id s s') :
    Stranded s' id := by
  cases hforsakes with
  | @worker c next e turn sees provisioning =>
      have hnoted := onlyJournaled_failed s.world c e
      have hattends : AttendsTo id s.worker := by
        rw [turn]
        exact .inl sees
      obtain ⟨⟨st, ho, hstate⟩, hwp⟩ := hf.holding provisioning hattends
      obtain ⟨hprov, hawaited, hwriting⟩ :=
        (hnoted.sparesWorker.owned id st ho).provisioning hstate
      refine ⟨hprov, not_attended hawaited (fun hw => absurd hw hwriting) ?_⟩
      rw [turn] at hwp
      exact not_attendsTo_of_wp (handedOn_failed sees hwp)
  | @writer c next e turn sees provisioning writing =>
      have hnoted := onlyJournaled_failed s.world c e
      have hworker : ¬ AttendsTo id s.worker := by
        intro hattends
        obtain ⟨st, ho, hstate⟩ := (hf.holding provisioning hattends).1
        exact (ho.provisioning hstate).2.2 writing
      refine ⟨provisioning.congr (congrFun hnoted.standing?_eq id),
        not_attended (h.sound.writing id writing).1 (fun _ => ?_) hworker⟩
      have hwp := hf.writer writing provisioning
      rw [turn] at hwp
      rcases hwp with hwp | hwp
      · exact not_attendsTo_of_wp (handedOn_failed sees hwp)
      · exact absurd sees (permits_of_wp hwp (by simp)).1.2

/-- A call that does not touch a job leaves it in provisioning, and unawaited if nobody
awaited it. -/
theorem spared_by_call {r : c.Reply} (hs : w.Sound) (h : Answers c w r w')
    (hc : ¬ c.Touches id) (hprov : w.Provisioning id) (hawaited : id ∉ w.awaited) :
    w'.Provisioning id ∧ id ∉ w'.awaited := by
  refine ⟨hprov.congr (standing?_of_not_touches hs h hc), ?_⟩
  rw [h.2]
  exact not_mem_awaited_after hawaited hc r

/-- The worker does not come back to a job that it leaves alone. -/
theorem not_attendsTo_worker (h : InOrder s) (hprov : s.world.Provisioning id)
    (hwp : (handling id).wp s.worker HoldsNothing .handedOn) (hstep : Step s s') :
    ¬ AttendsTo id s'.worker := by
  rcases step_worker h hstep with ⟨config, report, -, rfl⟩ | ⟨c, next, r, turn, admits, rfl⟩ |
    rfl | ⟨hworker, -⟩
  · exact not_attendsTo_of_wp (wp_cycle config (by simp))
  · rw [turn] at hwp
    obtain ⟨hpermits, hnext⟩ := permits_of_wp hwp (by simp)
    have hafter : Hand.handedOn.after id c r = .handedOn :=
      Hand.after_of_not_touches (by simp) hpermits.1 r
    exact not_attendsTo_of_wp
      (hafter ▸ hnext r (credible_of_provisioning h.sound ⟨admits, rfl⟩ hprov rfl))
  · exact not_false
  · rw [hworker]
    exact not_attendsTo_of_wp hwp

/-- Whatever was about to be done for a job in provisioning, a restart prevents it. -/
theorem stranded_outlived (hprov : s.world.Provisioning id) :
    Stranded { world := s.world.outlived } id :=
  ⟨hprov, not_attended (by simp [awaited, outlived]) (by simp [outlived]) not_false⟩

/-- The writer has lost the outcome that it took up last, and does not come back to it. -/
theorem Stranded.step_writing (h : InOrder s) (hf : Followed s id) (hs : Stranded s id)
    (hwriting : s.world.writing = some id) (hworker' : ¬ AttendsTo id s'.worker)
    (hstep : Step s s') : Stranded s' id := by
  have hawaited : id ∉ s.world.awaited := fun hid => hs.unattended (attended_of_awaited hid)
  have hwriter : (handling id).wp s.writer HoldsNothing .handedOn :=
    (hf.writer hwriting hs.provisioning).resolve_left
      fun hholds => hs.unattended (.applied hwriting (attendsTo_of_wp hholds))
  rcases step_writer h hstep with ⟨response, rest, result, -, inbox, rfl⟩ |
    ⟨c, next, r, turn, admits, rfl⟩ | rfl | ⟨hsame, hspares⟩
  · have hmem : ∀ k ∈ s.world.asked ++ rest.map (·.jobId), k ∈ s.world.awaited := by
      intro k hk
      rw [awaited, inbox]
      simp only [List.mem_append, List.map_cons, List.mem_cons] at hk ⊢
      tauto
    refine ⟨hs.provisioning, not_attended (fun hid => hawaited (hmem id hid)) ?_ hworker'⟩
    intro hsome
    obtain rfl := Option.some.inj hsome
    exact absurd (by simp [awaited, inbox]) hawaited
  · rw [turn] at hwriter
    obtain ⟨hpermits, hnext⟩ := permits_of_wp hwriter (by simp)
    have hans : Answers c s.world r (s.world.after c r) := ⟨admits, rfl⟩
    obtain ⟨hprov', hawaited'⟩ :=
      spared_by_call h.sound hans hpermits.1 hs.provisioning hawaited
    have hafter : Hand.handedOn.after id c r = .handedOn :=
      Hand.after_of_not_touches (by simp) hpermits.1 r
    refine ⟨hprov', not_attended hawaited' (fun _ => ?_) hworker'⟩
    exact not_attendsTo_of_wp
      (hafter ▸ hnext r (credible_of_provisioning h.sound hans hs.provisioning rfl))
  · exact stranded_outlived hs.provisioning
  · obtain ⟨st, hst, hstate⟩ := hs.provisioning
    have hwriting' : s'.world.writing = some id := hspares.writing.trans hwriting
    refine ⟨⟨st, hspares.held id st hwriting hst hstate, hstate⟩, ?_⟩
    refine not_attended ((inOrder_step h hstep).1.sound.writing id hwriting').1 (fun _ => ?_)
      hworker'
    rw [hsame]
    exact not_attendsTo_of_wp hwriter

/-- A job that is stranded stays so, whatever anybody does. -/
theorem Stranded.step (h : InOrder s) (hf : Followed s id) (hs : Stranded s id)
    (hstep : Step s s') : Stranded s' id := by
  have hawaited : id ∉ s.world.awaited := fun hid => hs.unattended (attended_of_awaited hid)
  have hattends : ¬ AttendsTo id s.worker := fun ht => hs.unattended (.pending ht)
  have hwp := hf.handedOn hs.provisioning hattends
  have hworker' := not_attendsTo_worker h hs.provisioning hwp hstep
  by_cases hwriting : s.world.writing = some id
  · exact hs.step_writing h hf hwriting hworker' hstep
  · rcases step_worker h hstep with ⟨config, report, -, rfl⟩ | ⟨c, next, r, turn, admits, rfl⟩ |
      rfl | ⟨-, hspares⟩
    · exact ⟨hs.provisioning, not_attended hawaited (fun hw => absurd hw hwriting) hworker'⟩
    · rw [turn] at hwp
      obtain ⟨hprov', hawaited'⟩ := spared_by_call h.sound ⟨admits, rfl⟩
        (permits_of_wp hwp (by simp)).1.1 hs.provisioning hawaited
      exact ⟨hprov', not_attended hawaited'
        (fun hw => absurd ((writing_after c r).symm.trans hw) hwriting) hworker'⟩
    · exact stranded_outlived hs.provisioning
    · -- the job is nobody's, so the others leave it as it is
      obtain ⟨st, ho, hstate⟩ := hs.provisioning.owned hawaited hwriting
      obtain ⟨hprov', hawaited', hwriting'⟩ := (hspares.owned id st ho).provisioning hstate
      exact ⟨hprov', not_attended hawaited' (fun hw => absurd hw hwriting') hworker'⟩

/-! ## Steps towards the end of provisioning -/

/-- Whoever tends the job makes a call for it: then its provisioning is under way, or it
still tends it, or the store has failed it. -/
theorem AttendsTo.call {α : Type} {next : c.Reply → Activity α} {r : c.Reply} (hs : w.Sound)
    (h : Answers c w r w') (hprov : w.Provisioning id) (hprov' : w'.Provisioning id)
    (hattends : AttendsTo id (.call c next))
    (hwp : (handling id).wp (.call c next) HoldsNothing .holding) :
    id ∈ w'.asked ∨ AttendsTo id (next r) ∨ (c.ProvisioningStep id ∧ c.Failed r) := by
  have hnext := (permits_of_wp hwp (by simp)).2 r (credible_of_provisioning hs h hprov rfl)
  rcases hattends with hsees | ⟨-, hall⟩
  · cases c with
    | provision job =>
        cases r with
        | ok _ =>
            obtain ⟨-, rfl⟩ := h
            obtain rfl : job.id = id := hsees
            exact .inl List.mem_cons_self
        | error e => exact .inr (.inl (attendsTo_of_wp hnext))
    | store s =>
        cases s with
        | get k =>
            cases r with
            | ok found => exact .inr (.inl (attendsTo_of_wp hnext))
            | error e => exact .inr (.inr ⟨hsees, trivial⟩)
        | update job =>
            cases r with
            | ok _ =>
                obtain ⟨st, -, hwrites⟩ := h.updated hs
                obtain ⟨st', hst', hstate⟩ := hprov'
                obtain ⟨rfl, hne⟩ : job.id = id ∧ job.state ≠ .provisioning := hsees
                obtain rfl := Option.some.inj (hwrites.standing?_self.symm.trans hst')
                exact absurd hstate hne
            | error e => exact .inr (.inr ⟨hsees, trivial⟩)
        | create _ | updateIfState _ _ | findId _ | next _ _ | count _ => exact hsees.elim
    | send _ _ | acknowledge _ _ | startFlow _ | isComplete _ | now | freshId | count _ _
    | isRunning | overflow => exact hsees.elim
  · exact .inr (.inl (hall r))

/-- Provisioning that is under way goes on or reports back. -/
theorem attended_of_asked (hasked : id ∈ s.world.asked) (hstep : Step s s')
    (hlives : s' ≠ { world := s.world.outlived }) : Attended s' id := by
  cases hstep with
  | work turn r admits => exact .running (mem_asked_after hasked r)
  | write turn r admits => exact .running (mem_asked_after hasked r)
  | serve turn r admits => exact .running (mem_asked_after hasked r)
  | @publish before after k outcome asked =>
      rw [asked] at hasked
      rcases List.mem_append.1 hasked with hmem | hmem
      · exact .running (List.mem_append_left _ hmem)
      · rcases List.mem_cons.1 hmem with rfl | hmem
        · exact .published (List.mem_append_right _ (List.mem_singleton_self _))
        · exact .running (List.mem_append_right _ hmem)
  | begin _ _ | take _ _ | flowEnds _ _ _ | arrive _ _ => exact .running hasked
  | restart => exact absurd rfl hlives

/-- An outcome waits until the writer takes it up. -/
theorem attended_of_inbox {outcome : ProvisionOutcome} (hinbox : ⟨id, outcome⟩ ∈ s.world.inbox)
    (hstep : Step s s') (hlives : s' ≠ { world := s.world.outlived }) : Attended s' id := by
  cases hstep with
  | work turn r admits => exact .published (mem_inbox_after hinbox r)
  | write turn r admits => exact .published (mem_inbox_after hinbox r)
  | serve turn r admits => exact .published (mem_inbox_after hinbox r)
  | publish outcome asked => exact .published (List.mem_append_left _ hinbox)
  | @take response rest result idle inbox =>
      rw [inbox] at hinbox
      rcases List.mem_cons.1 hinbox with rfl | hmem
      · exact .applied rfl (attendsTo_of_wp (wp_applyResponse _))
      · exact .published hmem
  | begin _ _ | flowEnds _ _ _ | arrive _ _ => exact .published hinbox
  | restart => exact absurd rfl hlives

/-- The writer goes on tending the job, or stores its outcome, or forsakes it. -/
theorem attended_of_writer (h : InOrder s) (hf : Followed s id)
    (hwriting : s.world.writing = some id) (hattends : AttendsTo id s.writer)
    (hprov : s.world.Provisioning id) (hprov' : s'.world.Provisioning id) (hstep : Step s s')
    (hlives : s' ≠ { world := s.world.outlived }) : Attended s' id ∨ Forsakes id s s' := by
  rcases step_writer h hstep with ⟨response, rest, result, idle, -, rfl⟩ |
    ⟨c, next, r, turn, admits, rfl⟩ | rfl | ⟨hsame, hspares⟩
  · rw [idle] at hattends
    exact hattends.elim
  · have hwp : (handling id).wp s.writer HoldsNothing .holding :=
      (hf.writer hwriting hprov).resolve_right fun hleft => not_attendsTo_of_wp hleft hattends
    rw [turn] at hwp hattends
    rcases hattends.call h.sound ⟨admits, rfl⟩ hprov hprov' hwp with hasked | hattends' |
      ⟨hsees, hfailed⟩
    · exact .inl (.running hasked)
    · exact .inl (.applied ((writing_after c r).trans hwriting) hattends')
    · cases c with
      | store q =>
          cases r with
          | ok a => exact hfailed.elim
          | error e => exact .inr (.writer turn hsees hprov hwriting)
      | provision _ | send _ _ | acknowledge _ _ | startFlow _ | isComplete _ | now | freshId
      | count _ _ | isRunning | overflow => exact hfailed.elim
  · exact absurd rfl hlives
  · exact .inl (.applied (hspares.writing.trans hwriting) (hsame ▸ hattends))

/-- So does the worker, or has its provisioning started. -/
theorem attended_of_worker (h : InOrder s) (hf : Followed s id) (hattends : AttendsTo id s.worker)
    (hprov : s.world.Provisioning id) (hprov' : s'.world.Provisioning id) (hstep : Step s s')
    (hlives : s' ≠ { world := s.world.outlived }) : Attended s' id ∨ Forsakes id s s' := by
  rcases step_worker h hstep with ⟨config, report, idle, rfl⟩ |
    ⟨c, next, r, turn, admits, rfl⟩ | rfl | ⟨hsame, -⟩
  · rw [idle] at hattends
    exact hattends.elim
  · have hwp := (hf.holding hprov hattends).2
    rw [turn] at hwp hattends
    rcases hattends.call h.sound ⟨admits, rfl⟩ hprov hprov' hwp with hasked | hattends' |
      ⟨hsees, hfailed⟩
    · exact .inl (.running hasked)
    · exact .inl (.pending hattends')
    · cases c with
      | store q =>
          cases r with
          | ok a => exact hfailed.elim
          | error e => exact .inr (.worker turn hsees hprov)
      | provision _ | send _ _ | acknowledge _ _ | startFlow _ | isComplete _ | now | freshId
      | count _ _ | isRunning | overflow => exact hfailed.elim
  · exact absurd rfl hlives
  · exact .inl (.pending (hsame ▸ hattends))

/-- A job that is attended to stays so for as long as it is being provisioned, unless it
is forsaken or the process dies. -/
theorem Attended.step (h : InOrder s) (hf : Followed s id) (hatt : Attended s id)
    (hprov : s.world.Provisioning id) (hprov' : s'.world.Provisioning id) (hstep : Step s s')
    (hlives : s' ≠ { world := s.world.outlived }) : Attended s' id ∨ Forsakes id s s' := by
  cases hatt with
  | running hasked => exact .inl (attended_of_asked hasked hstep hlives)
  | published hinbox => exact .inl (attended_of_inbox hinbox hstep hlives)
  | applied hwriting hattends =>
      exact attended_of_writer h hf hwriting hattends hprov hprov' hstep hlives
  | pending hattends => exact attended_of_worker h hf hattends hprov hprov' hstep hlives

/-- When provisioning begins, it is the worker that has begun it, and tends the job. -/
theorem attendsTo_of_begun (h : InOrder s) (hf : Followed s id) (hnot : ¬ s.world.Provisioning id)
    (hprov' : s'.world.Provisioning id) (hstep : Step s s') : AttendsTo id s'.worker := by
  obtain ⟨-, hlegal⟩ := inOrder_step h hstep
  obtain hpast | ⟨m, hfits, hwp⟩ := hf.worker
  · exact absurd hprov' (hpast.advances hlegal.advances).not_provisioning
  · obtain rfl : m = .untouched := by
      cases m with
      | untouched => rfl
      | holding =>
          obtain ⟨st, ho, hstate⟩ := hfits
          exact absurd (ho.provisioning hstate).1 hnot
      | handedOn => exact absurd hfits hnot
      | astray => exact hfits.elim
    have hstays : ¬ (Hand.untouched.Fits s'.world id ∨ s'.world.Past id) := by
      rintro (hfits' | hpast)
      · exact hfits'.not_provisioning hprov'
      · exact hpast.not_provisioning hprov'
    rcases step_worker h hstep with ⟨config, report, -, rfl⟩ | ⟨c, next, r, turn, admits, rfl⟩ |
      rfl | ⟨-, hspares⟩
    · exact absurd hprov' hnot
    · rw [turn] at hwp
      have hans : Answers c s.world r (s.world.after c r) := ⟨admits, rfl⟩
      obtain ⟨hpermits, hnext⟩ := permits_of_wp hwp (by simp)
      rcases Hand.after_untouched id c r with hafter | hafter
      · exact absurd (hafter ▸ hfits.after h.sound hpermits hans hlegal.advances) hstays
      · exact attendsTo_of_wp (hafter ▸ hnext r (hfits.credible h.sound hans))
    · exact absurd hprov' hnot
    · exact absurd (hfits.spared hlegal hspares) hstays

/-! ## Runs -/

/-- Some step of the list forsakes the job. -/
def ForsakenIn (states : List Service) (id : String) : Prop :=
  StepIn (Forsakes id) states

/-- Once stranded, a job is stranded at the end of the run. -/
theorem stranded_chain {later : List Service} (h : InOrder s) (hf : Followed s id)
    (hs : Stranded s id) (hsteps : (s :: later).IsChain Step) :
    Stranded ((s :: later).getLast (List.cons_ne_nil _ _)) id := by
  refine (kept_by_chain (P := fun t => Followed t id ∧ Stranded t id) (fun h hP hstep => ?_) h
    ⟨hf, hs⟩ hsteps _ (List.getLast_mem _)).2
  exact ⟨followed_step h hP.1 hstep, hP.2.step h hP.1 hstep⟩

/-- While the process lives, a job that is being provisioned is attended to, unless it was
forsaken. -/
theorem attended_chain {later : List Service} (h : InOrder s) (hf : Followed s id)
    (hatt : s.world.Provisioning id → Attended s id) (hsteps : (s :: later).IsChain Step)
    (hlives : (s :: later).IsChain fun s s' => s' ≠ { world := s.world.outlived }) :
    (((s :: later).getLast (List.cons_ne_nil _ _)).world.Provisioning id →
      Attended ((s :: later).getLast (List.cons_ne_nil _ _)) id) ∨ ForsakenIn (s :: later) id := by
  have hkept := kept_unless
    (P := fun t => Followed t id ∧ (t.world.Provisioning id → Attended t id))
    (B := fun t t' => t' = { world := t.world.outlived } ∨ Forsakes id t t')
    (fun {t t'} h hP hstep => ?_) h ⟨hf, hatt⟩ hsteps
  · rcases hkept with ⟨-, hatt'⟩ | ⟨before, t, t', rest, hsplit, hdied | hforsakes⟩
    · exact .inl hatt'
    · rw [hsplit] at hlives
      exact absurd hdied (List.isChain_cons_cons.1 hlives.right_of_append).1
    · exact .inr ⟨before, t, t', rest, hsplit, hforsakes⟩
  · by_cases hdied : t' = { world := t.world.outlived }
    · exact .inr (.inl hdied)
    · by_cases hforsakes : Forsakes id t t'
      · exact .inr (.inr hforsakes)
      · refine .inl ⟨followed_step h hP.1 hstep, fun hprov' => ?_⟩
        by_cases hprov : t.world.Provisioning id
        · exact ((hP.2 hprov).step h hP.1 hprov hprov' hstep hdied).resolve_right hforsakes
        · exact .pending (attendsTo_of_begun h hP.1 hprov hprov' hstep)

namespace Run

/-- The process is never restarted. -/
def Uninterrupted (run : Run) : Prop :=
  run.states.IsChain fun s s' => s' ≠ { world := s.world.outlived }

theorem stranded_of_forsaken {run : Run} (hforsaken : ForsakenIn run.states id) :
    Stranded run.last id := by
  obtain ⟨before, s, s', later, hsplit, hforsakes⟩ := hforsaken
  have hmem : s ∈ run.states := by simp [hsplit]
  have h := (inOrder_chain inOrder_empty run.steps).1 s hmem
  have hf := kept_by_chain followed_step inOrder_empty (followed_empty id) run.steps s hmem
  have hsteps : (s :: s' :: later).IsChain Step := by
    have hall : run.states.IsChain Step := run.steps
    rw [hsplit] at hall
    exact hall.right_of_append
  obtain ⟨hstep, hrest⟩ := List.isChain_cons_cons.1 hsteps
  have hlast : run.last = (s' :: later).getLast (List.cons_ne_nil _ _) := by
    simp [last, hsplit]
  rw [hlast]
  exact stranded_chain (inOrder_step h hstep).1 (followed_step h hf hstep)
    (stranded_of_forsakes h hf hforsakes) hrest

end Run

/-- While the process lives, every job that is being provisioned is attended to, unless a
call for it has failed that must not. A job that such a call has forsaken is never again
attended to, and stays in provisioning for good, restarts included. -/
theorem attended_unless_forsaken (run : Run) (id : String) :
    (run.Uninterrupted → run.last.world.Provisioning id →
      Attended run.last id ∨ ForsakenIn run.states id) ∧
    (ForsakenIn run.states id → run.last.world.Provisioning id ∧ ¬ Attended run.last id) := by
  refine ⟨fun hlives hprov => ?_, fun hforsaken => ?_⟩
  · have hnone : ¬ ({} : Service).world.Provisioning id := by
      rintro ⟨st, hst, -⟩
      cases hst
    refine (attended_chain inOrder_empty (followed_empty id) (fun h => absurd h hnone) run.steps
      hlives).imp_left fun hatt => hatt hprov
  · have hs := Run.stranded_of_forsaken hforsaken
    exact ⟨hs.provisioning, hs.unattended⟩

/-! ## A look that fails -/

section Calls

variable {reply : World → (q : Request) → q.Reply} {q : Request}

/-- The worker makes its next call. -/
def worked (reply : World → (q : Request) → q.Reply) (s : Service) : Service :=
  match s.worker with
  | .call q next =>
    { s with world := s.world.after q (reply s.world q), worker := next (reply s.world q) }
  | .done _ => s

/-- The writer makes its next call. -/
def written (reply : World → (q : Request) → q.Reply) (s : Service) : Service :=
  match s.writer with
  | .call q next =>
    { s with world := s.world.after q (reply s.world q), writer := next (reply s.world q) }
  | .done _ => s

theorem step_worked {next : q.Reply → Activity (Except OrchestratorError CycleReport)}
    (h : s.worker = .call q next) (hadmits : s.world.Admits q (reply s.world q)) :
    Step s (s.worked reply) := by
  rw [worked, h]
  exact .work h _ hadmits

theorem step_written {next : q.Reply → Activity (Except OrchestratorError Unit)}
    (h : s.writer = .call q next) (hadmits : s.world.Admits q (reply s.world q)) :
    Step s (s.written reply) := by
  rw [written, h]
  exact .write h _ hadmits

theorem admits_get {k : String} {found : Option Job} (h : w.table.get k = .ok found) :
    w.Admits (.store (.get k)) (.ok found) :=
  .inl h.symm

theorem admits_next {state : JobState} {limit : Nat} {jobs : List Job}
    (h : w.table.next state limit = .ok jobs) : w.Admits (.store (.next state limit)) (.ok jobs) :=
  .inl h.symm

end Calls

/-- Batches hold these jobs, and nothing goes wrong with other calls. -/
def listing (jobs : List Job) (w : World) : (q : Request) → q.Reply
  | .store (.next ..) => .ok jobs
  | q => w.reply q

/-- The database fails. -/
def failing (w : World) : (q : Request) → q.Reply
  | .store _ => .error (.database "injected")
  | q => w.reply q

theorem forsakes_written {c : Store.Call}
    {next : Except JobError c.Answer → Activity (Except OrchestratorError Unit)}
    (h : s.writer = .call (.store c) next) (hsees : (Request.store c).ProvisioningStep id)
    (hprov : s.world.Provisioning id) (hwriting : s.world.writing = some id) :
    Forsakes id s (s.written failing) := by
  rw [written, h]
  exact .writer h hsees hprov hwriting

/-- A request that needs nothing to be provisioned. -/
def plainRequest : TransferRequest :=
  { id := "a", destination := { kind := localDirectory } }

def plainJob : Job :=
  .new "j" .executor plainRequest .epoch

/-- A transfer is asked for. -/
def plainAsked : Service :=
  { tasks := [(Errand.initiate .executor plainRequest).task] }

/-- There is a job for it, and a cycle begins. -/
def plainBegun : Service :=
  { plainAsked.served.served.served.served with worker := (cycle {}).run }

/-- The worker has found the job, has stored that its provisioning begins and has started
it. -/
def plainRunning : Service :=
  (plainBegun.worked (listing [plainJob])) |> worked World.reply |> worked World.reply
    |> worked World.reply |> worked World.reply |> worked World.reply

/-- Provisioning has reported back. -/
def plainPublished : Service :=
  { plainRunning with world := { plainRunning.world with
      asked := [], inbox := [⟨"j", .provisioned []⟩] } }

/-- The writer has taken up the outcome. -/
def plainTaken : Service :=
  { plainPublished with
    world := { plainPublished.world with inbox := [], writing := some "j" }
    writer := (applyResponse ⟨"j", .provisioned []⟩).run }

theorem next_plain : plainBegun.world.table.next .initial 5 = .ok [plainJob] :=
  Store.Table.next_single (Store.Row.reads_ofJob_epoch rfl rfl).toJob? (by decide)

theorem step_plainPublished : Step plainRunning plainPublished :=
  .publish (.provisioned []) (show plainRunning.world.asked = [] ++ "j" :: [] from rfl)

theorem step_plainTaken : Step plainPublished plainTaken :=
  .take rfl (show plainPublished.world.inbox = [⟨"j", .provisioned []⟩] from rfl)

/-- All that happens until then. -/
def plainBefore : List Service :=
  List.iterate served plainAsked 5 ++
  plainBegun :: List.iterate (worked World.reply) (plainBegun.worked (listing [plainJob])) 6 ++
  [plainPublished]

theorem isChain_plain {later : List Service} (h : (plainTaken :: later).IsChain Step) :
    (({} : Service) :: (plainBefore ++ plainTaken :: later)).IsChain Step :=
  .cons_cons (.arrive _ trivial) <|
  .cons_cons (step_served rfl) <| .cons_cons (step_served rfl) <|
  .cons_cons (step_served rfl) <| .cons_cons (step_served rfl) <|
  .cons_cons (.begin {} rfl) <|
  .cons_cons (step_worked rfl (admits_next next_plain)) <|
  .cons_cons (step_worked rfl (admits_reply _ _)) <|
  .cons_cons (step_worked rfl (admits_reply _ _)) <|
  .cons_cons (step_worked rfl (admits_reply _ _)) <|
  .cons_cons (step_worked rfl (admits_reply _ _)) <|
  .cons_cons (step_worked rfl (admits_reply _ _)) <|
  .cons_cons step_plainPublished <| .cons_cons step_plainTaken h

/-- The writer looks at the job, and the store fails it once. -/
def plainRun : Run where
  later := plainBefore ++ [plainTaken, plainTaken.written failing]
  steps := isChain_plain (.cons_cons (step_written rfl (.inr ⟨_, rfl⟩)) (.singleton _))

/-- A restart leaves no task. -/
theorem uninterrupted_of_tasks {run : Run}
    (h : (run.later.all fun s => !s.tasks.isEmpty) = true) : run.Uninterrupted := by
  have hchain : ∀ (s : Service) (later : List Service), (∀ t ∈ later, t.tasks.isEmpty = false) →
      (s :: later).IsChain fun s s' => s' ≠ { world := s.world.outlived } := by
    intro s later
    induction later generalizing s with
    | nil => exact fun _ => .singleton s
    | cons s' later ih =>
        intro hlater
        refine .cons_cons ?_ (ih s' fun t ht => hlater t (List.mem_cons_of_mem _ ht))
        rintro rfl
        cases hlater _ List.mem_cons_self
  exact hchain {} run.later fun t ht => by simpa using List.all_eq_true.1 h t ht

/-- One failure of the store is enough: the writer fails to look at a job whose outcome it
has taken up, and nobody will see to the job any more. -/
theorem stranded_by_one_failure : ∃ (run : Run) (id : String) (earlier : List Exchange),
    run.Uninterrupted ∧
    run.last.world.journal = ⟨.store (.get id), .error (.database "injected")⟩ :: earlier ∧
    (∀ e ∈ earlier, ¬ e.call.Failed e.reply) ∧
    run.last.world.Provisioning id ∧ ¬ Attended run.last id := by
  have hprov : plainTaken.world.Provisioning "j" :=
    ⟨⟨"a", .executor, .provisioning⟩, by decide, rfl⟩
  have hforsakes : Forsakes "j" plainTaken (plainTaken.written failing) :=
    forsakes_written rfl rfl hprov rfl
  have hs : Stranded plainRun.last "j" :=
    Run.stranded_of_forsaken ⟨plainRun.states.take 14, plainTaken, _, [], rfl, hforsakes⟩
  refine ⟨plainRun, "j", plainTaken.world.journal, uninterrupted_of_tasks rfl, rfl, ?_,
    hs.provisioning, hs.unattended⟩
  repeat refine List.forall_mem_cons.2 ⟨not_false, ?_⟩
  exact List.forall_mem_nil _

end Ferry.Service
