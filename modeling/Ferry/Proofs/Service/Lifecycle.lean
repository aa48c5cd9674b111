import Ferry.Proofs.Service.Background
import Ferry.Proofs.Service.Worker

/-!
# Lives of jobs

Every program of the service keeps to its terms, so the service as a whole stays
in order: whoever is next to call, all the others find their terms respected.
From this the two things follow that the rest of the system relies on.

A job goes along the moves of its role and stops where it has ended, whoever
writes it, whatever fails and whenever the process dies. And no request is sent
twice: a job is stored as sent before its peer is called, and nothing brings it
back to where it could be sent from.
-/

namespace Ferry

namespace Service

open World

/-- The world is sound, and whatever is left of each program keeps to its terms. -/
structure InOrder (s : Service) : Prop where
  sound : s.world.Sound
  worker : Share.worker.terms.wp s.worker (fun _ _ => True) s.world
  writer : Share.writer.terms.wp s.writer (fun _ _ => True) s.world
  tasks : ∀ t ∈ s.tasks, Share.task.terms.wp t.rest (fun _ _ => True) s.world

variable {s s' : Service}

theorem inOrder_empty : InOrder {} where
  sound := ⟨Store.Table.wellKept_empty, List.nodup_nil, by simp [awaited], by simp, by simp,
    List.nodup_nil, by simp [sends], trivial⟩
  worker := fun _ _ _ => trivial
  writer := fun _ _ _ => trivial
  tasks := by simp

/-- What a client or a peer comes with keeps to the terms of tasks. -/
theorem wp_errand {e : Errand} (h : e.FromOutside) {w : World} :
    Share.task.terms.wp e.program (fun _ _ => True) w := by
  match e with
  | .finish .. => exact h.elim
  | .acknowledge id => exact wp_acknowledge id
  | .initiate role request =>
      exact Discipline.wp_mono (fun _ _ _ _ => trivial) (wpOk_initiate role request)
  | .receive inbound => exact Discipline.wp_mono (fun _ _ _ _ => trivial) (wpOk_receive inbound)

/-- Tasks only ask that jobs go on. -/
theorem tasks_advance {tasks : List Task} {w w' : World} (ha : w.Advances w')
    (h : ∀ t ∈ tasks, Share.task.terms.wp t.rest (fun _ _ => True) w) :
    ∀ t ∈ tasks, Share.task.terms.wp t.rest (fun _ _ => True) w' :=
  fun t ht => Discipline.wp_rely ⟨ha, trivial⟩ (h t ht)

/-! ## Moves between programs -/

/-- An outcome that is published or taken up is awaited no more than before, and
no job has changed. -/
theorem sound_handed {w : World} {asked : List String} {inbox : List ProvisionResponse}
    (hs : w.Sound) (hperm : w.awaited.Perm (asked ++ inbox.map (·.jobId))) :
    Sound { w with asked, inbox } where
  table := hs.table
  awaited_nodup := hperm.nodup_iff.1 hs.awaited_nodup
  awaited id hid := hs.awaited id (hperm.mem_iff.2 hid)
  writing id hw := ⟨fun hid => (hs.writing id hw).1 (hperm.mem_iff.2 hid), (hs.writing id hw).2⟩
  flows := hs.flows
  sends_nodup := hs.sends_nodup
  sends := hs.sends
  journal := hs.journal

/-- The worker does not notice that outcomes are handed on: they are awaited no more than
before, and what is taken up was awaited. -/
theorem sparesWorker_handed {w : World} {asked : List String} {inbox : List ProvisionResponse}
    {writing : Option String} (hsub : ∀ k ∈ asked ++ inbox.map (·.jobId), k ∈ w.awaited)
    (hwriting : ∀ k, writing = some k → k ∈ w.awaited ∨ w.writing = some k) :
    w.SparesWorker { w with asked, inbox, writing } := by
  refine ⟨fun k st ho => ⟨ho.standing, ho.share.imp_right (Or.imp_left fun hprov => ?_)⟩, rfl,
    fun _ he => he⟩
  refine ⟨hprov.1, fun hk => hprov.2.1 (hsub k hk), fun hk => ?_⟩
  exact (hwriting k hk).elim hprov.2.1 hprov.2.2

theorem inOrder_publish {before after : List String} {id : String}
    (outcome : ProvisionOutcome) (h : InOrder s) (hasked : s.world.asked = before ++ id :: after) :
    InOrder { s with world := { s.world with
      asked := before ++ after, inbox := s.world.inbox ++ [⟨id, outcome⟩] } } := by
  have hperm : s.world.awaited.Perm ((before ++ after) ++
      (s.world.inbox ++ [(⟨id, outcome⟩ : ProvisionResponse)]).map (·.jobId)) := by
    rw [awaited, hasked, List.map_append, List.map_singleton, ← List.append_assoc]
    exact (List.perm_middle.append_right _).trans (List.perm_append_singleton _ _).symm
  have hadvances : s.world.Advances { s.world with
      asked := before ++ after, inbox := s.world.inbox ++ [⟨id, outcome⟩] } := .refl s.world
  exact ⟨sound_handed h.sound hperm,
    Discipline.wp_rely ⟨hadvances, sparesWorker_handed (fun _ => hperm.mem_iff.2) fun _ => .inr⟩
      h.worker,
    Discipline.wp_rely ⟨hadvances, rfl, fun _ _ _ hst _ => hst⟩ h.writer,
    tasks_advance hadvances h.tasks⟩

/-- What the writer takes up was awaited, so it is neither the worker's nor waited
for any longer. -/
theorem inOrder_take {response : ProvisionResponse} {rest : List ProvisionResponse}
    (h : InOrder s) (hinbox : s.world.inbox = response :: rest) :
    InOrder { s with
      world := { s.world with inbox := rest, writing := some response.jobId },
      writer := (applyResponse response).run } := by
  have hperm : s.world.awaited.Perm
      (response.jobId :: (s.world.asked ++ rest.map (·.jobId))) := by
    rw [awaited, hinbox, List.map_cons]
    exact List.perm_middle
  have hawaited : response.jobId ∈ s.world.awaited := hperm.mem_iff.2 List.mem_cons_self
  obtain ⟨hnot, hnodup⟩ := List.nodup_cons.1 (hperm.nodup_iff.1 h.sound.awaited_nodup)
  obtain ⟨st, hst, hstate⟩ := h.sound.awaited _ hawaited
  have hmem : ∀ k ∈ s.world.asked ++ rest.map (·.jobId), k ∈ s.world.awaited :=
    fun k hk => hperm.mem_iff.2 (List.mem_cons_of_mem _ hk)
  have hadvances : s.world.Advances
      { s.world with inbox := rest, writing := some response.jobId } := .refl s.world
  refine ⟨⟨h.sound.table, hnodup, fun k hk => h.sound.awaited k (hmem k hk), ?_, h.sound.flows,
    h.sound.sends_nodup, h.sound.sends, h.sound.journal⟩,
    Discipline.wp_rely ⟨hadvances, sparesWorker_handed hmem ?_⟩ h.worker, ?_,
    tasks_advance hadvances h.tasks⟩
  · rintro k hk
    obtain rfl : response.jobId = k := Option.some.inj hk
    exact ⟨hnot, st, hst, by rw [hstate]; decide⟩
  · rintro k hk
    obtain rfl : response.jobId = k := Option.some.inj hk
    exact .inl hawaited
  · exact Discipline.wp_mono (fun _ _ _ _ => trivial)
      (wpOk_applyResponse response ⟨rfl, st, hst, hstate⟩)

theorem inOrder_flowEnds {before after : List String} {c : String} (failure : Option String)
    (rounds : Nat) (h : InOrder s) (hflows : s.world.flows = before ++ c :: after) :
    InOrder { s with
      world := { s.world with flows := before ++ after },
      tasks := s.tasks ++ [(Errand.finish c failure rounds).task] } := by
  have hmem : ∀ d ∈ before ++ after, d ∈ s.world.flows := by
    intro d hd
    rw [hflows]
    exact (List.sublist_cons_self c after).append_left before |>.subset hd
  have hadvances : s.world.Advances { s.world with flows := before ++ after } := .refl s.world
  refine ⟨⟨h.sound.table, h.sound.awaited_nodup, h.sound.awaited, h.sound.writing,
    fun d hd => h.sound.flows d (hmem d hd), h.sound.sends_nodup, h.sound.sends,
    h.sound.journal⟩,
    Discipline.wp_rely ⟨hadvances, fun _ _ ho => ⟨ho.standing, ho.share⟩, rfl, fun _ he => he⟩
      h.worker,
    Discipline.wp_rely ⟨hadvances, rfl, fun _ _ _ hst _ => hst⟩ h.writer, ?_⟩
  refine List.forall_mem_append.2
    ⟨tasks_advance hadvances h.tasks, List.forall_mem_singleton.2 ?_⟩
  have hlaunched := h.sound.flows c (by rw [hflows]; simp)
  exact Discipline.wp_mono (fun _ _ _ _ => trivial)
    (wpOk_finish failure rounds (hlaunched.advances hadvances))

theorem inOrder_arrive {e : Errand} (h : InOrder s) (houtside : e.FromOutside) :
    InOrder { s with tasks := s.tasks ++ [e.task] } := by
  refine ⟨h.sound, h.worker, h.writer, List.forall_mem_append.2 ⟨h.tasks, ?_⟩⟩
  exact List.forall_mem_singleton.2 (wp_errand houtside)

theorem inOrder_restart (h : InOrder s) : InOrder { world := s.world.outlived } where
  sound := ⟨h.sound.table, List.nodup_nil, by simp [awaited, outlived], by simp [outlived],
    by simp [outlived], h.sound.sends_nodup, h.sound.sends, h.sound.journal⟩
  worker := fun _ _ _ => trivial
  writer := fun _ _ _ => trivial
  tasks := by simp

/-! ## Steps -/

/-- Each step keeps the service in order, and each job makes one move at most. -/
theorem inOrder_step (h : InOrder s) (hstep : Step s s') :
    InOrder s' ∧ s.world.Legal s'.world := by
  cases hstep with
  | begin config idle =>
      refine ⟨⟨h.sound, ?_, h.writer, h.tasks⟩, fun _ => .same _⟩
      exact Discipline.wp_mono (fun _ _ _ _ => trivial) (wpOk_cycle config)
  | work turn r admits =>
      have hworker := h.worker
      rw [turn] at hworker
      obtain ⟨hs, ⟨hlegal, hspares⟩, hrest⟩ :=
        Discipline.wp_call hworker h.sound ⟨admits, rfl⟩
      exact ⟨⟨hs, hrest, Discipline.wp_rely ⟨hlegal.advances, hspares⟩ h.writer,
        tasks_advance hlegal.advances h.tasks⟩, hlegal⟩
  | publish outcome asked => exact ⟨inOrder_publish outcome h asked, fun _ => .same _⟩
  | take idle inbox => exact ⟨inOrder_take h inbox, fun _ => .same _⟩
  | write turn r admits =>
      have hwriter := h.writer
      rw [turn] at hwriter
      obtain ⟨hs, ⟨hlegal, hspares⟩, hrest⟩ :=
        Discipline.wp_call hwriter h.sound ⟨admits, rfl⟩
      exact ⟨⟨hs, Discipline.wp_rely ⟨hlegal.advances, hspares⟩ h.worker, hrest,
        tasks_advance hlegal.advances h.tasks⟩, hlegal⟩
  | flowEnds failure rounds flows =>
      exact ⟨inOrder_flowEnds failure rounds h flows, fun _ => .same _⟩
  | arrive errand outside => exact ⟨inOrder_arrive h outside, fun _ => .same _⟩
  | @serve before after errand c next turn r admits =>
      have htasks := h.tasks
      rw [turn, List.forall_mem_append, List.forall_mem_cons] at htasks
      obtain ⟨hbefore, hmine, hlater⟩ := htasks
      obtain ⟨hs, ⟨hlegal, hspares⟩, hrest⟩ := Discipline.wp_call hmine h.sound ⟨admits, rfl⟩
      refine ⟨⟨hs, Discipline.wp_rely ⟨hlegal.advances, hspares.1⟩ h.worker,
        Discipline.wp_rely ⟨hlegal.advances, hspares.2⟩ h.writer, ?_⟩, hlegal⟩
      exact List.forall_mem_append.2 ⟨tasks_advance hlegal.advances hbefore,
        List.forall_mem_cons.2 ⟨hrest, tasks_advance hlegal.advances hlater⟩⟩
  | restart => exact ⟨inOrder_restart h, fun _ => .same _⟩

/-! ## Runs -/

/-- From a service in order on, all states are in order and all moves are legal. -/
theorem inOrder_chain {later : List Service} (h : InOrder s)
    (hsteps : (s :: later).IsChain Step) :
    (∀ t ∈ s :: later, InOrder t) ∧
      (s :: later).IsChain fun a b => a.world.Legal b.world := by
  induction later generalizing s with
  | nil => exact ⟨by simpa using h, .singleton s⟩
  | cons s' later ih =>
      obtain ⟨hstep, hrest⟩ := List.isChain_cons_cons.1 hsteps
      obtain ⟨h', hlegal⟩ := inOrder_step h hstep
      obtain ⟨hall, hchain⟩ := ih h' hrest
      refine ⟨fun t ht => ?_, List.isChain_cons_cons.2 ⟨hlegal, hchain⟩⟩
      rcases List.mem_cons.1 ht with rfl | ht
      · exact h
      · exact hall t ht

section Chains

variable {P : Service → Prop} {later : List Service}

/-- What every step keeps holds from then on. -/
theorem kept_by_chain (hstep : ∀ {s s'}, InOrder s → P s → Step s s' → P s') (h : InOrder s)
    (hP : P s) (hsteps : (s :: later).IsChain Step) : ∀ t ∈ s :: later, P t := by
  have hkept := hsteps.induction (fun t => InOrder t ∧ P t) _
    (fun _ _ h ht => ⟨(inOrder_step ht.1 h).1, hstep ht.1 ht.2 h⟩) fun _ => ⟨h, hP⟩
  exact fun t ht => (hkept t ht).2

/-- Two states of the list, one right after the other, are in the relation `B`. -/
def StepIn (B : Service → Service → Prop) (states : List Service) : Prop :=
  ∃ before s s' later, states = before ++ s :: s' :: later ∧ B s s'

/-- What every step keeps but for some holds at the end, unless one of them was taken. -/
theorem kept_unless {B : Service → Service → Prop}
    (hstep : ∀ {s s'}, InOrder s → P s → Step s s' → P s' ∨ B s s') (h : InOrder s) (hP : P s)
    (hsteps : (s :: later).IsChain Step) :
    P ((s :: later).getLast (List.cons_ne_nil _ _)) ∨ StepIn B (s :: later) := by
  induction later generalizing s with
  | nil => exact .inl hP
  | cons s' later ih =>
      obtain ⟨hfirst, hrest⟩ := List.isChain_cons_cons.1 hsteps
      rcases hstep h hP hfirst with hP' | hB
      · rw [List.getLast_cons (List.cons_ne_nil _ _)]
        refine (ih (inOrder_step h hfirst).1 hP' hrest).imp_right ?_
        rintro ⟨before, t, t', rest, heq, hB⟩
        exact ⟨s :: before, t, t', rest, by rw [heq]; rfl, hB⟩
      · exact .inr ⟨[], s, s', later, rfl, hB⟩

end Chains

theorem Run.inOrder_last (run : Run) : InOrder run.last :=
  (inOrder_chain inOrder_empty run.steps).1 run.last (List.getLast_mem _)

/-- Once a job has ended, no later write changes it. -/
theorem constant_of_isTerminal {st : Standing} {later : List (Option Standing)}
    (hend : st.state.isTerminal = true)
    (h : (some st :: later).IsChain Standing.Follows) : ∀ st? ∈ later, st? = some st := by
  induction later with
  | nil => simp
  | cons next later ih =>
      obtain ⟨hfollows, hrest⟩ := List.isChain_cons_cons.1 h
      obtain rfl := hfollows.eq_of_isTerminal hend
      intro st? hst
      rcases List.mem_cons.1 hst with rfl | hst
      · rfl
      · exact ih hrest st? hst

/-- In every run, what the table tells of a job follows the moves of its role from
state to state, and where the job has ended it stays. -/
theorem lives_follow_moves (run : Run) (id : String) :
    (run.states.map fun s => s.world.table.standing? id).IsChain Standing.Follows ∧
    ∀ before s later st, run.states = before ++ s :: later →
      s.world.table.standing? id = some st → st.state.isTerminal = true →
      ∀ s' ∈ later, s'.world.table.standing? id = some st := by
  have hchain : (run.states.map fun s => s.world.table.standing? id).IsChain Standing.Follows :=
    List.isChain_map_of_isChain _ (fun _ _ hlegal => hlegal id)
      (inOrder_chain inOrder_empty run.steps).2
  refine ⟨hchain, fun before s later st hsplit hst hend s' hs' => ?_⟩
  rw [hsplit, List.map_append, List.map_cons, hst] at hchain
  exact constant_of_isTerminal hend hchain.right_of_append _
    (List.mem_map.2 ⟨s', hs', rfl⟩)

/-- What a journal accounts for is found in it. -/
theorem accounted_split {later earlier : List Exchange} {e : Exchange} {id : String}
    (h : Accounted (later ++ e :: earlier)) (he : e.sent? = some id) :
    ∃ e' ∈ earlier, e'.MarksSent id := by
  induction later with
  | nil => exact h.1 id he
  | cons _ later ih => exact ih h.2

/-- In every run, no job's request is sent twice, only those of initiators are sent,
and before each call of a peer the job was stored as sent. -/
theorem sent_at_most_once (run : Run) :
    run.last.world.sends.Nodup ∧
    (∀ id ∈ run.last.world.sends,
      ∃ st, run.last.world.table.standing? id = some st ∧ st.role = .initiator) ∧
    ∀ later e earlier id, run.last.world.journal = later ++ e :: earlier →
      e.sent? = some id → ∃ e' ∈ earlier, e'.MarksSent id := by
  have h := run.inOrder_last.sound
  refine ⟨h.sends_nodup, fun id hid => ?_, fun later e earlier id hsplit he => ?_⟩
  · obtain ⟨st, hst, hrole, _⟩ := h.sends id hid
    exact ⟨st, hst, hrole⟩
  · exact accounted_split (hsplit ▸ h.journal) he

end Service

end Ferry
