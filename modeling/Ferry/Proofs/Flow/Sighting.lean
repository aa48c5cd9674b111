import Ferry.Orchestrator.Cycle
import Ferry.Proofs.Completion
import Ferry.Proofs.Flow.Marker
import Ferry.Proofs.Interference
import Ferry.Proofs.Provision.Responses
import Ferry.Proofs.Store.Queue
import Ferry.Proofs.Store.Reading

/-!
# Waiting for a copy

One peer copies a file into a directory, another asks again and again whether there is a
marker in it, and completes its job when there is. The two share nothing but the tree, and
each step of the one may come between any two calls of the other.

So the answer to a question is old when the job is written. It does not matter: what is
seen once is seen at every later point of the copy, so that an answer stays true. The job
is therefore never completed before a marker is seen, which for most copies means before
the whole file has been written (`completed_when_whole`). It can be completed before if the
file has a name that ends as a marker's does.
-/

namespace Ferry.Sighting

open FileFlow Operation Store Store.Table
open File (Tree)
open Time (Instant)

/-! ## What the checker says -/

/-- Only directories are looked at. -/
def markerCheckers : Checkers Unit :=
  Checkers.empty.register localDirectory ()

def verdict (t : Tree) (job : Job) : Bool :=
  (markerCheckers.examine (fun _ => hasMarker t) job.resources).1

/-- The directory that the job waits for is the one the copy goes to. -/
def Awaits (c : Copy) (job : Job) : Prop :=
  ∀ r ∈ job.resources, r.isDestination = true → r.kind = localDirectory →
    r.properties.get? "path" = some c.directory

variable {c : Copy} {t t' : Tree} {job : Job}

theorem marked_of_verdict (hawaits : Awaits c job) (h : verdict t' job = true) :
    Marked t' c.directory := by
  obtain ⟨r, hr, checker, hchecker, hmarker⟩ := (Checkers.examine_iff _ _ _).1 h
  obtain ⟨hdestination, hfind⟩ := Checkers.checkerFor_eq_some_iff.1 hchecker
  rw [markerCheckers, Checkers.find?_register] at hfind
  split at hfind
  · next hkind =>
    exact (hasMarker_iff (hawaits r hr hdestination hkind.symm)).1 hmarker
  · cases hfind

/-! ## The two peers -/

structure World where
  table : Table
  copy : Copy.Point × Tree

structure State where
  world : World
  /-- What is left of the phase. -/
  phase : Activity (Except OrchestratorError Nat)

/-- The replies to the calls of the phase. Calls of the store may fail. -/
def answer (fault : Option JobError) (now : Instant) (t : Tree) :
    (q : Request) → Table → q.Reply × Table
  | .store call, table =>
    match fault with
    | some e => (.error e, table)
    | none => call.perform table
  | .isComplete job, table => (verdict t job, table)
  | q, table => Handoff.reply now q table

inductive Move (id : String) where
  | copy (size : Nat)
  /-- The phase makes its next call. After its end another one begins. -/
  | poll (fault : Option JobError) (now : Instant)
  /-- Somebody else has a statement carried out that spares the job. -/
  | other (call : Store.Call) (spares : call.Spares id)

def State.move (c : Copy) (config : Config.Orchestrator) {id : String} (s : State) :
    Move id → State
  | .copy size => { s with world := { s.world with copy := c.step size s.world.copy } }
  | .poll fault now =>
    match s.phase with
    | .done _ => { s with phase := (Cycle.completionPhase config).run }
    | .call q next =>
      let (r, table) := answer fault now s.world.copy.2 q s.world.table
      { world := { s.world with table }, phase := next r }
  | .other call _ => { s with world := { s.world with table := (call.perform s.world.table).2 } }

/-- Where a schedule leads when the copy is still to begin. -/
def after (c : Copy) (config : Config.Orchestrator) (table : Table) (t : Tree) {id : String}
    (moves : List (Move id)) : State :=
  moves.foldl (State.move c config)
    { world := { table, copy := (.begun, t) }, phase := (Cycle.completionPhase config).run }

/-! ## What the phase can rely on -/

/-- The job has not been touched, or it has been completed and a marker is seen. -/
structure Faithful (c : Copy) (t : Tree) (job : Job) (w : World) : Prop where
  way : c.At t w.copy.1 w.copy.2
  row : ∃ r, w.table.Sole r ∧ r.id = .text job.id ∧ (r.toJob? = some job ∨
    r.state = .text JobState.completed.name ∧ c.MarkerSeen t w.copy.1)

/-- The terms on which the phase and the copy meet. -/
def terms (c : Copy) (t : Tree) (job : Job) : Discipline operationSignature World where
  inv := Faithful c t job
  answers q w r w' := ∃ fault now, answer fault now w.copy.2 q w.table = (r, w'.table) ∧
    w'.copy = w.copy
  rely w w' := c.MarkerSeen t w.copy.1 → c.MarkerSeen t w'.copy.1
  guarantee _ _ := True
  rely_refl _ := id
  rely_trans h h' := h' ∘ h

section Phase

variable {w : World} {β : Type} {Q : β → World → Prop} {q : Request}

theorem wpOk_asked {g : q.Reply → Operation β}
    (hq : ∀ fault now t table, (answer fault now t q table).2 = table)
    (h : ∀ w₁, (c.MarkerSeen t w.copy.1 → c.MarkerSeen t w₁.copy.1) → Faithful c t job w₁ →
      ∀ fault now, (terms c t job).wpOk (g (answer fault now w₁.copy.2 q w₁.table).1) Q w₁) :
    (terms c t job).wpOk (ask q >>= g) Q w := by
  rintro w₁ hrely hinv r ⟨table, copy⟩ ⟨fault, now, hanswer, rfl⟩
  have htable := hq fault now w₁.copy.2 w₁.table
  rw [hanswer] at htable
  obtain rfl : table = w₁.table := htable
  have hnext := h w₁ hrely hinv fault now
  rw [hanswer] at hnext
  exact ⟨hinv, trivial, hnext⟩

theorem wpOk_stored {call : Store.Call} {g : call.Answer → Operation β}
    (h : ∀ w₁ : World, (c.MarkerSeen t w.copy.1 → c.MarkerSeen t w₁.copy.1) → Faithful c t job w₁ →
      Faithful c t job { w₁ with table := (call.perform w₁.table).2 } ∧
      ∀ a, (call.perform w₁.table).1 = .ok a →
        (terms c t job).wpOk (g a) Q { w₁ with table := (call.perform w₁.table).2 }) :
    (terms c t job).wpOk (store call >>= g) Q w := by
  refine Discipline.wpOk_store ?_
  rintro w₁ hrely hinv r ⟨table, copy⟩ ⟨fault, now, hanswer, rfl⟩
  obtain ⟨hinv', hnext⟩ := h w₁ hrely hinv
  cases fault with
  | some e =>
      obtain ⟨rfl, rfl⟩ := Prod.mk.inj hanswer
      exact ⟨hinv, trivial, fun a ha => by cases ha⟩
  | none =>
      obtain ⟨rfl, rfl⟩ := Prod.mk.inj hanswer
      exact ⟨hinv', trivial, hnext⟩

theorem wpOk_count (counter : Counter) (n : Nat) (w : World) : (terms c t job).wpOk
    (count counter n) (fun _ w' => c.MarkerSeen t w.copy.1 → c.MarkerSeen t w'.copy.1) w := by
  rintro w₁ hrely₁ hinv r ⟨table, copy⟩ ⟨_, _, hanswer, rfl⟩
  obtain ⟨-, rfl⟩ := Prod.mk.inj hanswer
  exact ⟨hinv, trivial, fun _ hrely₂ _ _ _ h => hrely₂ (hrely₁ h)⟩

/-- The job is in no batch but as it was. -/
theorem Faithful.eq_of_next {jobs : List Job} {j : Job} {limit : Nat} (h : Faithful c t job w)
    (hjobs : w.table.next .acknowledged limit = .ok jobs) (hj : j ∈ jobs) (hid : j.id = job.id) :
    j = job := by
  obtain ⟨r, hsole, hrow, hstands⟩ := h.row
  obtain ⟨r', hmem, hstate, hread⟩ := exists_row_of_next hjobs hj
  have hid' : r'.id = r.id := by rw [(Row.shows_of_toJob? hread).id, hrow, hid]
  obtain rfl := hsole.eq_of_id r' hmem hid'
  rcases hstands with hjob | ⟨hcompleted, -⟩
  · exact Option.some.inj (hread.symm.trans hjob)
  · rw [hstate] at hcompleted
    exact absurd hcompleted (by decide)

theorem Faithful.spared {call : Store.Call} (h : Faithful c t job w) (hcall : call.Spares job.id) :
    Faithful c t job { w with table := (call.perform w.table).2 } := by
  obtain ⟨r, hsole, hrow, hstands⟩ := h.row
  exact ⟨h.way, r, hsole.perform hrow hcall, hrow, hstands⟩

theorem Faithful.update {after : Job} (h : Faithful c t job w) (hstate : after.state = .completed)
    (hseen : after.id = job.id → c.MarkerSeen t w.copy.1) :
    Faithful c t job { w with table := ((Call.update after).perform w.table).2 } := by
  by_cases hid : after.id = job.id
  · obtain ⟨r, hsole, hrow, -⟩ := h.row
    have hmatch : matchesJob after none r = true := by simp [matchesJob, hrow, hid]
    have hhits : w.table.hits after none = true := by
      rw [hsole.hits (by rw [hrow, hid]), hmatch]
    have hwrite := hsole.write after none
    rw [if_pos hmatch] at hwrite
    refine ⟨h.way, r.updatedFrom after, ?_, hrow, .inr ⟨?_, hseen hid⟩⟩
    · rw [Call.perform, Table.update, if_pos hhits]
      exact hwrite
    · show Cell.text after.state.name = _
      rw [hstate]
  · exact h.spared hid

/-- An answer stays true, so it may be old when it is used. -/
theorem wpOk_arrived (hwf : t.WellFormed) (hclear : c.Unmarked t) (hawaits : Awaits c job)
    (jobs : List Job) (hjobs : ∀ j ∈ jobs, j.id = job.id → j = job) (w : World) :
    (terms c t job).wpOk (Cycle.arrived jobs) (fun done w' =>
      (c.MarkerSeen t w.copy.1 → c.MarkerSeen t w'.copy.1) ∧
        ∀ j ∈ done, j.id = job.id → c.MarkerSeen t w'.copy.1) w := by
  induction jobs generalizing w with
  | nil =>
      refine Discipline.wpOk_pure fun w' hrely _ => ⟨hrely, fun j hj => ?_⟩
      cases hj
  | cons j rest ih =>
      refine wpOk_asked (fun _ _ _ _ => rfl) fun w₁ hrely₁ hinv _ _ => ?_
      have hverdict : verdict w₁.copy.2 j = true → j.id = job.id → c.MarkerSeen t w₁.copy.1 := by
        intro h hid
        rw [hjobs j List.mem_cons_self hid] at h
        exact (hinv.way.marked_iff hwf hclear).1 (marked_of_verdict hawaits h)
      have hrest := ih (fun k hk => hjobs k (List.mem_cons_of_mem _ hk)) w₁
      refine Discipline.wpOk_bind (Discipline.wpOk_mono (fun more w₂ _ hmore => ?_) hrest)
      obtain ⟨hrely₂, hmore⟩ := hmore
      refine Discipline.wpOk_pure fun w₃ hrely₃ _ => ?_
      refine ⟨fun h => hrely₃ (hrely₂ (hrely₁ h)), fun k hk hid => hrely₃ ?_⟩
      show c.MarkerSeen t w₂.copy.1
      cases hcomplete : verdict w₁.copy.2 j with
      | false =>
          rw [answer, hcomplete] at hk
          exact hmore k hk hid
      | true =>
          rw [answer, hcomplete] at hk
          rcases List.mem_cons.1 hk with rfl | hk
          · exact hrely₂ (hverdict hcomplete hid)
          · exact hmore k hk hid

theorem wpOk_complete {j : Job} (hseen : j.id = job.id → c.MarkerSeen t w.copy.1) :
    (terms c t job).wpOk (Cycle.complete j)
      (fun _ w' => c.MarkerSeen t w.copy.1 → c.MarkerSeen t w'.copy.1) w := by
  refine wpOk_asked (fun _ _ _ _ => rfl) fun w₁ hrely₁ _ _ _ => ?_
  refine Discipline.wpOk_move fun after hafter => ?_
  have hmoved := Job.move_ok hafter
  refine wpOk_stored fun w₂ hrely₂ hinv => ⟨?_, fun _ _ => ?_⟩
  · refine hinv.update hmoved.state fun hid => hrely₂ (hrely₁ (hseen ?_))
    rw [← hid, hmoved.id]
  · refine Discipline.wpOk_mono (fun _ w₃ _ hrely₃ h => hrely₃ (hrely₂ (hrely₁ h)))
      (wpOk_count (.stateTransitions after.state) 1 _)

theorem wpOk_completionPhase (hwf : t.WellFormed) (hclear : c.Unmarked t)
    (hawaits : Awaits c job) (config : Config.Orchestrator) (w : World) :
    (terms c t job).wpOk (Cycle.completionPhase config) (fun _ _ => True) w := by
  refine wpOk_stored fun w₁ _ hinv => ⟨hinv, fun jobs hjobs => ?_⟩
  dsimp only
  split
  · exact Discipline.wpOk_bind (Discipline.wpOk_throw _)
  · have harrived := wpOk_arrived hwf hclear hawaits jobs
      (fun j hj hid => hinv.eq_of_next hjobs hj hid) w₁
    refine Discipline.wpOk_bind (Discipline.wpOk_mono (fun done w₂ _ hdone => ?_) harrived)
    refine Discipline.wpOk_bind (Discipline.wpOk_mono (fun _ w₃ _ _ => ?_)
      (Discipline.wpOk_forEach (I := fun left w' => ∀ j ∈ left, j.id = job.id →
        c.MarkerSeen t w'.copy.1) ?_ ?_ done hdone.2))
    · refine Discipline.wpOk_bind (Discipline.wpOk_mono (fun _ _ _ _ => ?_)
        (wpOk_count (.jobsProcessed .completion) jobs.length w₃))
      exact Discipline.wpOk_pure fun _ _ _ => trivial
    · intro left w w' hrely hleft j hj hid
      exact hrely (hleft j hj hid)
    · intro j rest w₃ _ hleft
      refine Discipline.wpOk_mono (fun _ w₄ _ hrely k hk hid => ?_)
        (wpOk_complete fun hid => hleft j List.mem_cons_self hid)
      exact hrely (hleft k (List.mem_cons_of_mem _ hk) hid)

end Phase

/-! ## Any schedule -/

/-- The world is faithful to the copy, and whatever is left of the phase keeps it so. -/
structure Invariant (c : Copy) (t : Tree) (job : Job) (s : State) : Prop where
  faithful : Faithful c t job s.world
  keeps : (terms c t job).wp s.phase (fun _ _ => True) s.world

variable {config : Config.Orchestrator} {s : State}

theorem wp_completionPhase (hwf : t.WellFormed) (hclear : c.Unmarked t) (hawaits : Awaits c job)
    (config : Config.Orchestrator) (w : World) :
    (terms c t job).wp (Cycle.completionPhase config).run (fun _ _ => True) w :=
  Discipline.wp_mono (fun _ _ _ _ => trivial) (wpOk_completionPhase hwf hclear hawaits config w)

theorem Invariant.move (hwf : t.WellFormed) (hclear : c.Unmarked t) (hawaits : Awaits c job)
    (h : Invariant c t job s) (m : Move job.id) : Invariant c t job (s.move c config m) := by
  obtain ⟨hway, r, hsole, hrow, hstands⟩ := h.faithful
  cases m with
  | copy size =>
      have hseen : c.MarkerSeen t s.world.copy.1 → c.MarkerSeen t (c.step size s.world.copy).1 :=
        fun hshown => hshown.step size s.world.copy.2
      refine ⟨⟨hway.step size, r, hsole, hrow, ?_⟩, Discipline.wp_rely hseen h.keeps⟩
      exact hstands.imp_right fun hdone => ⟨hdone.1, hseen hdone.2⟩
  | poll fault now =>
      rw [State.move]
      split
      · exact ⟨h.faithful, wp_completionPhase hwf hclear hawaits config s.world⟩
      · next q next hphase =>
        have hcall := h.keeps
        rw [hphase] at hcall
        have hanswers : (terms c t job).answers q s.world
            (answer fault now s.world.copy.2 q s.world.table).1
            { s.world with table := (answer fault now s.world.copy.2 q s.world.table).2 } :=
          ⟨fault, now, rfl, rfl⟩
        obtain ⟨hinv, -, hnext⟩ := Discipline.wp_call hcall h.faithful hanswers
        exact ⟨hinv, hnext⟩
  | other call spares =>
      exact ⟨h.faithful.spared spares, Discipline.wp_rely (s := s.world) (fun h => h) h.keeps⟩

theorem invariant_after (config : Config.Orchestrator) (hwf : t.WellFormed) (hclear : c.Unmarked t)
    (hawaits : Awaits c job) {table : Table} (hkeeps : table.Keeps job)
    (moves : List (Move job.id)) :
    Invariant c t job (after c config table t moves) := by
  induction moves using List.reverseRecOn with
  | nil =>
      obtain ⟨r, hsole, hread⟩ := hkeeps
      refine ⟨⟨.begun, r, hsole, (Row.shows_of_toJob? hread).id, .inl hread⟩, ?_⟩
      exact wp_completionPhase hwf hclear hawaits config _
  | append_singleton moves m ih =>
      rw [after, List.foldl_append]
      exact ih.move hwf hclear hawaits m

def Completed (table : Table) (id : String) : Prop :=
  ∃ r, table.row? id = some r ∧ r.state = .text JobState.completed.name

theorem markerSeen_of_completed (hwf : t.WellFormed) (hclear : c.Unmarked t)
    (hawaits : Awaits c job) {table : Table} (hkeeps : table.Keeps job)
    (hstate : job.state = .acknowledged) (moves : List (Move job.id))
    (hcompleted : Completed (after c config table t moves).world.table job.id) :
    c.MarkerSeen t (after c config table t moves).world.copy.1 := by
  obtain ⟨r, hsole, hrow, hstands⟩ :=
    (invariant_after config hwf hclear hawaits hkeeps moves).faithful.row
  obtain ⟨r', hr', hdone⟩ := hcompleted
  obtain rfl : r = r' := Option.some.inj ((hsole.row? hrow).symm.trans hr')
  rcases hstands with hread | ⟨-, hseen⟩
  · have hstate' := (Row.shows_of_toJob? hread).state_eq
    rw [hdone, hstate] at hstate'
    exact absurd hstate' (by decide)
  · exact hseen

/-! ## What is seen of a copy -/

/-- What can be seen of a copy, and when the job of somebody who waits for it can have been
completed. -/
structure Sighted (c : Copy) (t : Tree) : Prop where
  seen : ∀ (r : ProvisionedResource) (sizes : List Nat),
    r.properties.get? "path" = some c.directory →
      (hasMarker (c.after sizes t).2 r = true ↔ c.MarkerSeen t (c.after sizes t).1)
  /-- The steps are those of the copy. -/
  ends : ∀ sizes, ∃ more, (c.after (sizes ++ more) t).1.result? = some (c.run t).1 ∧
    (c.after (sizes ++ more) t).2 = (c.run t).2
  /-- No copy that is started for a request makes a marker on the way to its directory. -/
  made : ∀ (f : FileFlow) (request : TransferRequest), f.plan t request = .ok c →
    ¬ c.MakesMarker t
  /-- The file is only taken for a marker if its name ends as one or is a link. -/
  opened : c.OpensMarker t → ∃ name, File.fileName? c.source = some name ∧
    (isMarker name = true ∨ ∃ D n target, t.entry? (D ++ [name]) = some (.link target) ∧
      isMarker n = true ∧ (t.createAll c.directory).2.canonicalize c.directory = .ok D ∧
      (t.createAll c.directory).2.place? (c.target name) = some (D ++ [n]))
  waited : ∀ (config : Config.Orchestrator) (table : Table) (job : Job) (s : String)
    (moves : List (Move job.id)), t.stat c.source = .ok (.file s) → Awaits c job →
    table.Keeps job → job.state = .acknowledged →
    Completed (after c config table t moves).world.table job.id →
      c.MakesMarker t ∨ c.OpensMarker t ∨
        (after c config table t moves).world.copy.1 = .marked ∧
          c.Whole t (after c config table t moves).world.copy.2

/-- Where no name in the directory ends as a marker's does, a marker is seen just when it is
there, but for the names that the copy itself brings; and but for these no job is completed
before the whole file has been written. -/
theorem completed_when_whole (hwf : t.WellFormed) (hclear : c.Unmarked t) : Sighted c t := by
  constructor
  case seen => exact fun r sizes hpath => Copy.hasMarker_after_iff hwf hclear hpath sizes
  case ends => exact fun sizes => c.run_of_steps sizes t
  case made => exact fun f request hplan => Copy.not_makesMarker (planned hwf hplan) hclear
  case opened => exact fun h => h.named hwf
  case waited =>
    intro config table job s moves hsource hawaits hkeeps hstate hcompleted
    have hway := (invariant_after config hwf hclear hawaits hkeeps moves).faithful.way
    have hseen := markerSeen_of_completed hwf hclear hawaits hkeeps hstate moves hcompleted
    by_cases hopens : c.OpensMarker t
    · exact .inr (.inl hopens)
    rcases hseen with ⟨-, hmakes⟩ | ⟨-, h⟩ | ⟨hmarked, hne⟩
    · exact .inl hmakes
    · exact absurd h hopens
    · rw [hmarked] at hway
      exact .inr (.inr ⟨hmarked, hway.whole hwf hclear hsource hopens hne⟩)

/-! ### A file that is called as a marker -/

/-- A file with this name is to be copied into a directory that is still to be made. -/
def unsent (name : String) : Tree where
  entries := [(["outbox"], .directory), (["outbox", name], .file "data"), (["inbox"], .directory)]

def intoInbox (name : String) : Copy := ⟨"outbox/" ++ name, "inbox/d", "t"⟩

/-- The destination of the job that waits for the directory. -/
def inboxResource : ProvisionedResource where
  id := "r"
  definitionId := "d"
  kind := localDirectory
  isDestination := true
  properties := .ofList [("path", "inbox/d")]

def waitingJob : Job where
  id := "job"
  correlationId := "t"
  role := .initiator
  state := .acknowledged
  request := { id := "t", destination := { kind := localDirectory } }
  resources := [inboxResource]
  createdAt := .epoch
  stateTimestamp := .epoch

def waitingTable : Table :=
  ⟨[Row.ofJob waitingJob]⟩

theorem awaits_waiting (name : String) : Awaits (intoInbox name) waitingJob := by
  intro r hr _ _
  obtain rfl := List.mem_singleton.1 hr
  show inboxResource.properties.get? "path" = some "inbox/d"
  decide +kernel

theorem reads_waiting : (Row.ofJob waitingJob).Reads waitingJob :=
  Row.reads_ofJob_epoch rfl rfl

theorem keeps_waiting : waitingTable.Keeps waitingJob :=
  Table.keeps_ofJob reads_waiting

theorem next_waiting : waitingTable.next .acknowledged 5 = .ok [waitingJob] :=
  next_single reads_waiting.toJob? (by decide)

def waitingDone : Job :=
  { waitingJob with state := .completed }

/-- The calls of a phase that finds the job, and finds that it is done. -/
theorem calls_waiting : ∃ asked told timed stored,
    (Cycle.completionPhase {}).run = .call (.store (.next .acknowledged 5)) asked ∧
    asked (.ok [waitingJob]) = .call (.isComplete waitingJob) told ∧
    told true = .call .now timed ∧
    timed .epoch = .call (.store (.update waitingDone)) stored :=
  ⟨_, _, _, _, rfl, rfl, rfl, rfl⟩

def wholePhase : List (Move waitingJob.id) :=
  List.replicate 4 (.poll none .epoch)

/-- A phase that begins when a marker is seen completes the job. -/
theorem completed_in_phase {s : State} (htable : s.world.table = waitingTable)
    (hphase : s.phase = (Cycle.completionPhase {}).run)
    (hverdict : verdict s.world.copy.2 waitingJob = true) :
    Completed (wholePhase.foldl (State.move c {}) s).world.table waitingJob.id := by
  obtain ⟨asked, told, timed, stored, hrun, hasked, htold, htimed⟩ := calls_waiting
  rw [hrun] at hphase
  have hdone : (wholePhase.foldl (State.move c {}) s).world.table =
      ((Call.update waitingDone).perform waitingTable).2 := by
    simp only [wholePhase, List.replicate, List.foldl_cons, List.foldl_nil, State.move, hphase,
      answer, htable, Call.perform, next_waiting, hasked, hverdict, htold, Handoff.reply, htimed]
  rw [hdone]
  exact ⟨_, rfl, rfl⟩

theorem copy_wholePhase (c : Copy) (s : State) :
    (wholePhase.foldl (State.move c {}) s).world.copy = s.world.copy := by
  have hpoll : ∀ s : State, (s.move c {} (.poll none .epoch : Move waitingJob.id)).world.copy =
      s.world.copy := by
    intro s
    rw [State.move]
    split <;> rfl
  simp only [wholePhase, List.replicate, List.foldl_cons, List.foldl_nil, hpoll]

def thenPhase (sizes : List Nat) : List (Move waitingJob.id) :=
  sizes.map .copy ++ wholePhase

theorem after_thenPhase (c : Copy) (t : Tree) (sizes : List Nat) :
    after c {} waitingTable t (thenPhase sizes) = wholePhase.foldl (State.move c {})
      ⟨⟨waitingTable, c.after sizes t⟩, (Cycle.completionPhase {}).run⟩ := by
  have hcopies : ∀ p, (sizes.map fun size => (.copy size : Move waitingJob.id)).foldl
      (State.move c {}) ⟨⟨waitingTable, p⟩, (Cycle.completionPhase {}).run⟩ =
        ⟨⟨waitingTable, c.steps sizes p⟩, (Cycle.completionPhase {}).run⟩ := by
    induction sizes with
    | nil => exact fun _ => rfl
    | cons size sizes ih => exact fun p => ih _
  rw [after, thenPhase, List.foldl_append, hcopies]
  rfl

theorem wellFormed_text : (unsent "a.txt").WellFormed :=
  File.Tree.wellFormed_of_entries (by decide) rfl

theorem wellFormed_complete : (unsent "a.complete").WellFormed :=
  File.Tree.wellFormed_of_entries (by decide) rfl

/-- There is nothing in a directory that is still to be made. -/
theorem unmarked_of_missing {D : File.Location} (hwf : t.WellFormed)
    (hD : (t.createAll c.directory).2.canonicalize c.directory = .ok D)
    (hnone : t.entry? D = none) : c.Unmarked t := by
  intro D' n hD' _
  obtain rfl : D = D' := Except.ok.inj (hD.symm.trans hD')
  exact hwf.none_below hnone n

theorem unmarked_text : (intoInbox "a.txt").Unmarked (unsent "a.txt") :=
  unmarked_of_missing (D := ["inbox", "d"]) wellFormed_text (by decide +kernel) rfl

theorem unmarked_complete : (intoInbox "a.complete").Unmarked (unsent "a.complete") :=
  unmarked_of_missing (D := ["inbox", "d"]) wellFormed_complete (by decide +kernel) rfl

theorem completed_when_whole_text :
    (unsent "a.txt").WellFormed ∧ (intoInbox "a.txt").Unmarked (unsent "a.txt") ∧
    Completed (after (intoInbox "a.txt") {} waitingTable (unsent "a.txt")
      (thenPhase [0, 0, 4, 0])).world.table waitingJob.id ∧
    Sighted (intoInbox "a.txt") (unsent "a.txt") := by
  refine ⟨wellFormed_text, unmarked_text, ?_, completed_when_whole wellFormed_text unmarked_text⟩
  rw [after_thenPhase]
  exact completed_in_phase rfl rfl (by decide +kernel)

theorem source_complete : (unsent "a.complete").stat (intoInbox "a.complete").source =
    .ok (.file "data") := by
  decide +kernel

/-- When the target has just been opened it is empty. -/
theorem not_whole_opened : ¬ (intoInbox "a.complete").Whole (unsent "a.complete")
    ((intoInbox "a.complete").after [0, 0] (unsent "a.complete")).2 := by
  rintro ⟨name, l, s, hname, hl, hfile, hheld⟩
  obtain rfl : "a.complete" = name := Option.some.inj hname
  have hplace : ((intoInbox "a.complete").after [0, 0] (unsent "a.complete")).2.place?
      ((intoInbox "a.complete").target "a.complete") = some ["inbox", "d", "a.complete"] := by
    decide +kernel
  have hempty : ((intoInbox "a.complete").after [0, 0] (unsent "a.complete")).2.stat
      ((intoInbox "a.complete").target "a.complete") = .ok (.file "") := by
    decide +kernel
  rcases hheld with hsame | hwritten
  · have hnothing : Tree.entry? (unsent "a.complete") ["inbox", "d", "a.complete"] = none := by
      decide
    rw [← Option.some.inj (hsame.symm.trans hplace), hfile] at hnothing
    cases hnothing
  · have hdata : File.Entry.file "data" = .file s := Except.ok.inj (source_complete.symm.trans
      (File.Tree.stat_of_place? (File.Tree.place?_of_canonicalize hl) hfile))
    have hnone : File.Entry.file "" = .file s := Except.ok.inj (hempty.symm.trans hwritten)
    exact absurd (hdata.trans hnone.symm) (by decide)

/-- A marker is seen, and the job is completed, when the file has been opened but nothing has
been written yet. -/
theorem completed_before_written :
    (¬ ∀ (c : Copy) (t : Tree) (s : String) (r : ProvisionedResource) (sizes : List Nat),
      t.WellFormed → t.stat c.source = .ok (.file s) → c.directory ≠ "" → c.Unmarked t →
      r.properties.get? "path" = some c.directory →
      (hasMarker (c.after sizes t).2 r = true ↔ (c.after sizes t).1 = .marked)) ∧
    ¬ ∀ (c : Copy) (t : Tree) (s : String) (config : Config.Orchestrator) (table : Table)
      (job : Job) (moves : List (Move job.id)),
      t.WellFormed → t.stat c.source = .ok (.file s) → c.directory ≠ "" → c.Unmarked t →
      Awaits c job → table.Keeps job → job.role = .initiator → job.state = .acknowledged →
      Completed (after c config table t moves).world.table job.id →
      c.Whole t (after c config table t moves).world.copy.2 := by
  constructor
  · intro h
    have hiff := h (intoInbox "a.complete") (unsent "a.complete") "data" inboxResource [0, 0]
      wellFormed_complete source_complete (by decide) unmarked_complete (by decide +kernel)
    have hseen : hasMarker ((intoInbox "a.complete").after [0, 0] (unsent "a.complete")).2
        inboxResource = true := by decide +kernel
    have hpoint : ((intoInbox "a.complete").after [0, 0] (unsent "a.complete")).1 ≠ .marked := by
      decide +kernel
    exact hpoint (hiff.1 hseen)
  · intro h
    have hwhole := h (intoInbox "a.complete") (unsent "a.complete") "data" {} waitingTable
      waitingJob (thenPhase [0, 0]) wellFormed_complete source_complete (by decide)
      unmarked_complete (awaits_waiting _) keeps_waiting rfl rfl
    rw [after_thenPhase] at hwhole
    have hopened := hwhole (completed_in_phase rfl rfl (by decide +kernel))
    rw [copy_wholePhase] at hopened
    exact not_whole_opened hopened

end Ferry.Sighting
