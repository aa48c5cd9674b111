import Ferry.Proofs.Service.Lifecycle
import Ferry.Proofs.Service.Callbacks

/-!
# What a peer is told

Whoever sends a request is told that it was taken once there is a job for it. The
task that tells it does so last and is then done, and nobody else tells it
anything. That the job is there by then is a matter of what a task may find in the
table, and that of every job the table goes on to tell the same request and the
same side.

Nothing is said of the side the job is on. A request that this process has sent out
itself has a job already, and it is that job's id that a peer is given who sends
the request back.
-/

namespace Ferry.Service

open Operation World

variable {w w' : World} {s s' : Service} {c id : String}

/-! ## Jobs that were taken on -/

namespace World

/-- There is a job with the id for the request. -/
def Stores (w : World) (correlationId id : String) : Prop :=
  ∃ st, w.standing? id = some st ∧ st.correlationId = correlationId

/-- There is an executor's job with the id for the request. -/
def Executes (w : World) (correlationId id : String) : Prop :=
  ∃ st, w.standing? id = some st ∧ st.correlationId = correlationId ∧ st.role = .executor

/-- This side has sent the request out itself, or is about to. -/
def Initiates (w : World) (correlationId : String) : Prop :=
  ∃ id st, w.standing? id = some st ∧ st.correlationId = correlationId ∧ st.role = .initiator

/-- Whatever was refused as a duplicate was refused under its own correlation id. -/
def DuplicatesMatch (w : World) : Prop :=
  ∀ job c, (⟨.store (.create job), .error (.duplicateCorrelationId c)⟩ : Exchange) ∈ w.journal →
    c = job.correlationId

theorem Stores.advances (h : w.Stores c id) (ha : w.Advances w') : w'.Stores c id := by
  obtain ⟨st, hst, hc⟩ := h
  obtain ⟨st', hst', hleads⟩ := ha id st hst
  exact ⟨st', hst', hleads.correlationId.trans hc⟩

theorem Initiates.advances (h : w.Initiates c) (ha : w.Advances w') : w'.Initiates c := by
  obtain ⟨id, st, hst, hc, hrole⟩ := h
  obtain ⟨st', hst', hleads⟩ := ha id st hst
  exact ⟨id, st', hst', hleads.correlationId.trans hc, hleads.role.trans hrole⟩

/-- A job is an executor's unless this side has sent the request out itself. -/
theorem executes_iff (hs : w.Sound) (h : w.Stores c id) : w.Executes c id ↔ ¬ w.Initiates c := by
  constructor
  · rintro ⟨st, hst, hc, hrole⟩ ⟨id', st', hst', hc', hrole'⟩
    obtain rfl := hs.table.id_unique hst hst' (hc.trans hc'.symm)
    obtain rfl : st = st' := Option.some.inj (hst.symm.trans hst')
    rw [hrole] at hrole'
    cases hrole'
  · intro hnot
    obtain ⟨st, hst, hc⟩ := h
    refine ⟨st, hst, hc, ?_⟩
    cases hrole : st.role with
    | executor => rfl
    | initiator => exact absurd ⟨id, st, hst, hc, hrole⟩ hnot

end World

/-! ## What a task may find -/

/-- What matters to a task that takes on a transfer: whatever anybody does, itself
included, jobs go on from where they were. -/
def progress : Discipline operationSignature World where
  inv := World.Sound
  answers q w r w' := Answers q w r w' ∧ w'.Sound ∧ w.Advances w' ∧ w'.DuplicatesMatch
  rely := World.Advances
  guarantee _ _ := True
  rely_refl := .refl
  rely_trans := .trans

theorem wpOk_ask_progress {α : Type} {q : Request} {g : q.Reply → Operation α}
    {Q : α → World → Prop}
    (h : ∀ w₁ r w₂, w.Advances w₁ → w₁.Sound → Answers q w₁ r w₂ → w₁.Advances w₂ → w₂.Sound →
      w₂.DuplicatesMatch → progress.wpOk (g r) Q w₂) : progress.wpOk (ask q >>= g) Q w := by
  refine Discipline.wpOk_ask fun w₁ hrely hs r w₂ hans => ?_
  obtain ⟨hans, hs₂, hadvances, hmatch⟩ := hans
  exact ⟨hs₂, trivial, h w₁ r w₂ hrely hs hans hadvances hs₂ hmatch⟩

/-- The job that is found for a request is there from then on. -/
theorem wpOk_findId {α : Type} {g : Option String → Operation α} {Q : α → World → Prop}
    (h : ∀ found w', (∀ id, found = some id → w'.Stores c id) →
      progress.wpOk (g found) Q w') :
    progress.wpOk (store (.findId c) >>= g) Q w := by
  refine Discipline.wpOk_store fun w₁ _ hs r w₂ hans => ?_
  obtain ⟨hans, hs₂, hadvances, -⟩ := hans
  refine ⟨hs₂, trivial, ?_⟩
  rintro found rfl
  refine h found w₂ fun id hid => ?_
  have hread := hans.perform_eq
  rw [hid] at hread
  exact Stores.advances (Store.Table.findId_some hs.table hread) hadvances

theorem wpOk_pure_stores (h : w.Stores c id) :
    progress.wpOk (pure id) (fun id w' => w'.Stores c id) w :=
  Discipline.wpOk_pure fun _ hrely _ => h.advances hrely

/-- Whoever takes on a transfer is given the id of a job for it. -/
theorem wpOk_taken (role : Role) (request : TransferRequest) :
    progress.wpOk (initiate role request) (fun id w' => w'.Stores request.id id) w := by
  rw [initiate]
  split
  · exact Discipline.wpOk_bind (Discipline.wpOk_throw _)
  · refine wpOk_findId fun found w₁ hfound => ?_
    cases found with
    | some id => exact wpOk_pure_stores (hfound id rfl)
    | none =>
        refine wpOk_ask_progress fun _ id w₂ _ _ _ _ _ _ => ?_
        refine wpOk_ask_progress fun _ now w₃ _ _ _ _ _ _ => ?_
        refine wpOk_ask_progress fun w₄ r w₅ _ hs₄ hans _ _ hmatch => ?_
        cases r with
        | ok _ =>
            obtain ⟨-, hwrites⟩ := Answers.created hs₄ rfl hans
            have hstores : w₅.Stores request.id id := ⟨_, hwrites.standing?_self, rfl⟩
            refine wpOk_ask_progress fun _ _ w₆ hrely₆ _ _ hcall₆ _ _ => ?_
            refine wpOk_ask_progress fun _ _ w₇ hrely₇ _ _ hcall₇ _ _ => ?_
            have hrely := (hrely₆.trans hcall₆).trans (hrely₇.trans hcall₇)
            exact wpOk_pure_stores (hstores.advances hrely)
        | error e =>
            cases e with
            | duplicateCorrelationId c =>
                obtain rfl : c = request.id := hmatch _ c (by
                  rw [hans.2]
                  exact List.mem_cons_self)
                refine wpOk_findId fun found w₆ hfound => ?_
                cases found with
                | some id => exact wpOk_pure_stores (hfound id rfl)
                | none => exact Discipline.wpOk_throw _
            | notFound _ | invalidTransition _ _ _ _ | unknownState _ | unknownRole _
            | database _ => exact Discipline.wpOk_throw _

theorem wpOk_received (inbound : InboundTransfer) :
    progress.wpOk (receive inbound) (fun id w' => w'.Stores inbound.request.id id) w := by
  refine Discipline.wpOk_bind (Discipline.wpOk_mono (fun id w₁ _ hstores => ?_)
    (wpOk_taken .executor inbound.request))
  split
  · exact wpOk_pure_stores hstores
  · refine wpOk_ask_progress fun _ _ w₂ hrely _ _ hcall _ _ => ?_
    exact wpOk_pure_stores (hstores.advances (hrely.trans hcall))

/-! ## Tasks -/

namespace Errand

/-- The errand may acknowledge to this address and id and then end with this answer. -/
def MayAcknowledge : (e : Errand) → (address processId : String) → e.Answer → Prop
  | receive inbound, a, p, result =>
    inbound.callbackAddress = some a ∧ inbound.processId = p ∧ ∃ id, result = .ok id
  | _, _, _, _ => False

/-- The answer of the errand is true of the world: an id it gives is that of a job for the
request. -/
def AnswerHolds : (e : Errand) → e.Answer → World → Prop
  | receive inbound, result, w => ∀ id, result = .ok id → w.Stores inbound.request.id id
  | _, _, _ => True

end Errand

theorem acknowledgesLast_receive (inbound : InboundTransfer) :
    AcknowledgesLast (Errand.receive inbound).MayAcknowledge (receive inbound).run := by
  refine AcknowledgesLast.bind (neverAcknowledges_initiate .executor inbound.request)
    fun result => ?_
  cases result with
  | error e => trivial
  | ok id =>
      rw [ExceptT.bindCont]
      split
      · trivial
      · next address haddress =>
        refine ⟨fun a p hq => ?_, fun _ => trivial⟩
        obtain ⟨rfl, rfl⟩ : address = a ∧ inbound.processId = p :=
          Request.acknowledge.inj hq
        exact ⟨.ok id, fun _ => rfl, haddress, rfl, id, rfl⟩

theorem acknowledgesLast_errand (e : Errand) : AcknowledgesLast e.MayAcknowledge e.program := by
  cases e with
  | finish c failure rounds => exact neverAcknowledges_finish c failure rounds
  | acknowledge id => exact neverAcknowledges_acknowledge id
  | initiate role request => exact neverAcknowledges_initiate role request
  | receive inbound => exact acknowledgesLast_receive inbound

/-- A program keeps to these terms by itself. -/
theorem wp_progress {α : Type} (f : Activity α) : progress.wp f (fun _ _ => True) w := by
  induction f generalizing w with
  | done a => exact fun _ _ _ => trivial
  | call q next ih => exact fun _ _ _ r _ hans => ⟨hans.2.1, trivial, ih r⟩

theorem wp_done (e : Errand) : progress.wp e.program e.AnswerHolds w := by
  cases e with
  | finish c failure rounds => exact wp_progress _
  | acknowledge id => exact wp_progress _
  | initiate role request => exact wp_progress _
  | receive inbound => exact wpOk_received inbound

/-! ## Runs -/

/-- The worker and the writer have no acknowledgment left, each task has one at most, as its last
call, and its answer will be true. -/
structure AcknowledgesInOrder (s : Service) : Prop where
  worker : NeverAcknowledges s.worker
  writer : NeverAcknowledges s.writer
  tasks : ∀ t ∈ s.tasks, AcknowledgesLast t.errand.MayAcknowledge t.rest ∧
    progress.wp t.rest t.errand.AnswerHolds s.world

theorem acknowledgesInOrder_empty : AcknowledgesInOrder {} where
  worker := trivial
  writer := trivial
  tasks := by simp

theorem acknowledgesInOrder_arrives (e : Errand) {tasks : List Task}
    (h : ∀ t ∈ tasks, AcknowledgesLast t.errand.MayAcknowledge t.rest ∧
      progress.wp t.rest t.errand.AnswerHolds w) :
    ∀ t ∈ tasks ++ [e.task], AcknowledgesLast t.errand.MayAcknowledge t.rest ∧
      progress.wp t.rest t.errand.AnswerHolds w := by
  exact List.forall_mem_append.2
    ⟨h, List.forall_mem_singleton.2 ⟨acknowledgesLast_errand e, wp_done e⟩⟩

theorem acknowledgesInOrder_step (h : AcknowledgesInOrder s) (hs : s.world.Sound)
    (hs' : s'.world.Sound) (hadvances : s.world.Advances s'.world)
    (hmatch : s'.world.DuplicatesMatch) (hstep : Step s s') : AcknowledgesInOrder s' := by
  have hthen : ∀ t ∈ s.tasks, AcknowledgesLast t.errand.MayAcknowledge t.rest ∧
      progress.wp t.rest t.errand.AnswerHolds s'.world :=
    fun t ht => ⟨(h.tasks t ht).1, Discipline.wp_rely hadvances (h.tasks t ht).2⟩
  cases hstep with
  | begin config idle => exact ⟨neverAcknowledges_cycle config, h.writer, hthen⟩
  | work turn r admits =>
      have hworker := h.worker
      rw [turn] at hworker
      exact ⟨hworker.2 r, h.writer, hthen⟩
  | publish outcome asked => exact ⟨h.worker, h.writer, hthen⟩
  | @take response rest result idle inbox =>
      exact ⟨h.worker, neverAcknowledges_applyResponse response, hthen⟩
  | write turn r admits =>
      have hwriter := h.writer
      rw [turn] at hwriter
      exact ⟨h.worker, hwriter.2 r, hthen⟩
  | flowEnds failure rounds flows => exact ⟨h.worker, h.writer, acknowledgesInOrder_arrives _ hthen⟩
  | arrive errand outside => exact ⟨h.worker, h.writer, acknowledgesInOrder_arrives errand hthen⟩
  | @serve before after errand q next turn r admits =>
      rw [turn, List.forall_mem_append, List.forall_mem_cons] at hthen
      obtain ⟨hbefore, -, hlater⟩ := hthen
      refine ⟨h.worker, h.writer, List.forall_mem_append.2
        ⟨hbefore, List.forall_mem_cons.2 ⟨?_, hlater⟩⟩⟩
      obtain ⟨hlast, hwp⟩ := h.tasks ⟨errand, .call q next⟩ (by simp [turn])
      exact ⟨hlast.2 r,
        (Discipline.wp_call hwp hs ⟨⟨admits, rfl⟩, hs', hadvances, hmatch⟩).2.2⟩
  | restart => exact ⟨trivial, trivial, by simp⟩

/-- Nothing is ever struck out of the journal. -/
theorem journal_suffix_step (hstep : Step s s') : s.world.journal <:+ s'.world.journal := by
  have hafter : ∀ (q : Request) (r : q.Reply),
      s.world.journal <:+ (s.world.after q r).journal := fun q r => List.suffix_cons _ _
  cases hstep with
  | work turn r admits => exact hafter _ r
  | write turn r admits => exact hafter _ r
  | serve turn r admits => exact hafter _ r
  | begin _ _ | publish _ _ | take _ _ | flowEnds _ _ _ | arrive _ _ | restart =>
      exact List.suffix_refl _

theorem duplicatesMatch_of_suffix (h : w'.DuplicatesMatch) (hsuffix : w.journal <:+ w'.journal) :
    w.DuplicatesMatch :=
  fun job c hmem => h job c (hsuffix.subset hmem)

theorem journal_suffix_chain {later : List Service} (hsteps : (s :: later).IsChain Step) :
    ∀ t ∈ s :: later,
      t.world.journal <:+ ((s :: later).getLast (List.cons_ne_nil _ _)).world.journal :=
  hsteps.backwards_induction _ _ (fun _ _ hstep h => (journal_suffix_step hstep).trans h)
    fun _ => List.suffix_refl _

theorem acknowledgesInOrder_chain {later : List Service} (h : AcknowledgesInOrder s)
    (hord : InOrder s) (hmatch : ∀ t ∈ s :: later, t.world.DuplicatesMatch)
    (hsteps : (s :: later).IsChain Step) :
    ∀ t ∈ s :: later, AcknowledgesInOrder t := by
  induction later generalizing s with
  | nil => simpa using h
  | cons s' later ih =>
      obtain ⟨hstep, hrest⟩ := List.isChain_cons_cons.1 hsteps
      obtain ⟨hord', hlegal⟩ := inOrder_step hord hstep
      have h' := acknowledgesInOrder_step h hord.sound hord'.sound hlegal.advances
        (hmatch s' (by simp)) hstep
      intro t ht
      rcases List.mem_cons.1 ht with rfl | ht
      · exact h
      · exact ih h' hord' (fun t ht => hmatch t (List.mem_cons_of_mem _ ht)) hrest t ht

theorem Run.acknowledgesInOrder (run : Run) (hmatch : run.last.world.DuplicatesMatch) :
    ∀ s ∈ run.states, AcknowledgesInOrder s := by
  refine acknowledgesInOrder_chain acknowledgesInOrder_empty inOrder_empty
    (fun t ht => ?_) run.steps
  exact duplicatesMatch_of_suffix hmatch (journal_suffix_chain run.steps t ht)

/-- Somebody has sent the request and was answered with the id. -/
def AnsweredWith (s : Service) (inbound : InboundTransfer) (id : String) : Prop :=
  (⟨.receive inbound, .done (.ok id)⟩ : Task) ∈ s.tasks

/-- Whoever sends a request is answered with the id of such a job for it, and every
acknowledgment goes to the sender of a request when such a job is there, as the last call before
the answer. -/
structure AcknowledgesJobs (run : Run) (Job : World → (correlationId id : String) → Prop) :
    Prop where
  answered : ∀ s ∈ run.states, ∀ inbound id, s.AnsweredWith inbound id →
    Job s.world inbound.request.id id
  acknowledged : ∀ before s s' later, run.states = before ++ s :: s' :: later →
    ∀ a p, s'.world.journal = ⟨.acknowledge a p, ()⟩ :: s.world.journal →
      ∃ inbound id, inbound.callbackAddress = some a ∧ inbound.processId = p ∧
        s'.AnsweredWith inbound id ∧ Job s.world inbound.request.id id

/-- The call that was made last is known from the journal. -/
theorem call_eq_acknowledge {q : Request} {r : q.Reply} {a p : String}
    (h : (w.after q r).journal = ⟨.acknowledge a p, ()⟩ :: w.journal) : q = .acknowledge a p :=
  (Exchange.mk.inj (List.cons.inj h).1).1

theorem acknowledged_step {a p : String} (h : AcknowledgesInOrder s) (hs : s.world.Sound)
    (hs' : s'.world.Sound) (hadvances : s.world.Advances s'.world)
    (hmatch : s'.world.DuplicatesMatch) (hstep : Step s s')
    (hack : s'.world.journal = ⟨.acknowledge a p, ()⟩ :: s.world.journal) :
    ∃ inbound id, inbound.callbackAddress = some a ∧ inbound.processId = p ∧
      s'.AnsweredWith inbound id ∧ s.world.Stores inbound.request.id id := by
  cases hstep with
  | work turn r admits =>
      have hworker := h.worker
      rw [turn] at hworker
      exact absurd (call_eq_acknowledge hack) (hworker.ne_acknowledge a p)
  | write turn r admits =>
      have hwriter := h.writer
      rw [turn] at hwriter
      exact absurd (call_eq_acknowledge hack) (hwriter.ne_acknowledge a p)
  | @serve before after errand q next turn r admits =>
      obtain ⟨hlast, hwp⟩ := h.tasks ⟨errand, .call q next⟩ (by simp [turn])
      have hq := call_eq_acknowledge hack
      obtain ⟨result, hnext, hmay⟩ := hlast.1 a p hq
      have hdone := (Discipline.wp_call hwp hs ⟨⟨admits, rfl⟩, hs', hadvances, hmatch⟩).2.2
      rw [hnext r] at hdone
      have hfits := hdone _ (.refl _) hs'
      cases errand with
      | finish _ _ _ => exact hmay.elim
      | acknowledge _ => exact hmay.elim
      | initiate _ _ => exact hmay.elim
      | receive inbound =>
          obtain ⟨haddress, hprocess, id, rfl⟩ := hmay
          subst hq
          refine ⟨inbound, id, haddress, hprocess, ?_, hfits id rfl⟩
          rw [AnsweredWith, hnext r]
          simp
  | begin _ _ | publish _ _ | take _ _ | flowEnds _ _ _ | arrive _ _ | restart =>
      exact absurd hack.symm (List.cons_ne_self _ _)

theorem Run.step_of_split {run : Run} {before later : List Service}
    (h : run.states = before ++ s :: s' :: later) :
    s ∈ run.states ∧ s' ∈ run.states ∧ Step s s' := by
  have hsteps : run.states.IsChain Step := run.steps
  rw [h] at hsteps
  exact ⟨by simp [h], by simp [h], (List.isChain_cons_cons.1 hsteps.right_of_append).1⟩

/-- In every run, a peer is told of a job that is there. It is the executor's job in all
cases exactly if nobody is answered for a request that this side has sent out itself. -/
theorem told_of_jobs (run : Run) (hmatch : run.last.world.DuplicatesMatch) :
    AcknowledgesJobs run Stores ∧
      (AcknowledgesJobs run Executes ↔ ∀ s ∈ run.states, ∀ inbound id, s.AnsweredWith inbound id →
        ¬ s.world.Initiates inbound.request.id) := by
  obtain ⟨hord, -⟩ := inOrder_chain inOrder_empty run.steps
  have hdiscreet := run.acknowledgesInOrder hmatch
  have hstores : AcknowledgesJobs run Stores := by
    constructor
    · intro s hs inbound id hanswered
      exact (hdiscreet s hs).tasks _ hanswered |>.2 _ (.refl _) (hord s hs).sound id rfl
    · intro before s s' later hsplit a p hack
      obtain ⟨hs, hs', hstep⟩ := Run.step_of_split hsplit
      have hmatch' := duplicatesMatch_of_suffix hmatch (journal_suffix_chain run.steps s' hs')
      exact acknowledged_step (hdiscreet s hs) (hord s hs).sound (hord s' hs').sound
        (inOrder_step (hord s hs) hstep).2.advances hmatch' hstep hack
  refine ⟨hstores, fun hacks s hs inbound id hanswered => ?_, fun hnot => ⟨?_, ?_⟩⟩
  · exact (executes_iff (hord s hs).sound (hstores.answered s hs inbound id hanswered)).1
      (hacks.answered s hs inbound id hanswered)
  · intro s hs inbound id hanswered
    exact (executes_iff (hord s hs).sound (hstores.answered s hs inbound id hanswered)).2
      (hnot s hs inbound id hanswered)
  · intro before s s' later hsplit a p hack
    obtain ⟨hs, hs', hstep⟩ := Run.step_of_split hsplit
    obtain ⟨inbound, id, haddress, hprocess, hanswered, hjob⟩ :=
      hstores.acknowledged before s s' later hsplit a p hack
    refine ⟨inbound, id, haddress, hprocess, hanswered, (executes_iff (hord s hs).sound hjob).2 ?_⟩
    intro hinitiates
    exact hnot s' hs' inbound id hanswered
      (hinitiates.advances (inOrder_step (hord s hs) hstep).2.advances)

/-! ## A transfer that comes back -/

/-- The reply to a call when nothing goes wrong. -/
def World.reply (w : World) : (q : Request) → q.Reply
  | .store c => (c.perform w.table).1
  | .provision _ | .send .. => .ok ()
  | .startFlow _ => .ok
  | .acknowledge .. | .count .. | .overflow => ()
  | .isComplete _ | .isRunning => true
  | .now => .epoch
  | .freshId => "j"

theorem admits_reply (w : World) (q : Request) : w.Admits q (w.reply q) := by
  cases q with
  | store c => exact .inl rfl
  | provision _ | send _ _ | startFlow _ | acknowledge _ _ | count _ _ | isComplete _
  | isRunning | overflow | now | freshId => trivial

/-- The task that came last makes its next call. -/
def served (s : Service) : Service :=
  match s.tasks.getLast? with
  | some ⟨e, .call q next⟩ =>
    { s with
      world := s.world.after q (s.world.reply q)
      tasks := s.tasks.dropLast ++ [⟨e, next (s.world.reply q)⟩] }
  | _ => s

theorem step_served {e : Errand} {q : Request} {next : q.Reply → Activity e.Answer}
    (h : s.tasks.getLast? = some ⟨e, .call q next⟩) : Step s s.served := by
  rw [served, h]
  obtain ⟨before, hlast⟩ := List.getLast?_eq_some_iff.1 h
  refine .serve ?_ (s.world.reply q) (admits_reply s.world q)
  rw [hlast, List.dropLast_concat]

/-- What this process posts to itself. -/
def loop : InboundTransfer where
  request := { id := "a", destination := { kind := localDirectory } }
  processId := "p"
  callbackAddress := some "http://peer.example:8080"

/-- A client asks for the transfer. -/
def loopAsked : Service :=
  { tasks := [(Errand.initiate .initiator loop.request).task] }

/-- There is a job for it, and now the request comes back. -/
def loopPosted : Service :=
  let s := loopAsked.served.served.served.served
  { s with tasks := s.tasks ++ [(Errand.receive loop).task] }

def loopRun : Run where
  later := List.iterate served loopAsked 5 ++ List.iterate served loopPosted 3
  steps := .cons_cons (.arrive _ trivial) <|
    .cons_cons (step_served rfl) <| .cons_cons (step_served rfl) <|
    .cons_cons (step_served rfl) <| .cons_cons (step_served rfl) <|
    .cons_cons (.arrive _ trivial) <|
    .cons_cons (step_served rfl) <| .cons_cons (step_served rfl) (.singleton _)

theorem duplicatesMatch_loopRun : loopRun.last.world.DuplicatesMatch := by
  have hjournal : loopRun.last.world.journal =
      [⟨.acknowledge "http://peer.example:8080" "p", ()⟩, ⟨.store (.findId "a"), .ok (some "j")⟩,
        ⟨.store (.create (Job.new "j" .initiator loop.request .epoch)), .ok ()⟩,
        ⟨.now, .epoch⟩, ⟨.freshId, "j"⟩, ⟨.store (.findId "a"), .ok none⟩] := rfl
  intro job c hmem
  rw [hjournal] at hmem
  simp at hmem

theorem told_of_jobs_in_loop :
    loopRun.last.world.DuplicatesMatch ∧ AcknowledgesJobs loopRun Stores :=
  ⟨duplicatesMatch_loopRun, (told_of_jobs loopRun duplicatesMatch_loopRun).1⟩

/-- A peer is told that its request was taken when there is no executor's job for it. -/
theorem told_without_executor :
    ¬ ∀ run : Run, run.last.world.DuplicatesMatch → AcknowledgesJobs run Executes := by
  intro hacks
  have hanswered : loopRun.last.AnsweredWith loop "j" :=
    List.mem_append_right _ (List.mem_singleton_self _)
  obtain ⟨st, hst, -, hrole⟩ := (hacks loopRun duplicatesMatch_loopRun).answered loopRun.last
    (List.getLast_mem _) loop "j" hanswered
  have hstanding : loopRun.last.world.standing? "j" = some ⟨"a", .initiator, .initial⟩ := by
    decide
  obtain rfl := Option.some.inj (hstanding.symm.trans hst)
  cases hrole

end Ferry.Service
