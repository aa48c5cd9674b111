import Ferry.Orchestrator.Cycle
import Ferry.Proofs.Flow.Finishing
import Ferry.Proofs.Race

/-!
# A data flow that ends before it is known to have started

The worker starts a data flow and then stores that it did. By then the flow may have
ended, and whoever records its end writes the same job. Each of the two computes what it
writes from the job as it was read, and writes it only over the state that was read.

Which of their writes have hit tells how the job stands (`Stands`), since the worker's
can hit before the flow's but not after it. The flow's first write is therefore missed at
most once, namely if the worker's hit in between, and its second look finds a job that
nobody else will write.
-/

namespace Ferry.Overtaking

open Operation
open Store (Row Table)
open Time (Instant)
open Race (Shared State Move terms)

inductive Side where
  | worker
  | flow
deriving DecidableEq

/-- What the worker does once the flow has answered. -/
def started (config : Config.Orchestrator) (job : Job) (outcome : FlowOutcome) :
    Operation Unit := do
  count (.flowOutcomes outcome.verdict)
  let now ← ask .now
  let job ← move (Cycle.afterFlow config.maxFlowRetries job now outcome)
  if job.state = .error then
    count (.jobFailures .flow)
  if ← store (.updateIfState job .provisioned) then
    countMove job

/-- What is left of a program whose flow has answered that it started. -/
def answered {β : Type} : Activity β → Activity β
  | .call (.startFlow _) next => next .ok
  | p => p

theorem answered_execute (config : Config.Orchestrator) (job : Job) :
    answered (Cycle.execute config job).run = (started config job .ok).run :=
  rfl

/-- The flow has answered that it started, and may end at any time. -/
def begun (config : Config.Orchestrator) (t : Table) (job : Job) (failure : Option String)
    (rounds : Nat) : State fun _ : Side => Except OrchestratorError Unit where
  shared := { table := t }
  rest
    | .worker => answered (Cycle.execute config job).run
    | .flow => (Flow.finish job.request.id failure rounds).run

def isLook : Request → Bool
  | .store (.findId _) => true
  | _ => false

/-- How often the flow has looked for its job. -/
def looks (s : Shared Side) : Nat :=
  (s.own .flow).countP fun e => isLook e.call

/-- The job whose flow is known to have started. -/
def executing (job : Job) (now : Instant) : Job :=
  { job with state := .executing, stateTimestamp := now }

/-- The stored job follows from the writes that have hit. Before any it is as it was, after the
worker's it is executing, and after that of the flow, which hits once, it has ended. -/
def Stands (job : Job) (failure : Option String) (s : Shared Side) : Prop :=
  match s.winners job.id with
  | [] => s.table.Keeps job
  | [.worker] => ∃ now, s.table.Keeps (executing job now)
  | .flow :: earlier => .flow ∉ earlier ∧ ∃ now, s.table.Keeps (job.afterwards now failure)
  | _ => False

/-- After any schedule of the worker and the flow: both come to an end without an error, the job
is stored as the flow ended, by exactly one write of the flow, and in two rounds at most. -/
structure Agrees (job : Job) (failure : Option String) (rounds : Nat)
    (moves : List (Move Side job.id))
    (s : State fun _ : Side => Except OrchestratorError Unit) : Prop where
  ends : 5 ≤ Race.turns .worker moves → 4 * rounds + 1 ≤ Race.turns .flow moves →
    s.rest .worker = .done (.ok ()) ∧ s.rest .flow = .done (.ok ())
  stored : ∀ r, s.rest .flow = .done r → r = .ok () ∧
    ∃ now, s.shared.table.Keeps (job.afterwards now failure)
  once : ∀ r, s.rest .flow = .done r → (s.shared.winners job.id).count .flow = 1
  twice : ∀ r, s.rest .flow = .done r → looks s.shared ≤ 2

variable {job : Job} {failure : Option String} {s s' : Shared Side}

/-! ## What is read and written -/

/-- The job may be read so before its flow has been recorded to have ended. -/
def Unended (job : Job) (X : Job) : Prop :=
  X = job ∨ ∃ now, X = executing job now

theorem Unended.id {X : Job} (h : Unended job X) : X.id = job.id := by
  rcases h with rfl | ⟨now, rfl⟩ <;> rfl

theorem Unended.overwrittenBy {X Y : Job} (hX : Unended job X) (hY : Unended job Y)
    (now : Instant) (failure : Option String) :
    Y.overwrittenBy (X.afterwards now failure) = job.afterwards now.truncated failure := by
  rcases hX with rfl | ⟨t, rfl⟩ <;> rcases hY with rfl | ⟨t', rfl⟩ <;> cases failure <;> rfl

theorem afterwards_stateTimestamp (X : Job) (now : Instant) (failure : Option String) :
    (X.afterwards now failure).stateTimestamp = now := by
  cases failure <;> rfl

theorem Stands.of_eq (h : Stands job failure s) (htable : s'.table = s.table)
    (hwinners : s'.winners job.id = s.winners job.id) : Stands job failure s' := by
  rw [Stands, hwinners, htable]
  exact h

theorem Stands.unended (h : Stands job failure s) (hopen : .flow ∉ s.winners job.id) :
    (s.winners job.id = [] ∧ s.table.Keeps job) ∨
      s.winners job.id = [.worker] ∧ ∃ now, s.table.Keeps (executing job now) := by
  rw [Stands] at h
  split at h
  · next hw => exact .inl ⟨hw, h⟩
  · next hw => exact .inr ⟨hw, h⟩
  · next earlier hw => exact absurd (by rw [hw]; exact List.mem_cons_self) hopen
  · exact h.elim

theorem Stands.ended (h : Stands job failure s) (hmem : .flow ∈ s.winners job.id) :
    (s.winners job.id).count .flow = 1 ∧ ∃ now, s.table.Keeps (job.afterwards now failure) := by
  rw [Stands] at h
  split at h
  · next hw => simp [hw] at hmem
  · next hw => simp [hw] at hmem
  · next earlier hw =>
    refine ⟨?_, h.2⟩
    rw [hw, List.count_cons_self, List.count_eq_zero_of_not_mem h.1]
  · exact h.elim

theorem Stands.of_ended {now : Instant} (hopen : .flow ∉ s.winners job.id)
    (hwinners : s'.winners job.id = .flow :: s.winners job.id)
    (hkeeps : s'.table.Keeps (job.afterwards now failure)) : Stands job failure s' := by
  rw [Stands, hwinners]
  exact ⟨hopen, now, hkeeps⟩

/-- The flow's write hits, unless the worker's did since the flow has looked. -/
theorem Stands.updateIfState (h : Stands job failure s) (hopen : .flow ∉ s.winners job.id)
    (hstate : job.state = .provisioned) {X : Job} (hX : Unended job X)
    (hworker : X ≠ job → .worker ∈ s.winners job.id) {now : Instant} (hnow : now.Storable) :
    (∃ t, s.table.updateIfState (X.afterwards now failure) X.state = (true, t) ∧
      t.Keeps (job.afterwards now.truncated failure)) ∨
    s.table.updateIfState (X.afterwards now failure) X.state = (false, s.table) ∧ X = job ∧
      .worker ∈ s.winners job.id := by
  have hid : ∀ {Y : Job}, Unended job Y → (X.afterwards now failure).id = Y.id := by
    intro Y hY
    rw [Job.afterwards_id, hX.id, hY.id]
  have hstamp : (X.afterwards now failure).stateTimestamp.Storable := by
    rwa [afterwards_stateTimestamp]
  rcases h.unended hopen with ⟨hw, hkeeps⟩ | ⟨hw, started, hkeeps⟩
  · have hjob : X = job := by
      by_contra hne
      have hmem := hworker hne
      rw [hw] at hmem
      cases hmem
    have hread : job.state = X.state := by rw [hjob]
    obtain ⟨t, hhit, hkept⟩ := hkeeps.updateIfState_hit (hid (.inl rfl)) hstamp hread
    exact .inl ⟨t, hhit, (hX.overwrittenBy (.inl rfl) now failure) ▸ hkept⟩
  · rcases hX with hjob | ⟨looked, rfl⟩
    · refine .inr ⟨hkeeps.updateIfState_miss (hid (.inr ⟨started, rfl⟩)) ?_, hjob, ?_⟩
      · rw [hjob, hstate]
        intro heq
        cases heq
      · rw [hw]
        exact List.mem_cons_self
    · have hread : (executing job started).state = .executing := rfl
      obtain ⟨t, hhit, hkept⟩ := hkeeps.updateIfState_hit (hid (.inr ⟨started, rfl⟩)) hstamp hread
      exact .inl ⟨t, hhit,
        (Unended.overwrittenBy (.inr ⟨looked, rfl⟩) (.inr ⟨started, rfl⟩) now failure) ▸ hkept⟩

/-! ## The flow -/

section Flow

variable {sent : Except DispatchError Unit} {n k : Nat}

/-- No write of the flow has hit yet, and it has looked for the job so often. -/
structure Looking (job : Job) (k : Nat) (s : Shared Side) : Prop where
  unended : .flow ∉ s.winners job.id
  looks : looks s = k

theorem Looking.others (h : Looking job k s) (hothers : Shared.Others .flow s s') :
    Looking job k s' := by
  constructor
  · rw [hothers.mem_winners]
    exact h.unended
  · rw [Overtaking.looks, hothers.own]
    exact h.looks

/-- The flow has read the job as `X`, and no write of its own has hit. `X` is the job as it was at
first or as the worker has stored it, and not the first again. -/
structure Loaded (job : Job) (again : Prop) (k : Nat) (X : Job) (s : Shared Side) : Prop where
  looking : Looking job k s
  unended : Unended job X
  worker : X ≠ job → .worker ∈ s.winners job.id
  again : again → X ≠ job

theorem Loaded.others {again : Prop} {X : Job} (h : Loaded job again k X s)
    (hothers : Shared.Others .flow s s') : Loaded job again k X s' where
  looking := h.looking.others hothers
  unended := h.unended
  worker hne := (hothers.winners job.id).mem (h.worker hne)
  again := h.again

theorem looks_asked (s : Shared Side) (now : Instant) (q : Request) :
    looks (s.asked sent .flow now q).2 = looks s + if isLook q then 1 else 0 := by
  rw [looks, Shared.own, Race.history_asked, List.filter_cons_of_pos (by simp),
    List.countP_cons]
  rfl

theorem Looking.asked (h : Looking job k s) {now : Instant} {q : Request}
    (hhit : Race.hit job.id q (s.asked sent .flow now q).1 = false) (hlook : isLook q = false) :
    Looking job k (s.asked sent .flow now q).2 := by
  constructor
  · rw [Race.winners_asked hhit]
    exact h.unended
  · rw [looks_asked, hlook]
    exact h.looks

theorem Loaded.asked {again : Prop} {X : Job} (h : Loaded job again k X s) {now : Instant}
    {q : Request} (hhit : Race.hit job.id q (s.asked sent .flow now q).1 = false)
    (hlook : isLook q = false) : Loaded job again k X (s.asked sent .flow now q).2 where
  looking := h.looking.asked hhit hlook
  unended := h.unended
  worker hne := by
    rw [Race.winners_asked hhit]
    exact h.worker hne
  again := h.again

theorem wpSure_load {again : Prop} (hstate : job.state = .provisioned) (h : Looking job k s)
    (hagain : again → .worker ∈ s.winners job.id) :
    (terms sent (Stands job failure) .flow).wpSure (Flow.load job.correlationId)
      (Loaded job again (k + 1)) s := by
  refine Race.wpSure_performed fun s₁ now₁ hothers₁ hs₁ _ => ?_
  have hopen₁ := (h.others hothers₁).unended
  have hfind : s₁.table.findId job.correlationId = .ok (some job.id) := by
    rcases hs₁.unended hopen₁ with ⟨-, hkeeps⟩ | ⟨-, _, hkeeps⟩ <;> exact hkeeps.findId
  have hwinners₁ : (s₁.asked sent .flow now₁
      (.store (.findId job.correlationId))).2.winners job.id = s₁.winners job.id :=
    Race.winners_asked rfl
  have hlooking₁ : Looking job (k + 1)
      (s₁.asked sent .flow now₁ (.store (.findId job.correlationId))).2 := by
    constructor
    · rwa [hwinners₁]
    · rw [looks_asked, (h.others hothers₁).looks]
      rfl
  refine ⟨hs₁.of_eq rfl hwinners₁, some job.id, hfind, ?_⟩
  refine Race.wpSure_performed fun s₂ now₂ hothers₂ hs₂ _ => ?_
  have hlooking₂ := hlooking₁.others hothers₂
  have hwinners₂ : (s₂.asked sent .flow now₂ (.store (.get job.id))).2.winners job.id =
      s₂.winners job.id :=
    Race.winners_asked rfl
  have hworker : again → .worker ∈ s₂.winners job.id := by
    intro ha
    refine (hothers₂.winners job.id).mem ?_
    rw [hwinners₁]
    exact (hothers₁.winners job.id).mem (hagain ha)
  obtain ⟨X, hget, hloaded⟩ : ∃ X, s₂.table.get job.id = .ok (some X) ∧ Loaded job again (k + 1) X
      (s₂.asked sent .flow now₂ (.store (.get job.id))).2 := by
    have hlooking : Looking job (k + 1) (s₂.asked sent .flow now₂ (.store (.get job.id))).2 :=
      hlooking₂.asked rfl rfl
    rcases hs₂.unended hlooking₂.unended with ⟨hw, hkeeps⟩ | ⟨hw, now, hkeeps⟩
    · refine ⟨job, hkeeps.get, hlooking, .inl rfl, fun hne => absurd rfl hne, fun ha => ?_⟩
      have hmem := hworker ha
      rw [hw] at hmem
      cases hmem
    · refine ⟨executing job now, hkeeps.get, hlooking, .inr ⟨now, rfl⟩, fun _ => ?_,
        fun _ heq => ?_⟩
      · rw [hwinners₂, hw]
        exact List.mem_cons_self
      · have hexec : job.state = .executing := congrArg Job.state heq.symm
        rw [hstate] at hexec
        cases hexec
  refine ⟨hs₂.of_eq rfl hwinners₂, some X, hget, ?_⟩
  exact Discipline.wpSure_pure fun s₃ hothers₃ _ => hloaded.others hothers₃

/-- A write of the flow has hit, and it has looked for the job so often at most. -/
structure Ended (job : Job) (k : Nat) (s : Shared Side) : Prop where
  ended : .flow ∈ s.winners job.id
  looks : looks s ≤ k

theorem Ended.others (h : Ended job k s) (hothers : Shared.Others .flow s s') :
    Ended job k s' := by
  constructor
  · rw [hothers.mem_winners]
    exact h.ended
  · rw [Overtaking.looks, hothers.own]
    exact h.looks

theorem Ended.asked (h : Ended job k s) {now : Instant} {q : Request}
    (hhit : Race.hit job.id q (s.asked sent .flow now q).1 = false) (hlook : isLook q = false) :
    Ended job k (s.asked sent .flow now q).2 := by
  constructor
  · rw [Race.winners_asked hhit]
    exact h.ended
  · rw [looks_asked, hlook]
    exact h.looks

theorem wpSure_countMove {m : Nat} {after : Job} (h : Ended job m s) :
    (terms sent (Stands job failure) .flow).wpSure (Operation.countMove after)
      (fun _ => Ended job m) s :=
  Race.wpSure_last fun _ _ hothers₁ hs₁ _ => ⟨hs₁.of_eq rfl (Race.winners_asked rfl),
    fun _ hothers₂ => ((h.others hothers₁).asked rfl rfl).others hothers₂⟩

/-- The flow's write of the end hits and ends it, or the worker's has hit since it has read the
job. -/
theorem wpSure_record {again : Prop} {X : Job} {m : Nat} {now : Instant} {g : Bool → Operation Unit}
    (hstate : job.state = .provisioned) (h : Loaded job again k X s) (hle : k ≤ m)
    (hnow : now.Storable)
    (hhit : ∀ s', Ended job m s' →
      (terms sent (Stands job failure) .flow).wpSure (g true) (fun _ => Ended job m) s')
    (hmiss : ¬ again → ∀ s', Looking job k s' → .worker ∈ s'.winners job.id →
      (terms sent (Stands job failure) .flow).wpSure (g false) (fun _ => Ended job m) s') :
    (terms sent (Stands job failure) .flow).wpSure
      (Operation.store (.updateIfState (X.afterwards now failure) X.state) >>= g)
      (fun _ => Ended job m) s := by
  refine Race.wpSure_performed fun s₁ now₁ hothers hs₁ _ => ?_
  have hloaded := h.others hothers
  have hopen := hloaded.looking.unended
  have hid : (X.afterwards now failure).id = job.id := by
    rw [Job.afterwards_id, hloaded.unended.id]
  rcases hs₁.updateIfState hopen hstate hloaded.unended hloaded.worker hnow with
    ⟨t, hwrite, hkept⟩ | ⟨hwrite, hjob, hmem⟩
  · obtain ⟨hreply, htable, hwinners⟩ := Race.asked_hit sent .flow now₁ hwrite
    rw [hid] at hwinners
    rw [← htable] at hkept
    refine ⟨Stands.of_ended hopen hwinners hkept, true, hreply, hhit _ ⟨?_, ?_⟩⟩
    · rw [hwinners]
      exact List.mem_cons_self
    · rw [looks_asked, hloaded.looking.looks]
      exact hle
  · obtain ⟨hreply, htable, hwinners⟩ := Race.asked_miss sent .flow now₁ hwrite job.id
    refine ⟨hs₁.of_eq htable hwinners, false, hreply,
      hmiss (fun ha => hloaded.again ha hjob) _ ⟨?_, ?_⟩ ?_⟩
    · rwa [hwinners]
    · rw [looks_asked]
      exact hloaded.looking.looks
    · rwa [hwinners]

/-- One round of the flow, after which it is done unless the worker's write has hit since
the round before. -/
theorem wpSure_finish_succ (again : Prop) {m : Nat} (hrole : job.role = .executor)
    (hstate : job.state = .provisioned) (h : Looking job k s) (hle : k + 1 ≤ m)
    (hagain : again → .worker ∈ s.winners job.id)
    (hnext : ¬ again → ∀ s', Looking job (k + 1) s' → .worker ∈ s'.winners job.id →
      (terms sent (Stands job failure) .flow).wpSure (Flow.finish job.correlationId failure n)
        (fun _ => Ended job m) s') :
    (terms sent (Stands job failure) .flow).wpSure (Flow.finish job.correlationId failure (n + 1))
      (fun _ => Ended job m) s := by
  rw [Flow.finish]
  refine Discipline.wpSure_bind (Discipline.wpSure_mono (fun X s₁ hs₁ hloaded => ?_)
    (wpSure_load hstate h hagain))
  have hlive : X.state = .provisioned ∨ X.state = .executing := by
    rcases hloaded.unended with rfl | ⟨now, rfl⟩
    · exact .inl hstate
    · exact .inr rfl
  have hX : X.role = .executor := by
    rcases hloaded.unended with rfl | ⟨now, rfl⟩ <;> exact hrole
  rw [if_neg (by rcases hlive with hlive | hlive <;> rw [hlive] <;> decide)]
  refine Race.wpSure_asked fun s₂ now hothers₂ hs₂ hnow => ?_
  refine ⟨hs₂.of_eq rfl (Race.winners_asked rfl), ?_⟩
  refine Discipline.wpSure_move (Job.ended_eq hX hlive now failure) ?_
  have hasked : Loaded job again (k + 1) X (s₂.asked sent .flow now .now).2 :=
    (hloaded.others hothers₂).asked rfl rfl
  exact wpSure_record hstate hasked hle hnow (fun _ => wpSure_countMove) hnext

/-- The flow stores its end in two rounds. -/
theorem wpSure_finish (hrole : job.role = .executor) (hstate : job.state = .provisioned)
    (h : Looking job 0 s) (rounds : Nat) :
    (terms sent (Stands job failure) .flow).wpSure
      (Flow.finish job.correlationId failure (rounds + 2)) (fun _ => Ended job 2) s := by
  refine wpSure_finish_succ False hrole hstate h (by omega) False.elim ?_
  intro _ s₁ hlooking hworker
  exact wpSure_finish_succ True hrole hstate hlooking (by omega) (fun _ => hworker)
    fun hnot => absurd trivial hnot

end Flow

/-! ## The worker -/

/-- The worker's write hits a job that is still provisioned, and no other. -/
theorem Stands.updateIfState_provisioned (h : Stands job failure s)
    (hstate : job.state = .provisioned) {now : Instant} (hnow : now.Storable) :
    (∃ t, s.table.updateIfState (executing job now) .provisioned = (true, t) ∧
      s.winners job.id = [] ∧ t.Keeps (executing job now.truncated)) ∨
    s.table.updateIfState (executing job now) .provisioned = (false, s.table) := by
  rw [Stands] at h
  split at h
  · next hw =>
    have hid : (executing job now).id = job.id := rfl
    obtain ⟨t, hhit, hkept⟩ := h.updateIfState_hit hid hnow hstate
    exact .inl ⟨t, hhit, hw, hkept⟩
  · obtain ⟨started, hkeeps⟩ := h
    refine .inr (hkeeps.updateIfState_miss rfl fun heq => ?_)
    cases heq
  · obtain ⟨-, ended, hkeeps⟩ := h
    refine .inr (hkeeps.updateIfState_miss (Job.afterwards_id job ended failure).symm ?_)
    cases failure <;> exact fun heq => by cases heq
  · exact h.elim

theorem wpSure_started {sent : Except DispatchError Unit} (hrole : job.role = .executor)
    (hstate : job.state = .provisioned) (config : Config.Orchestrator) :
    (terms sent (Stands job failure) .worker).wpSure (started config job .ok) (fun _ _ => True)
      s := by
  refine Race.wpSure_asked fun s₁ now₁ _ hs₁ _ => ⟨hs₁.of_eq rfl (Race.winners_asked rfl), ?_⟩
  refine Race.wpSure_asked fun s₂ now _ hs₂ hnow => ⟨hs₂.of_eq rfl (Race.winners_asked rfl), ?_⟩
  have hmoved : Cycle.afterFlow config.maxFlowRetries job now .ok = .ok (executing job now) :=
    if_pos (by rw [hrole, hstate]; rfl)
  refine Discipline.wpSure_move hmoved ?_
  refine Race.wpSure_performed fun s₃ now₃ _ hs₃ _ => ?_
  rcases hs₃.updateIfState_provisioned hstate hnow with ⟨t, hhit, hw, hkept⟩ | hmiss
  · obtain ⟨hreply, htable, hwinners⟩ := Race.asked_hit sent .worker now₃ hhit
    refine ⟨?_, true, hreply, ?_⟩
    · have hfirst : (s₃.asked sent .worker now₃ (.store (.updateIfState (executing job now)
          .provisioned))).2.winners job.id = [.worker] := by
        rw [← hw]
        exact hwinners
      rw [Stands, hfirst, htable]
      exact ⟨_, hkept⟩
    · exact Race.wpSure_last fun s₄ now₄ _ hs₄ _ =>
        ⟨hs₄.of_eq rfl (Race.winners_asked rfl), fun _ _ => trivial⟩
  · obtain ⟨hreply, htable, hwinners⟩ := Race.asked_miss sent .worker now₃ hmiss job.id
    exact ⟨hs₃.of_eq htable hwinners, false, hreply,
      Discipline.wpSure_pure fun _ _ _ => trivial⟩

/-! ## How long they take -/

theorem within_countMove {hit : Bool} {after : Job} {n : Nat} {goOn : Operation Unit}
    (h : Race.Within n goOn.run) (hn : 0 < n) :
    Race.Within n (if hit then countMove after else goOn).run := by
  cases hit with
  | true => exact Race.within_ask.mono hn
  | false => exact h

theorem within_started (config : Config.Orchestrator) (job : Job) (outcome : FlowOutcome) :
    Race.Within 5 (started config job outcome).run := by
  refine Race.within_bind (n := 1) (m := 4) Race.within_ask fun _ => ?_
  refine Race.within_bind (n := 1) (m := 3) Race.within_ask fun now => ?_
  refine Race.within_bind (n := 0) (m := 3) Race.within_move fun after => ?_
  have hstore : Race.Within 2 (store (.updateIfState after .provisioned) >>= fun hit =>
      if hit then countMove after else pure ()).run :=
    Race.within_bind (n := 1) (m := 1) Race.within_store fun _ =>
      within_countMove trivial (by omega)
  split
  · exact Race.within_bind (n := 1) (m := 2) Race.within_ask fun _ => hstore
  · exact hstore.mono (by omega)

theorem within_load (c : String) : Race.Within 2 (Flow.load c).run := by
  refine Race.within_bind (n := 1) (m := 1) Race.within_store fun found => ?_
  cases found with
  | none => trivial
  | some id =>
      refine Race.within_bind (n := 1) (m := 0) Race.within_store fun job => ?_
      cases job <;> trivial

theorem within_finish (c : String) (failure : Option String) (rounds : Nat) :
    Race.Within (4 * rounds + 1) (Flow.finish c failure rounds).run := by
  induction rounds with
  | zero => trivial
  | succ n ih =>
      rw [show 4 * (n + 1) + 1 = 2 + (1 + (0 + (1 + (4 * n + 1)))) by omega, Flow.finish]
      refine Race.within_bind (within_load c) fun job => ?_
      split
      · trivial
      · refine Race.within_bind Race.within_ask fun now => ?_
        refine Race.within_bind Race.within_move fun after => ?_
        exact Race.within_bind Race.within_store fun _ => within_countMove ih (by omega)

/-! ## What they leave behind -/

theorem Stands.passing (h : Stands job failure s) {c : Store.Call} (hc : c.Spares job.id) :
    Stands job failure (s.passing c) := by
  rw [Stands] at h ⊢
  show match s.winners job.id with
    | [] => (c.perform s.table).2.Keeps job
    | [.worker] => ∃ now, (c.perform s.table).2.Keeps (executing job now)
    | .flow :: earlier =>
      .flow ∉ earlier ∧ ∃ now, (c.perform s.table).2.Keeps (job.afterwards now failure)
    | _ => False
  split at h
  · next hw => exact h.perform hc
  · obtain ⟨now, hkeeps⟩ := h
    exact ⟨now, hkeeps.perform hc⟩
  · obtain ⟨hearlier, now, hkeeps⟩ := h
    exact ⟨hearlier, now, hkeeps.perform (by rwa [Job.afterwards_id])⟩
  · exact h.elim

theorem invariant_begun (config : Config.Orchestrator) {t : Table} (hkeeps : t.Keeps job)
    (hrequest : job.request.id = job.correlationId) (hrole : job.role = .executor)
    (hstate : job.state = .provisioned) (failure : Option String) (rounds : Nat) :
    Race.Invariant (.ok ()) (Stands job failure) (fun side r s =>
      r = .ok () ∧ (side = .flow → Ended job 2 s)) (begun config t job failure (rounds + 2)) := by
  have hlooking : Looking job 0 { table := t } := ⟨List.not_mem_nil, rfl⟩
  refine ⟨hkeeps, fun side => ?_⟩
  cases side with
  | worker =>
      show (terms _ _ _).wp (answered (Cycle.execute config job).run) _ _
      rw [answered_execute]
      refine Discipline.wp_mono (fun r s _ hr => ?_) (wpSure_started hrole hstate config)
      obtain ⟨_, hok, -⟩ := hr
      exact ⟨hok, fun h => by cases h⟩
  | flow =>
      show (terms _ _ _).wp (Flow.finish job.request.id failure (rounds + 2)).run _ _
      rw [hrequest]
      refine Discipline.wp_mono (fun r s _ hr => ?_) (wpSure_finish hrole hstate hlooking rounds)
      obtain ⟨_, hok, hend⟩ := hr
      exact ⟨hok, fun _ => hend⟩

/-- The flow's end is stored once and stays, whatever the worker does meanwhile. -/
theorem end_of_flow_stands (config : Config.Orchestrator) {t : Table} {job : Job}
    (hkeeps : t.Keeps job) (hrequest : job.request.id = job.correlationId)
    (hrole : job.role = .executor) (hstate : job.state = .provisioned) (failure : Option String)
    (rounds : Nat) (moves : List (Move Side job.id)) :
    Agrees job failure (rounds + 2) moves
      ((begun config t job failure (rounds + 2)).after (.ok ()) moves) := by
  have hinv := (invariant_begun config hkeeps hrequest hrole hstate failure rounds).after
    (fun s c hc hs => hs.passing hc) moves
  have hended : ∀ r, ((begun config t job failure (rounds + 2)).after (.ok ()) moves).rest .flow =
      .done r → r = .ok () ∧ Ended job 2
        ((begun config t job failure (rounds + 2)).after (.ok ()) moves).shared := by
    intro r hr
    obtain ⟨hok, hflow⟩ := hinv.done hr
    exact ⟨hok, hflow rfl⟩
  constructor
  case ends =>
    intro hworker hflow
    obtain ⟨r, hr⟩ := Race.done_of_turns (.ok ()) (s := begun config t job failure (rounds + 2))
      (i := .worker) (within_started config job .ok) hworker
    obtain ⟨r', hr'⟩ := Race.done_of_turns (.ok ()) (s := begun config t job failure (rounds + 2))
      (i := .flow) (within_finish job.request.id failure (rounds + 2)) hflow
    rw [hr, hr', (hinv.done hr).1, (hended r' hr').1]
    exact ⟨rfl, rfl⟩
  case stored =>
    intro r hr
    obtain ⟨hok, hend⟩ := hended r hr
    exact ⟨hok, (hinv.holds.ended hend.ended).2⟩
  case once =>
    intro r hr
    exact (hinv.holds.ended (hended r hr).2.ended).1
  case twice =>
    intro r hr
    exact (hended r hr).2.looks

/-- An executor's job whose data is being moved. -/
def flowing : Job where
  id := "job"
  correlationId := "t"
  role := .executor
  state := .provisioned
  request := { id := "t", destination := { kind := localDirectory } }
  createdAt := .epoch
  stateTimestamp := .epoch

theorem keeps_flowing : Table.Keeps ⟨[Row.ofJob flowing]⟩ flowing :=
  Table.keeps_ofJob (Row.reads_ofJob_epoch rfl rfl)

def turn (side : Side) : Move Side flowing.id :=
  .turn side .epoch Instant.storable_epoch

/-- The flow has read the job before the worker's write, and writes after it. -/
def crossing : List (Move Side flowing.id) :=
  List.replicate 3 (turn .flow) ++ List.replicate 5 (turn .worker) ++
    List.replicate 6 (turn .flow)

theorem end_of_flow_stands_crossing :
    Table.Keeps ⟨[Row.ofJob flowing]⟩ flowing ∧
      5 ≤ Race.turns .worker crossing ∧ 9 ≤ Race.turns .flow crossing ∧
      Agrees flowing (some "disk full") 2 crossing
        ((begun {} ⟨[Row.ofJob flowing]⟩ flowing (some "disk full") 2).after (.ok ()) crossing) :=
  ⟨keeps_flowing, by decide, by decide,
    end_of_flow_stands {} keeps_flowing rfl rfl rfl (some "disk full") 0 crossing⟩

end Ferry.Overtaking
