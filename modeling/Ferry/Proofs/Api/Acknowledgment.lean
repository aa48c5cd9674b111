import Ferry.Api.Transfers
import Ferry.Orchestrator.Cycle
import Ferry.Proofs.Race

/-!
# Acknowledgments of a request that was sent

The job is stored as sent before the peer is called. From then on the peer may
acknowledge it, any number of times and also while the call is failing. The sender, when
it learns that the call has failed, and every acknowledgment write the job over the state
sent and over no other, so the first of these writes to hit decides the job (`Stands`),
and all others miss.

What a client is answered is read off its own calls (`Answered`): it is told 200 if and
only if its write hit. Nothing but such a write changes the table, and of the job that
was stored as sent it changes two columns, since what the other columns were written from
has not changed.
-/

namespace Ferry

open Store (Row Table)
open Time (Instant)

/-- The table with a job in another state since a moment, and nothing else changed. -/
def Store.Table.restamped (t : Table) (id : String) (state : JobState) (now : Instant) : Table :=
  ⟨t.rows.map fun r =>
    if r.id == .text id then
      { r with state := .text state.name, stateTimestamp := .integer now.millis }
    else r⟩

namespace Acknowledgment

open Operation
open Race (Shared State Move Entry terms)

variable {ι : Type}

/-- The sender is `none`. -/
def Answer : Option ι → Type
  | none => Except OrchestratorError Unit
  | some _ => Api.Response

/-- What the sender does once the job is stored as sent. -/
def afterSent (job : Job) : Operation Unit := do
  countMove job
  match ← ask (.send job.dispatchRequest job.id) with
  | .ok () => pure ()
  | .error e =>
    count (.jobFailures .dispatch)
    let now ← ask .now
    let job ← move (job.failed ("dispatch failed: " ++ e.message) now)
    if ← store (.updateIfState job .sent) then
      countMove job

/-- What is left of a program whose update was stored. -/
def updated {β : Type} : Activity β → Activity β
  | .call (.store (.update _)) next => next (.ok ())
  | p => p

/-- What is left of a program that has read the time and then stored a job. -/
def stored {β : Type} (now : Instant) : Activity β → Activity β
  | .call .now next => updated (next now)
  | p => p

theorem stored_send {before job : Job} {now : Instant} (h : before.sent now = .ok job) :
    stored now (Cycle.send before).run = (afterSent job).run := by
  show updated (move (before.sent now) >>= fun job => do
    store (.update job)
    afterSent job).run = _
  rw [h]
  rfl

/-- The job has just been stored as sent. Requests to acknowledge jobs, any of these ids,
may arrive at any time. -/
def begun (t : Table) (before job : Job) (now : Instant) (ids : ι → String) :
    State (Answer (ι := ι)) where
  shared := { table := ((Store.Call.update job).perform t).2 }
  rest
    | none => stored now (Cycle.send before).run
    | some i => Api.acknowledgeTransfer (ids i)

/-- What is read of a job that was written. -/
def asRead (job : Job) : Job :=
  { job with stateTimestamp := job.stateTimestamp.truncated }

def acknowledged (job : Job) (now : Instant) : Job :=
  { job with state := .acknowledged, stateTimestamp := now }

def failed (job : Job) (e : DispatchError) (now : Instant) : Job :=
  { job with
    state := .error, stateTimestamp := now
    errorDetail := some ("dispatch failed: " ++ e.message) }

/-- What a look for a job has found. -/
def found? : (q : Request) → q.Reply → Option (Except JobError (Option Job))
  | .store (.get _), r => some r
  | _, _ => none

/-- The status that a client gets follows from the calls that were made for it: 200 if one of its
writes has hit, 404 if the look found no job, and 409 if it found one that is not to be
acknowledged. -/
structure Answered {κ : Type} (id : String) (own : List (Entry κ)) (a : Api.Response) :
    Prop where
  done : a.status = 200 ↔ ∃ e ∈ own, Race.hit id e.call e.reply = true
  unknown : a.status = 404 ↔ ∃ e ∈ own, found? e.call e.reply = some (.ok none)
  refused : ∀ e ∈ own, ∀ job, found? e.call e.reply = some (.ok (some job)) →
    job.role ≠ .initiator ∨ job.state ≠ .sent → a.status = 409

/-- A call for a client leaves the table as it was unless it is a write that hit, and that only
moves the job to `acknowledged`. -/
structure Touches {κ : Type} (id : String) (job : Job) (e : Entry κ) : Prop where
  untouched : Race.hit id e.call e.reply = false → e.after = e.before
  touched : Race.hit id e.call e.reply = true → id = job.id →
    ∃ now, e.after = e.before.restamped job.id .acknowledged now

section Statement

variable [DecidableEq ι]

/-- After any schedule, of the sender of a job and all who acknowledge it: all come to an end,
clients are answered by their own calls, one of those for the job at most with success, and the job
ends acknowledged, failed or sent as they decide. -/
structure Decided (sent : Except DispatchError Unit) (job : Job) (ids : ι → String)
    (moves : List (Move (Option ι) job.id)) (s : State (Answer (ι := ι))) : Prop where
  ends : (6 ≤ Race.turns none moves → s.rest none = .done (.ok ())) ∧
    ∀ i, 4 ≤ Race.turns (some i) moves → ∃ a, s.rest (some i) = .done a
  answered : ∀ i a, s.rest (some i) = .done a → Answered (ids i) (s.shared.own (some i)) a
  conflict : ∀ i a, s.rest (some i) = .done a → ids i = job.id →
    a.status = 200 ∨ a.status = 409
  once : ∀ i k a b, s.rest (some i) = .done a → s.rest (some k) = .done b →
    ids i = job.id → ids k = job.id → a.status = 200 → b.status = 200 → i = k
  untouched : ∀ i a, s.rest (some i) = .done a → a.status ≠ 200 →
    ∀ e ∈ s.shared.own (some i), e.after = e.before
  touched : ∀ i, ids i = job.id → ∀ e ∈ s.shared.own (some i),
    e.after = e.before ∨ ∃ now, e.after = e.before.restamped job.id .acknowledged now
  /-- When the sender is done and so is every request that has begun. -/
  decided : ∀ r, s.rest none = .done r →
    (∀ i, s.shared.own (some i) = [] ∨ ∃ a, s.rest (some i) = .done a) →
    ((∃ i a, s.rest (some i) = .done a ∧ ids i = job.id ∧ a.status = 200) ∧
      ∃ now, s.shared.table.Keeps (acknowledged job now)) ∨
    (∀ i a, s.rest (some i) = .done a → ids i = job.id → a.status ≠ 200) ∧
      match sent with
      | .ok () => s.shared.table.Keeps (asRead job)
      | .error e => ∃ now, s.shared.table.Keeps (failed job e now)

end Statement

/-! ## What is stored -/

section Stored

variable {sent : Except DispatchError Unit} {before job : Job} {now : Instant} {r : Row}
  {ids : ι → String} {s s' : Shared (Option ι)} {t : Table}

theorem sent_ok (h : before.sent now = .ok job) :
    job = { before with state := .sent, stateTimestamp := now } := by
  rw [Job.sent, Job.move] at h
  split at h
  · exact (Except.ok.inj h).symm
  · cases h

/-- The row holds the job as it was before it was sent, and `job` is what sending made of it. -/
structure Sends (before job : Job) (now : Instant) (r : Row) : Prop where
  reads : r.Reads before
  sent : before.sent now = .ok job
  storable : now.Storable

theorem Sends.state (h : Sends before job now r) : job.state = .sent := by
  obtain rfl := sent_ok h.sent
  rfl

theorem Sends.state_asRead (h : Sends before job now r) : (asRead job).state = .sent :=
  h.state

theorem Sends.reads_asRead (h : Sends before job now r) :
    (r.updatedFrom job).Reads (asRead job) := by
  obtain rfl := sent_ok h.sent
  exact h.reads.updatedFrom h.storable

/-- How the job stands, by the writes over the state sent that have hit. -/
def Stands (sent : Except DispatchError Unit) (job : Job) (r : Row) (ids : ι → String)
    (s : Shared (Option ι)) : Prop :=
  match s.winners job.id with
  | [] => s.table.Sole (r.updatedFrom job)
  | [some i] => ids i = job.id ∧ ∃ now, s.table.Keeps (acknowledged job now)
  | [none] => ∃ e now, sent = .error e ∧ s.table.Keeps (failed job e now)
  | _ => False

/-- The invariant of the race: the row of the job is where the writes that have hit put it, and
every call for a client has touched no more than its job. -/
structure Sound (sent : Except DispatchError Unit) (job : Job) (r : Row) (ids : ι → String)
    (s : Shared (Option ι)) : Prop where
  stands : Stands sent job r ids s
  touches : ∀ e ∈ s.history, ∀ i, e.party = some i → Touches (ids i) job e

theorem Stands.of_eq (h : Stands sent job r ids s) (htable : s'.table = s.table)
    (hwinners : s'.winners job.id = s.winners job.id) : Stands sent job r ids s' := by
  rw [Stands, hwinners, htable]
  exact h

theorem Stands.passing (h : Stands sent job r ids s) (hsends : Sends before job now r)
    {c : Store.Call} (hc : c.Spares job.id) : Stands sent job r ids (s.passing c) := by
  rw [Stands] at h ⊢
  show match s.winners job.id with
    | [] => (c.perform s.table).2.Sole (r.updatedFrom job)
    | [some i] => ids i = job.id ∧ ∃ now, (c.perform s.table).2.Keeps (acknowledged job now)
    | [none] => ∃ e now, sent = .error e ∧ (c.perform s.table).2.Keeps (failed job e now)
    | _ => False
  split at h
  · exact h.perform (Row.shows_of_toJob? hsends.reads_asRead.toJob?).id hc
  · obtain ⟨hi, now, hkeeps⟩ := h
    exact ⟨hi, now, hkeeps.perform hc⟩
  · obtain ⟨e, now, hsent, hkeeps⟩ := h
    exact ⟨e, now, hsent, hkeeps.perform hc⟩
  · exact h.elim

/-- A write over the state sent either finds the row as it was stored, or misses. -/
theorem Stands.cases (h : Stands sent job r ids s) :
    (s.winners job.id = [] ∧ s.table.Sole (r.updatedFrom job)) ∨
    s.winners job.id ≠ [] ∧ ∀ new : Job, new.id = job.id →
      s.table.updateIfState new .sent = (false, s.table) := by
  rw [Stands] at h
  split at h
  · next hw => exact .inl ⟨hw, h⟩
  · next i hw =>
    obtain ⟨-, now, hkeeps⟩ := h
    refine .inr ⟨by rw [hw]; exact List.cons_ne_nil _ _, fun new hnew => ?_⟩
    exact hkeeps.updateIfState_miss hnew fun heq => by cases heq
  · next hw =>
    obtain ⟨e, now, -, hkeeps⟩ := h
    refine .inr ⟨by rw [hw]; exact List.cons_ne_nil _ _, fun new hnew => ?_⟩
    exact hkeeps.updateIfState_miss hnew fun heq => by cases heq
  · exact h.elim

theorem Sends.updateIfState_hit (hsends : Sends before job now r)
    (hsole : t.Sole (r.updatedFrom job)) {new : Job} (hid : new.id = job.id)
    (hstamp : new.stateTimestamp.Storable) :
    t.updateIfState new .sent = (true, t.write new (some .sent)) ∧
      (t.write new (some .sent)).Keeps ((asRead job).overwrittenBy new) := by
  obtain ⟨hhit, hsole'⟩ := hsole.updateIfState_hit hsends.reads_asRead hid
  rw [hsends.state_asRead] at hhit hsole'
  exact ⟨hhit, _, hsole', (hsends.reads_asRead.updatedFrom hstamp).toJob?⟩

/-- The other columns are written as they were. -/
theorem Sends.write_acknowledged (hsends : Sends before job now r)
    (hsole : t.Sole (r.updatedFrom job)) (moment : Instant) :
    t.write (acknowledged (asRead job) moment) (some .sent) =
      t.restamped job.id .acknowledged moment := by
  have hshows := Row.shows_of_toJob? hsends.reads_asRead.toJob?
  refine congrArg Table.mk (List.map_congr_left fun r' hr' => ?_)
  by_cases hid : r'.id = .text job.id
  · obtain rfl := hsole.eq_of_id r' hr' (hid.trans hshows.id.symm)
    have hmatch : Table.matchesJob (acknowledged (asRead job) moment) (some .sent)
        (r.updatedFrom job) = true := by
      have hstate := hshows.state_eq
      rw [hsends.state_asRead] at hstate
      simp [Table.matchesJob, acknowledged, asRead, hid, hstate]
    rw [if_pos hmatch, if_pos (by rw [hid]; exact beq_self_eq_true _)]
    rfl
  · have hmiss : Table.matchesJob (acknowledged (asRead job) moment) (some .sent) r' = false := by
      simp [Table.matchesJob, acknowledged, asRead, hid]
    rw [hmiss, if_neg Bool.false_ne_true, if_neg (by simpa using hid)]

end Stored

/-! ## A client -/

section Client

variable {sent : Except DispatchError Unit} {before job : Job} {now : Instant} {r : Row}
  {ids : ι → String} {s s' : Shared (Option ι)} {i : ι}

/-- A call adds one entry to the history. -/
theorem Sound.after (h : Sound sent job r ids s) {party : Option ι} {q : Request}
    (hstands : Stands sent job r ids (s.asked sent party now q).2)
    (htouches : ∀ k, party = some k → Touches (κ := Option ι) (ids k) job
      ⟨party, q, (s.asked sent party now q).1, s.table, (s.asked sent party now q).2.table⟩) :
    Sound sent job r ids (s.asked sent party now q).2 := by
  refine ⟨hstands, fun e he k hk => ?_⟩
  rw [Race.history_asked] at he
  rcases List.mem_cons.1 he with rfl | he
  · exact htouches k hk
  · exact h.touches e he k hk

/-- A call that reads, or does not go to the store. -/
theorem Sound.asked (h : Sound sent job r ids s) {party : Option ι} {q : Request}
    (hquiet : (Race.reply sent now q s.table).2 = s.table)
    (hhit : ∀ id, Race.hit id q (s.asked sent party now q).1 = false) :
    Sound sent job r ids (s.asked sent party now q).2 := by
  refine h.after (h.stands.of_eq hquiet (Race.winners_asked (hhit job.id))) fun k _ => ?_
  refine ⟨fun _ => hquiet, fun htrue => ?_⟩
  rw [hhit (ids k)] at htrue
  cases htrue

/-- A write over the state sent that misses. -/
theorem Sound.miss (h : Sound sent job r ids s) {party : Option ι} {new : Job}
    (hmiss : s.table.updateIfState new .sent = (false, s.table)) :
    Sound sent job r ids (s.asked sent party now (.store (.updateIfState new .sent))).2 := by
  obtain ⟨hreply, htable, hwinners⟩ := Race.asked_miss sent party now hmiss job.id
  refine h.after (h.stands.of_eq htable hwinners) fun k _ => ⟨fun _ => htable, fun htrue => ?_⟩
  rw [hreply] at htrue
  cases htrue

/-- An acknowledgment is written. -/
theorem Sound.acknowledge (h : Sound sent job r ids s) (hsends : Sends before job now r)
    {X : Job} (hid : X.id = ids i) (hX : ids i = job.id → X = asRead job) {moment : Instant}
    (hmoment : moment.Storable) (later : Instant) :
    Sound sent job r ids (s.asked sent (some i) later
      (.store (.updateIfState (acknowledged X moment) .sent))).2 := by
  rcases hswap : s.table.updateIfState (acknowledged X moment) .sent with ⟨_ | _, t⟩
  · obtain rfl := Table.updateIfState_miss hswap
    exact h.miss hswap
  obtain ⟨hreply, htable, hwinners⟩ := Race.asked_hit sent (some i) later hswap
  have hhit : ∀ id, Race.hit id _ (s.asked sent (some i) later (.store (.updateIfState
      (acknowledged X moment) .sent))).1 = (ids i == id) := by
    intro id
    rw [hreply, ← hid]
    rfl
  by_cases hjob : ids i = job.id
  · obtain rfl := hX hjob
    rcases h.stands.cases with ⟨hw, hsole⟩ | ⟨-, hmiss⟩
    · have hsame : (acknowledged (asRead job) moment).id = job.id := rfl
      obtain ⟨hwrite, hkeeps⟩ := hsends.updateIfState_hit hsole hsame hmoment
      obtain rfl : t = _ := (Prod.mk.inj (hswap.symm.trans hwrite)).2
      refine h.after ?_ fun k hk => ⟨fun hfalse => ?_, fun _ _ => ⟨moment, ?_⟩⟩
      · have hfirst : (s.asked sent (some i) later (.store (.updateIfState
            (acknowledged (asRead job) moment) .sent))).2.winners job.id = [some i] := by
          rw [← hw]
          exact hwinners
        rw [Stands, hfirst, htable]
        exact ⟨hjob, moment.truncated, hkeeps⟩
      · obtain rfl := Option.some.inj hk
        rw [hhit, beq_self_eq_true] at hfalse
        cases hfalse
      · rw [← hsends.write_acknowledged hsole]
        exact htable
    · rw [hmiss (acknowledged (asRead job) moment) rfl] at hswap
      cases hswap
  · -- a write of another job leaves this one alone
    have hspares : (Store.Call.updateIfState (acknowledged X moment) .sent).Spares job.id := by
      show X.id ≠ job.id
      rwa [hid]
    refine h.after ((h.stands.passing hsends hspares).of_eq rfl (Race.winners_asked ?_)) ?_
    · rw [hhit]
      exact beq_eq_false_iff_ne.2 hjob
    · intro k hk
      obtain rfl := Option.some.inj hk
      refine ⟨fun hfalse => ?_, fun _ heq => absurd heq hjob⟩
      rw [hhit, beq_self_eq_true] at hfalse
      cases hfalse

theorem Stands.get (h : Stands sent job r ids s) (hsends : Sends before job now r) :
    ∃ X, s.table.get job.id = .ok (some X) ∧ (X.state = .sent → X = asRead job) := by
  rw [Stands] at h
  split at h
  · exact ⟨asRead job, h.get hsends.reads_asRead.toJob?, fun _ => rfl⟩
  · obtain ⟨-, now, hkeeps⟩ := h
    exact ⟨_, hkeeps.get, fun heq => by cases heq⟩
  · obtain ⟨e, now, -, hkeeps⟩ := h
    exact ⟨_, hkeeps.get, fun heq => by cases heq⟩
  · exact h.elim

/-! ### What a client is told -/

/-- So far nothing was written for the client, and what was found may be acknowledged. -/
structure Cleared {κ : Type} (id : String) (own : List (Entry κ)) : Prop where
  unwritten : ∀ e ∈ own, Race.hit id e.call e.reply = false
  found : ∀ e ∈ own, ∀ look, found? e.call e.reply = some look →
    ∃ X, look = .ok (some X) ∧ X.role = .initiator ∧ X.state = .sent

section Answers

variable {κ : Type} {id : String} {own : List (Entry κ)} {e : Entry κ} {a : Api.Response}

theorem Cleared.cons (h : Cleared id own) (hhit : Race.hit id e.call e.reply = false)
    (hlook : found? e.call e.reply = none) : Cleared id (e :: own) := by
  refine ⟨List.forall_mem_cons.2 ⟨hhit, h.unwritten⟩, List.forall_mem_cons.2 ⟨?_, h.found⟩⟩
  intro look hfound
  rw [hlook] at hfound
  cases hfound

theorem Cleared.refused (h : Cleared id own) (hstatus : a.status = 409) : Answered id own a where
  done := by
    refine iff_of_false (by simp [hstatus]) ?_
    rintro ⟨e, he, hhit⟩
    rw [h.unwritten e he] at hhit
    cases hhit
  unknown := by
    refine iff_of_false (by simp [hstatus]) ?_
    rintro ⟨e, he, hnone⟩
    obtain ⟨X, hX, -⟩ := h.found e he _ hnone
    cases hX
  refused _ _ _ _ _ := hstatus

/-- The last call was the write, and it hit. -/
theorem Cleared.done (h : Cleared id own) (hhit : Race.hit id e.call e.reply = true)
    (hlook : found? e.call e.reply = none) (hstatus : a.status = 200) :
    Answered id (e :: own) a where
  done := iff_of_true hstatus ⟨e, List.mem_cons_self, hhit⟩
  unknown := by
    refine iff_of_false (by simp [hstatus]) ?_
    rintro ⟨e', he, hnone⟩
    rcases List.mem_cons.1 he with rfl | he
    · rw [hlook] at hnone
      cases hnone
    · obtain ⟨X, hX, -⟩ := h.found e' he _ hnone
      cases hX
  refused := by
    intro e' he job hjob hother
    rcases List.mem_cons.1 he with rfl | he
    · rw [hlook] at hjob
      cases hjob
    · obtain ⟨X, hX, hrole, hstate⟩ := h.found e' he _ hjob
      cases hX
      exact absurd hother (by simp [hrole, hstate])

/-- A call that is no look and no write changes nothing about the answer. -/
theorem Answered.cons (h : Answered id own a) (hhit : Race.hit id e.call e.reply = false)
    (hlook : found? e.call e.reply = none) : Answered id (e :: own) a where
  done := by simpa [hhit] using h.done
  unknown := by simpa [hlook] using h.unknown
  refused := by simpa [hlook] using h.refused

end Answers

variable [DecidableEq ι]

/-- A sender that is done has no error, and if the peer was not reached some write has hit. A
client that is done was answered by its own calls, and for the job itself with 200 or 409. -/
def Promised (sent : Except DispatchError Unit) (job : Job) (ids : ι → String) :
    (party : Option ι) → Answer party → Shared (Option ι) → Prop
  | none, result, s => result = .ok () ∧ ∀ e, sent = .error e → s.winners job.id ≠ []
  | some i, a, s => Answered (ids i) (s.own (some i)) a ∧
      (ids i = job.id → a.status = 200 ∨ a.status = 409)

variable {own : List (Entry (Option ι))} {X : Job} {a : Api.Response}

/-- A client that is answered makes no more calls. -/
theorem wp_told (hown : s.own (some i) = own) (hanswered : Answered (ids i) own a)
    (hknown : ids i = job.id → a.status = 200 ∨ a.status = 409) :
    (terms sent (Sound sent job r ids) (some i)).wp (.done a)
      (Promised sent job ids (some i)) s := by
  intro s' hothers _
  refine ⟨?_, hknown⟩
  rwa [hothers.own, hown]

/-- What is left to be done for a client when its job was found as sent. -/
def storing (job : Job) : Activity Api.Response := do
  let now ← Request.now.ask
  match job.acknowledged now with
  | .error e => pure (.failure 409 e.message)
  | .ok after =>
    match ← (Request.store (.updateIfState after .sent)).ask with
    | .error e => pure (.failure 500 e.message)
    | .ok false =>
      pure (.failure 409 ("Cannot acknowledge transfer: job " ++ job.id ++ " left state sent"))
    | .ok true =>
      (Request.count (.stateTransitions .acknowledged) 1).ask
      pure (.ofJson 200 after.toView)

/-- The client is told whether its write has hit. -/
theorem wp_storing (hsends : Sends before job now r) (hrole : X.role = .initiator)
    (hstate : X.state = .sent) (hid : X.id = ids i) (hX : ids i = job.id → X = asRead job)
    (hown : s.own (some i) = own) (h : Cleared (ids i) own) :
    (terms sent (Sound sent job r ids) (some i)).wp (storing X)
      (Promised sent job ids (some i)) s := by
  have hack : ∀ moment, X.acknowledged moment = .ok (acknowledged X moment) :=
    fun moment => if_pos (by rw [hrole, hstate]; rfl)
  refine Race.wp_asked_own (q := .now) hown fun s₁ moment hs₁ hmoment =>
    ⟨hs₁.asked rfl fun _ => rfl, fun hown₁ => ?_⟩
  simp only [Program.bind]
  rw [show (s₁.asked sent (some i) moment .now).1 = moment from rfl, hack]
  refine Race.wp_asked_own hown₁ fun s₂ now₂ hs₂ _ =>
    ⟨hs₂.acknowledge hsends hid hX hmoment now₂, fun hown₂ => ?_⟩
  obtain ⟨hit, hhit⟩ : ∃ hit, (s₂.asked sent (some i) now₂
      (.store (.updateIfState (acknowledged X moment) .sent))).1 = .ok hit := ⟨_, rfl⟩
  rw [hhit] at hown₂ ⊢
  cases hit with
  | false =>
      refine wp_told hown₂ (Cleared.refused ?_ rfl) fun _ => .inr rfl
      exact (h.cons rfl rfl).cons rfl rfl
  | true =>
      refine Race.wp_asked_own (q := .count _ _) hown₂ fun s₃ now₃ hs₃ _ =>
        ⟨hs₃.asked rfl fun _ => rfl, fun hown₃ => ?_⟩
      refine wp_told hown₃ (Answered.cons ?_ rfl rfl) fun _ => .inl rfl
      exact (h.cons rfl rfl).done (beq_iff_eq.2 hid) rfl rfl

/-- A client is told what its calls have come to. -/
theorem wp_acknowledgeTransfer (hsends : Sends before job now r) (hown : s.own (some i) = []) :
    (terms sent (Sound sent job r ids) (some i)).wp (Api.acknowledgeTransfer (ids i))
      (Promised sent job ids (some i)) s := by
  refine Race.wp_asked_own hown fun s₁ now₁ hs₁ _ =>
    ⟨hs₁.asked rfl fun _ => rfl, fun hown₁ => ?_⟩
  have hknown : ids i = job.id → ∃ X, s₁.table.get (ids i) = .ok (some X) ∧
      (X.state = .sent → X = asRead job) := by
    intro hid
    rw [hid]
    exact hs₁.stands.get hsends
  have hget : (s₁.asked sent (some i) now₁ (.store (.get (ids i)))).1 = s₁.table.get (ids i) := rfl
  generalize (s₁.asked sent (some i) now₁ (.store (.get (ids i)))).1 = found at hget hown₁ ⊢
  generalize (s₁.asked sent (some i) now₁ (.store (.get (ids i)))).2 = s₁' at hown₁ ⊢
  rw [← hget] at hknown
  match found with
  | .error e =>
      refine wp_told hown₁ ?_ fun hid => ?_
      · constructor <;> simp [Race.hit, found?, Api.Response.failure, Api.Response.ofJson]
      · obtain ⟨X, hX, -⟩ := hknown hid
        cases hX
  | .ok none =>
      refine wp_told hown₁ ?_ fun hid => ?_
      · constructor <;>
          simp [Race.hit, found?, Api.notFound, Api.Response.failure, Api.Response.ofJson]
      · obtain ⟨X, hX, -⟩ := hknown hid
        cases hX
  | .ok (some X) =>
      change (terms sent (Sound sent job r ids) (some i)).wp
        (if X.role ≠ .initiator || X.state ≠ .sent then _ else storing X) _ _
      split
      · refine wp_told hown₁ ?_ fun _ => .inr rfl
        constructor <;> simp [Race.hit, found?, Api.Response.failure, Api.Response.ofJson]
      · next hsent =>
        obtain ⟨hrole, hstate⟩ : X.role = .initiator ∧ X.state = .sent := by simpa using hsent
        refine wp_storing hsends hrole hstate (Table.get_eq_some hget.symm).1 (fun heq => ?_) hown₁
          ⟨by simp [Race.hit], by simp [found?, hrole, hstate]⟩
        obtain ⟨X', hX', himp⟩ := hknown heq
        obtain rfl := Option.some.inj (Except.ok.inj hX')
        exact himp hstate

end Client

/-! ## The sender -/

section Sender

variable {sent : Except DispatchError Unit} {before job : Job} {now : Instant} {r : Row}
  {ids : ι → String} {s s' : Shared (Option ι)}

theorem Sound.fail (h : Sound sent job r ids s) (hsends : Sends before job now r)
    {e : DispatchError} (hsent : sent = .error e) {moment : Instant}
    (hmoment : moment.Storable) (later : Instant) :
    Sound sent job r ids (s.asked sent none later
        (.store (.updateIfState (failed job e moment) .sent))).2 ∧
      (s.asked sent none later
        (.store (.updateIfState (failed job e moment) .sent))).2.winners job.id ≠ [] := by
  rcases h.stands.cases with ⟨hw, hsole⟩ | ⟨hw, hmiss⟩
  · have hsame : (failed job e moment).id = job.id := rfl
    obtain ⟨hwrite, hkeeps⟩ := hsends.updateIfState_hit hsole hsame hmoment
    obtain ⟨hreply, htable, hwinners⟩ := Race.asked_hit sent (none : Option ι) later hwrite
    have hfirst : (s.asked sent none later (.store (.updateIfState (failed job e moment)
        .sent))).2.winners job.id = [none] := by
      rw [← hw]
      exact hwinners
    refine ⟨h.after ?_ (fun k hk => by cases hk), ?_⟩
    · rw [Stands, hfirst, htable]
      exact ⟨e, moment.truncated, hsent, hkeeps⟩
    · rw [hfirst]
      exact List.cons_ne_nil _ _
  · have hmissed := hmiss (failed job e moment) rfl
    refine ⟨h.miss hmissed, ?_⟩
    rw [(Race.asked_miss sent (none : Option ι) later hmissed job.id).2.2]
    exact hw

variable [DecidableEq ι]

/-- When the sender is done with a dispatch that failed, the job is not sent any more. -/
theorem wpSure_afterSent (hsends : Sends before job now r) :
    (terms sent (Sound sent job r ids) none).wpSure (afterSent job)
      (fun _ s => ∀ e, sent = .error e → s.winners job.id ≠ []) s := by
  refine Race.wpSure_asked fun s₁ now₁ _ hs₁ _ => ⟨hs₁.asked rfl fun _ => rfl, ?_⟩
  refine Race.wpSure_asked fun s₂ now₂ _ hs₂ _ => ⟨hs₂.asked rfl fun _ => rfl, ?_⟩
  rw [show (s₂.asked sent none now₂ (.send job.dispatchRequest job.id)).1 = sent from rfl]
  match sent with
  | .ok () => exact Discipline.wpSure_pure fun _ _ _ e he => by cases he
  | .error e =>
      refine Race.wpSure_asked fun s₃ now₃ _ hs₃ _ => ⟨hs₃.asked rfl fun _ => rfl, ?_⟩
      refine Race.wpSure_asked fun s₄ moment _ hs₄ hmoment => ⟨hs₄.asked rfl fun _ => rfl, ?_⟩
      have hfail : job.failed ("dispatch failed: " ++ e.message) moment =
          .ok (failed job e moment) := by
        rw [Job.failed, Job.move, if_pos (by rw [hsends.state]; rfl)]
        rfl
      refine Discipline.wpSure_move hfail ?_
      refine Race.wpSure_performed fun s₅ now₅ _ hs₅ _ => ?_
      obtain ⟨hs₅', hdecided⟩ := hs₅.fail hsends rfl hmoment now₅
      refine ⟨hs₅', _, rfl, ?_⟩
      have hstays : ∀ {s' : Shared (Option ι)}, Shared.Others none (s₅.asked (.error e) none now₅
          (.store (.updateIfState (failed job e moment) .sent))).2 s' →
          s'.winners job.id ≠ [] := by
        intro s' hothers hnil
        have hsuffix := hothers.winners job.id
        rw [hnil, List.suffix_nil] at hsuffix
        exact hdecided hsuffix
      split
      · refine Race.wpSure_last fun s₆ now₆ hothers₆ hs₆ _ =>
          ⟨hs₆.asked rfl fun _ => rfl, fun s₇ hothers₇ _ _ hnil => ?_⟩
        have hsuffix := hothers₇.winners job.id
        rw [hnil, List.suffix_nil, Race.winners_asked rfl] at hsuffix
        exact hstays hothers₆ hsuffix
      · exact Discipline.wpSure_pure fun _ hothers _ _ _ => hstays hothers

end Sender

/-! ## How long they take -/

theorem within_afterSent (job : Job) : Race.Within 6 (afterSent job).run := by
  refine Race.within_bind (n := 1) (m := 5) Race.within_ask fun _ => ?_
  refine Race.within_bind (n := 1) (m := 4) Race.within_ask fun r => ?_
  match r with
  | .ok () => trivial
  | .error e =>
      refine Race.within_bind (n := 1) (m := 3) Race.within_ask fun _ => ?_
      refine Race.within_bind (n := 1) (m := 2) Race.within_ask fun now => ?_
      refine Race.within_bind (n := 0) (m := 2) Race.within_move fun after => ?_
      refine Race.within_bind (n := 1) (m := 1) Race.within_store fun hit => ?_
      cases hit with
      | true => exact Race.within_ask
      | false => trivial

theorem within_acknowledgeTransfer (id : String) :
    Race.Within 4 (Api.acknowledgeTransfer id) := by
  intro found
  match found with
  | .error e => trivial
  | .ok none => trivial
  | .ok (some job) =>
      change Race.Within 3 (if job.role ≠ .initiator || job.state ≠ .sent then _ else _)
      split
      · trivial
      · intro now
        simp only [Program.bind]
        cases job.acknowledged now with
        | error e => trivial
        | ok after =>
            intro r
            match r with
            | .error e => trivial
            | .ok false => trivial
            | .ok true => exact fun _ => trivial

/-! ## What they leave behind -/

section Outcome

variable {sent : Except DispatchError Unit} {before job : Job} {now : Instant} {r : Row}
  {ids : ι → String} {s : Shared (Option ι)} {t : Table}

theorem Sound.passing (h : Sound sent job r ids s) (hsends : Sends before job now r)
    {c : Store.Call} (hc : c.Spares job.id) : Sound sent job r ids (s.passing c) :=
  ⟨h.stands.passing hsends hc, h.touches⟩

theorem Stands.once (h : Stands sent job r ids s) {p q : Option ι}
    (hp : p ∈ s.winners job.id) (hq : q ∈ s.winners job.id) : p = q := by
  rw [Stands] at h
  split at h
  · next hw =>
    rw [hw] at hp
    cases hp
  · next hw =>
    rw [hw, List.mem_singleton] at hp hq
    rw [hp, hq]
  · next hw =>
    rw [hw, List.mem_singleton] at hp hq
    rw [hp, hq]
  · exact h.elim

variable [DecidableEq ι]

theorem invariant_begun (sent : Except DispatchError Unit) (ids : ι → String) (hsole : t.Sole r)
    (hsends : Sends before job now r) :
    Race.Invariant sent (Sound sent job r ids) (Promised sent job ids)
      (begun t before job now ids) := by
  have hshows := Row.shows_of_toJob? hsends.reads_asRead.toJob?
  have hmatch : Table.matchesJob job none r = true := by
    have hid : r.id = .text job.id := hshows.id
    simp [Table.matchesJob, hid]
  have htable : ((Store.Call.update job).perform t).2 = t.write job none := by
    have hhits : t.hits job none = Table.matchesJob job none r :=
      hsole.hits hshows.id none
    rw [Store.Call.perform, Table.update, hhits, hmatch]
    rfl
  have hwrite := hsole.write job none
  rw [if_pos hmatch, ← htable] at hwrite
  refine ⟨⟨hwrite, fun e he => absurd he List.not_mem_nil⟩, fun party => ?_⟩
  cases party with
  | none =>
      show (terms _ _ _).wp (stored now (Cycle.send before).run) _ _
      rw [stored_send hsends.sent]
      refine Discipline.wp_mono (fun result s _ hresult => ?_) (wpSure_afterSent hsends)
      obtain ⟨_, hok, hdecided⟩ := hresult
      exact ⟨hok, hdecided⟩
  | some i => exact wp_acknowledgeTransfer hsends rfl

theorem Answered.mem_winners {i : ι} {a : Api.Response}
    (h : Answered (ids i) (s.own (some i)) a) (hid : ids i = job.id) :
    a.status = 200 ↔ some i ∈ s.winners job.id := by
  rw [h.done, s.mem_winners, hid]

theorem Sound.touches_own (h : Sound sent job r ids s) {i : ι} {e : Entry (Option ι)}
    (he : e ∈ s.own (some i)) : Touches (ids i) job e := by
  obtain ⟨hmem, hparty⟩ := List.mem_filter.1 he
  exact h.touches e hmem i (of_decide_eq_true hparty)

variable {z : State (Answer (ι := ι))}

/-- When all are done, the first write over the state sent has decided the job. -/
theorem decided_of_invariant (hsends : Sends before job now r)
    {result : Except OrchestratorError Unit} (hresult : z.rest none = .done result)
    (hsettled : ∀ i, z.shared.own (some i) = [] ∨ ∃ a, z.rest (some i) = .done a) :
    Race.Invariant sent (Sound sent job r ids) (Promised sent job ids) z →
    ((∃ i a, z.rest (some i) = .done a ∧ ids i = job.id ∧ a.status = 200) ∧
      ∃ now, z.shared.table.Keeps (acknowledged job now)) ∨
    (∀ i a, z.rest (some i) = .done a → ids i = job.id → a.status ≠ 200) ∧
      match sent with
      | .ok () => z.shared.table.Keeps (asRead job)
      | .error e => ∃ now, z.shared.table.Keeps (failed job e now) := by
  intro hinv
  have hwon : ∀ i a, z.rest (some i) = .done a → ids i = job.id →
      (a.status = 200 ↔ some i ∈ z.shared.winners job.id) := by
    intro i a hi hid
    have hanswered : Answered (ids i) (z.shared.own (some i)) a := (hinv.done hi).1
    exact hanswered.mem_winners hid
  have hsender := (hinv.done hresult).2
  have hstands := hinv.holds.stands
  rw [Stands] at hstands
  split at hstands
  · next hw =>
    refine .inr ⟨fun i a hi hid ha => ?_, ?_⟩
    · have hmem := (hwon i a hi hid).1 ha
      rw [hw] at hmem
      cases hmem
    · match sent with
      | .ok () => exact ⟨_, hstands, hsends.reads_asRead.toJob?⟩
      | .error e => exact absurd hw (hsender e rfl)
  · next i hw =>
    obtain ⟨hid, hacknowledged⟩ := hstands
    have hmem : some i ∈ z.shared.winners job.id := by
      rw [hw]
      exact List.mem_cons_self
    refine .inl ⟨?_, hacknowledged⟩
    rcases hsettled i with hnone | ⟨a, hi⟩
    · obtain ⟨e, he, -⟩ := (Shared.mem_winners _ _ _).1 hmem
      rw [hnone] at he
      cases he
    · exact ⟨i, a, hi, hid, (hwon i a hi hid).2 hmem⟩
  · next hw =>
    obtain ⟨e, moment, rfl, hfailed⟩ := hstands
    refine .inr ⟨fun i a hi hid ha => ?_, moment, hfailed⟩
    have hmem := (hwon i a hi hid).1 ha
    rw [hw] at hmem
    simp at hmem
  · exact hstands.elim

end Outcome

/-- The first write over the state sent decides the job, and who is told so made it. -/
theorem acknowledged_once [DecidableEq ι] {t : Table} {before job : Job} {now : Instant}
    (hkeeps : t.Keeps before) (hsent : before.sent now = .ok job) (hnow : now.Storable)
    (sent : Except DispatchError Unit) (ids : ι → String)
    (moves : List (Move (Option ι) job.id)) :
    Decided sent job ids moves ((begun t before job now ids).after sent moves) := by
  obtain ⟨r, hsole, hread⟩ := hkeeps
  have hsends : Sends before job now r := ⟨Row.reads_of_toJob? hread, hsent, hnow⟩
  have hinv := (invariant_begun sent ids hsole hsends).after
    (fun _ _ hc hs => hs.passing hsends hc) moves
  have hanswered : ∀ i a, ((begun t before job now ids).after sent moves).rest (some i) = .done a →
      Answered (ids i) (((begun t before job now ids).after sent moves).shared.own (some i)) a ∧
        (ids i = job.id → a.status = 200 ∨ a.status = 409) :=
    fun i a hi => hinv.done hi
  constructor
  case ends =>
    constructor
    · intro hturns
      have hwithin : Race.Within 6 ((begun t before job now ids).rest none) := by
        show Race.Within 6 (stored now (Cycle.send before).run)
        rw [stored_send hsent]
        exact within_afterSent job
      obtain ⟨result, hresult⟩ := Race.done_of_turns sent hwithin hturns
      rw [hresult, (hinv.done hresult).1]
    · intro i hturns
      exact Race.done_of_turns sent (s := begun t before job now ids)
        (within_acknowledgeTransfer (ids i)) hturns
  case answered => exact fun i a hi => (hanswered i a hi).1
  case conflict => exact fun i a hi => (hanswered i a hi).2
  case once =>
    intro i k a b hi hk hid hkid ha hb
    have hi' := ((hanswered i a hi).1.mem_winners hid).1 ha
    have hk' := ((hanswered k b hk).1.mem_winners hkid).1 hb
    exact Option.some.inj (hinv.holds.stands.once hi' hk')
  case untouched =>
    intro i a hi ha e he
    refine (hinv.holds.touches_own he).untouched (Bool.eq_false_iff.2 fun hhit => ha ?_)
    exact (hanswered i a hi).1.done.2 ⟨e, he, hhit⟩
  case touched =>
    intro i hid e he
    have htouches := hinv.holds.touches_own he
    cases hhit : Race.hit (ids i) e.call e.reply with
    | false => exact .inl (htouches.untouched hhit)
    | true => exact .inr (htouches.touched hhit hid)
  case decided =>
    intro result hresult hsettled
    exact decided_of_invariant hsends hresult hsettled hinv

/-- An initiator's job whose request is about to be sent. -/
def leaving : Job where
  id := "job"
  correlationId := "t"
  role := .initiator
  state := .provisioned
  request := { id := "t", destination := { kind := localDirectory } }
  createdAt := .epoch
  stateTimestamp := .epoch

theorem keeps_leaving : Table.Keeps ⟨[Row.ofJob leaving]⟩ leaving :=
  Table.keeps_ofJob (Row.reads_ofJob_epoch rfl rfl)

/-- Two clients acknowledge the job, and a third one asks for a job that is not there. -/
def clients (i : Fin 3) : String :=
  if i = 2 then "nobody" else "job"

/-- Both clients have looked before the call fails, and one of them writes before the
sender does. -/
def crossing : List (Move (Option (Fin 3)) "job") :=
  [some 0, some 1, none, none, none, none, some 0, some 0, none, none, some 0, some 1, some 1,
    some 1, some 2, some 2, some 2, some 2].map fun party =>
      .turn party .epoch Instant.storable_epoch

theorem acknowledged_once_crossing :
    Table.Keeps ⟨[Row.ofJob leaving]⟩ leaving ∧
      leaving.sent .epoch = .ok { leaving with state := .sent } ∧ Instant.epoch.Storable ∧
      6 ≤ Race.turns none crossing ∧ (∀ i, 4 ≤ Race.turns (some i) crossing) ∧
      Decided (.error (.rejected 503 "")) { leaving with state := .sent } clients crossing
        ((begun ⟨[Row.ofJob leaving]⟩ leaving { leaving with state := .sent } .epoch
          clients).after (.error (.rejected 503 "")) crossing) :=
  ⟨keeps_leaving, rfl, Instant.storable_epoch, by decide, by decide,
    acknowledged_once keeps_leaving rfl Instant.storable_epoch (.error (.rejected 503 "")) clients
      crossing⟩

end Acknowledgment

end Ferry
