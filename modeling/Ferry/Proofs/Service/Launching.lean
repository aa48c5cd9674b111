import Ferry.Proofs.Job.Consistency
import Ferry.Proofs.Orchestrator.CycleRules
import Ferry.Proofs.Service.Calls
import Ferry.Proofs.Service.Worker

/-!
# Starting the flow of a request

The worker starts an executor's flow first and stores afterwards that it did. In
between the job is still stored as provisioned, and what keeps the worker from starting
the flow once more is only that it does not get to its next batch before it has stored
the start, or found that somebody else has moved the job on.

The worker's program is followed here with one request in mind. Where it stands with
the flow of that request (`Launch`) is told by its own calls, and what it may rely on is
told by the table: a job that is past dispatch stays so, and is in no batch of
provisioned jobs. A program that starts a flow that it must not start, or turns to
something else before it has stored a start, has gone astray.
-/

namespace Ferry

namespace JobState

/-- The job has gone on from where its flow is started. -/
def PastDispatch (s : JobState) : Prop :=
  s.PastProvisioning ∧ s ≠ .provisioned

theorem Reaches.pastDispatch {role : Role} {a b : JobState} (h : Reaches role a b)
    (ha : a.PastDispatch) : b.PastDispatch := by
  refine h.keeps (fun a b ha hmove => ?_) ha
  cases a <;> cases b <;> simp_all [canMove, PastDispatch, PastProvisioning]

end JobState

namespace Request

/-- The call starts the flow of the request. -/
def Starts (c : String) : Request → Prop
  | .startFlow request => request.id = c
  | _ => False

/-- The call stores that the flow of the request was started, if nobody has moved the job
on. -/
def Records (c : String) : Request → Prop
  | .store (.updateIfState job .provisioned) => job.request.id = c ∧ job.state = .executing
  | _ => False

theorem Inward.not_starts {q : Request} (h : q.Inward) (c : String) : ¬ q.Starts c := by
  cases q with
  | startFlow _ => exact h.elim
  | store _ | provision _ | send _ _ | acknowledge _ _ | isComplete _ | now | freshId
  | count _ _ | isRunning | overflow => exact not_false

end Request

namespace Service

open Operation World

/-- The request's job is past dispatch. -/
def World.Settled (w : World) (c : String) : Prop :=
  ∃ id st, w.standing? id = some st ∧ st.correlationId = c ∧ st.state.PastDispatch

theorem World.Settled.advances {w w' : World} {c : String} (h : w.Settled c)
    (ha : w.Advances w') : w'.Settled c := by
  obtain ⟨id, st, hst, hc, hpast⟩ := h
  obtain ⟨st', hst', hleads⟩ := ha id st hst
  exact ⟨id, st', hst', hleads.correlationId.trans hc, hleads.state.pastDispatch hpast⟩

/-- Where a program stands with the flow of one request. -/
inductive Launch where
  /-- It may start the flow if it comes upon it. -/
  | startable
  /-- It has started the flow, and is to store that. -/
  | unrecorded
  /-- The table tells that the flow is not to be started. -/
  | settled
  | astray

namespace Launch

/-- What a call and its reply lead to. A start that the store has failed to record is
lost, and the program knows of it no more. -/
def after (c : String) : Launch → (q : Request) → q.Reply → Launch
  | startable, .startFlow request, .ok => if request.id = c then unrecorded else startable
  | unrecorded, .store (.updateIfState job .provisioned), r =>
    if job.request.id = c ∧ job.state = .executing then
      match r with
      | .ok _ => settled
      | .error _ => startable
    else astray
  | unrecorded, .now, _ | unrecorded, .freshId, _ | unrecorded, .count .., _ => unrecorded
  | unrecorded, _, _ => astray
  | settled, .startFlow request, _ => if request.id = c then astray else settled
  | m, _, _ => m

/-- The program takes the flow for settled only where the job of the request is past dispatch, and
it is not astray. -/
def Fits (w : World) (c : String) : Launch → Prop
  | startable | unrecorded => True
  | settled => w.Settled c
  | astray => False

variable {w w' : World} {c : String} {m : Launch} {q : Request}

theorem Fits.ne_astray (h : m.Fits w c) : m ≠ astray := by
  rintro rfl
  exact h

theorem Fits.advances (h : m.Fits w c) (ha : w.Advances w') : m.Fits w' c := by
  cases m with
  | startable | unrecorded => trivial
  | settled => exact World.Settled.advances h ha
  | astray => exact h.elim

/-- Calls that start another flow or none make no difference to a program that has
nothing to store. -/
theorem after_of_not_starts (hm : m ≠ unrecorded) (hq : ¬ q.Starts c) (r : q.Reply) :
    m.after c q r = m := by
  cases m with
  | startable =>
      cases q with
      | startFlow request =>
          cases r with
          | ok => exact if_neg hq
          | retry _ | fatal _ => rfl
      | store _ | provision _ | send _ _ | acknowledge _ _ | isComplete _ | now | freshId
      | count _ _ | isRunning | overflow => rfl
  | unrecorded => exact absurd rfl hm
  | settled =>
      cases q with
      | startFlow request => exact if_neg hq
      | store _ | provision _ | send _ _ | acknowledge _ _ | isComplete _ | now | freshId
      | count _ _ | isRunning | overflow => rfl
  | astray => rfl

theorem after_of_harmless (hq : q.Harmless) (r : q.Reply) : m.after c q r = m := by
  cases q with
  | now | freshId | count _ _ => cases m <;> rfl
  | store _ | provision _ | send _ _ | acknowledge _ _ | startFlow _ | isComplete _
  | isRunning | overflow => exact hq.elim

/-- A program that has a start to store stores it or makes a call that cannot fail. -/
theorem records_or_harmless {r : q.Reply} (h : unrecorded.after c q r ≠ astray) :
    q.Records c ∨ q.Harmless := by
  cases q with
  | now | freshId | count _ _ => exact .inr trivial
  | store s =>
      cases s with
      | updateIfState job expected =>
          cases expected with
          | provisioned =>
              by_cases hrecords : job.request.id = c ∧ job.state = .executing
              · exact .inl hrecords
              · exact absurd (if_neg hrecords) h
          | _ => exact absurd rfl h
      | _ => exact absurd rfl h
  | _ => exact absurd rfl h

end Launch

/-- The terms on which the flow of one request is started. -/
def launching (c : String) : Discipline operationSignature (World × Launch) where
  inv s := s.2.Fits s.1 c
  answers q s r s' := s.1.Sound ∧ Answers q s.1 r s'.1 ∧ s.1.Advances s'.1 ∧
    s'.2 = s.2.after c q r
  rely s s' := s.1.Advances s'.1 ∧ s'.2 = s.2
  guarantee _ _ := True
  rely_refl s := ⟨.refl s.1, rfl⟩
  rely_trans h h' := ⟨h.1.trans h'.1, h'.2.trans h.2⟩

/-- The program does not end between starting the flow and storing that. -/
def Recorded {α : Type} (_ : α) (s : World × Launch) : Prop :=
  s.2 ≠ .unrecorded

namespace Launch

section Rules

variable {α : Type} {w : World} {c : String} {m : Launch} {q : Request} {job after : Job}
  {Q : α → World × Launch → Prop}

/-- A call whose reply leaves the program where it fits. -/
theorem wp_call {next : q.Reply → Activity α}
    (h : ∀ w₁ r w₂, w.Advances w₁ → m.Fits w₁ c → w₁.Sound → Answers q w₁ r w₂ →
      w₁.Advances w₂ → (m.after c q r).Fits w₂ c ∧
        (launching c).wp (next r) Q (w₂, m.after c q r)) :
    (launching c).wp (.call q next) Q (w, m) := by
  rintro ⟨w₁, _⟩ ⟨ha, rfl⟩ hfits r ⟨w₂, _⟩ ⟨hs, hans, ha', rfl⟩
  obtain ⟨hfits', hnext⟩ := h w₁ r w₂ ha hfits hs hans ha'
  exact ⟨hfits', trivial, hnext⟩

/-- A call that makes no difference to the program. -/
theorem wp_same {next : q.Reply → Activity α} (hafter : ∀ r, m.after c q r = m)
    (h : ∀ r w', w.Advances w' → (launching c).wp (next r) Q (w', m)) :
    (launching c).wp (.call q next) Q (w, m) := by
  refine wp_call fun w₁ r w₂ ha hfits _ _ ha' => ?_
  rw [hafter r]
  exact ⟨hfits.advances ha', h r w₂ (ha.trans ha')⟩

/-- A program that starts no flow of the request stands with it as before. -/
theorem wp_of_makes {f : Activity α} (hm : m ≠ .unrecorded) (h : Makes (¬ ·.Starts c) f) :
    (launching c).wp f (fun _ s => w.Advances s.1 ∧ s.2 = m) (w, m) := by
  suffices hfrom : ∀ w₁, w.Advances w₁ →
      (launching c).wp f (fun _ s => w.Advances s.1 ∧ s.2 = m) (w₁, m) from hfrom w (.refl w)
  induction f with
  | done a =>
      rintro w₁ ha ⟨w₂, _⟩ ⟨ha', rfl⟩ _
      exact ⟨ha.trans ha', rfl⟩
  | call q next ih =>
      intro w₁ ha
      refine wp_same (after_of_not_starts hm h.1) fun r w₂ ha' => ?_
      exact ih r (h.2 r) w₂ (ha.trans ha')

theorem wpOr_same {g : q.Reply → Operation α} (hafter : ∀ r, m.after c q r = m)
    (h : ∀ r w', w.Advances w' → (launching c).wpOr Recorded (g r) Q (w', m)) :
    (launching c).wpOr Recorded (ask q >>= g) Q (w, m) :=
  wp_same hafter h

theorem wpOr_harmless {g : q.Reply → Operation α} (hq : q.Harmless)
    (h : ∀ r w', w.Advances w' → (launching c).wpOr Recorded (g r) Q (w', m)) :
    (launching c).wpOr Recorded (ask q >>= g) Q (w, m) :=
  wpOr_same (after_of_harmless hq) h

/-- What is to be counted is no start. -/
theorem wpOr_checkCount {g : Unit → Operation α} {outcome : FlowOutcome}
    (hm : m = .unrecorded → outcome = .ok)
    (h : ∀ w', w.Advances w' → (launching c).wpOr Recorded (g ()) Q (w', m)) :
    (launching c).wpOr Recorded (Cycle.checkCount job outcome >>= g) Q (w, m) := by
  refine Discipline.wpOr_checkCount (fun hover => ?_) (h w (.refl w))
  refine wpOr_same (after_of_not_starts (fun heq => ?_) not_false) fun _ => h
  rw [hm heq] at hover
  cases hover

theorem wpOr_throw {e : OrchestratorError} (hm : m ≠ .unrecorded) :
    (launching c).wpOr Recorded (throw e) Q (w, m) := by
  refine Discipline.wpOr_throw ?_
  rintro ⟨w', _⟩ ⟨-, rfl⟩ _
  exact hm

/-- A statement of the store by a program that has nothing to store. -/
theorem wpOr_store {call : Store.Call} {g : call.Answer → Operation α} (hm : m ≠ .unrecorded)
    (h : ∀ w₁ a w₂, m.Fits w₁ c → w₁.Sound → Answers (.store call) w₁ (.ok a) w₂ →
      w₁.Advances w₂ → (launching c).wpOr Recorded (g a) Q (w₂, m)) :
    (launching c).wpOr Recorded (store call >>= g) Q (w, m) := by
  refine wp_call (q := .store call) fun w₁ r w₂ _ hfits hs hans ha => ?_
  rw [after_of_not_starts (q := .store call) hm not_false]
  refine ⟨hfits.advances ha, ?_⟩
  cases r with
  | ok a => exact h w₁ a w₂ hfits hs hans ha
  | error e => exact wpOr_throw hm

theorem wpOr_of_makes {f : Operation α} (hm : m ≠ .unrecorded)
    (h : Makes (¬ ·.Starts c) f.run) (hQ : ∀ a w', w.Advances w' → Q a (w', m)) :
    (launching c).wpOr Recorded f Q (w, m) := by
  refine Discipline.wp_mono ?_ (wp_of_makes hm h)
  rintro result ⟨w', _⟩ _ ⟨ha, rfl⟩
  cases result with
  | ok a => exact hQ a w' ha
  | error e => exact hm

end Rules

/-! ## Starting a flow -/

/-- The job was read as provisioned, and its row has at most gone on from there. -/
structure Ready (w : World) (job : Job) : Prop where
  state : job.state = .provisioned
  request : job.request.id = job.correlationId
  stands : ∃ st, w.standing? job.id = some st ∧ job.standing.Leads st

section Execute

variable {w w' : World} {c : String} {m : Launch} {job after : Job}

theorem Ready.advances (h : Ready w job) (ha : w.Advances w') : Ready w' job := by
  obtain ⟨st, hst, hleads⟩ := h.stands
  obtain ⟨st', hst', hleads'⟩ := ha job.id st hst
  exact ⟨h.state, h.request, st', hst', hleads.trans hleads'⟩

/-- Once the job is in another state than the one it was read in, its flow is not to be
started. -/
theorem Ready.settled (h : Ready w job) (hmoved : ∀ st, w.standing? job.id = some st →
    st.state ≠ .provisioned) : w.Settled job.request.id := by
  obtain ⟨st, hst, hleads⟩ := h.stands
  have hpast : st.state.PastProvisioning := by
    refine hleads.state.pastProvisioning ?_
    simp [Job.standing, h.state, JobState.PastProvisioning]
  exact ⟨job.id, st, hst, hleads.correlationId.trans h.request.symm, hpast, hmoved st hst⟩

/-- Whether the write hits or misses, the job is past dispatch after it. -/
theorem settled_of_answer {hit : Bool} (hs : w.Sound) (hjob : Ready w job)
    (hid : after.id = job.id) (hstate : after.state = .executing)
    (h : Answers (.store (.updateIfState after .provisioned)) w (.ok hit) w')
    (ha : w.Advances w') : w'.Settled job.request.id := by
  refine (hjob.advances ha).settled fun st hst => ?_
  rw [← hid] at hst
  cases hit with
  | true =>
      obtain ⟨st₀, -, -, hwrites⟩ := h.swapped hs
      obtain rfl := Option.some.inj (hwrites.standing?_self.symm.trans hst)
      simp [Standing.inState, hstate]
  | false =>
      rw [h.onlyJournaled_of_miss.standing?_eq] at hst
      exact Store.Table.ne_of_updateIfState_miss hs.table (Except.ok.inj h.perform_eq) hst

/-- The worker stores what the flow answered. If the flow was started, the start is stored
with it, or was not to be stored, or is lost. -/
theorem wpOr_record (hjob : Ready w job) (hid : after.id = job.id)
    (hrequest : after.request.id = job.request.id) (hm : m ≠ .settled)
    (hstate : m = .unrecorded → after.state = .executing) :
    (launching job.request.id).wpOr Recorded
      (do if ← store (.updateIfState after .provisioned) then countMove after)
      (fun a s => w.Advances s.1 ∧ Recorded a s) (w, m) := by
  by_cases hunrecorded : m = .unrecorded
  · subst hunrecorded
    have hexecuting := hstate rfl
    refine wp_call (q := .store (.updateIfState after .provisioned))
      fun w₁ r w₂ ha _ hs hans ha' => ?_
    cases r with
    | ok hit =>
        rw [show unrecorded.after job.request.id
          (.store (.updateIfState after .provisioned)) (.ok hit) = .settled from
          if_pos ⟨hrequest, hexecuting⟩]
        refine ⟨settled_of_answer hs (hjob.advances ha) hid hexecuting hans ha', ?_⟩
        refine wpOr_of_makes (by simp) ?_ fun _ w' ha'' =>
          ⟨(ha.trans ha').trans ha'', by simp [Recorded]⟩
        cases hit with
        | true => exact makes_count (fun q hq => hq.not_starts _) _ _
        | false => exact makes_pure ()
    | error e =>
        rw [show unrecorded.after job.request.id
          (.store (.updateIfState after .provisioned)) (.error e) = .startable from
          if_pos ⟨hrequest, hexecuting⟩]
        exact ⟨trivial, wpOr_throw (by simp)⟩
  · exact wpOr_of_makes hunrecorded (makes_swap (fun q hq => hq.not_starts _) _ _)
      fun _ w' ha => ⟨ha, hunrecorded⟩

/-- Where the worker stands with the flow once it has an answer. -/
theorem exists_after_start (job : Job) (outcome : FlowOutcome) : ∃ m : Launch,
    startable.after job.request.id (.startFlow job.request) outcome = m ∧
    m.Fits w job.request.id ∧ m ≠ .settled ∧ (m = .unrecorded → outcome = .ok) := by
  cases outcome with
  | ok => exact ⟨.unrecorded, if_pos rfl, trivial, by simp, fun _ => rfl⟩
  | retry reason => exact ⟨.startable, rfl, trivial, by simp, by simp⟩
  | fatal detail => exact ⟨.startable, rfl, trivial, by simp, by simp⟩

/-- The worker comes upon the job whose flow is followed. -/
theorem wpOr_execute_this (config : Config.Orchestrator) (hjob : Ready w job)
    (hrole : job.role = .executor) (hm : m ≠ .unrecorded) (hsettled : m ≠ .settled) :
    (launching job.request.id).wpOr Recorded (Cycle.execute config job)
      (fun a s => w.Advances s.1 ∧ Recorded a s) (w, m) := by
  refine wp_call (q := .startFlow job.request) fun w₁ outcome w₂ ha hfits _ _ ha' => ?_
  obtain rfl : m = .startable := by
    cases m with
    | startable => rfl
    | unrecorded => exact absurd rfl hm
    | settled => exact absurd rfl hsettled
    | astray => exact hfits.elim
  obtain ⟨m, hafter, hfits', hm', hok⟩ := exists_after_start (w := w₂) job outcome
  rw [hafter]
  refine ⟨hfits', ?_⟩
  refine wpOr_harmless trivial fun _ w₃ ha₃ => ?_
  refine wpOr_harmless trivial fun now w₄ ha₄ => wpOr_checkCount hok fun w₅ ha₅ => ?_
  have ha₅ : w.Advances w₅ := (((ha.trans ha').trans ha₃).trans ha₄).trans ha₅
  -- an answer can be kept whatever it is, so the start cannot be lost here
  obtain ⟨after, hmoved⟩ := Job.exists_afterFlow hrole hjob.state config.maxFlowRetries now outcome
  have hevolves := Job.evolves_afterFlow hjob.state hmoved
  have hstate : m = .unrecorded → after.state = .executing := by
    intro hunrecorded
    obtain rfl := hok hunrecorded
    exact (Job.move_ok hmoved).state
  have hrecord : ∀ w₆, w.Advances w₆ → (launching job.request.id).wpOr Recorded
      (do if ← store (.updateIfState after .provisioned) then countMove after)
      (fun a s => w.Advances s.1 ∧ Recorded a s) (w₆, m) := by
    intro w₆ ha₆
    refine Discipline.wpOr_mono ?_
      (wpOr_record (hjob.advances ha₆) hevolves.id (by rw [hevolves.request]) hm' hstate)
    exact fun _ _ _ h => ⟨ha₆.trans h.1, h.2⟩
  refine Discipline.wpOr_moved hmoved ?_
  split
  · exact wpOr_harmless trivial fun _ w₆ ha₆ => hrecord w₆ (ha₅.trans ha₆)
  · exact hrecord w₅ ha₅

end Execute

/-! ## The worker -/

section Worker

variable {w : World} {c : String} {m : Launch} {job : Job}

/-- Of the jobs that are still to come, each is for a request of its own, and none is for
one whose flow is not to be started. -/
structure Ahead (c : String) (jobs : List Job) (s : World × Launch) : Prop where
  recorded : s.2 ≠ .unrecorded
  ready : ∀ job ∈ jobs, Ready s.1 job
  distinct : (jobs.map (·.request.id)).Nodup
  spared : s.2 = .settled → c ∉ jobs.map (·.request.id)

theorem wpOr_dispatch_next (config : Config.Orchestrator) {rest : List Job}
    (h : Ahead c (job :: rest) (w, m)) :
    (launching c).wpOr Recorded (Cycle.dispatch config job) (fun _ s => Ahead c rest s) (w, m) := by
  obtain ⟨hfirst, hdistinct⟩ := List.nodup_cons.1 h.distinct
  have hjob := h.ready job List.mem_cons_self
  have hrest : ∀ w', w.Advances w' → ∀ k ∈ rest, Ready w' k :=
    fun w' ha k hk => (h.ready k (List.mem_cons_of_mem _ hk)).advances ha
  have hother : Makes (¬ ·.Starts c) (Cycle.dispatch config job).run →
      (launching c).wpOr Recorded (Cycle.dispatch config job) (fun _ s => Ahead c rest s)
        (w, m) := fun hmakes =>
    wpOr_of_makes h.recorded hmakes fun _ w' ha =>
      ⟨h.recorded, hrest w' ha, hdistinct, fun hm hc => h.spared hm (List.mem_cons_of_mem _ hc)⟩
  cases hrole : job.role with
  | initiator =>
      refine hother ?_
      rw [Cycle.dispatch, hrole]
      exact makes_send (fun q hq => hq.not_starts c) fun _ _ _ => not_false
  | executor =>
      by_cases hc : job.request.id = c
      · subst hc
        rw [Cycle.dispatch, hrole]
        refine Discipline.wpOr_mono (fun _ s _ hs => ?_)
          (wpOr_execute_this config hjob hrole h.recorded fun hm => h.spared hm List.mem_cons_self)
        exact ⟨hs.2, hrest s.1 hs.1, hdistinct, fun _ => hfirst⟩
      · refine hother ?_
        rw [Cycle.dispatch, hrole]
        exact makes_execute (fun q hq => hq.not_starts c) hc config

/-- No two jobs of a batch are for the same request. -/
theorem nodup_requests {jobs : List Job} (hs : w.Sound) (hids : (jobs.map (·.id)).Nodup)
    (hmatches : ∀ job ∈ jobs, w.table.StandingMatches job) : (jobs.map (·.request.id)).Nodup := by
  refine (List.Nodup.of_map _ hids).map_on fun j hj k hk heq => ?_
  refine List.inj_on_of_nodup_map hids hj hk ?_
  obtain ⟨hst, hreq⟩ := hmatches j hj
  obtain ⟨hst', hreq'⟩ := hmatches k hk
  refine hs.table.id_unique hst hst' ?_
  change j.correlationId = k.correlationId
  rw [← hreq, ← hreq', heq]

/-- A batch of provisioned jobs, as it is read. -/
theorem ahead_of_next {limit : Nat} {jobs : List Job} (hs : w.Sound) (hfits : m.Fits w c)
    (hm : m ≠ .unrecorded) (hread : w.table.next .provisioned limit = .ok jobs) :
    Ahead c jobs (w, m) := by
  obtain ⟨hids, hjobs⟩ := Store.Table.next_ok hs.table hread
  refine ⟨hm, fun job hj => ?_, nodup_requests hs hids fun job hj => (hjobs job hj).2, ?_⟩
  · obtain ⟨hstate, hst, hreq⟩ := hjobs job hj
    exact ⟨hstate, hreq, job.standing, hst, .refl _⟩
  · rintro rfl hc
    obtain ⟨job, hj, rfl⟩ := List.mem_map.1 hc
    obtain ⟨hstate, hst, hreq⟩ := hjobs job hj
    -- the job that is past dispatch would be the one that was read as provisioned
    obtain ⟨id, st, hst', hcorrelation, -, hpast⟩ := hfits
    obtain rfl := hs.table.id_unique hst' hst (hcorrelation.trans hreq)
    obtain rfl := Option.some.inj (hst'.symm.trans hst)
    exact hpast hstate

theorem Ahead.advances {w' : World} {jobs : List Job} (h : Ahead c jobs (w, m))
    (ha : w.Advances w') : Ahead c jobs (w', m) :=
  ⟨h.recorded, fun job hj => (h.ready job hj).advances ha, h.distinct, h.spared⟩

theorem wpOr_dispatch_all (config : Config.Orchestrator) {jobs : List Job}
    (h : Ahead c jobs (w, m)) :
    (launching c).wpOr Recorded (forEach (Cycle.dispatch config) jobs) Recorded (w, m) := by
  refine Discipline.wpOr_mono (fun _ _ _ hdone => Ahead.recorded hdone)
    (Discipline.wpOr_forEach (I := Ahead c) ?_ ?_ jobs h)
  · rintro rest ⟨w₁, m₁⟩ ⟨w₂, _⟩ ⟨ha, rfl⟩ hrest
    exact hrest.advances ha
  · rintro job rest ⟨w₁, m₁⟩ _ hrest
    exact wpOr_dispatch_next config hrest

theorem wpOr_dispatchPhase (config : Config.Orchestrator) (hm : m ≠ .unrecorded) :
    (launching c).wpOr Recorded (Cycle.dispatchPhase config) Recorded (w, m) := by
  refine wpOr_store hm fun w₁ jobs w₂ hfits hs hans ha => ?_
  have hahead := (ahead_of_next hs hfits hm hans.perform_eq).advances ha
  refine Discipline.wpOr_then (wpOr_dispatch_all config hahead) ?_
  rintro _ ⟨w₃, m₃⟩ _ hm₃
  refine wpOr_of_makes hm₃ ?_ fun _ _ _ => hm₃
  exact makes_bind (makes_count (fun q hq => hq.not_starts c) _ _) fun _ => makes_pure _

/-- What a cycle does besides dispatch starts no flow. -/
theorem wpOr_cycle (config : Config.Orchestrator) (hm : m ≠ .unrecorded) :
    (launching c).wpOr Recorded (cycle config) Recorded (w, m) := by
  have hinward : ∀ q : Request, q.Inward → ¬ q.Starts c := fun q hq => hq.not_starts c
  have hmakes : ∀ {α : Type} {f : Operation α}, Makes (¬ ·.Starts c) f.run →
      (launching c).Preserves Recorded (fun s => s.2 ≠ .unrecorded) f :=
    fun hmakes s hs => wpOr_of_makes hs hmakes fun _ _ _ => hs
  exact Discipline.preserves_cycle (hmakes (makes_ask not_false))
    (hmakes (makes_provisionPhase hinward (fun _ => not_false) config))
    (fun _ hs => wpOr_dispatchPhase config hs)
    (hmakes (makes_completionPhase hinward (fun _ => not_false) config)) (w, m) hm

end Worker

/-! ## What comes next -/

section Next

variable {α : Type} {w w' : World} {c : String} {m : Launch} {q : Request} {p : Activity α}
  {Q : α → World × Launch → Prop}

/-- Any call may get some reply, and jobs go on from where they were. -/
theorem exists_answers (w : World) (q : Request) :
    ∃ r : q.Reply, Answers q w r (w.after q r) ∧ w.Advances (w.after q r) := by
  cases q with
  | store s =>
      refine ⟨.error (.notFound ""), ⟨.inr ⟨_, rfl⟩, rfl⟩, ?_⟩
      exact (onlyJournaled_after rfl rfl : w.OnlyJournaled _).legal.advances
  | provision _ => exact ⟨.ok (), ⟨trivial, rfl⟩, .refl w⟩
  | send _ _ => exact ⟨.ok (), ⟨trivial, rfl⟩, .refl w⟩
  | acknowledge _ _ | count _ _ | overflow => exact ⟨(), ⟨trivial, rfl⟩, .refl w⟩
  | startFlow _ => exact ⟨.ok, ⟨trivial, rfl⟩, .refl w⟩
  | isComplete _ | isRunning => exact ⟨true, ⟨trivial, rfl⟩, .refl w⟩
  | now => exact ⟨.epoch, ⟨trivial, rfl⟩, .refl w⟩
  | freshId => exact ⟨"", ⟨trivial, rfl⟩, .refl w⟩

theorem answers_of_harmless (w : World) (hq : q.Harmless) (r : q.Reply) :
    Answers q w r (w.after q r) ∧ w.OnlyJournaled (w.after q r) := by
  have hans : Answers q w r (w.after q r) := by
    cases q with
    | now | freshId | overflow | count _ _ => exact ⟨trivial, rfl⟩
    | store _ | provision _ | send _ _ | acknowledge _ _ | startFlow _ | isComplete _
    | isRunning => exact hq.elim
  exact ⟨hans, hans.onlyJournaled (quiet_of_harmless hq)⟩

/-- One call of a program that is followed. -/
theorem next_of_wp {next : q.Reply → Activity α} {r : q.Reply}
    (h : (launching c).wp (.call q next) Q (w, m)) (hfits : m.Fits w c) (hs : w.Sound)
    (hans : Answers q w r w') (ha : w.Advances w') : (m.after c q r).Fits w' c ∧
      (launching c).wp (next r) Q (w', m.after c q r) := by
  obtain ⟨hfits', -, hnext⟩ := Discipline.wp_call h hfits
    (show (launching c).answers q (w, m) r (w', m.after c q r) from ⟨hs, hans, ha, rfl⟩)
  exact ⟨hfits', hnext⟩

/-- A program that has started the flow turns to nothing else before it has stored it. -/
theorem turnsTo_of_wp (hs : w.Sound) (h : (launching c).wp p Recorded (w, .unrecorded)) :
    TurnsTo (·.Records c) p := by
  induction p generalizing w with
  | done a => exact absurd rfl (h (w, .unrecorded) ⟨.refl w, rfl⟩ trivial)
  | call q next ih =>
      obtain ⟨r, hans, ha⟩ := exists_answers w q
      have hfits := (next_of_wp h trivial hs hans ha).1
      refine (records_or_harmless hfits.ne_astray).imp_right fun hharmless => ?_
      refine ⟨hharmless, fun r => ?_⟩
      obtain ⟨hans, hnoted⟩ := answers_of_harmless w hharmless r
      have hnext := (next_of_wp h trivial hs hans hnoted.legal.advances).2
      have hstays : unrecorded.after c q r = .unrecorded :=
        after_of_harmless hharmless r
      exact ih r (hnoted.sound hs) (hstays ▸ hnext)

end Next

end Launch

end Service

end Ferry
