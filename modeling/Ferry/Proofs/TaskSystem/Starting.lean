import Ferry.Proofs.TaskSystem.Consistency
import Ferry.Proofs.Service.Calls

/-!
# Flows are started with what was stored

A flow is started with the request of a job that was read as provisioned, and of what
is stored of a job its request never changes. So whatever the tasks do, the request
that a flow is started with stands in the table, in the row of an executor's job, and
two flows for one request id are started with the same request.

Which requests a program may start flows with is read off the program and the replies
it got (`StartsOnly`). That these stand in the table is a matter of the run.
-/

namespace Ferry

open Store Operation

/-! ## Requests in the table -/

namespace Store.Table

/-- The table has a row for the request, with that role and with the request in full. -/
def HasJobFor (t : Table) (role : Role) (request : TransferRequest) : Prop :=
  ∃ r ∈ t.rows, r.correlationId = .text request.id ∧ r.role = .text role.name ∧
    r.request = .text request.toJson.print

variable {t t' : Table} {role role' : Role} {request other : TransferRequest} {job : Job}

theorem HasJobFor.continues (h : t.HasJobFor role request) (hc : t.Continues t') :
    t'.HasJobFor role request := by
  obtain ⟨r, hr, hcorrelation, hrole, hrequest⟩ := h
  obtain ⟨r', hr', hsame⟩ := hc r hr
  exact ⟨r', hr', hsame.correlationId.trans hcorrelation, hsame.role.trans hrole,
    hsame.request.trans hrequest⟩

theorem hasJobFor_of_create (h : t.create job = .ok t')
    (hreq : job.request.id = job.correlationId) :
    t'.HasJobFor job.role job.request := by
  obtain ⟨-, -, rfl⟩ := create_eq_ok.1 h
  refine ⟨Row.ofJob job, List.mem_append_right _ (List.mem_singleton_self _), ?_, rfl, rfl⟩
  rw [hreq]
  rfl

/-- Of requests with one id one is stored at most, and for one side. -/
theorem HasJobFor.unique (hkept : t.WellKept) (h : t.HasJobFor role request)
    (h' : t.HasJobFor role' other) (hid : request.id = other.id) :
    role = role' ∧ request = other := by
  obtain ⟨r, hr, hcorrelation, hrole, hrequest⟩ := h
  obtain ⟨r', hr', hcorrelation', hrole', hrequest'⟩ := h'
  obtain rfl := eq_of_correlationId hkept hr hr' (by rw [hcorrelation, hcorrelation', hid])
  constructor
  · exact Role.name_inj (Cell.text.inj (hrole.symm.trans hrole'))
  · exact Row.request_inj (Cell.text.inj (hrequest.symm.trans hrequest'))

theorem hasJobFor_of_copied (hkept : t.WellKept) (h : t.Copied job) :
    t.HasJobFor job.role job.request := by
  obtain ⟨jobs, hlists⟩ := hkept
  obtain ⟨r, hr, -, hrole, hrequest⟩ := h.knows
  have hmem := hr
  rw [hlists.rows] at hmem
  obtain ⟨k, hk, rfl⟩ := List.mem_map.1 hmem
  have hkrequest : k.request = job.request := Row.request_inj (Cell.text.inj hrequest)
  refine ⟨_, hr, ?_, hrole, hrequest⟩
  show Cell.text k.correlationId = .text job.request.id
  rw [← hlists.requests k hk, hkrequest]

end Store.Table

namespace TaskSystem

open Store.Table Service

/-! ## Which flows a program starts -/

/-- The reply is a batch that has an executor's job with the request. -/
def ShowsRequest : (q : Request) → q.Reply → TransferRequest → Prop
  | .store (.next ..), .ok jobs, request =>
    ∃ job ∈ jobs, job.role = .executor ∧ job.request = request
  | _, _, _ => False

/-- The flows that the program starts are those of requests it knows, or is shown. -/
def StartsOnly {α : Type} (known : TransferRequest → Prop) : Activity α → Prop
  | .done _ => True
  | .call q next => (∀ request, q = .startFlow request → known request) ∧
    ∀ r, StartsOnly (fun request => known request ∨ ShowsRequest q r request) (next r)

section Rules

variable {α β : Type} {known known' : TransferRequest → Prop}

theorem StartsOnly.mono {f : Activity α} (h : StartsOnly known f)
    (hknown : ∀ request, known request → known' request) : StartsOnly known' f := by
  induction f generalizing known known' with
  | done a => trivial
  | call q next ih =>
      refine ⟨fun request hq => hknown request (h.1 request hq), fun r => ?_⟩
      exact ih r (h.2 r) fun request => Or.imp_left (hknown request)

theorem startsOnly_of_makes {f : Activity α}
    (h : Makes (fun q => ∀ request, q = .startFlow request → known request) f) :
    StartsOnly known f := by
  induction f with
  | done a => trivial
  | call q next ih => exact ⟨h.1, fun r => (ih r (h.2 r)).mono fun _ => .inl⟩

theorem StartsOnly.bind {f : Activity α} {g : α → Activity β} (hf : StartsOnly known f)
    (hg : ∀ a, StartsOnly known (g a)) : StartsOnly known (f.bind g) := by
  induction f generalizing known with
  | done a => exact hg a
  | call q next ih =>
      exact ⟨hf.1, fun r => ih r (hf.2 r) fun a => (hg a).mono fun _ => .inl⟩

theorem startsOnly_bind {f : Operation α} {g : α → Operation β} (hf : StartsOnly known f.run)
    (hg : ∀ a, StartsOnly known (g a).run) : StartsOnly known (f >>= g).run := by
  refine StartsOnly.bind hf fun result => ?_
  cases result with
  | ok a => exact hg a
  | error e => trivial

/-- What a batch shows is known from then on. -/
theorem startsOnly_next {state : JobState} {limit : Nat} {g : List Job → Operation β}
    (hg : ∀ jobs, StartsOnly (fun request => known request ∨
      ∃ job ∈ jobs, job.role = .executor ∧ job.request = request) (g jobs).run) :
    StartsOnly known (store (.next state limit) >>= g).run := by
  refine ⟨fun request hq => (by cases hq), fun r => ?_⟩
  cases r with
  | ok jobs => exact hg jobs
  | error e => trivial

theorem startsOnly_forEach {f : Job → Operation Unit} {jobs : List Job}
    (hf : ∀ job ∈ jobs, StartsOnly known (f job).run) :
    StartsOnly known (forEach f jobs).run := by
  induction jobs with
  | nil => trivial
  | cons job rest ih =>
      obtain ⟨hjob, hrest⟩ := List.forall_mem_cons.1 hf
      exact startsOnly_bind hjob fun _ => ih hrest

end Rules

/-! ## The programs -/

section Programs

variable {known : TransferRequest → Prop}

theorem ne_startFlow_of_inward {q : Request} (hq : q.Inward) (request : TransferRequest)
    (h : q = .startFlow request) : known request := by
  subst h
  exact hq.elim

theorem startsOnly_dispatch (config : Config.Orchestrator) {job : Job}
    (hjob : job.role = .executor → known job.request) :
    StartsOnly known (Cycle.dispatch config job).run := by
  rw [Cycle.dispatch]
  split
  · exact startsOnly_of_makes (makes_send (fun _ => ne_startFlow_of_inward)
      fun _ _ _ _ h => by cases h)
  · next hrole =>
    refine startsOnly_of_makes (makes_execute (fun _ => ne_startFlow_of_inward) ?_ config)
    rintro request ⟨⟩
    exact hjob hrole

theorem startsOnly_dispatchPhase (config : Config.Orchestrator) :
    StartsOnly known (Cycle.dispatchPhase config).run := by
  refine startsOnly_next fun jobs => startsOnly_bind (startsOnly_forEach fun job hjob => ?_) ?_
  · exact startsOnly_dispatch config fun hrole => .inr ⟨job, hjob, hrole, rfl⟩
  · intro _
    exact startsOnly_of_makes (makes_bind (makes_count (fun _ => ne_startFlow_of_inward) _ _)
      fun _ => makes_pure _)

theorem startsOnly_cycle (config : Config.Orchestrator) :
    StartsOnly known (cycle config).run := by
  refine startsOnly_bind (startsOnly_of_makes (makes_provisionPhase
    (fun _ => ne_startFlow_of_inward) (fun _ _ h => by cases h) config)) fun _ => ?_
  refine startsOnly_bind (startsOnly_of_makes (makes_ask fun _ h => by cases h)) fun goOn => ?_
  cases goOn with
  | false => trivial
  | true =>
      refine startsOnly_bind (startsOnly_dispatchPhase config) fun _ => ?_
      refine startsOnly_bind (startsOnly_of_makes (makes_ask fun _ h => by cases h)) fun goOn => ?_
      cases goOn with
      | false => trivial
      | true =>
          refine startsOnly_bind (startsOnly_of_makes (makes_completionPhase
            (fun _ => ne_startFlow_of_inward) (fun _ _ h => by cases h) config)) fun _ => ?_
          trivial

theorem startsOnly_duty (d : Duty) : StartsOnly known d.program := by
  cases d with
  | cycle config => exact startsOnly_cycle config
  | respond response =>
      exact startsOnly_of_makes (makes_applyResponse (fun _ hq => ne_startFlow_of_inward hq.1)
        response)
  | errand e =>
      exact startsOnly_of_makes (makes_errand (fun _ hq => ne_startFlow_of_inward hq.1)
        (fun _ _ _ h => by cases h) e)

end Programs

/-! ## Runs -/

/-- Whatever is left of each task starts flows only with requests of executors' jobs in the
table, or with those that replies will show it. -/
def StartsKnownFlows (s : TaskSystem) : Prop :=
  ∀ task ∈ s.tasks, StartsOnly (s.table.HasJobFor .executor) task.rest

variable {s s' : TaskSystem}

/-- What a reply shows stands in the table. -/
theorem hasJobFor_of_showsRequest {t : Table} {q : Request} {r : q.Reply}
    {request : TransferRequest} (h : t.Coherent) (hadmits : Admits t q r)
    (hshows : ShowsRequest q r request) :
    t.HasJobFor .executor request := by
  cases q with
  | store c =>
      cases c with
      | next state limit =>
          cases r with
          | ok jobs =>
              obtain ⟨job, hjob, hrole, rfl⟩ := hshows
              have hnext : t.next state limit = .ok jobs := by
                rcases hadmits with hr | ⟨_, hr⟩
                · exact hr.symm
                · cases hr
              rw [← hrole]
              exact hasJobFor_of_copied h.wellKept (copied_of_next h hnext job hjob).2
          | error e => exact hshows.elim
      | create _ | update _ | updateIfState _ _ | get _ | findId _ | count _ => exact hshows.elim
  | provision _ | send _ _ | acknowledge _ _ | startFlow _ | isComplete _ | now | freshId
  | count _ _ | isRunning | overflow => exact hshows.elim

theorem startsKnownFlows_step (hord : InOrder s) (h : StartsKnownFlows s) (hstep : Step s s') :
    StartsKnownFlows s' := by
  cases hstep with
  | arrive duty =>
      exact List.forall_mem_append.2 ⟨h, List.forall_mem_singleton.2 (startsOnly_duty duty)⟩
  | @call before later duty q next turn r admits =>
      rw [StartsKnownFlows, turn, List.forall_mem_append, List.forall_mem_cons] at h
      obtain ⟨hbefore, hmine, hlater⟩ := h
      have hcontinues := continues_after s.table q r
      refine List.forall_mem_append.2 ⟨?_, List.forall_mem_cons.2 ⟨?_, ?_⟩⟩
      · exact fun task htask => (hbefore task htask).mono fun _ => (·.continues hcontinues)
      · refine (hmine.2 r).mono fun request hknown => ?_
        rcases hknown with hknown | hshows
        · exact hknown.continues hcontinues
        · exact (hasJobFor_of_showsRequest hord.coherent admits hshows).continues hcontinues
      · exact fun task htask => (hlater task htask).mono fun _ => (·.continues hcontinues)
  | restart => exact fun task htask => by cases htask

/-- Jobs stay along a run. -/
theorem continues_step (hstep : Step s s') : s.table.Continues s'.table := by
  cases hstep with
  | arrive _ | restart => exact .refl _
  | call turn r admits => exact continues_after _ _ r

/-- What every step keeps of a system in order holds in every state of a run. -/
theorem Run.kept {P : TaskSystem → Prop} (hempty : P {})
    (hstep : ∀ {s s'}, InOrder s → P s → Step s s' → P s') (run : Run) :
    ∀ s ∈ run.states, P s := by
  have hkept := run.steps.induction (fun s => InOrder s ∧ P s) run.states
    (fun _ _ h hs => ⟨inOrder_step hs.1 h, hstep hs.1 hs.2 h⟩) fun _ => ⟨inOrder_empty, hempty⟩
  exact fun s hs => (hkept s hs).2

theorem Run.continues_last (run : Run) {s : TaskSystem} (hs : s ∈ run.states) :
    s.table.Continues run.last.table :=
  run.steps.backwards_induction (fun s => s.table.Continues run.last.table) run.states
    (fun _ _ hstep h => (continues_step hstep).trans h) (fun _ => .refl _) s hs

/-- What is left of a program makes the calls of its kind. -/
theorem Run.makes {P : Duty → Request → Prop} (hP : ∀ d : Duty, Makes (P d) d.program)
    (run : Run) : ∀ s ∈ run.states, ∀ task ∈ s.tasks, Makes (P task.duty) task.rest := by
  refine run.kept (fun task htask => by cases htask) ?_
  intro s s' _ h hstep
  cases hstep with
  | arrive duty =>
      exact List.forall_mem_append.2 ⟨h, List.forall_mem_singleton.2 (hP duty)⟩
  | @call before later duty q next turn r admits =>
      rw [turn, List.forall_mem_append, List.forall_mem_cons] at h
      obtain ⟨hbefore, hmine, hlater⟩ := h
      exact List.forall_mem_append.2 ⟨hbefore, List.forall_mem_cons.2 ⟨hmine.2 r, hlater⟩⟩
  | restart => exact fun task htask => by cases htask

/-- In every run, a flow is started with the request of an executor's job in the table. -/
theorem Run.hasJobFor_of_startFlow (run : Run) {s : TaskSystem} (hs : s ∈ run.states) {duty : Duty}
    {request : TransferRequest} {next : FlowOutcome → Activity duty.Answer}
    (hturn : (⟨duty, .call (.startFlow request) next⟩ : Task) ∈ s.tasks) :
    s.table.HasJobFor .executor request :=
  (run.kept (fun task htask => by cases htask) startsKnownFlows_step s hs _ hturn).1 request rfl

/-- In every run, a request that was taken on is the only one with its id, for all time and
for one side. -/
theorem Run.hasJobFor_unique (run : Run) {s s' : TaskSystem} (hs : s ∈ run.states)
    (hs' : s' ∈ run.states) {role role' : Role} {request other : TransferRequest}
    (h : s.table.HasJobFor role request) (h' : s'.table.HasJobFor role' other)
    (hid : request.id = other.id) : role = role' ∧ request = other := by
  have hkept := (run.inOrder run.last (List.getLast_mem _)).coherent.wellKept
  exact HasJobFor.unique hkept (h.continues (run.continues_last hs))
    (h'.continues (run.continues_last hs')) hid

end TaskSystem

end Ferry
