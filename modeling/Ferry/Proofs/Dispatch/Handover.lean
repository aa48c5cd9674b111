import Ferry.Api.Route
import Ferry.Dispatch.Http
import Ferry.Proofs.TaskSystem.Starting
import Ferry.Proofs.Job.Merging
import Ferry.Proofs.Provision.Responses
import Ferry.Proofs.Store.Persistence

/-!
# From the initiator's job to the executor's flow

A request passes through many hands until its data is moved. It is merged with the
destination that was provisioned, written as JSON, posted, read by the peer, made into
a job, stored and read again by the peer's worker. None of them loses or alters
anything after the merging, so the flow is started with the request that the initiator
has sent, whatever else goes on at the peer. Together with it goes the id of the
initiator's job, and that is the id the peer gives back when it acknowledges.

At the peer any number of programs are at work, as in `TaskSystem`. All that is asked is that
the delivery is the one that made the job for the request there.
-/

namespace Ferry

open Json Operation Store

/-! ## On the wire -/

namespace InboundTransfer

theorem textual_toJson (t : InboundTransfer) : t.toJson.textual = true := by
  rw [toJson, textual, textualFields_append]
  cases t.callbackAddress <;> simp [textualFields, textual, TransferRequest.textual_toJson]

theorem read_toJson (t : InboundTransfer) : read t.toJson.draft = .ok t := by
  obtain ⟨request, processId, callback⟩ := t
  cases callback <;>
    (rw [read, toJson]
     simp [draft, draftFields, Shape.read, shape, Shape.readObject, Shape.put, Shape.noSlots,
       Shape.finish, TransferRequest.read_toJson, readString, readOption, Except.map, bind,
       Except.bind, Absent.defaulted])

end InboundTransfer

namespace HttpDispatcher

/-- What a peer is to be given for a job. -/
def delivery (d : HttpDispatcher) (job : Job) : InboundTransfer :=
  ⟨job.dispatchRequest, job.id, d.callbackAddress⟩

theorem requestPost_eq {d : HttpDispatcher} {job : Job}
    (haddress : job.request.connectorAddress ≠ "") :
    d.requestPost job.dispatchRequest job.id =
      .ok ⟨inboundUrl job.request.connectorAddress, some (d.delivery job).toJson⟩ := by
  rw [requestPost, Job.dispatchRequest_connectorAddress]
  exact if_neg (by simpa using haddress)

theorem action_delivery (t : InboundTransfer) {r : Api.HttpRequest} (hmethod : r.method = "POST")
    (htype : r.contentType = some "application/json") (hbody : r.body = t.toJson.print) :
    r.action .inbound = .ok (.receive t) := by
  have hjson : Net.MediaType.isJson "application/json" = true := by decide +kernel
  have hread : r.readBody InboundTransfer.read = .ok t := by
    rw [Api.HttpRequest.readBody, htype, hbody, readDocument_print t.textual_toJson, readWhole]
    simp [hjson, InboundTransfer.read_toJson, bind, Except.bind]
  simp [Api.HttpRequest.action, hmethod, hread, Except.map]

end HttpDispatcher

/-! ## At the initiator -/

namespace Service

/-- For a job nothing is sent but its own request, and by its own id. -/
theorem makes_send_own (job : Job) : Makes (fun q => ∀ request id, q = .send request id →
    request = job.dispatchRequest ∧ id = job.id) (Cycle.send job).run := by
  have hother : ∀ q : Request, q.Inward → ∀ request id, q = .send request id →
      request = job.dispatchRequest ∧ id = job.id := by
    rintro _ hq request id rfl
    exact hq.elim
  refine makes_send hother fun now sent hsent => ?_
  obtain ⟨-, rfl⟩ := Job.move_eq_ok.1 hsent
  rintro request id ⟨⟩
  exact ⟨rfl, rfl⟩

end Service

/-! ## At the peer -/

theorem Store.Table.not_holds_of_findId {t : Table} {id : String} (h : t.findId id = .ok none) :
    t.holds .correlationId (.text id) = false := by
  rw [Table.holds, List.any_eq_false]
  intro r hr heq
  rw [Table.findId] at h
  cases hfind : t.rows.find? fun r => r.correlationId == .text id with
  | none => exact List.find?_eq_none.1 hfind r hr heq
  | some r' =>
      rw [hfind] at h
      cases hr' : r'.id.text? <;> simp [hr'] at h

/-- The job for a request that came from a peer: the side of the executor, on which nothing has
been done yet. -/
def TransferRequest.executorJob (request : TransferRequest) (id : String)
    (createdAt stateTimestamp : Time.Instant) : Job where
  id := id
  correlationId := request.id
  role := .executor
  state := .initial
  request := request
  manifest := none
  resources := []
  errorDetail := none
  retryCount := 0
  createdAt := createdAt
  stateTimestamp := stateTimestamp

namespace TaskSystem

open Service

variable {inbound : InboundTransfer} {s s' : TaskSystem}

/-- Whoever takes on a transfer makes no job but for its request, and tells nobody but
who has sent it, by the id that came with it. -/
def Faithful (inbound : InboundTransfer) : Request → Prop
  | .store (.create job) => ∃ id now, job = Job.new id .executor inbound.request now
  | .acknowledge address id => inbound.callbackAddress = some address ∧ id = inbound.processId
  | _ => True

theorem makes_faithful (inbound : InboundTransfer) :
    Makes (Faithful inbound) (receive inbound).run := by
  refine makes_receive_of (makes_initiate_of (fun q hq _ => ?_) (fun _ => trivial) ?_) ?_
  · cases q with
    | now | freshId | overflow | count _ _ => trivial
    | store _ | provision _ | send _ _ | acknowledge _ _ | startFlow _ | isComplete _
    | isRunning => exact hq.elim
  · exact fun id now => ⟨id, now, rfl⟩
  · exact fun address haddress => ⟨haddress, rfl⟩

/-- The kind of calls of each program, where it matters. -/
def Duty.Kind : Duty → Request → Prop
  | .errand (.receive inbound), q => Faithful inbound q
  | _, _ => True

theorem makes_any {α : Type} (f : Activity α) : Makes (fun _ => True) f := by
  induction f with
  | done a => trivial
  | call q next ih => exact ⟨trivial, ih⟩

theorem makes_kind (d : Duty) : Makes d.Kind d.program := by
  match d with
  | .errand (.receive inbound) => exact makes_faithful inbound
  | .cycle _ | .respond _ | .errand (.finish ..) | .errand (.acknowledge _)
  | .errand (.initiate ..) => exact makes_any _

/-- A task that takes on the transfer stores the job that is made for it. -/
def Stores (inbound : InboundTransfer) (job : Job) (s s' : TaskSystem) : Prop :=
  ∃ before later next,
    s.tasks = before ++ ⟨.errand (.receive inbound), .call (.store (.create job)) next⟩ :: later ∧
    (Call.create job).perform s.table = (.ok (), s'.table) ∧
    s'.tasks = before ++ ⟨.errand (.receive inbound), next (.ok ())⟩ :: later

def Run.Passes (run : Run) (s s' : TaskSystem) : Prop :=
  ∃ before later, run.states = before ++ s :: s' :: later

/-- Every transfer that names its request may be the one that makes the job. -/
theorem exists_stores (hid : Text.allBlank inbound.request.id = false) :
    ∃ (run : Run) (s s' : TaskSystem) (job : Job), run.Passes s s' ∧ Stores inbound job s s' := by
  let duty : Duty := .errand (.receive inbound)
  let job := Job.new "" .executor inbound.request .epoch
  obtain ⟨found, drawn, timed, created, hfind, hdraw, htime, hcreate⟩ :
      ∃ found drawn timed created,
        duty.program = .call (.store (.findId inbound.request.id)) found ∧
        found (.ok none) = .call .freshId drawn ∧ drawn "" = .call .now timed ∧
        timed .epoch = .call (.store (.create job)) created := by
    change ∃ found drawn timed created,
      (receive inbound).run = .call (.store (.findId inbound.request.id)) found ∧ _
    rw [receive, initiate, hid, if_neg Bool.false_ne_true]
    exact ⟨_, _, _, _, rfl, rfl, rfl, rfl⟩
  have step : ∀ (t t' : Table) (q : Request) (next : q.Reply → Activity duty.Answer)
      (p : Activity duty.Answer) (r : q.Reply), p = .call q next → Admits t q r →
      after t q r = t' → Step ⟨t, [⟨duty, p⟩]⟩ ⟨t', [⟨duty, next r⟩]⟩ := by
    rintro t t' q next p r rfl hadmits rfl
    exact @Step.call ⟨t, [⟨duty, .call q next⟩]⟩ [] [] duty q next rfl r hadmits
  let run : Run :=
    { later := [⟨{}, [duty.task]⟩, ⟨{}, [⟨duty, found (.ok none)⟩]⟩, ⟨{}, [⟨duty, drawn ""⟩]⟩,
        ⟨{}, [⟨duty, timed .epoch⟩]⟩, ⟨⟨[Row.ofJob job]⟩, [⟨duty, created (.ok ())⟩]⟩]
      steps := by
        refine .cons_cons (.arrive duty) (.cons_cons (step _ _ _ _ _ _ hfind (.inl rfl) rfl) ?_)
        refine .cons_cons (step _ _ _ _ _ _ hdraw trivial rfl) ?_
        refine .cons_cons (step _ _ _ _ _ _ htime trivial rfl) ?_
        exact .cons_cons (step _ _ _ _ _ _ hcreate (.inl rfl) rfl) (.singleton _) }
  refine ⟨run, ⟨{}, [⟨duty, timed .epoch⟩]⟩, ⟨⟨[Row.ofJob job]⟩, [⟨duty, created (.ok ())⟩]⟩, job,
    ⟨[{}, ⟨{}, [duty.task]⟩, ⟨{}, [⟨duty, found (.ok none)⟩]⟩, ⟨{}, [⟨duty, drawn ""⟩]⟩], [], rfl⟩,
    [], [], created, ?_, rfl, rfl⟩
  rw [hcreate]
  rfl

/-- The job is made of the request of the transfer, and stands in the table. -/
theorem hasJobFor_of_stores {run : Run} {job : Job} (hs : s ∈ run.states)
    (h : Stores inbound job s s') :
    (∃ id now, job = Job.new id .executor inbound.request now) ∧
      s'.table.HasJobFor .executor inbound.request := by
  obtain ⟨before, later, next, hturn, hperform, -⟩ := h
  have hmakes := run.makes makes_kind s hs _ (by rw [hturn]; exact List.mem_append_cons_self)
  obtain ⟨id, now, rfl⟩ := hmakes.1
  refine ⟨⟨id, now, rfl⟩, ?_⟩
  cases hcreate : s.table.create (Job.new id .executor inbound.request now) with
  | error e => simp [Call.perform, hcreate, Call.written] at hperform
  | ok t =>
      rw [Call.perform, hcreate] at hperform
      obtain rfl : t = s'.table := congrArg Prod.snd hperform
      exact Table.hasJobFor_of_create hcreate rfl

theorem dispatch_startsFlow (config : Config.Orchestrator) {job : Job}
    (hrole : job.role = .executor) : ∃ next,
      (Cycle.dispatch config job).run = .call (.startFlow job.request) next := by
  rw [Cycle.dispatch, hrole]
  exact ⟨_, rfl⟩

/-- In the run, whoever reads a job for the request reads the request itself and starts the
flow with it, and with no other is a flow started for its id. -/
structure Executes (run : Run) (request : TransferRequest) : Prop where
  read : ∀ s ∈ run.states, ∀ state limit jobs, s.table.next state limit = .ok jobs →
    ∀ job ∈ jobs, job.request.id = request.id → job.role = .executor ∧ job.request = request ∧
      ∀ config, ∃ next, (Cycle.dispatch config job).run = .call (.startFlow request) next
  started : ∀ s ∈ run.states, ∀ (duty : Duty) other next,
    (⟨duty, .call (.startFlow other) next⟩ : Task) ∈ s.tasks → other.id = request.id →
    other = request

theorem executes_of_hasJobFor {run : Run} {request : TransferRequest} (hs : s ∈ run.states)
    (h : s.table.HasJobFor .executor request) : Executes run request where
  read s' hs' state limit jobs hnext job hjob hid := by
    have hcoherent := (run.inOrder s' hs').coherent
    have hfor := Table.hasJobFor_of_copied hcoherent.wellKept
      (Table.copied_of_next hcoherent hnext job hjob).2
    obtain ⟨hrole, hrequest⟩ := run.hasJobFor_unique hs' hs hfor h hid
    refine ⟨hrole, hrequest, fun config => ?_⟩
    rw [← hrequest]
    exact dispatch_startsFlow config hrole
  started s' hs' duty other next hturn hid :=
    (run.hasJobFor_unique hs' hs (run.hasJobFor_of_startFlow hs' hturn) h hid).2

end TaskSystem

namespace Handover

open Text (allBlank)

/-- The acknowledgments that were sent, each with the address and the id it went to. -/
abbrev Acknowledgments := List (String × String)

/-- The replies of a peer at which nothing else goes on and nothing goes wrong. -/
def reply (newId : String) (now : Time.Instant) :
    (q : Request) → Table × Acknowledgments → q.Reply × Table × Acknowledgments
  | .freshId, s => (newId, s)
  | .acknowledge address id, (t, told) => ((), t, told ++ [(address, id)])
  | q, (t, told) =>
    let (r, t) := Handoff.reply now q t
    (r, t, told)

variable {newId : String} {now : Time.Instant} {t : Table} {told : Acknowledgments}

theorem run_initiate {request : TransferRequest} (hid : allBlank request.id = false)
    (hnone : t.findId request.id = .ok none) (hnew : t.holds .id (.text newId) = false) :
    Program.run (S := operationSignature) (reply newId now) (initiate .executor request).run
        (t, told) =
      (.ok newId, ⟨t.rows ++ [Row.ofJob (Job.new newId .executor request now)]⟩, told) := by
  have hcreate : t.create (Job.new newId .executor request now) =
      .ok ⟨t.rows ++ [Row.ofJob (Job.new newId .executor request now)]⟩ :=
    Table.create_eq_ok.2 ⟨Table.not_holds_of_findId hnone, hnew, rfl⟩
  rw [initiate, hid, if_neg Bool.false_ne_true, run_store]
  simp only [reply, Handoff.reply, Call.perform, hnone]
  rw [run_ask, run_ask, run_ask]
  simp only [reply, Handoff.reply, Call.perform, hcreate, Call.written]
  rfl

/-- A transfer that is new to the peer is taken on, and who has sent it is told. -/
theorem run_receive {inbound : InboundTransfer} (hid : allBlank inbound.request.id = false)
    (hnone : t.findId inbound.request.id = .ok none)
    (hnew : t.holds .id (.text newId) = false) :
    Program.run (S := operationSignature) (reply newId now) (receive inbound).run (t, told) =
      (.ok newId, ⟨t.rows ++ [Row.ofJob (Job.new newId .executor inbound.request now)]⟩,
        told ++ inbound.callbackAddress.toList.map (·, inbound.processId)) := by
  rw [receive, run_bind, run_initiate hid hnone hnew]
  cases inbound.callbackAddress with
  | none =>
      rw [Option.toList_none, List.map_nil, List.append_nil]
      rfl
  | some address => rfl

end Handover

/-! ## From hand to hand -/

open Handover Service in
/-- From the job of an initiator to the flow of its peer: the request that is sent is that of the
job with the provisioned destination, it is posted once, the peer makes its job for just that
request and starts the flow with it, and acknowledges the id that was sent. -/
structure HandedOver (d : HttpDispatcher) (job : Job) : Prop where
  /-- The request is that of the job, but for the destination that was provisioned. -/
  merged : Job.Merged job.request job.destination? job.dispatchRequest
  /-- Nothing else is sent for the job. -/
  sent : Makes (fun q => ∀ request id, q = .send request id →
    request = job.dispatchRequest ∧ id = job.id) (Cycle.send job).run
  /-- Whoever carries the posts is given just one, if there is an address to send it to; and the
  peer reads in it the request, the id and where to acknowledge. -/
  posted : job.request.connectorAddress ≠ "" → ∃ body : Json,
    (∀ (σ : Type) (exchange : Post → σ → Except String PeerReply × σ) (m : Metrics) (s : σ),
      (d.send exchange job.dispatchRequest job.id m s).2.2 =
        (exchange ⟨Text.dropTrailing '/' job.request.connectorAddress ++
          "/api/v1/transfers/inbound", some body⟩ s).2) ∧
    ∀ r : Api.HttpRequest, r.method = "POST" → r.contentType = some "application/json" →
      r.body = body.print →
      r.action .inbound = .ok (.receive ⟨job.dispatchRequest, job.id, d.callbackAddress⟩)
  /-- A peer that has no job for the request makes one that can be read, and acknowledges. -/
  taken : ∀ newId now (t : Table) told, Text.allBlank job.request.id = false →
    t.findId job.request.id = .ok none → t.holds .id (.text newId) = false →
    now.Legible → now.Storable →
    ∃ t', Program.run (S := operationSignature) (reply newId now)
        (receive (d.delivery job)).run (t, told) =
          (.ok newId, t', told ++ d.callbackAddress.toList.map (·, job.id)) ∧
      t'.Keeps (job.dispatchRequest.executorJob newId now now.truncated)
  /-- The delivery can be the one that makes the job for the request. -/
  stored : Text.allBlank job.request.id = false →
    ∃ (run : TaskSystem.Run) (s s' : TaskSystem) (made : Job),
      run.Passes s s' ∧ TaskSystem.Stores (d.delivery job) made s s'
  /-- Whatever else goes on at the peer, the request is what the flow is started with. -/
  executed : ∀ (run : TaskSystem.Run) s s' made, run.Passes s s' →
    TaskSystem.Stores (d.delivery job) made s s' →
    (∃ id now, made = job.dispatchRequest.executorJob id now now) ∧
      TaskSystem.Executes run job.dispatchRequest
  /-- Whatever else goes on at the peer, the id is what it acknowledges. -/
  acknowledged : ∀ (run : TaskSystem.Run), ∀ s ∈ run.states, ∀ address id next,
    ⟨.errand (.receive (d.delivery job)), .call (.acknowledge address id) next⟩ ∈ s.tasks →
      d.callbackAddress = some address ∧ id = job.id

/-- Of what the initiator has provisioned for a job nothing is lost on the way, and nothing
else is done for it. -/
theorem handedOver (d : HttpDispatcher) (job : Job) : HandedOver d job where
  merged := job.merged_dispatchRequest
  sent := Service.makes_send_own job
  posted haddress := by
    refine ⟨(d.delivery job).toJson, fun σ exchange m s => ?_, fun r => ?_⟩
    · rw [HttpDispatcher.send, HttpDispatcher.requestPost_eq haddress]
      exact HttpDispatcher.deliver_ok exchange _ _ m s
    · exact HttpDispatcher.action_delivery (d.delivery job)
  taken newId now t told hid hnone hnew hlegible hstorable := by
    rw [← job.dispatchRequest_id] at hid hnone
    have hreads := Row.reads_ofJob_truncated
      (j := Job.new newId .executor job.dispatchRequest now) hlegible hstorable
    exact ⟨_, Handover.run_receive hid hnone hnew, _,
      Table.sole_append hnew (Table.not_holds_of_findId hnone), hreads.toJob?⟩
  stored hid := TaskSystem.exists_stores (by rwa [← job.dispatchRequest_id] at hid)
  executed run s s' made hpasses hstores := by
    obtain ⟨before, later, hstates⟩ := hpasses
    have hs : s ∈ run.states := by simp [hstates]
    have hs' : s' ∈ run.states := by simp [hstates]
    obtain ⟨hmade, hfor⟩ := TaskSystem.hasJobFor_of_stores hs hstores
    exact ⟨hmade, TaskSystem.executes_of_hasJobFor hs' hfor⟩
  acknowledged run s hs address id next hturn :=
    (run.makes TaskSystem.makes_kind s hs _ hturn).1

end Ferry
