import Ferry.Job.Basic
import Mathlib.Logic.Relation

/-!
# Where a job stands, and where it can go from there

Of a job its life depends on three things: the request it is for, the side it is
on, and its state. The first two never change. The third goes along the moves of
`JobState.canMove`, one move with each write, but for one write: the end of a
data flow may be stored over a job whose start was not, and takes the two moves
through `executing` at once. `Follows` is what a single write can do to a job,
`Leads` what any number of them can.
-/

namespace Ferry

/-- Where a job stands: the request it is for, its side and its state. -/
structure Standing where
  correlationId : String
  role : Role
  state : JobState
deriving DecidableEq, Repr

def Job.standing (j : Job) : Standing :=
  ⟨j.correlationId, j.role, j.state⟩

theorem Role.ofName?_name (r : Role) : ofName? r.name = some r := by
  cases r <;> decide

theorem Role.name_inj {r r' : Role} (h : r.name = r'.name) : r = r' := by
  have hr := Role.ofName?_name r
  rw [h, Role.ofName?_name] at hr
  exact (Option.some.inj hr).symm

theorem JobState.ofName?_name (s : JobState) : ofName? s.name = some s := by
  cases s <;> decide

theorem JobState.name_inj {s s' : JobState} (h : s.name = s'.name) : s = s' := by
  have hs := JobState.ofName?_name s
  rw [h, JobState.ofName?_name] at hs
  exact (Option.some.inj hs).symm

/-! ## Moves -/

namespace JobState

variable {role : Role} {a b : JobState}

/-- One state comes after another by any number of moves. -/
def Reaches (role : Role) : JobState → JobState → Prop :=
  Relation.ReflTransGen fun a b => canMove role a b = true

/-- What every move keeps is kept by many. -/
theorem Reaches.keeps {P : JobState → Prop} (h : Reaches role a b)
    (hmove : ∀ a b, P a → canMove role a b = true → P b) (ha : P a) : P b := by
  induction h with
  | refl => exact ha
  | tail _ hlast ih => exact hmove _ _ ih hlast

/-- Provisioning is over. -/
def PastProvisioning (s : JobState) : Prop :=
  s ≠ .initial ∧ s ≠ .provisioning

/-- The request has been sent, or the job has failed. -/
def PastSending (s : JobState) : Prop :=
  s = .sent ∨ s = .acknowledged ∨ s = .completed ∨ s = .error

theorem ne_initial_of_canMove (h : canMove role a b = true) : b ≠ .initial := by
  cases a <;> cases b <;> simp [canMove] at h ⊢

theorem Reaches.ne_initial (h : Reaches role a b) (ha : a ≠ .initial) : b ≠ .initial :=
  h.keeps (P := (· ≠ .initial)) (fun _ _ _ hmove => ne_initial_of_canMove hmove) ha

theorem Reaches.pastProvisioning (h : Reaches role a b) (ha : a.PastProvisioning) :
    b.PastProvisioning := by
  refine h.keeps (fun a b ha hmove => ?_) ha
  cases a <;> cases b <;> simp_all [canMove, PastProvisioning]

theorem Reaches.pastSending (h : Reaches .initiator a b) (ha : a.PastSending) :
    b.PastSending := by
  refine h.keeps (fun a b ha hmove => ?_) ha
  cases a <;> cases b <;> simp_all [canMove, PastSending]

theorem not_canMove_of_isTerminal (h : a.isTerminal = true) : canMove role a b = false := by
  cases a <;> cases b <;> simp_all [canMove, isTerminal]

end JobState

namespace Standing

/-- The standing with another state. -/
def inState (st : Standing) (s : JobState) : Standing :=
  { st with state := s }

/-- What one write can make of a job, where `none` is a job that is not there. -/
inductive Follows : Option Standing → Option Standing → Prop where
  | same (st : Option Standing) : Follows st st
  | created (correlationId : String) (role : Role) :
      Follows none (some ⟨correlationId, role, .initial⟩)
  | moved {st : Standing} {target : JobState}
      (allowed : JobState.canMove st.role st.state target = true) :
      Follows (some st) (some (st.inState target))
  /-- The two moves through `executing`. -/
  | finished {st : Standing} (executor : st.role = .executor) (state : st.state = .provisioned) :
      Follows (some st) (some (st.inState .completed))

/-- What any number of writes can make of a job that is there. -/
structure Leads (st st' : Standing) : Prop where
  correlationId : st'.correlationId = st.correlationId
  role : st'.role = st.role
  state : JobState.Reaches st.role st.state st'.state

theorem Leads.refl (st : Standing) : Leads st st :=
  ⟨rfl, rfl, .refl⟩

theorem Leads.trans {st st' st'' : Standing} (h : Leads st st') (h' : Leads st' st'') :
    Leads st st'' :=
  ⟨h'.correlationId.trans h.correlationId, h'.role.trans h.role,
    h.state.trans (h.role ▸ h'.state)⟩

theorem Follows.leads {st : Standing} {st? : Option Standing} (h : Follows (some st) st?) :
    ∃ st', st? = some st' ∧ Leads st st' := by
  cases h with
  | same => exact ⟨st, rfl, .refl st⟩
  | moved allowed => exact ⟨_, rfl, rfl, rfl, .single allowed⟩
  | finished executor state =>
      refine ⟨_, rfl, rfl, rfl, ?_⟩
      have hstart : JobState.canMove st.role st.state .executing = true := by
        rw [executor, state]; rfl
      have hend : JobState.canMove st.role .executing .completed = true := by
        rw [executor]; rfl
      exact .tail (.single hstart) hend

/-- A job that has ended stays as it is. -/
theorem Follows.eq_of_isTerminal {st : Standing} {st? : Option Standing}
    (h : Follows (some st) st?) (hend : st.state.isTerminal = true) : st? = some st := by
  cases h with
  | same => rfl
  | moved allowed =>
      rw [JobState.not_canMove_of_isTerminal hend] at allowed
      cases allowed
  | finished _ state =>
      rw [state] at hend
      cases hend

end Standing

/-! ## Moves of a job -/

namespace Job

variable {job after : Job} {target : JobState} {now : Time.Instant}

/-- The move was allowed, and what the job is and whose it is has not changed. -/
structure MovedTo (job after : Job) (target : JobState) : Prop where
  allowed : JobState.canMove job.role job.state target = true
  id : after.id = job.id
  request : after.request = job.request
  standing : after.standing = job.standing.inState target

theorem MovedTo.state (h : job.MovedTo after target) : after.state = target :=
  congrArg Standing.state h.standing

theorem MovedTo.role (h : job.MovedTo after target) : after.role = job.role :=
  congrArg Standing.role h.standing

theorem move_ok (h : job.move target now = .ok after) : job.MovedTo after target := by
  rw [move] at h
  split at h
  · next hmove =>
    cases h
    exact ⟨hmove, rfl, rfl, rfl⟩
  · cases h

/-- What a move sets beside the state is not what the job is known by. -/
theorem map_move_ok {f : Job → Job} (h : (job.move target now).map f = .ok after)
    (hf : ∀ j, (f j).id = j.id ∧ (f j).request = j.request ∧ (f j).standing = j.standing) :
    job.MovedTo after target := by
  cases hmove : job.move target now with
  | error e => rw [hmove] at h; cases h
  | ok moved =>
      rw [hmove] at h
      cases h
      obtain ⟨hid, hreq, hst⟩ := hf moved
      have hmoved := move_ok hmove
      exact ⟨hmoved.allowed, hid.trans hmoved.id, hreq.trans hmoved.request,
        hst.trans hmoved.standing⟩

theorem provision_ok {manifest : ResourceManifest}
    (h : job.provision manifest now = .ok after) : job.MovedTo after .provisioning :=
  map_move_ok h fun _ => ⟨rfl, rfl, rfl⟩

theorem provisioned_ok {resources : List ProvisionedResource}
    (h : job.provisioned resources now = .ok after) : job.MovedTo after .provisioned :=
  map_move_ok h fun _ => ⟨rfl, rfl, rfl⟩

theorem retry_ok (h : job.retry now = .ok after) : job.MovedTo after .provisioned :=
  map_move_ok h fun _ => ⟨rfl, rfl, rfl⟩

theorem failed_ok {detail : String} (h : job.failed detail now = .ok after) :
    job.MovedTo after .error :=
  map_move_ok h fun _ => ⟨rfl, rfl, rfl⟩

end Job

end Ferry
