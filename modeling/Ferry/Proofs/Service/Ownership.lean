import Ferry.Proofs.Interference
import Ferry.Proofs.Service.Basic
import Ferry.Proofs.Store.Rows

/-!
# Who may write a job

Four programs overwrite a job unconditionally, each from a copy it read some
time before. None of this is safe by itself; it is safe because at every moment
at most one program has the right to do so. Which one it is can be read off the
world: `Owned` is the worker's share, and the job whose outcome the writer has
taken up is the writer's for as long as it is being provisioned. Everybody else
writes a job only if it is still in the state it was read in, and owns nothing.

`Sound` is what holds of every world, and the three disciplines at the end say
what each kind of program grants the others: to spare what is theirs.
-/

namespace Ferry.Service

/-! ## What the journal tells -/

namespace Exchange

/-- The job whose request was sent. -/
def sent? (e : Exchange) : Option String :=
  match e.call with
  | .send _ id => some id
  | _ => none

/-- An initiator's job was stored as sent. -/
def MarksSent (e : Exchange) (id : String) : Prop :=
  ∃ job : Job, e = ⟨.store (.update job), .ok ()⟩ ∧
    job.id = id ∧ job.role = .initiator ∧ job.state = .sent

end Exchange

/-- Before a request was sent, the job was stored as sent. -/
def Accounted : List Exchange → Prop
  | [] => True
  | e :: earlier =>
    (∀ id, e.sent? = some id → ∃ e' ∈ earlier, e'.MarksSent id) ∧ Accounted earlier

namespace World

def standing? (w : World) (id : String) : Option Standing :=
  w.table.standing? id

/-- The jobs whose request was sent, once for each time. -/
def sends (w : World) : List String :=
  w.journal.filterMap Exchange.sent?

/-- Data may be moved for the request: an executor has taken it on, and whatever
had to be provisioned is there. -/
def Launched (w : World) (correlationId : String) : Prop :=
  ∃ id st, w.standing? id = some st ∧ st.correlationId = correlationId ∧
    st.role = .executor ∧ st.state.PastProvisioning

/-- The invariant of all worlds the service gets into: the table is well kept, whoever is awaited is
in provisioning, flows and sends are those of jobs that are that far, and nothing was sent twice. -/
structure Sound (w : World) : Prop where
  table : w.table.WellKept
  awaited_nodup : w.awaited.Nodup
  awaited : ∀ id ∈ w.awaited, ∃ st, w.standing? id = some st ∧ st.state = .provisioning
  writing : ∀ id, w.writing = some id →
    id ∉ w.awaited ∧ ∃ st, w.standing? id = some st ∧ st.state ≠ .initial
  flows : ∀ c ∈ w.flows, w.Launched c
  sends_nodup : w.sends.Nodup
  sends : ∀ id ∈ w.sends, ∃ st, w.standing? id = some st ∧ st.role = .initiator ∧
    st.state.PastSending
  journal : Accounted w.journal

/-- The job stands so, and the worker alone may write it: it is new, or its
provisioning began and nobody will report back on it, or the initiator's next
step is the worker's. -/
structure Owned (w : World) (id : String) (st : Standing) : Prop where
  standing : w.standing? id = some st
  share : st.state = .initial ∨
    (st.state = .provisioning ∧ id ∉ w.awaited ∧ w.writing ≠ some id) ∨
    (st.role = .initiator ∧ (st.state = .provisioned ∨ st.state = .acknowledged))

/-- Every job is still there, in a standing that writes can have led to. -/
def Advances (w w' : World) : Prop :=
  ∀ id st, w.standing? id = some st → ∃ st', w'.standing? id = some st' ∧ st.Leads st'

/-- Each job has the standing it had, or one that a single write can make of it. -/
def Legal (w w' : World) : Prop :=
  ∀ id, Standing.Follows (w.standing? id) (w'.standing? id)

/-- The worker keeps the jobs it owns, the sends and the journal it has seen. -/
structure SparesWorker (w w' : World) : Prop where
  owned : ∀ id st, w.Owned id st → w'.Owned id st
  sends : w'.sends = w.sends
  journal : ∀ e ∈ w.journal, e ∈ w'.journal

/-- The writer is at the same job, whose standing is the same if it was in provisioning. -/
structure SparesWriter (w w' : World) : Prop where
  writing : w'.writing = w.writing
  held : ∀ id st, w.writing = some id → w.standing? id = some st → st.state = .provisioning →
    w'.standing? id = some st

/-- Jobs only go on, and every other job of the worker's is still its own. -/
structure SparesOthers (id : String) (w w' : World) : Prop where
  advances : w.Advances w'
  others : ∀ k st, k ≠ id → w.Owned k st → w'.Owned k st

variable {w w' w'' : World} {id : String} {st st' : Standing}

theorem Advances.refl (w : World) : w.Advances w :=
  fun _ st hst => ⟨st, hst, .refl st⟩

theorem Advances.trans (h : w.Advances w') (h' : w'.Advances w'') : w.Advances w'' := by
  intro id st hst
  obtain ⟨st', hst', hleads⟩ := h id st hst
  obtain ⟨st'', hst'', hleads'⟩ := h' id st' hst'
  exact ⟨st'', hst'', hleads.trans hleads'⟩

theorem Legal.advances (h : w.Legal w') : w.Advances w' := by
  intro id st hst
  have hid := h id
  rw [hst] at hid
  exact hid.leads

theorem SparesWorker.refl (w : World) : w.SparesWorker w :=
  ⟨fun _ _ h => h, rfl, fun _ h => h⟩

theorem SparesWorker.trans (h : w.SparesWorker w') (h' : w'.SparesWorker w'') :
    w.SparesWorker w'' :=
  ⟨fun id st ho => h'.owned id st (h.owned id st ho), h'.sends.trans h.sends,
    fun e he => h'.journal e (h.journal e he)⟩

theorem SparesWriter.refl (w : World) : w.SparesWriter w :=
  ⟨rfl, fun _ _ _ h _ => h⟩

theorem SparesWriter.trans (h : w.SparesWriter w') (h' : w'.SparesWriter w'') :
    w.SparesWriter w'' := by
  refine ⟨h'.writing.trans h.writing, fun id st hw hst hstate => ?_⟩
  exact h'.held id st (h.writing.trans hw) (h.held id st hw hst hstate) hstate

theorem SparesOthers.trans (h : SparesOthers id w w') (h' : SparesOthers id w' w'') :
    SparesOthers id w w'' :=
  ⟨h.advances.trans h'.advances, fun k st hk ho => h'.others k st hk (h.others k st hk ho)⟩

/-- Data that is being moved goes on being moved for the same job. -/
theorem Launched.advances {c : String} (h : w.Launched c) (ha : w.Advances w') :
    w'.Launched c := by
  obtain ⟨id, st, hst, hc, hrole, hpast⟩ := h
  obtain ⟨st', hst', hleads⟩ := ha id st hst
  exact ⟨id, st', hst', hleads.correlationId.trans hc, hleads.role.trans hrole,
    hleads.state.pastProvisioning hpast⟩

/-- A job that was never written is no one's. -/
theorem not_owned_of_none (h : w.standing? id = none) : ¬ w.Owned id st := by
  intro ho
  rw [ho.standing] at h
  cases h

/-- Nobody waits for a job that is the worker's. -/
theorem Owned.not_awaited (h : w.Owned id st) (hs : w.Sound) : id ∉ w.awaited := by
  intro hid
  obtain ⟨st', hst', hstate⟩ := hs.awaited id hid
  rw [h.standing] at hst'
  cases hst'
  rcases h.share with hnew | ⟨_, hnot, _⟩ | ⟨_, hready | hready⟩
  · rw [hstate] at hnew; cases hnew
  · exact hnot hid
  · rw [hstate] at hready; cases hready
  · rw [hstate] at hready; cases hready

/-- What the worker may write is not the writer's. -/
theorem Owned.not_writing (h : w.Owned id st) (hw : w.writing = some id) :
    st.state ≠ .provisioning := by
  intro hstate
  rcases h.share with hnew | ⟨_, _, hnot⟩ | ⟨_, hready | hready⟩
  · rw [hstate] at hnew; cases hnew
  · exact hnot hw
  · rw [hstate] at hready; cases hready
  · rw [hstate] at hready; cases hready

/-! ## Calls that change no job -/

/-- A call that sends nothing was added to the journal, and nothing else has changed. -/
def OnlyJournaled (w w' : World) : Prop :=
  ∃ e : Exchange, e.sent? = none ∧ w' = { w with journal := e :: w.journal }

theorem sends_cons {e : Exchange} (he : e.sent? = none) :
    sends { w with journal := e :: w.journal } = w.sends := by
  rw [sends, List.filterMap_cons_none he]
  rfl

namespace OnlyJournaled

theorem standing?_eq (h : w.OnlyJournaled w') : w'.standing? = w.standing? := by
  obtain ⟨_, _, rfl⟩ := h
  rfl

theorem legal (h : w.OnlyJournaled w') : w.Legal w' := by
  intro id
  rw [h.standing?_eq]
  exact .same _

theorem sparesWorker (h : w.OnlyJournaled w') : w.SparesWorker w' := by
  obtain ⟨e, he, rfl⟩ := h
  exact ⟨fun _ _ ho => ⟨ho.standing, ho.share⟩, sends_cons he,
    fun _ => List.mem_cons_of_mem _⟩

theorem sparesWriter (h : w.OnlyJournaled w') : w.SparesWriter w' := by
  obtain ⟨e, he, rfl⟩ := h
  exact ⟨rfl, fun _ _ _ hst _ => hst⟩

theorem sparesOthers (h : w.OnlyJournaled w') (id : String) : SparesOthers id w w' :=
  ⟨h.legal.advances, fun k st _ ho => h.sparesWorker.owned k st ho⟩

theorem sound (h : w.OnlyJournaled w') (hs : w.Sound) : w'.Sound := by
  obtain ⟨e, he, rfl⟩ := h
  refine ⟨hs.table, hs.awaited_nodup, hs.awaited, hs.writing, hs.flows, ?_, ?_, ?_, hs.journal⟩
  · rw [sends_cons he]
    exact hs.sends_nodup
  · rw [sends_cons he]
    exact hs.sends
  · rintro id hid
    rw [he] at hid
    cases hid

end OnlyJournaled

/-! ## Calls that write one job -/

/-- The job with the id now has this standing, the call was added to the journal, and nothing else
has changed. -/
structure WritesStanding (w w' : World) (id : String) (st : Standing) : Prop where
  becomes : w.table.Becomes w'.table id st
  rest : ∃ e : Exchange, e.sent? = none ∧
    w' = { w with table := w'.table, journal := e :: w.journal }

namespace WritesStanding

theorem awaited_eq (h : w.WritesStanding w' id st) : w'.awaited = w.awaited := by
  obtain ⟨_, e, _, heq⟩ := h
  rw [heq]
  rfl

theorem writing_eq (h : w.WritesStanding w' id st) : w'.writing = w.writing := by
  obtain ⟨_, e, _, heq⟩ := h
  rw [heq]

theorem flows_eq (h : w.WritesStanding w' id st) : w'.flows = w.flows := by
  obtain ⟨_, e, _, heq⟩ := h
  rw [heq]

theorem journal_eq (h : w.WritesStanding w' id st) :
    ∃ e : Exchange, e.sent? = none ∧ w'.journal = e :: w.journal := by
  obtain ⟨_, e, he, heq⟩ := h
  exact ⟨e, he, by rw [heq]⟩

theorem sends_eq (h : w.WritesStanding w' id st) : w'.sends = w.sends := by
  obtain ⟨e, he, heq⟩ := h.journal_eq
  rw [sends, heq, List.filterMap_cons_none he]
  rfl

theorem standing?_self (h : w.WritesStanding w' id st) : w'.standing? id = some st :=
  h.becomes.standing?_self

theorem standing?_of_ne (h : w.WritesStanding w' id st) {k : String} (hk : k ≠ id) :
    w'.standing? k = w.standing? k :=
  h.becomes.standing?_of_ne hk

theorem legal (h : w.WritesStanding w' id st) (hf : Standing.Follows (w.standing? id) (some st)) :
    w.Legal w' := by
  intro k
  by_cases hk : k = id
  · rw [hk, h.standing?_self]
    exact hf
  · rw [h.standing?_of_ne hk]
    exact .same _

theorem owned_of_ne (h : w.WritesStanding w' id st) {k : String} {stk : Standing} (hk : k ≠ id)
    (ho : w.Owned k stk) : w'.Owned k stk := by
  refine ⟨by rw [h.standing?_of_ne hk, ho.standing], ?_⟩
  rw [h.awaited_eq, h.writing_eq]
  exact ho.share

theorem sparesWorker (h : w.WritesStanding w' id st) (hnot : ∀ st', ¬ w.Owned id st') :
    w.SparesWorker w' := by
  refine ⟨fun k stk ho => h.owned_of_ne ?_ ho, h.sends_eq, fun e he => ?_⟩
  · rintro rfl
    exact hnot stk ho
  · obtain ⟨_, _, heq⟩ := h.journal_eq
    rw [heq]
    exact List.mem_cons_of_mem _ he

theorem sparesWriter (h : w.WritesStanding w' id st)
    (hnot : ∀ st', w.standing? id = some st' → w.writing = some id →
      st'.state ≠ .provisioning) : w.SparesWriter w' := by
  refine ⟨h.writing_eq, fun k stk hw hst hstate => ?_⟩
  rw [h.standing?_of_ne, hst]
  rintro rfl
  exact hnot stk hst hw hstate

theorem sparesOthers (h : w.WritesStanding w' id st)
    (hf : Standing.Follows (w.standing? id) (some st)) : SparesOthers id w w' :=
  ⟨(h.legal hf).advances, fun _ _ hk ho => h.owned_of_ne hk ho⟩

theorem sound (h : w.WritesStanding w' id st) (hs : w.Sound)
    (hf : Standing.Follows (w.standing? id) (some st)) (hid : id ∉ w.awaited) : w'.Sound := by
  have ha := (h.legal hf).advances
  have hne : ∀ k ∈ w.awaited, k ≠ id := fun k hk heq => hid (heq ▸ hk)
  refine ⟨h.becomes.wellKept, ?_, ?_, ?_, ?_, ?_, ?_, ?_⟩
  · rw [h.awaited_eq]
    exact hs.awaited_nodup
  · intro k hk
    rw [h.awaited_eq] at hk
    rw [h.standing?_of_ne (hne k hk)]
    exact hs.awaited k hk
  · intro k hk
    rw [h.writing_eq] at hk
    obtain ⟨hnot, stk, hst, hstate⟩ := hs.writing k hk
    obtain ⟨stk', hst', hleads⟩ := ha k stk hst
    exact ⟨by rwa [h.awaited_eq], stk', hst', hleads.state.ne_initial hstate⟩
  · intro c hc
    rw [h.flows_eq] at hc
    exact (hs.flows c hc).advances ha
  · rw [h.sends_eq]
    exact hs.sends_nodup
  · intro k hk
    rw [h.sends_eq] at hk
    obtain ⟨stk, hst, hrole, hpast⟩ := hs.sends k hk
    obtain ⟨stk', hst', hleads⟩ := ha k stk hst
    exact ⟨stk', hst', hleads.role.trans hrole, (hrole ▸ hleads.state).pastSending hpast⟩
  · obtain ⟨e, he, heq⟩ := h.journal_eq
    rw [heq]
    refine ⟨fun k hk => ?_, hs.journal⟩
    rw [he] at hk
    cases hk

end WritesStanding

end World

end Ferry.Service
