import Ferry.Orchestrator.Initiate
import Ferry.Proofs.Service.Lifecycle
import Ferry.Proofs.Store.Origins
import Mathlib.Data.List.Induction
import Mathlib.Logic.Function.Basic

/-!
# Taking on the same transfer at once

Any number of callers take on transfers, some of them the same one. Each looks for
the job, draws an id and stores a job, and another caller may come in between any
two of these steps; so may any statement of the rest of the system, of which only
this matters, that it makes no job. Which of them moves next is the schedule's
choice.

Two callers may both have looked in vain for the same request. Only one of them
can store its job, and the other is told why it could not and looks again. What
keeps this together is that a job once stored is found from then on, and that no
two callers drew the same id, so that nobody is refused for any other reason.

Nobody reads `made`. It remembers whose jobs were stored.
-/

namespace Ferry.Intake

open Operation Store Store.Table

/-- A call that takes on a transfer, with the id it will draw and the time it will
read. -/
structure Caller where
  role : Role
  request : TransferRequest
  id : String
  now : Time.Instant

/-- The job the caller is to make: one in which nothing has been done yet about the caller's
request, in the caller's role, and that can be found by the request's id. -/
def Caller.job (c : Caller) : Job where
  id := c.id
  correlationId := c.request.id
  role := c.role
  state := .initial
  request := c.request
  manifest := none
  resources := []
  errorDetail := none
  retryCount := 0
  createdAt := c.now
  stateTimestamp := c.now

structure State where
  table : Table
  /-- What is left of each caller's program. -/
  rest : Nat → Activity (Except OrchestratorError String)
  /-- The callers whose job was stored, the first one first. -/
  made : List Nat := []

inductive Move where
  /-- A caller makes its next call. -/
  | turn (caller : Nat)
  /-- Somebody else has a statement carried out. -/
  | other (s : Store.Call) (spares : ∀ job, s ≠ .create job)

/-- The reply to a call, if it is one that takes part in taking on a transfer. -/
def reply? (c : Caller) (t : Table) : (q : Request) → Option q.Reply
  | .store s => some (s.perform t).1
  | .freshId => some c.id
  | .now => some c.now
  | .count .. => some ()
  | .provision _ | .send .. | .acknowledge .. | .startFlow _ | .isComplete _ | .isRunning
  | .overflow => none

def effect (t : Table) : Request → Table
  | .store s => (s.perform t).2
  | _ => t

/-- A job was stored. -/
def makesJob : (q : Request) → q.Reply → Bool
  | .store (.create _), .ok () => true
  | _, _ => false

def State.turn (callers : Nat → Caller) (s : State) (i : Nat) : State :=
  match s.rest i with
  | .done _ => s
  | .call q next =>
    match reply? (callers i) s.table q with
    | none => s
    | some r =>
      { table := effect s.table q
        rest := Function.update s.rest i (next r)
        made := if makesJob q r then s.made ++ [i] else s.made }

def State.move (callers : Nat → Caller) (s : State) : Move → State
  | .turn i => s.turn callers i
  | .other c _ => { s with table := (c.perform s.table).2 }

/-- Nobody has moved. -/
def initial (t : Table) (callers : Nat → Caller) : State where
  table := t
  rest i := (initiate (callers i).role (callers i).request).run

/-- The state a schedule leads to. -/
def after (t : Table) (callers : Nat → Caller) (moves : List Move) : State :=
  moves.foldl (State.move callers) (initial t callers)

def Move.isTurnOf (i : Nat) : Move → Bool
  | .turn k => k == i
  | .other .. => false

/-- How often a caller was let to move. -/
def turns (i : Nat) (moves : List Move) : Nat :=
  moves.countP (Move.isTurnOf i)

/-- The ids that are drawn are new. -/
structure Fresh (callers : Nat → Caller) (t : Table) : Prop where
  distinct : ∀ {i k}, (callers i).id = (callers k).id → i = k
  unused : ∀ i, ∀ r ∈ t.rows, r.id ≠ .text (callers i).id

/-- The row is that of the caller's job, and whoever reads it reads the caller's role and
request. -/
def Caller.Made (c : Caller) (r : Row) : Prop :=
  (Row.ofJob c.job).SameJob r ∧
    ∀ job, r.toJob? = some job → job.role = c.role ∧ job.request = c.request

/-- The row is that of the job that was taken on for the request, either before
anybody moved or by just one of the callers. -/
def State.Originates (t : Table) (callers : Nat → Caller) (s : State) (c : String) (r : Row) :
    Prop :=
  ((∃ old ∈ t.rows, old.SameJob r) ∧ ∀ k ∈ s.made, (callers k).request.id ≠ c) ∨
  ∃ k, (∀ k', k' ∈ s.made ∧ (callers k').request.id = c ↔ k' = k) ∧ (callers k).Made r

/-- After any moves of the callers: each comes to an end, those without an id are refused and
change nothing, and all others with one request are answered with the id of its only row, which
was there before or was made by exactly one of them. -/
structure OncePerRequest (t : Table) (callers : Nat → Caller) (moves : List Move) : Prop where
  ends : ∀ i, 6 ≤ turns i moves → ∃ r, (after t callers moves).rest i = .done r
  refused : ∀ i, Text.allBlank (callers i).request.id = true →
    (after t callers moves).rest i =
        .done (.error (.invalidRequest "request id cannot be empty")) ∧
      after t callers (moves.filter fun m => !m.isTurnOf i) = after t callers moves
  taken : ∀ i r, Text.allBlank (callers i).request.id = false →
    (after t callers moves).rest i = .done r →
    ∃ id row, r = .ok id ∧ row.id = .text id ∧
      (after t callers moves).table.rows.filter
        (fun r => r.correlationId == .text (callers i).request.id) = [row] ∧
      (after t callers moves).Originates t callers (callers i).request.id row
  same : ∀ i k id id', (after t callers moves).rest i = .done (.ok id) →
    (after t callers moves).rest k = .done (.ok id') →
    (id = id' ↔ (callers i).request.id = (callers k).request.id)

/-! ## Where a caller stands -/

/-- The job is counted. -/
def counting (role : Role) (job : Job) : Operation String := do
  count (.jobsInitiated role)
  countMove job
  pure job.id

/-- Somebody else has stored a job for the request. -/
def looking (correlationId : String) : Operation String := do
  match ← store (.findId correlationId) with
  | some id => pure id
  | none => throw (.store (.notFound correlationId))

def storing (role : Role) (job : Job) : Operation String := do
  match ← ask (.store (.create job)) with
  | .ok () => counting role job
  | .error (.duplicateCorrelationId correlationId) => looking correlationId
  | .error e => throw (.store e)

def drawing (role : Role) (request : TransferRequest) : Operation String := do
  let id ← ask .freshId
  let now ← ask .now
  storing role (Job.new id role request now)

inductive Stage where
  | arrived
  | drawing
  | dating
  | storing
  | counting
  | counted
  /-- Its job was refused. -/
  | beaten
  | ended (result : Except OrchestratorError String)

namespace Stage

/-- What is left of the program of a caller that stands there. -/
def rest (c : Caller) : Stage → Activity (Except OrchestratorError String)
  | arrived => (initiate c.role c.request).run
  | drawing => (Intake.drawing c.role c.request).run
  | dating => (ask .now >>= fun now =>
      Intake.storing c.role (Job.new c.id c.role c.request now)).run
  | storing => (Intake.storing c.role c.job).run
  | counting => (Intake.counting c.role c.job).run
  | counted => (countMove c.job >>= fun _ => pure c.id).run
  | beaten => (looking c.request.id).run
  | ended result => .done result

/-- The turns it takes to the end at most. -/
def left : Stage → Nat
  | arrived => 6
  | drawing => 5
  | dating => 4
  | storing => 3
  | counting => 2
  | counted | beaten => 1
  | ended _ => 0

/-- Before a caller has stored a job it is not among those that made one; after that, or once it
has found one, the table has a row for its request. -/
def Fits (t : Table) (made : List Nat) (c : Caller) (i : Nat) : Stage → Prop
  | arrived | drawing | dating | storing => i ∉ made
  | counting | counted => t.HasTaken c.request.id c.id
  | beaten => ∃ id, t.HasTaken c.request.id id
  | ended result => ∃ id, result = .ok id ∧ t.HasTaken c.request.id id

theorem Fits.mono {t t' : Table} {made made' : List Nat} {c : Caller} {i : Nat} {st : Stage}
    (h : st.Fits t made c i) (htable : ∀ {c id}, t.HasTaken c id → t'.HasTaken c id)
    (hmade : i ∈ made' → i ∈ made) : st.Fits t' made' c i := by
  cases st with
  | arrived | drawing | dating | storing => exact fun hi => h (hmade hi)
  | counting | counted => exact htable h
  | beaten => exact h.imp fun _ => htable
  | ended result => exact h.imp fun _ hid => ⟨hid.1, htable hid.2⟩

end Stage

theorem initiate_blank {role : Role} {request : TransferRequest}
    (h : Text.allBlank request.id = true) :
    (initiate role request).run =
      .done (.error (.invalidRequest "request id cannot be empty")) := by
  rw [initiate, if_pos h]
  rfl

theorem initiate_eq {role : Role} {request : TransferRequest}
    (h : Text.allBlank request.id = false) :
    initiate role request = (do
      match ← store (.findId request.id) with
      | some id => pure id
      | none => drawing role request) := by
  rw [initiate, if_neg (by rw [h]; decide)]
  rfl

/-! ## One turn -/

variable {t : Table} {callers : Nat → Caller} {s : State} {i : Nat} {st : Stage}

theorem turn_replied {q : Request} {next : q.Reply → Activity (Except OrchestratorError String)}
    {r : q.Reply} (hi : s.rest i = .call q next) (hr : reply? (callers i) s.table q = some r) :
    s.turn callers i =
      { table := effect s.table q
        rest := Function.update s.rest i (next r)
        made := if makesJob q r then s.made ++ [i] else s.made } := by
  unfold State.turn
  rw [hi]
  simp only [hr]

theorem turn_done {r : Except OrchestratorError String} (hi : s.rest i = .done r) :
    s.turn callers i = s := by
  unfold State.turn
  rw [hi]

/-- The state with a caller further on, in which no job was stored. -/
def State.onward (callers : Nat → Caller) (s : State) (i : Nat) (st : Stage) : State :=
  { s with rest := Function.update s.rest i (st.rest (callers i)) }

/-- The state with a caller further on that has stored its job. -/
def State.storedBy (callers : Nat → Caller) (s : State) (i : Nat) (st : Stage) : State where
  table := ⟨s.table.rows ++ [Row.ofJob (callers i).job]⟩
  rest := Function.update s.rest i (st.rest (callers i))
  made := s.made ++ [i]

theorem turn_asking {q : Request} {next : q.Reply → Activity (Except OrchestratorError String)}
    {r : q.Reply} (hi : s.rest i = .call q next) (hr : reply? (callers i) s.table q = some r)
    (heffect : effect s.table q = s.table) (hmakes : makesJob q r = false)
    (hnext : next r = st.rest (callers i)) : s.turn callers i = s.onward callers i st := by
  rw [turn_replied hi hr, heffect, hmakes, hnext]
  rfl

theorem turn_arrived (hblank : Text.allBlank (callers i).request.id = false)
    (hkept : s.table.WellKept) (hi : s.rest i = Stage.arrived.rest (callers i)) :
    s.turn callers i = s.onward callers i .drawing ∨
    ∃ id, s.table.HasTaken (callers i).request.id id ∧
      s.turn callers i = s.onward callers i (.ended (.ok id)) := by
  rw [Stage.rest, initiate_eq hblank, run_store_bind] at hi
  by_cases htaken : ∃ id, s.table.HasTaken (callers i).request.id id
  · obtain ⟨id, hid⟩ := htaken
    refine .inr ⟨id, hid, turn_asking hi rfl rfl rfl ?_⟩
    rw [Store.Call.perform, (findId_eq_some hkept).2 hid]
    rfl
  · refine .inl (turn_asking hi rfl rfl rfl ?_)
    rw [Store.Call.perform, (findId_eq_none hkept).2 fun id hid => htaken ⟨id, hid⟩]
    rfl

theorem turn_drawing (hi : s.rest i = Stage.drawing.rest (callers i)) :
    s.turn callers i = s.onward callers i .dating :=
  turn_asking hi rfl rfl rfl rfl

theorem turn_dating (hi : s.rest i = Stage.dating.rest (callers i)) :
    s.turn callers i = s.onward callers i .storing :=
  turn_asking hi rfl rfl rfl rfl

theorem turn_counting (hi : s.rest i = Stage.counting.rest (callers i)) :
    s.turn callers i = s.onward callers i .counted :=
  turn_asking hi rfl rfl rfl rfl

theorem turn_counted (hi : s.rest i = Stage.counted.rest (callers i)) :
    s.turn callers i = s.onward callers i (.ended (.ok (callers i).id)) :=
  turn_asking hi rfl rfl rfl rfl

theorem turn_beaten {id : String} (hkept : s.table.WellKept)
    (hi : s.rest i = Stage.beaten.rest (callers i))
    (hid : s.table.HasTaken (callers i).request.id id) :
    s.turn callers i = s.onward callers i (.ended (.ok id)) := by
  rw [Stage.rest, looking, run_store_bind] at hi
  refine turn_asking hi rfl rfl rfl ?_
  rw [Store.Call.perform, (findId_eq_some hkept).2 hid]
  rfl

theorem turn_ended {result : Except OrchestratorError String}
    (hi : s.rest i = (Stage.ended result).rest (callers i)) :
    s.turn callers i = s.onward callers i (.ended result) := by
  rw [turn_done hi, State.onward, ← hi, Function.update_eq_self]

/-- A caller that stores its job succeeds, unless the request was taken on meanwhile. -/
theorem turn_storing (hkept : s.table.WellKept)
    (hnew : ∀ r ∈ s.table.rows, r.id ≠ .text (callers i).id)
    (hi : s.rest i = Stage.storing.rest (callers i)) :
    ((∃ id, s.table.HasTaken (callers i).request.id id) ∧
      s.turn callers i = s.onward callers i .beaten) ∨
    (Table.WellKept ⟨s.table.rows ++ [Row.ofJob (callers i).job]⟩ ∧
      s.turn callers i = s.storedBy callers i .counting) := by
  have hasked : reply? (callers i) s.table (.store (.create (callers i).job)) =
      some (Call.written s.table (s.table.create (callers i).job)).1 := rfl
  rcases create_of_wellKept hkept (j := (callers i).job) rfl hnew with
    ⟨htaken, hcreate⟩ | ⟨hcreate, hkept'⟩
  · refine .inl ⟨htaken, turn_asking hi hasked ?_ ?_ ?_⟩
    · rw [effect, Store.Call.perform, hcreate, Call.written]
    · rw [hcreate, Call.written]
      rfl
    · rw [hcreate, Call.written]
      rfl
  · refine .inr ⟨hkept', ?_⟩
    rw [turn_replied hi hasked, effect, Store.Call.perform, hcreate, Call.written]
    rfl

/-- Nobody is done before it stands at the end. -/
theorem ended_of_rest {c : Caller} (hblank : Text.allBlank c.request.id = false)
    {result : Except OrchestratorError String} (h : st.rest c = .done result) :
    st = .ended result := by
  cases st with
  | arrived =>
      rw [Stage.rest, initiate_eq hblank, run_store_bind] at h
      cases h
  | beaten =>
      rw [Stage.rest, looking, run_store_bind] at h
      cases h
  | ended result' => exact congrArg Stage.ended (Program.done.inj h)
  | drawing | dating | storing | counting | counted => cases h

/-! ## Any number of moves -/

/-- The jobs there would be if nothing but the making of jobs were stored. -/
def origins (t : Table) (callers : Nat → Caller) (made : List Nat) : Table :=
  ⟨t.rows ++ made.map fun k => Row.ofJob (callers k).job⟩

theorem origins_append (t : Table) (callers : Nat → Caller) (made : List Nat) (i : Nat) :
    origins t callers (made ++ [i]) =
      ⟨(origins t callers made).rows ++ [Row.ofJob (callers i).job]⟩ := by
  simp [origins]

/-- The invariant of the race, after each caller has moved `n` times: the rows are those there
were and those the callers made, and every caller is at a stage that fits the table, with no more
than the rest of its six moves left. -/
structure Sound (t : Table) (callers : Nat → Caller) (n : Nat → Nat) (s : State) : Prop where
  kept : s.table.WellKept
  rows : (origins t callers s.made).SameJobs s.table
  blank : ∀ i, Text.allBlank (callers i).request.id = true →
    s.rest i = .done (.error (.invalidRequest "request id cannot be empty")) ∧ i ∉ s.made
  stages : ∀ i, Text.allBlank (callers i).request.id = false →
    ∃ st : Stage, s.rest i = st.rest (callers i) ∧ st.Fits s.table s.made (callers i) i ∧
      st.left ≤ 6 - n i

variable {n : Nat → Nat}

theorem Sound.mem_rows (h : Sound t callers n s) {r : Row} (hr : r ∈ s.table.rows) :
    (∃ old ∈ t.rows, old.SameJob r) ∨ ∃ k ∈ s.made, (Row.ofJob (callers k).job).SameJob r := by
  obtain ⟨old, hold, hsame⟩ := h.rows.exists_origin hr
  rcases List.mem_append.1 hold with hold | hold
  · exact .inl ⟨old, hold, hsame⟩
  · obtain ⟨k, hk, rfl⟩ := List.mem_map.1 hold
    exact .inr ⟨k, hk, hsame⟩

theorem Sound.row_of_made (h : Sound t callers n s) {k : Nat} (hk : k ∈ s.made) :
    ∃ r ∈ s.table.rows, (Row.ofJob (callers k).job).SameJob r :=
  h.rows.exists_row (List.mem_append_right _ (List.mem_map_of_mem hk))

/-- The id of a caller that has stored nothing is not in the table. -/
theorem Sound.unused (h : Sound t callers n s) (hfresh : Fresh callers t) (hi : i ∉ s.made)
    {r : Row} (hr : r ∈ s.table.rows) : r.id ≠ .text (callers i).id := by
  intro hid
  rcases h.mem_rows hr with ⟨old, hold, hsame⟩ | ⟨k, hk, hsame⟩
  · exact hfresh.unused i old hold (hsame.id.symm.trans hid)
  · have hki : (callers k).id = (callers i).id := Cell.text.inj (hsame.id.symm.trans hid)
    exact hi (hfresh.distinct hki ▸ hk)

theorem sound_initial (hkept : t.WellKept) : Sound t callers (fun _ => 0) (initial t callers) where
  kept := hkept
  rows := by
    rw [initial, origins, List.map_nil, List.append_nil]
    exact SameJobs.refl t
  blank i hi := ⟨initiate_blank hi, List.not_mem_nil⟩
  stages i _ := ⟨.arrived, rfl, List.not_mem_nil, by simp [Stage.left]⟩

theorem Sound.other (h : Sound t callers n s) {c : Store.Call} (hc : ∀ job, c ≠ .create job) :
    Sound t callers n { s with table := (c.perform s.table).2 } where
  kept := wellKept_perform h.kept hc
  rows := h.rows.trans (sameJobs_perform s.table hc)
  blank := h.blank
  stages i hi := by
    obtain ⟨st, hrest, hfits, hleft⟩ := h.stages i hi
    exact ⟨st, hrest, hfits.mono (sameJobs_perform s.table hc).hasTaken id, hleft⟩

theorem Sound.idle (h : Sound t callers n s) (hi : Text.allBlank (callers i).request.id = true) :
    Sound t callers (Function.update n i (n i + 1)) (s.turn callers i) := by
  rw [turn_done (h.blank i hi).1]
  refine ⟨h.kept, h.rows, h.blank, fun k hk => ?_⟩
  have hki : k ≠ i := by rintro rfl; rw [hk] at hi; cases hi
  rw [Function.update_of_ne hki]
  exact h.stages k hk

/-- A caller that has moved on and stored nothing. -/
theorem Sound.onward {st' : Stage} (h : Sound t callers n s)
    (hi : Text.allBlank (callers i).request.id = false) (hleft : st.left ≤ 6 - n i)
    (hless : st'.left ≤ st.left - 1) (hfits : st'.Fits s.table s.made (callers i) i) :
    Sound t callers (Function.update n i (n i + 1)) (s.onward callers i st') where
  kept := h.kept
  rows := h.rows
  blank k hk := by
    have hne : k ≠ i := by rintro rfl; rw [hk] at hi; cases hi
    exact ⟨(Function.update_of_ne hne ..).trans (h.blank k hk).1, (h.blank k hk).2⟩
  stages k hk := by
    by_cases hki : k = i
    · subst hki
      refine ⟨st', Function.update_self .., hfits, ?_⟩
      rw [Function.update_self]
      omega
    · obtain ⟨st₂, hrest, hfits', hleft'⟩ := h.stages k hk
      refine ⟨st₂, (Function.update_of_ne hki ..).trans hrest, hfits', ?_⟩
      rw [Function.update_of_ne hki]
      exact hleft'

/-- A caller that has moved on and stored its job. -/
theorem Sound.storedBy (h : Sound t callers n s)
    (hi : Text.allBlank (callers i).request.id = false)
    (hleft : Stage.storing.left ≤ 6 - n i)
    (hkept : Table.WellKept ⟨s.table.rows ++ [Row.ofJob (callers i).job]⟩) :
    Sound t callers (Function.update n i (n i + 1)) (s.storedBy callers i .counting) where
  kept := hkept
  rows := by
    rw [State.storedBy, origins_append]
    exact h.rows.append _
  blank k hk := by
    have hne : k ≠ i := by rintro rfl; rw [hk] at hi; cases hi
    refine ⟨(Function.update_of_ne hne ..).trans (h.blank k hk).1, fun hmem => ?_⟩
    rcases List.mem_append.1 hmem with hmem | hmem
    · exact (h.blank k hk).2 hmem
    · exact hne (List.mem_singleton.1 hmem)
  stages k hk := by
    by_cases hki : k = i
    · subst hki
      refine ⟨.counting, Function.update_self .., ?_, ?_⟩
      · exact ⟨_, List.mem_append_right _ (List.mem_singleton_self _), rfl, rfl⟩
      · rw [Function.update_self]
        simp only [Stage.left] at hleft ⊢
        omega
    · obtain ⟨st', hrest, hfits', hleft'⟩ := h.stages k hk
      refine ⟨st', (Function.update_of_ne hki ..).trans hrest, hfits'.mono ?_ ?_, ?_⟩
      · exact fun htaken => htaken.append _
      · intro hmem
        rcases List.mem_append.1 hmem with hmem | hmem
        · exact hmem
        · exact absurd (List.mem_singleton.1 hmem) hki
      · rw [Function.update_of_ne hki]
        exact hleft'

theorem Sound.turn (h : Sound t callers n s) (hfresh : Fresh callers t) (i : Nat) :
    Sound t callers (Function.update n i (n i + 1)) (s.turn callers i) := by
  cases hblank : Text.allBlank (callers i).request.id with
  | true => exact h.idle hblank
  | false =>
      obtain ⟨st, hrest, hfits, hleft⟩ := h.stages i hblank
      cases st with
      | arrived =>
          rcases turn_arrived hblank h.kept hrest with hturn | ⟨id, htaken, hturn⟩
          · rw [hturn]
            exact h.onward hblank hleft (Nat.le_refl 5) hfits
          · rw [hturn]
            exact h.onward hblank hleft (Nat.zero_le 5) ⟨id, rfl, htaken⟩
      | drawing =>
          rw [turn_drawing hrest]
          exact h.onward hblank hleft (Nat.le_refl 4) hfits
      | dating =>
          rw [turn_dating hrest]
          exact h.onward hblank hleft (Nat.le_refl 3) hfits
      | storing =>
          rcases turn_storing h.kept (fun r hr => h.unused hfresh hfits hr) hrest with
            ⟨htaken, hturn⟩ | ⟨hkept, hturn⟩
          · rw [hturn]
            exact h.onward hblank hleft (Nat.le_succ 1) htaken
          · rw [hturn]
            exact h.storedBy hblank hleft hkept
      | counting =>
          rw [turn_counting hrest]
          exact h.onward hblank hleft (Nat.le_refl 1) hfits
      | counted =>
          rw [turn_counted hrest]
          exact h.onward hblank hleft (Nat.zero_le 0) ⟨_, rfl, hfits⟩
      | beaten =>
          obtain ⟨id, htaken⟩ := hfits
          rw [turn_beaten h.kept hrest htaken]
          exact h.onward hblank hleft (Nat.zero_le 0) ⟨id, rfl, htaken⟩
      | ended result =>
          rw [turn_ended hrest]
          exact h.onward hblank hleft (Nat.zero_le 0) hfits

theorem after_append (t : Table) (callers : Nat → Caller) (moves : List Move) (m : Move) :
    after t callers (moves ++ [m]) = (after t callers moves).move callers m := by
  simp [after, List.foldl_append]

theorem turns_append_turn (moves : List Move) (i : Nat) :
    (fun k => turns k (moves ++ [.turn i])) =
      Function.update (fun k => turns k moves) i (turns i moves + 1) := by
  funext k
  by_cases hk : k = i
  · subst hk
    simp [turns, Move.isTurnOf, List.countP_append]
  · rw [Function.update_of_ne hk]
    simp [turns, Move.isTurnOf, List.countP_append, Ne.symm hk]

theorem sound_after (hkept : t.WellKept) (hfresh : Fresh callers t) (moves : List Move) :
    Sound t callers (fun i => turns i moves) (after t callers moves) := by
  induction moves using List.reverseRecOn with
  | nil => exact sound_initial hkept
  | append_singleton moves m ih =>
      rw [after_append]
      cases m with
      | turn i =>
          rw [turns_append_turn]
          exact ih.turn hfresh i
      | other c hc =>
          have hturns : (fun i => turns i (moves ++ [.other c hc])) = fun i => turns i moves := by
            funext i
            simp [turns, Move.isTurnOf, List.countP_append]
          rw [hturns]
          exact ih.other hc

/-! ## What callers can rely on -/

theorem Sound.ended (h : Sound t callers n s) (hi : Text.allBlank (callers i).request.id = false)
    {result : Except OrchestratorError String} (hrest : s.rest i = .done result) :
    ∃ id, result = .ok id ∧ s.table.HasTaken (callers i).request.id id := by
  obtain ⟨st, hst, hfits, -⟩ := h.stages i hi
  obtain rfl := ended_of_rest hi (hst.symm.trans hrest)
  exact hfits

theorem Sound.not_blank (h : Sound t callers n s) {id : String} (hi : s.rest i = .done (.ok id)) :
    Text.allBlank (callers i).request.id = false := by
  rw [Bool.eq_false_iff]
  intro hblank
  rw [(h.blank i hblank).1] at hi
  cases hi

theorem Sound.taken (h : Sound t callers n s) {id : String} (hi : s.rest i = .done (.ok id)) :
    s.table.HasTaken (callers i).request.id id := by
  obtain ⟨_, hid, htaken⟩ := h.ended (h.not_blank hi) hi
  obtain rfl := Except.ok.inj hid
  exact htaken

theorem Caller.made_of_sameJob {c : Caller} {r : Row} (h : (Row.ofJob c.job).SameJob r) :
    c.Made r := by
  refine ⟨h, fun job hread => ?_⟩
  have hshows := Row.shows_of_toJob? hread
  have hrole : r.role = .text c.role.name := h.role
  have hrequest : r.request = .text c.request.toJson.print := h.request
  constructor
  · have hread := hshows.role
    rw [hrole, Cell.text?, Option.bind_some, Role.ofName?_name] at hread
    exact (Option.some.inj hread).symm
  · have hread := hshows.request
    rw [hrequest, Cell.text?, Option.bind_some, Row.document?_request] at hread
    exact (Option.some.inj hread).symm

theorem Sound.originates (h : Sound t callers n s) (hfresh : Fresh callers t) {c : String}
    {r : Row} (hr : r ∈ s.table.rows) (hc : r.correlationId = .text c) :
    s.Originates t callers c r := by
  -- whoever stored a job for the request stored the one of this row
  have hmaker : ∀ k ∈ s.made, (callers k).request.id = c → r.id = .text (callers k).id := by
    intro k hk hck
    obtain ⟨r', hr', hsame⟩ := h.row_of_made hk
    have hc' : r'.correlationId = r.correlationId := by
      rw [hsame.correlationId, hc]
      exact congrArg Cell.text hck
    obtain rfl := eq_of_correlationId h.kept hr hr' hc'
    exact hsame.id
  rcases h.mem_rows hr with ⟨old, hold, hsame⟩ | ⟨k, hk, hsame⟩
  · refine .inl ⟨⟨old, hold, hsame⟩, fun k hk hck => ?_⟩
    exact hfresh.unused k old hold (hsame.id.symm.trans (hmaker k hk hck))
  · refine .inr ⟨k, fun k' => ⟨fun ⟨hk', hck'⟩ => ?_, ?_⟩, Caller.made_of_sameJob hsame⟩
    · exact hfresh.distinct (Cell.text.inj ((hmaker k' hk' hck').symm.trans hsame.id))
    · rintro rfl
      exact ⟨hk, Cell.text.inj (hsame.correlationId.symm.trans hc)⟩

/-- The turns of a caller that is refused change nothing. -/
theorem after_filter_of_blank (hkept : t.WellKept) (hfresh : Fresh callers t)
    (hi : Text.allBlank (callers i).request.id = true) (moves : List Move) :
    after t callers (moves.filter fun m => !m.isTurnOf i) = after t callers moves := by
  induction moves using List.reverseRecOn with
  | nil => rfl
  | append_singleton moves m ih =>
      rw [List.filter_append, after_append, ← ih]
      by_cases hm : m.isTurnOf i = true
      · rw [List.filter_cons_of_neg (by simp [hm]), List.filter_nil, List.append_nil, ih]
        cases m with
        | turn k =>
            obtain rfl : k = i := beq_iff_eq.1 hm
            exact (turn_done ((sound_after hkept hfresh moves).blank k hi).1).symm
        | other c hc => cases hm
      · rw [List.filter_cons_of_pos (by simp [hm]), List.filter_nil, after_append]

/-- However callers meet, a transfer is taken on once and all of them are given its id. -/
theorem initiated_once (run : Service.Run) (callers : Nat → Caller)
    (hfresh : Fresh callers run.last.world.table) (moves : List Move) :
    OncePerRequest run.last.world.table callers moves := by
  have hkept : run.last.world.table.WellKept := run.inOrder_last.sound.table
  have h := sound_after hkept hfresh moves
  constructor
  case ends =>
    intro i hturns
    cases hblank : Text.allBlank (callers i).request.id with
    | true => exact ⟨_, (h.blank i hblank).1⟩
    | false =>
        obtain ⟨st, hrest, -, hleft⟩ := h.stages i hblank
        have hzero : st.left = 0 := by omega
        cases st with
        | ended result => exact ⟨result, hrest⟩
        | arrived | drawing | dating | storing | counting | counted | beaten => cases hzero
  case refused =>
    intro i hblank
    exact ⟨(h.blank i hblank).1, after_filter_of_blank hkept hfresh hblank moves⟩
  case taken =>
    intro i r hblank hr
    obtain ⟨id, rfl, row, hrow, hc, hid⟩ := h.ended hblank hr
    exact ⟨id, row, rfl, hid, filter_correlationId h.kept hrow hc, h.originates hfresh hrow hc⟩
  case same =>
    intro i k id id' hi hk
    have htaken := h.taken hi
    have htaken' := h.taken hk
    constructor
    · rintro rfl
      exact hasTaken_injective h.kept htaken htaken'
    · intro hc
      rw [← hc] at htaken'
      exact hasTaken_unique h.kept htaken htaken'

/-- Callers on either side that take on the same transfer. -/
def racers (i : Nat) : Caller where
  role := if i = 0 then .initiator else .executor
  request := { id := "a", destination := { kind := localDirectory } }
  id := String.ofList (List.replicate i 'j')
  now := .epoch

theorem fresh_racers : Fresh racers {} where
  distinct h := by simpa [racers, String.ofList_inj, List.replicate_inj] using h
  unused _ _ hr := absurd hr List.not_mem_nil

/-- The second caller has looked in vain before the first one stores its job. -/
def race : List Move :=
  [.turn 0, .turn 1, .turn 1, .turn 1, .turn 0, .turn 0, .turn 0, .turn 1, .turn 1, .turn 0,
    .turn 0]

theorem initiated_once_in_race :
    (after {} racers race).rest 0 = .done (.ok "") ∧
      (after {} racers race).rest 1 = .done (.ok "") ∧
      OncePerRequest {} racers race :=
  ⟨rfl, rfl, initiated_once ⟨[], .singleton _⟩ racers fresh_racers race⟩

end Ferry.Intake
