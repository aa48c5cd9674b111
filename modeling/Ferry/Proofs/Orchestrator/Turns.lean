import Ferry.Orchestrator.Cycle
import Ferry.Proofs.Interference
import Ferry.Proofs.Orchestrator.Phases
import Ferry.Proofs.Store.Persistence
import Ferry.Proofs.Store.Queue
import Ferry.Proofs.Store.Reading
import Mathlib.Logic.Relation

/-!
# No provisioned job is passed over

An executor's job whose flow cannot start stays provisioned, and it may do so for ever.
Still it holds nobody up: it is written when it is tried again, so from then on it has
waited for less time than all that wait behind it. The same is true of a job that becomes
provisioned meanwhile.

So of the rows that stand before a job in the queue (`ahead`) no more than those that
stood there at first ever do, and each cycle that does not come to the job itself takes as
many of them away as it takes up (`length_without`). That bounds the number of cycles by
the length of the queue.

All of this rests on the times. Each write has to be later than all that is stored, and by a
millisecond at least, for that is what a row can tell apart.
-/

namespace Ferry.Turns

open Operation Store Store.Table

/-! ## The terms -/

/-- How a provisioned job is handed on: to the peer, or to the data flow. -/
def handing (job : Job) : Request :=
  match job.role with
  | .initiator => .send job.dispatchRequest job.id
  | .executor => .startFlow job.request

/-- The store and, in that order, what the cycles have handed on. -/
structure State where
  table : Table
  handed : List Request := []

def State.hand (s : State) (q : Request) : State :=
  { s with handed := s.handed ++ [q] }

def State.perform (s : State) (c : Call) : State :=
  { s with table := (c.perform s.table).2 }

/-- The job has moved at least a millisecond after all that are stored. -/
def After (t : Table) (job : Job) : Prop :=
  ∀ r ∈ t.rows, ∀ moved, r.stateTimestamp = .integer moved →
    moved + 1 ≤ job.stateTimestamp.millis

/-- What the call writes, if it writes anything, is later than all that is stored. -/
def Later (t : Table) : Call → Prop
  | .create job => (t.create job).isOk = true → After t job
  | .update job => t.hits job none = true → After t job
  | .updateIfState job expected => t.hits job (some expected) = true → After t job
  | _ => True

/-- A call of somebody else. A job that waits is left alone until it was handed on. -/
def Others (waiting : List Job) (handed : List Request) (t t' : Table) : Prop :=
  ∃ c : Call, Later t c ∧ (∀ job ∈ waiting, handing job ∉ handed → c.Spares job.id) ∧
    t' = (c.perform t).2

/-- The terms on which cycles run. No call of the store fails, and what the others answer
when a job is handed on is left open. -/
def terms (waiting : List Job) : Discipline operationSignature State where
  inv _ := True
  answers
    | .store c, s, r, s' => Later s.table c ∧ (∃ a, r = .ok a) ∧ r = (c.perform s.table).1 ∧
      s' = s.perform c
    | .send request id, s, _, s' => s' = s.hand (.send request id)
    | .startFlow request, s, _, s' => s' = s.hand (.startFlow request)
    | .isRunning, s, r, s' => r = true ∧ s' = s
    | _, s, _, s' => s' = s
  rely s s' := s'.handed = s.handed ∧
    Relation.ReflTransGen (Others waiting s.handed) s.table s'.table
  guarantee _ _ := True
  rely_refl _ := ⟨rfl, .refl⟩
  rely_trans h h' := ⟨h'.1.trans h.1, h.2.trans (h.1 ▸ h'.2)⟩

/-! ## Who stands before a job -/

/-- The provisioned rows that have waited for at least as long as this one. -/
def ahead (r : Row) (t : Table) : List Row :=
  t.rows.filter fun r' => r'.state == .text JobState.provisioned.name &&
    r'.stateTimestamp.le r.stateTimestamp

/-- The rows of no job of these. -/
def without (jobs : List Job) (rows : List Row) : List Row :=
  rows.filter fun r => jobs.all fun job => r.id != .text job.id

section Ahead

variable {t : Table} {r r' : Row} {job : Job} {jobs : List Job} {expected : Option JobState}
  {rows : List Row} {moved : Int}

theorem mem_ahead : r' ∈ ahead r t ↔ r' ∈ t.rows ∧
    r'.state = .text JobState.provisioned.name ∧ r'.stateTimestamp.le r.stateTimestamp = true := by
  rw [ahead, List.mem_filter, Bool.and_eq_true, beq_iff_eq]

theorem without_nil : without [] rows = rows :=
  List.filter_eq_self.2 fun _ _ => rfl

theorem without_cons : without (job :: jobs) rows = without jobs (without [job] rows) := by
  rw [without, without, without, List.filter_filter]
  refine List.filter_congr fun r _ => ?_
  rw [List.all_cons, List.all_cons, List.all_nil, Bool.and_true, Bool.and_comm]

theorem without_single {other : Job} (hid : other.id = job.id) :
    without [other] rows = without [job] rows := by
  rw [without, without]
  simp only [List.all_cons, hid]

/-- What is written goes behind the job, if it stays in the queue at all. -/
theorem ahead_write (hstamp : r.stateTimestamp = .integer moved) (hr : r ∈ t.rows)
    (hlater : t.hits job expected = true → After t job) :
    ahead r (t.write job expected) =
      (ahead r t).filter fun r' => !matchesJob job expected r' := by
  have hbehind : t.hits job expected = true →
      (Cell.integer job.stateTimestamp.millis).le r.stateTimestamp = false := by
    intro hhit
    have hlt := hlater hhit r hr moved hstamp
    rw [hstamp, Cell.le, decide_eq_false_iff_not]
    omega
  rw [ahead, ahead, Table.write, List.filter_map, List.filter_filter]
  have hsame : t.rows.filter ((fun r' : Row => r'.state == .text JobState.provisioned.name &&
        r'.stateTimestamp.le r.stateTimestamp) ∘
      fun r' => if matchesJob job expected r' then r'.updatedFrom job else r') =
      t.rows.filter fun r' => !matchesJob job expected r' &&
        (r'.state == .text JobState.provisioned.name &&
          r'.stateTimestamp.le r.stateTimestamp) := by
    refine List.filter_congr fun r' hr' => ?_
    rw [Function.comp_apply]
    by_cases hmatch : matchesJob job expected r' = true
    · have hle := hbehind (List.any_eq_true.2 ⟨r', hr', hmatch⟩)
      rw [if_pos hmatch, hmatch]
      show (_ && (Cell.integer job.stateTimestamp.millis).le r.stateTimestamp) = _
      rw [hle, Bool.and_false, Bool.not_true, Bool.false_and]
    · rw [if_neg hmatch, Bool.eq_false_iff.2 hmatch, Bool.not_false, Bool.true_and]
  rw [hsame]
  refine (List.map_congr_left fun r' hr' => ?_).trans (List.map_id _)
  have hmiss := (List.mem_filter.1 hr').2
  rw [Bool.and_eq_true, Bool.not_eq_true'] at hmiss
  rw [if_neg (by simp [hmiss.1])]
  rfl

/-- Nobody comes to stand before a job. -/
theorem ahead_perform (hstamp : r.stateTimestamp = .integer moved) (hr : r ∈ t.rows) {c : Call}
    (hlater : Later t c) : (ahead r (c.perform t).2).Sublist (ahead r t) := by
  have heffect := c.callEffect_perform t
  generalize (c.perform t).2 = t' at heffect ⊢
  cases heffect with
  | nothing => exact List.Sublist.refl _
  | create job hcreate =>
      obtain ⟨-, -, rfl⟩ := create_eq_ok.1 hcreate
      have hlt := hlater (by rw [hcreate]; rfl) r hr moved hstamp
      have hbehind : ((Row.ofJob job).stateTimestamp.le r.stateTimestamp) = false := by
        rw [hstamp]
        show (Cell.integer job.stateTimestamp.millis).le (.integer moved) = false
        rw [Cell.le, decide_eq_false_iff_not]
        omega
      rw [ahead, ahead, List.filter_append, List.filter_cons_of_neg (by simp [hbehind]),
        List.filter_nil, List.append_nil]
  | update job =>
      rw [ahead_write hstamp hr hlater]
      exact List.filter_sublist
  | updateIfState job expected =>
      rw [ahead_write hstamp hr hlater]
      exact List.filter_sublist

/-- Those who stand before a job are all in the queue, so a batch in which the job is not
takes as many of them as it can hold. -/
theorem length_without {n : Nat} (hr : r ∈ t.queue .provisioned)
    (hnot : r ∉ (t.queue .provisioned).take n)
    (hjobs : List.Forall₂ (fun r j => r.toJob? = some j) ((t.queue .provisioned).take n) jobs) :
    (without jobs (ahead r t)).length + n ≤ (ahead r t).length := by
  let spared : Row → Bool := fun r' => jobs.all fun job => r'.id != .text job.id
  have htaken : ∀ r' ∈ (t.queue .provisioned).take n,
      (!spared r' && r'.stateTimestamp.le r.stateTimestamp) = true := by
    intro r' hr'
    obtain ⟨m, hm, rfl⟩ := List.getElem_of_mem hr'
    have hm' : m < jobs.length := hjobs.length_eq ▸ hm
    have hid := (Row.shows_of_toJob? (hjobs.get hm hm')).id
    have hdropped : r ∈ (t.queue .provisioned).drop n := by
      rw [← List.take_append_drop n (t.queue .provisioned)] at hr
      exact (List.mem_append.1 hr).resolve_left hnot
    rw [Bool.and_eq_true, Bool.not_eq_true', List.all_eq_false]
    exact ⟨⟨_, List.getElem_mem hm', by simpa using hid⟩,
      le_of_mem_take (List.getElem_mem hm) hdropped⟩
  have hlength : ((t.queue .provisioned).take n).length = n := by
    rw [List.length_take]
    refine Nat.min_eq_left (Nat.le_of_not_lt fun hlt => hnot ?_)
    rwa [List.take_of_length_le (Nat.le_of_lt hlt)]
  have hcount : n ≤ (ahead r t).countP fun r' => !spared r' :=
    calc n
      _ = ((t.queue .provisioned).take n).countP
            fun r' => !spared r' && r'.stateTimestamp.le r.stateTimestamp :=
          (hlength.symm.trans (List.countP_eq_length.2 htaken).symm)
      _ ≤ (t.queue .provisioned).countP
            fun r' => !spared r' && r'.stateTimestamp.le r.stateTimestamp :=
          (List.take_sublist n _).countP_le
      _ = (ahead r t).countP fun r' => !spared r' := by
          rw [(queue_perm t .provisioned).countP_eq, List.countP_filter, ahead, List.countP_filter]
          refine List.countP_congr fun r' _ => ?_
          simp only [Bool.and_eq_true]
          tauto
  have hparts : (ahead r t).length = (ahead r t).countP spared +
      (ahead r t).countP fun r' => !spared r' := by
    rw [List.length_eq_countP_add_countP spared]
    simp
  rw [without, ← List.countP_eq_length_filter, hparts]
  exact Nat.add_le_add_left hcount _

end Ahead

/-! ## A job that waits -/

/-- One of the jobs that wait, and the row it is read of. -/
structure Listed (waiting : List Job) (job : Job) (r : Row) : Prop where
  mem : job ∈ waiting
  read : r.toJob? = some job
  state : job.state = .provisioned

/-- The job was handed on, or it is still there and nobody but these stands before it. -/
def Waits (job : Job) (r : Row) (rows : List Row) (s : State) : Prop :=
  handing job ∈ s.handed ∨ s.table.Sole r ∧ (ahead r s.table).Sublist rows

section Waiting

variable {waiting : List Job} {w job : Job} {r : Row} {rows : List Row} {s s' : State} {c : Call}
  {expected : Option JobState}

theorem Listed.stamp (h : Listed waiting w r) : ∃ moved, r.stateTimestamp = .integer moved := by
  have hreads := (Row.reads_of_toJob? h.read).stateTimestamp
  cases hcell : r.stateTimestamp with
  | integer moved => exact ⟨moved, rfl⟩
  | null | decimal _ _ | text _ => rw [hcell] at hreads; cases hreads

theorem Listed.id (h : Listed waiting w r) : r.id = .text w.id :=
  (Row.shows_of_toJob? h.read).id

theorem Listed.keeps (h : Listed waiting w r) {t : Table} (hsole : t.Sole r) : t.Keeps w :=
  ⟨r, hsole, h.read⟩

theorem Listed.row_state (h : Listed waiting w r) :
    r.state = .text JobState.provisioned.name := by
  rw [(Row.shows_of_toJob? h.read).state_eq, h.state]

/-- Who waits stands in the queue. -/
theorem Listed.mem_ahead (h : Listed waiting w r) {t : Table} (hr : r ∈ t.rows) :
    r ∈ ahead r t := by
  have hself := Cell.total r.stateTimestamp r.stateTimestamp
  exact Turns.mem_ahead.2 ⟨hr, h.row_state, by simpa using hself⟩

/-- Where there is no room for the job, it was handed on. -/
theorem Waits.handed (h : Waits w r rows s) (hl : Listed waiting w r) (hrows : r ∉ rows) :
    handing w ∈ s.handed := by
  rcases h with hhanded | ⟨hsole, hsub⟩
  · exact hhanded
  · exact absurd (hsub.mem (hl.mem_ahead hsole.mem)) hrows

theorem Waits.perform (h : Waits w r rows s) (hl : Listed waiting w r)
    (hspares : handing w ∉ s.handed → c.Spares w.id) (hlater : Later s.table c) :
    Waits w r rows (s.perform c) := by
  by_cases hhanded : handing w ∈ s.handed
  · exact .inl hhanded
  · obtain ⟨hsole, hsub⟩ := h.resolve_left hhanded
    obtain ⟨moved, hstamp⟩ := hl.stamp
    exact .inr ⟨hsole.perform hl.id (hspares hhanded),
      (ahead_perform hstamp hsole.mem hlater).trans hsub⟩

theorem Waits.rely (h : Waits w r rows s) (hl : Listed waiting w r)
    (hrely : (terms waiting).rely s s') : Waits w r rows s' := by
  obtain ⟨t, handed⟩ := s
  obtain ⟨t', handed'⟩ := s'
  obtain ⟨rfl, hmoves⟩ : handed' = handed ∧
      Relation.ReflTransGen (Others waiting handed) t t' := hrely
  induction hmoves with
  | refl => exact h
  | tail _ hmove ih =>
      obtain ⟨c, hlater, hspares, rfl⟩ := hmove
      exact ih.perform hl (hspares w hl.mem) hlater

theorem Waits.hand (h : Waits w r rows s) (q : Request) : Waits w r rows (s.hand q) :=
  h.imp_left fun h => List.mem_append_left _ h

/-- Somebody else was written, and does not stand before the job any more. -/
theorem Waits.write (h : Waits w r rows s) (hl : Listed waiting w r) (hne : job.id ≠ w.id)
    (hexpected : expected = none ∨ expected = some .provisioned)
    (hlater : s.table.hits job expected = true → After s.table job) :
    Waits w r (without [job] rows) { s with table := s.table.write job expected } := by
  refine h.imp_right fun ⟨hsole, hsub⟩ => ?_
  obtain ⟨moved, hstamp⟩ := hl.stamp
  have hrow : r.id ≠ .text job.id := by
    rw [hl.id]
    exact fun heq => hne (Cell.text.inj heq).symm
  refine ⟨hsole.write_of_ne hrow expected, ?_⟩
  show (ahead r (s.table.write job expected)).Sublist _
  rw [ahead_write hstamp hsole.mem hlater]
  have hmatch : ∀ r' ∈ ahead r s.table,
      (!matchesJob job expected r') = [job].all fun job => r'.id != .text job.id := by
    intro r' hr'
    obtain ⟨-, hstate, -⟩ := mem_ahead.1 hr'
    rcases hexpected with rfl | rfl
    · simp [matchesJob, bne]
    · simp [matchesJob, bne, hstate]
  rw [List.filter_congr hmatch]
  exact hsub.filter _

end Waiting

/-! ## Calls -/

section Rules

variable {α β : Type} {waiting : List Job} {E : OrchestratorError → State → Prop} {w job : Job}
  {r : Row} {rows : List Row} {s s' : State} {q : Request} {f : Operation α} {g : α → Operation β}

/-- A call that is none of the store's changes nothing but what was handed on. -/
theorem answers_of_ne {a : q.Reply} (hq : ∀ c, q ≠ .store c)
    (h : (terms waiting).answers q s a s') : s' = s ∨ s' = s.hand q := by
  cases q with
  | store c => exact absurd rfl (hq c)
  | send _ _ | startFlow _ => exact .inr h
  | isRunning => exact .inl h.2
  | provision _ | acknowledge _ _ | isComplete _ | now | freshId | overflow
  | count _ _ => exact .inl h

theorem handed_of_answers {a : q.Reply} (h : (terms waiting).answers q s a s')
    (hhanded : handing w ∈ s.handed) : handing w ∈ s'.handed := by
  by_cases hq : ∃ c, q = .store c
  · obtain ⟨c, rfl⟩ := hq
    obtain ⟨-, -, -, rfl⟩ := h
    exact hhanded
  · rcases answers_of_ne (fun c heq => hq ⟨c, heq⟩) h with rfl | rfl
    · exact hhanded
    · exact List.mem_append_left _ hhanded

/-- What was handed on stays so, whatever is done. -/
theorem wp_of_handed {p : Activity α} {Q : α → State → Prop}
    (hQ : ∀ a s, handing w ∈ s.handed → Q a s) (h : handing w ∈ s.handed) :
    (terms waiting).wp p Q s := by
  induction p generalizing s with
  | done a => exact fun s' hrely _ => hQ a s' (hrely.1 ▸ h)
  | call q next ih =>
      intro s₁ hrely _ a s₂ hanswers
      exact ⟨trivial, trivial, ih a (handed_of_answers hanswers (hrely.1 ▸ h))⟩

theorem wpOr_of_handed {Q : α → State → Prop} (hE : ∀ e s, handing w ∈ s.handed → E e s)
    (hQ : ∀ a s, handing w ∈ s.handed → Q a s) (h : handing w ∈ s.handed) :
    (terms waiting).wpOr E f Q s := by
  refine wp_of_handed (fun result s' hhanded => ?_) h
  cases result with
  | ok a => exact hQ a s' hhanded
  | error e => exact hE e s' hhanded

variable (hl : Listed waiting w r)

include hl

theorem stable_waits : (terms waiting).Stable (Waits w r rows) :=
  fun _ _ hrely h => h.rely hl hrely

theorem preserves_ask (hq : ∀ c, q ≠ .store c) :
    (terms waiting).Preserves E (Waits w r rows) (ask q) := by
  intro s h s₁ hrely _ a s₂ hanswers
  refine ⟨trivial, trivial, fun s₃ hrely' _ => ?_⟩
  have h₁ := h.rely hl hrely
  rcases answers_of_ne hq hanswers with rfl | rfl
  · exact h₁.rely hl hrely'
  · exact (h₁.hand q).rely hl hrely'

theorem undisturbed_waits : (terms waiting).Undisturbed E (Waits w r rows) where
  stable := stable_waits hl
  aside q hq := preserves_ask hl fun c heq => by
    subst heq
    exact hq

/-- A call that writes no job, or another one. -/
theorem preserves_store {c : Call} (hspares : c.Spares w.id) :
    (terms waiting).Preserves E (Waits w r rows) (store c) := by
  intro s h s₁ hrely _ a s₂ hanswers
  obtain ⟨hlater, ⟨b, rfl⟩, -, rfl⟩ := hanswers
  refine ⟨trivial, trivial, fun s₃ hrely' _ => ?_⟩
  exact ((h.rely hl hrely).perform hl (fun _ => hspares) hlater).rely hl hrely'

theorem ignores_waits (hne : job.id ≠ w.id) :
    (terms waiting).Ignores E (Waits w r rows) job := by
  intro after hid
  have hafter : after.id ≠ w.id := by rwa [hid]
  exact ⟨preserves_store hl hafter, fun _ => preserves_store hl hafter⟩

/-- A batch is taken up. -/
theorem wpOr_next {state : JobState} {limit : Nat} {g : List Job → Operation β}
    {Q : β → State → Prop} (hE : ∀ e s, handing w ∈ s.handed → E e s)
    (hQ : ∀ b s, handing w ∈ s.handed → Q b s) (h : Waits w r rows s)
    (hnext : ∀ jobs s₁, s₁.table.Sole r → (ahead r s₁.table).Sublist rows →
      s₁.table.next state limit = .ok jobs → (terms waiting).wpOr E (g jobs) Q s₁) :
    (terms waiting).wpOr E (store (.next state limit) >>= g) Q s := by
  intro s₁ hrely _ a s₂ hanswers
  obtain ⟨-, ⟨jobs, rfl⟩, hjobs, rfl⟩ := hanswers
  refine ⟨trivial, trivial, ?_⟩
  rcases h.rely hl hrely with hhanded | ⟨hsole, hsub⟩
  · exact wpOr_of_handed hE hQ hhanded
  · exact hnext jobs s₁ hsole hsub hjobs.symm

end Rules

/-! ## The phases -/

section Phases

variable {α : Type} {waiting : List Job} {E : OrchestratorError → State → Prop} {w job : Job}
  {r : Row} {rows : List Row} {s : State} {jobs : List Job} (hl : Listed waiting w r)

include hl

theorem preserves_provisionPhase (hE : ∀ e s, handing w ∈ s.handed → E e s)
    (config : Config.Orchestrator) :
    (terms waiting).Preserves E (Waits w r rows) (Cycle.provisionPhase config) := by
  refine fun s h => wpOr_next hl hE (fun _ _ => .inl) h fun jobs s₁ hsole hsub hnext => ?_
  have hne := (hl.keeps hsole).ne_of_next hnext (by rw [hl.state]; decide)
  exact Discipline.preserves_provisioned (undisturbed_waits hl)
    (fun job hjob => ⟨ignores_waits hl (hne job hjob), state_of_next hnext job hjob⟩)
    s₁ (.inr ⟨hsole, hsub⟩)

/-- It may fail, but nobody is written then. -/
theorem preserves_completionPhase (hE : ∀ e s, Waits w r rows s → E e s)
    (config : Config.Orchestrator) :
    (terms waiting).Preserves E (Waits w r rows) (Cycle.completionPhase config) := by
  refine fun s h => wpOr_next hl (fun e s hhanded => hE e s (.inl hhanded)) (fun _ _ => .inl) h
    fun jobs s₁ hsole hsub hnext => ?_
  have hne := (hl.keeps hsole).ne_of_next hnext (by rw [hl.state]; decide)
  exact Discipline.preserves_inspected (undisturbed_waits hl) hE
    (fun job hjob => ignores_waits hl (hne job hjob)) s₁ (.inr ⟨hsole, hsub⟩)

/-! ### The dispatch -/

theorem wpOr_update {g : Unit → Operation α} {Q : α → State → Prop} (hne : job.id ≠ w.id)
    (h : Waits w r rows s)
    (hg : ∀ s', Waits w r (without [job] rows) s' → (terms waiting).wpOr E (g ()) Q s') :
    (terms waiting).wpOr E (store (.update job) >>= g) Q s := by
  intro s₁ hrely _ a s₂ hanswers
  obtain ⟨hlater, ⟨b, rfl⟩, hok, rfl⟩ := hanswers
  refine ⟨trivial, trivial, hg _ ?_⟩
  have hwrite := (h.rely hl hrely).write hl hne (.inl rfl) hlater
  have hupdate : s₁.table.update job = .ok (s₁.table.write job none) := by
    rw [Call.perform, Table.update] at hok
    rw [Table.update]
    split
    · rfl
    · next hmiss =>
      rw [if_neg hmiss] at hok
      cases hok
  rw [State.perform, Call.perform, hupdate]
  exact hwrite

theorem wpOr_swap {g : Bool → Operation α} {Q : α → State → Prop} (hne : job.id ≠ w.id)
    (h : Waits w r rows s)
    (hg : ∀ hit s', Waits w r (without [job] rows) s' → (terms waiting).wpOr E (g hit) Q s') :
    (terms waiting).wpOr E (store (.updateIfState job .provisioned) >>= g) Q s := by
  intro s₁ hrely _ a s₂ hanswers
  obtain ⟨hlater, ⟨hit, rfl⟩, -, rfl⟩ := hanswers
  exact ⟨trivial, trivial, hg hit _ ((h.rely hl hrely).write hl hne (.inr rfl) hlater)⟩

/-- The turn of another job. It is written, and from then on it has waited for less time. -/
theorem wpOr_send (hne : job.id ≠ w.id) (hstate : job.state = .provisioned)
    (hrole : job.role = .initiator) (h : Waits w r rows s) :
    (terms waiting).wpOr E (Cycle.send job) (fun _ s' => Waits w r (without [job] rows) s') s := by
  have hcalm : (terms waiting).Undisturbed E (Waits w r rows) := undisturbed_waits hl
  refine Discipline.wpOr_then (hcalm.aside .now trivial s h) fun now s₁ _ h₁ => ?_
  obtain ⟨sent, hsent⟩ : ∃ sent, job.sent now = .ok sent :=
    Job.exists_move (by rw [hstate, hrole]; rfl) now
  have hmoved := Job.move_ok hsent
  refine Discipline.wpOr_moved hsent ?_
  have hne' : sent.id ≠ w.id := by rwa [hmoved.id]
  refine wpOr_update hl hne' h₁ fun s₂ h₂ => ?_
  rw [without_single hmoved.id] at h₂
  have hcalm' : (terms waiting).Undisturbed E (Waits w r (without [job] rows)) :=
    undisturbed_waits hl
  refine Discipline.preserves_bind (hcalm'.count _ _) (fun _ => ?_) s₂ h₂
  refine Discipline.preserves_bind (hcalm'.aside (.send _ _) trivial) fun reply => ?_
  match reply with
  | .ok () => exact Discipline.preserves_pure hcalm'.stable ()
  | .error e => exact Discipline.preserves_unsent hcalm' (ignores_waits hl hne') hmoved.state _

theorem wpOr_execute (config : Config.Orchestrator) (hne : job.id ≠ w.id)
    (hstate : job.state = .provisioned) (hrole : job.role = .executor) (h : Waits w r rows s) :
    (terms waiting).wpOr E (Cycle.execute config job)
      (fun _ s' => Waits w r (without [job] rows) s') s := by
  have hcalm : (terms waiting).Undisturbed E (Waits w r rows) := undisturbed_waits hl
  have hcalm' : (terms waiting).Undisturbed E (Waits w r (without [job] rows)) :=
    undisturbed_waits hl
  have hstart : (terms waiting).Preserves E (Waits w r rows) (ask (.startFlow job.request)) :=
    preserves_ask hl fun c heq => by cases heq
  refine Discipline.wpOr_then (hstart s h) fun outcome s₁ _ h₁ => ?_
  refine Discipline.wpOr_then (hcalm.count _ _ s₁ h₁) fun _ s₂ _ h₂ => ?_
  refine Discipline.wpOr_then (hcalm.aside .now trivial s₂ h₂) fun now s₃ _ h₃ => ?_
  refine Discipline.wpOr_then (hcalm.checkCount _ _ s₃ h₃) fun _ s₄ _ h₄ => ?_
  obtain ⟨after, hafter⟩ :=
    Job.exists_afterFlow hrole hstate config.maxFlowRetries now outcome
  have hid : after.id = job.id := (Job.evolves_afterFlow hstate hafter).id
  have hstore : ∀ s', Waits w r rows s' → (terms waiting).wpOr E
      (store (.updateIfState after .provisioned) >>= fun hit =>
        if hit then countMove after else pure ())
      (fun _ s'' => Waits w r (without [job] rows) s'') s' := by
    intro s' h'
    refine wpOr_swap hl (by rwa [hid]) h' fun hit s'' h'' => ?_
    rw [without_single hid] at h''
    exact Discipline.preserves_countIf hcalm'.stable (hcalm'.count _ _) hit s'' h''
  refine Discipline.wpOr_moved hafter ?_
  dsimp only
  split
  · exact Discipline.wpOr_then (hcalm.count _ _ s₄ h₄) fun _ s₅ _ h₅ => hstore s₅ h₅
  · exact hstore s₄ h₄

/-- The turn of the job itself: whatever comes of it, it was handed on. -/
theorem wpOr_dispatch_this (hE : ∀ e s, handing w ∈ s.handed → E e s)
    (config : Config.Orchestrator) :
    (terms waiting).wpOr E (Cycle.dispatch config w) (fun _ s' => handing w ∈ s'.handed) s := by
  rw [Cycle.dispatch]
  cases hrole : w.role with
  | initiator =>
      intro s₁ _ _ now s₂ _
      refine ⟨trivial, trivial, ?_⟩
      obtain ⟨sent, hsent⟩ : ∃ sent, w.sent now = .ok sent :=
        Job.exists_move (by rw [hl.state, hrole]; rfl) now
      refine Discipline.wpOr_moved hsent ?_
      obtain ⟨-, rfl⟩ := Job.move_eq_ok.1 hsent
      intro s₃ _ _ a s₄ hanswers
      obtain ⟨-, ⟨b, rfl⟩, -, -⟩ := hanswers
      refine ⟨trivial, trivial, fun s₅ _ _ _ s₆ _ => ⟨trivial, trivial, ?_⟩⟩
      intro s₇ _ _ reply s₈ hanswers
      obtain rfl : s₈ = s₇.hand (.send w.dispatchRequest w.id) := hanswers
      refine ⟨trivial, trivial, wpOr_of_handed hE (fun _ _ => id) ?_⟩
      rw [handing, hrole]
      exact List.mem_append_right _ List.mem_cons_self
  | executor =>
      intro s₁ _ _ outcome s₂ hanswers
      obtain rfl : s₂ = s₁.hand (.startFlow w.request) := hanswers
      refine ⟨trivial, trivial, wpOr_of_handed hE (fun _ _ => id) ?_⟩
      rw [handing, hrole]
      exact List.mem_append_right _ List.mem_cons_self

theorem wpOr_dispatch (hE : ∀ e s, handing w ∈ s.handed → E e s) (config : Config.Orchestrator)
    (hstate : job.state = .provisioned) (hself : job.id = w.id → job = w)
    (h : Waits w r rows s) : (terms waiting).wpOr E (Cycle.dispatch config job)
      (fun _ s' => Waits w r (without [job] rows) s') s := by
  by_cases hid : job.id = w.id
  · obtain rfl := hself hid
    exact Discipline.wpOr_mono (fun _ _ _ => .inl) (wpOr_dispatch_this hl hE config)
  · rw [Cycle.dispatch]
    cases hrole : job.role with
    | initiator => exact wpOr_send hl hid hstate hrole h
    | executor => exact wpOr_execute hl config hid hstate hrole h

/-- Each turn takes away the rows of its job. The rows that are left when all have had their
turn are the same from the first turn on. -/
theorem wpOr_dispatch_all (hE : ∀ e s, handing w ∈ s.handed → E e s)
    (config : Config.Orchestrator) (hstate : ∀ job ∈ jobs, job.state = .provisioned)
    (hself : ∀ job ∈ jobs, job.id = w.id → job = w) (h : Waits w r rows s) :
    (terms waiting).wpOr E (forEach (Cycle.dispatch config) jobs)
      (fun _ s' => Waits w r (without jobs rows) s') s := by
  let I : List Job → State → Prop := fun rest s' =>
    (∀ job ∈ rest, job.state = .provisioned ∧ (job.id = w.id → job = w)) ∧
      ∃ rows', without rest rows' = without jobs rows ∧ Waits w r rows' s'
  refine Discipline.wpOr_mono (fun _ s' _ hdone => ?_) (Discipline.wpOr_forEach (I := I) ?_ ?_ jobs
    ⟨fun job hjob => ⟨hstate job hjob, hself job hjob⟩, rows, rfl, h⟩)
  · obtain ⟨-, rows', hrows, hwaits⟩ := hdone
    rwa [← hrows, without_nil]
  · rintro rest s₁ s₂ hrely ⟨hrest, rows', hrows, hwaits⟩
    exact ⟨hrest, rows', hrows, hwaits.rely hl hrely⟩
  · rintro job rest s₁ - ⟨hjobs, rows', hrows, hwaits⟩
    obtain ⟨⟨hfirst, hsame⟩, hrest⟩ := List.forall_mem_cons.1 hjobs
    exact Discipline.wpOr_mono
      (fun _ _ _ h' => ⟨hrest, _, (without_cons ..).symm.trans hrows, h'⟩)
      (wpOr_dispatch hl hE config hfirst hsame hwaits)

/-- The job has been handed on, or fewer stand before it by as many as are taken up. -/
theorem wpOr_dispatchPhase (hE : ∀ e s, handing w ∈ s.handed → E e s)
    (config : Config.Orchestrator) (h : Waits w r rows s) :
    (terms waiting).wpOr E (Cycle.dispatchPhase config) (fun _ s' => ∃ rows',
      rows'.length ≤ rows.length - min config.batchSize maxLimit ∧ Waits w r rows' s') s := by
  have hQ : ∀ (_ : Nat) s, handing w ∈ s.handed → ∃ rows' : List Row,
      rows'.length ≤ rows.length - min config.batchSize maxLimit ∧ Waits w r rows' s :=
    fun _ s hhanded => ⟨[], Nat.zero_le _, .inl hhanded⟩
  refine wpOr_next hl hE hQ h fun jobs s₁ hsole hsub hnext => ?_
  have hrows := next_rows hnext
  refine Discipline.wpOr_then (wpOr_dispatch_all hl hE config (state_of_next hnext)
    ((hl.keeps hsole).eq_of_next hnext) (.inr ⟨hsole, List.Sublist.refl _⟩)) fun _ s₂ _ h₂ => ?_
  have hcalm : (terms waiting).Undisturbed E (Waits w r (without jobs (ahead r s₁.table))) :=
    undisturbed_waits hl
  refine Discipline.wpOr_mono (fun _ s₄ _ h₄ => ?_)
    (Discipline.preserves_processed hcalm.stable (hcalm.count _ _) s₂ h₂)
  by_cases hbatch : r ∈ (s₁.table.queue .provisioned).take (min config.batchSize maxLimit)
  · refine hQ 0 s₄ (h₄.handed hl fun hmem => ?_)
    -- the job is one of those that were taken up
    obtain ⟨n, hn, hget⟩ := List.getElem_of_mem hbatch
    have hn' : n < jobs.length := hrows.length_eq ▸ hn
    have hread : r.toJob? = some jobs[n] := by
      rw [← hget]
      exact hrows.get hn hn'
    obtain rfl : jobs[n] = w := Option.some.inj (hread.symm.trans hl.read)
    have hmiss := List.all_eq_true.1 (List.mem_filter.1 hmem).2 _ (List.getElem_mem hn')
    simp [hl.id] at hmiss
  · have hqueue : r ∈ s₁.table.queue .provisioned := mem_queue.2 ⟨hsole.mem, hl.row_state⟩
    have hlength := length_without hqueue hbatch hrows
    have hsub := hsub.length_le
    exact ⟨_, by omega, h₄⟩

end Phases

/-! ## Any number of cycles -/

/-- The job was handed on, or no more than so many stand in the queue up to it. -/
def Within (w : Job) (r : Row) (n : Nat) (s : State) : Prop :=
  ∃ rows : List Row, rows.length ≤ n ∧ Waits w r rows s

section Cycles

variable {config : Config.Orchestrator} {waiting : List Job} {w : Job} {r : Row} {n k : Nat}
  {s s' : State} {rows : List Row}

theorem within_of_handed (h : handing w ∈ s.handed) : Within w r n s :=
  ⟨[], Nat.zero_le n, .inl h⟩

/-- There is room in the queue for the job itself, or it is not there any more. -/
theorem Within.handed (h : Within w r 0 s) (hl : Listed waiting w r) : handing w ∈ s.handed := by
  obtain ⟨rows, hlength, hwaits⟩ := h
  refine hwaits.handed hl fun hmem => ?_
  rw [List.eq_nil_of_length_eq_zero (Nat.le_zero.1 hlength)] at hmem
  cases hmem

/-- The flag is up, so that the worker goes on. -/
theorem wpOr_isRunning {E : OrchestratorError → State → Prop} {Q : State → Prop}
    (hl : Listed waiting w r) (h : Waits w r rows s) : (terms waiting).wpOr E (ask .isRunning)
      (fun goOn s' => Waits w r rows s' ∧ (goOn = false → Q s')) s := by
  intro s₁ hrely _ goOn s₂ hanswers
  obtain ⟨rfl, rfl⟩ : goOn = true ∧ s₂ = s₁ := hanswers
  exact ⟨trivial, trivial, fun s₃ hrely' _ => ⟨(h.rely hl hrely).rely hl hrely', nofun⟩⟩

/-- A cycle brings the job nearer by as many as it takes up. -/
theorem wp_cycle (hl : Listed waiting w r) (config : Config.Orchestrator) (h : Within w r n s) :
    (terms waiting).wp (cycle config).run
      (fun _ s' => Within w r (n - min config.batchSize maxLimit) s') s := by
  obtain ⟨rows, hlength, hwaits⟩ := h
  let E : OrchestratorError → State → Prop :=
    fun _ s' => Within w r (n - min config.batchSize maxLimit) s'
  have hE : ∀ e s, handing w ∈ s.handed → E e s := fun _ _ => within_of_handed
  refine Discipline.wp_of_wpOr (Discipline.wpOr_cycle (fun _ h₁ => wpOr_isRunning hl h₁) ?_
    (preserves_provisionPhase hl hE config s hwaits)
    (fun _ h₂ => wpOr_dispatchPhase hl hE config h₂) ?_)
  · rintro s₃ ⟨rows', hlength', h₃⟩
    exact Discipline.wpOr_mono (fun _ _ _ h' => ⟨⟨rows', hlength', h'.1⟩, h'.2⟩)
      (wpOr_isRunning hl h₃)
  · rintro s₄ ⟨rows', hlength', h₄⟩
    have hnear : ∀ s', Waits w r rows' s' → Within w r (n - min config.batchSize maxLimit) s' :=
      fun _ h' => ⟨rows', by omega, h'⟩
    exact Discipline.wpOr_mono (fun _ s' _ => hnear s')
      (preserves_completionPhase hl (fun _ => hnear) config s₄ h₄)

theorem within_cycles (hl : Listed waiting w r) (hcycles : (terms waiting).Cycles config k s s')
    (h : Within w r n s) : Within w r (n - k * min config.batchSize maxLimit) s' := by
  induction hcycles with
  | none s => simpa using h
  | next _ hcycle ih =>
      rw [Nat.succ_mul, ← Nat.sub_sub]
      exact (hcycle.of_wp (wp_cycle hl config (ih h))).2

end Cycles

/-- The jobs that wait to be handed on. -/
def waiting (t : Table) : List Job :=
  (t.queue .provisioned).filterMap Row.toJob?

/-- So many cycles are enough to come to the end of the queue. -/
theorem le_cycles_mul {n b k : Nat} (hb : 1 ≤ b) (hfits : b ≤ maxLimit ∨ n ≤ maxLimit)
    (hk : (n + b - 1) / b ≤ k) : n ≤ k * min b maxLimit := by
  have hceil : n ≤ k * b := by
    have hlt := Nat.lt_mul_of_div_lt (Nat.lt_succ_of_le hk) hb
    rw [Nat.succ_mul] at hlt
    omega
  by_cases hsmall : b ≤ maxLimit
  · rwa [Nat.min_eq_left hsmall]
  · have hn : n ≤ maxLimit := hfits.resolve_left hsmall
    rw [Nat.min_eq_right (Nat.le_of_not_le hsmall)]
    cases k with
    | zero => simpa using hceil
    | succ k => exact hn.trans (Nat.le_mul_of_pos_left maxLimit k.succ_pos)

/-- Each job that waits is handed on before the queue as it was is taken up once, whatever
the others answer and whoever comes to wait meanwhile. -/
theorem handed_in_turn (config : Config.Orchestrator) (t : Table) (hbatch : 1 ≤ config.batchSize)
    (hfits : config.batchSize ≤ maxLimit ∨ t.count .provisioned ≤ maxLimit)
    (hsole : ∀ r ∈ t.queue .provisioned, t.Sole r) {k : Nat}
    (hk : (t.count .provisioned + config.batchSize - 1) / config.batchSize ≤ k) {s : State}
    (hcycles : (terms (waiting t)).Cycles config k { table := t } s) :
    ∀ job ∈ waiting t, handing job ∈ s.handed := by
  intro job hjob
  obtain ⟨r, hr, hread⟩ := List.mem_filterMap.1 hjob
  obtain ⟨hrow, hrowState⟩ := mem_queue.1 hr
  have hl : Listed (waiting t) job r :=
    ⟨hjob, hread, JobState.name_inj (Cell.text.inj
      ((Row.shows_of_toJob? hread).state_eq.symm.trans hrowState))⟩
  have hahead : (ahead r t).length ≤ t.count .provisioned := by
    rw [ahead, Table.count, ← List.countP_eq_length_filter, ← List.countP_eq_length_filter]
    exact List.countP_mono_left fun r' _ h => (Bool.and_eq_true_iff.1 h).1
  have hfirst : Within job r (t.count .provisioned) { table := t } :=
    ⟨_, hahead, .inr ⟨hsole r hr, List.Sublist.refl _⟩⟩
  have hlast := within_cycles hl hcycles hfirst
  rw [Nat.sub_eq_zero_of_le (le_cycles_mul hbatch hfits hk)] at hlast
  exact hlast.handed hl

/-! ### Flows that never start -/

/-- An executor's job that was tried so often, at last so many milliseconds after the epoch. -/
def patientJob (id : String) (moved : Nat) (tries : UInt32) : Job where
  id := id
  correlationId := id
  role := .executor
  state := .provisioned
  request := { id, destination := { kind := localDirectory } }
  manifest := some {}
  retryCount := tries
  createdAt := .epoch
  stateTimestamp := ⟨0, moved * 1000000⟩

/-- One job is taken up at a time, and tried for ever. -/
def patient : Config.Orchestrator :=
  { batchSize := 1, maxFlowRetries := 0 }

section Runs

variable {α : Type} {waiting : List Job} {s s₁ s' : State} {t : Table} {result : α}

/-- A call of the store while nobody else is at work. -/
theorem runs_store {c : Call} {next : operationSignature.Reply (.store c) → Activity α}
    {a : c.Answer} (h : c.perform s.table = (.ok a, t)) (hlater : Later s.table c)
    (rest : (terms waiting).Runs (next (.ok a)) ⟨t, s.handed⟩ result s') :
    (terms waiting).Runs (.call (.store c) next) s result s' := by
  refine Discipline.runs_call (.ok a) trivial ⟨hlater, ⟨a, rfl⟩, by rw [h], ?_⟩ rest
  rw [State.perform, h]

/-- A job that was never tried is tried, and to no effect. -/
theorem runs_retry {id : String} {moved later : Nat}
    (hinitial : s.table.next .initial 1 = .ok [])
    (hnext : s.table.next .provisioned 1 = .ok [patientJob id moved 0])
    (hafter : After s.table (patientJob id later 1))
    (hwrite : s.table.updateIfState (patientJob id later 1) .provisioned = (true, t))
    (hack : t.next .acknowledged 1 = .ok []) :
    (terms waiting).Runs (cycle patient).run s (.ok ⟨0, 1, 0⟩)
      (State.hand ⟨t, s.handed⟩ (.startFlow (patientJob id moved 0).request)) := by
  refine runs_store (congrArg (·, s.table) hinitial) trivial ?_
  refine Discipline.runs_call () trivial rfl ?_
  refine Discipline.runs_call true trivial ⟨rfl, rfl⟩ ?_
  refine runs_store (congrArg (·, s.table) hnext) trivial ?_
  refine Discipline.runs_call (FlowOutcome.retry "no route") trivial rfl ?_
  refine Discipline.runs_call () trivial rfl ?_
  refine Discipline.runs_call (patientJob id later 0).stateTimestamp trivial rfl ?_
  refine runs_store (c := .updateIfState (patientJob id later 1) .provisioned)
    (a := true) (t := t) ?_ (fun _ => hafter) ?_
  · rw [Call.perform]
    simp only [State.hand, hwrite]
  refine Discipline.runs_call () trivial rfl ?_
  refine Discipline.runs_call () trivial rfl ?_
  refine Discipline.runs_call true trivial ⟨rfl, rfl⟩ ?_
  refine runs_store (congrArg (·, t) hack) trivial ?_
  refine Discipline.runs_call () trivial rfl ?_
  exact .done ((terms waiting).rely_refl _) trivial

end Runs

/-- The table of these jobs. -/
def tableOf (jobs : List Job) : Table :=
  ⟨jobs.map Row.ofJob⟩

theorem after_tableOf {jobs : List Job} {job : Job}
    (h : ∀ j ∈ jobs, j.stateTimestamp.millis + 1 ≤ job.stateTimestamp.millis) :
    After (tableOf jobs) job := by
  intro r hr moved hstamp
  obtain ⟨j, hj, rfl⟩ := List.mem_map.1 hr
  obtain rfl := Cell.integer.inj hstamp
  exact h j hj

theorem next_tableOf {jobs : List Job} {job : Job} (hread : (Row.ofJob job).Reads job)
    (hjob : job ∈ jobs) (hfirst : ∀ j ∈ jobs,
      j.stateTimestamp.millis ≤ job.stateTimestamp.millis → j = job) :
    (tableOf jobs).next job.state 1 = .ok [job] := by
  refine next_first hread.toJob? (List.mem_map_of_mem hjob) fun r hr hle => ?_
  obtain ⟨j, hj, rfl⟩ := List.mem_map.1 hr
  rw [hfirst j hj (of_decide_eq_true hle)]

theorem next_tableOf_nil {jobs : List Job} {state : JobState}
    (h : ∀ j ∈ jobs, j.state ≠ state) : (tableOf jobs).next state 1 = .ok [] := by
  refine next_eq_nil (fun r hr heq => ?_) 1
  obtain ⟨j, hj, rfl⟩ := List.mem_map.1 hr
  exact h j hj (JobState.name_inj (Cell.text.inj heq))

theorem reads_patientJob {moved : Nat} (hmoved : moved < 2) (id : String) (tries : UInt32) :
    (Row.ofJob (patientJob id moved tries)).Reads (patientJob id moved tries) := by
  have hstamp : Time.Instant.ofMillis? (Time.Instant.mk 0 (moved * 1000000)).millis =
      some ⟨0, moved * 1000000⟩ := by
    interval_cases moved <;> decide
  exact Row.reads_ofJob (Time.Instant.parse?_toOffset Time.Instant.legible_epoch) hstamp

def twoPatient : List Job :=
  [patientJob "a" 0 0, patientJob "b" 1 0]

/-- The second was tried before the first was tried again, and before a third that came
meanwhile. -/
def bothTried : State where
  table := tableOf [patientJob "a" 2 1, patientJob "b" 4 1, patientJob "c" 3 0]
  handed := [.startFlow (patientJob "a" 0 0).request, .startFlow (patientJob "b" 1 0).request]

theorem cycles_twoPatient (waiting : List Job) :
    (terms waiting).Cycles patient 2 { table := tableOf twoPatient } bothTried := by
  let firstTried : State :=
    ⟨tableOf [patientJob "a" 2 1, patientJob "b" 1 0], [.startFlow (patientJob "a" 0 0).request]⟩
  let joined : State :=
    ⟨tableOf [patientJob "a" 2 1, patientJob "b" 1 0, patientJob "c" 3 0], firstTried.handed⟩
  have hfirst : (terms waiting).Runs (cycle patient).run { table := tableOf twoPatient }
      (.ok ⟨0, 1, 0⟩) firstTried :=
    runs_retry (next_tableOf_nil (by decide))
      (next_tableOf (reads_patientJob (by decide) "a" 0) (by decide) (by decide))
      (after_tableOf (by decide)) rfl (next_tableOf_nil (by decide))
  have hjoin : (terms waiting).rely firstTried joined :=
    ⟨rfl, .single ⟨.create (patientJob "c" 3 0), fun _ => after_tableOf (by decide),
      fun _ _ _ => trivial, rfl⟩⟩
  have hsecond : (terms waiting).Runs (cycle patient).run joined (.ok ⟨0, 1, 0⟩) bothTried :=
    runs_retry (next_tableOf_nil (by decide))
      (next_tableOf (reads_patientJob (by decide) "b" 0) (by decide) (by decide))
      (after_tableOf (by decide)) rfl (next_tableOf_nil (by decide))
  exact .next (.next (.none _) hfirst) (.of_rely hjoin hsecond)

/-- Two jobs of an executor whose flows never start, and a third that comes meanwhile. -/
theorem handed_in_turn_twoPatient :
    1 ≤ patient.batchSize ∧ patient.batchSize ≤ maxLimit ∧
    (∀ r ∈ (tableOf twoPatient).queue .provisioned, (tableOf twoPatient).Sole r) ∧
    ((tableOf twoPatient).count .provisioned + patient.batchSize - 1) / patient.batchSize ≤ 2 ∧
    (terms (waiting (tableOf twoPatient))).Cycles patient 2
      { table := tableOf twoPatient } bothTried ∧
    ∀ job ∈ waiting (tableOf twoPatient), handing job ∈ bothTried.handed := by
  have hlists : (tableOf twoPatient).Lists twoPatient :=
    ⟨rfl, by decide, by decide, by decide⟩
  have hsole : ∀ r ∈ (tableOf twoPatient).queue .provisioned, (tableOf twoPatient).Sole r :=
    fun r hr => WellKept.sole ⟨twoPatient, hlists⟩ (mem_queue.1 hr).1
  have hfits : patient.batchSize ≤ maxLimit := by decide
  have hcycles := cycles_twoPatient (waiting (tableOf twoPatient))
  have hcount : (tableOf twoPatient).count .provisioned = 2 := rfl
  have henough : ((tableOf twoPatient).count .provisioned + patient.batchSize - 1) /
      patient.batchSize ≤ 2 := by
    rw [hcount]
    decide
  exact ⟨Nat.le_refl 1, hfits, hsole, henough, hcycles,
    handed_in_turn patient (tableOf twoPatient) (Nat.le_refl 1) (.inl hfits) hsole henough hcycles⟩

end Ferry.Turns
