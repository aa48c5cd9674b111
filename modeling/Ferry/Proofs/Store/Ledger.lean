import Ferry.Proofs.Store.Persistence

/-!
# Queues told by the calls alone

What a store answers about its queues can be told without the store. Of all the calls
there is left a ledger of jobs in the order in which they were made: a new job is entered
at the end, if neither its id nor its correlation id is taken, and an update alters a job
where it stands. The line for a state are the jobs of the ledger in that state, by the
millisecond of their last move and then by their place in the ledger.

The rows of the store are those of its ledger (`records_ledger`), and a queue is the line
(`queue_eq_line`): the database compares no places, it sorts in a way that keeps what is
equal in order, and that comes to the same.
-/

namespace Ferry

open Time (Instant)

namespace Store

/-! ## The ledger -/

/-- The jobs after a call. -/
def Call.enter (jobs : List Job) : Call → List Job
  | .create job =>
    if jobs.any fun k => k.id = job.id || k.correlationId = job.correlationId then jobs
    else jobs ++ [job]
  | .update job => jobs.map fun k => if k.id = job.id then k.changedTo job else k
  | .updateIfState job expected =>
    jobs.map fun k => if k.id = job.id && k.state = expected then k.changedTo job else k
  | _ => jobs

/-- The jobs after calls made one after the other, in the order in which they were made. -/
def ledger (calls : List Call) : List Job :=
  calls.foldl Call.enter []

namespace Table

variable {t : Table} {jobs : List Job} {state : JobState}

/-- A write alters the jobs that match, where they stand. -/
theorem Records.write_if (h : t.Records jobs) (new : Job) (expected : Option JobState)
    (p : Job → Bool)
    (hp : ∀ k, p k = true ↔ k.id = new.id ∧ ∀ st, expected = some st → k.state = st) :
    (t.write new expected).Records (jobs.map fun k => if p k then k.changedTo new else k) := by
  have hsame : p = fun k => matchesJob new expected (Row.ofJob k) := by
    funext k
    exact Bool.eq_iff_iff.mpr ((hp k).trans (matchesJob_iff new expected).symm)
  rw [hsame]
  exact h.write new expected

/-- The key of a new job is taken in the ledger as it is in the table. -/
theorem Records.taken_iff (h : t.Records jobs) (job : Job) :
    (jobs.any fun k => k.id = job.id || k.correlationId = job.correlationId) = true ↔
      t.holds .id (.text job.id) = true ∨
        t.holds .correlationId (.text job.correlationId) = true := by
  rw [h.holds_id, h.holds_correlationId]
  simp [and_or_left, exists_or]

theorem Records.enter_create (h : t.Records jobs) (job : Job) :
    (((Call.create job).perform t).2).Records ((Call.create job).enter jobs) := by
  have htaken := h.taken_iff job
  rw [Call.perform, Call.enter]
  cases hcreate : t.create job with
  | ok t' =>
      obtain ⟨hc, hid, rfl⟩ := create_eq_ok.mp hcreate
      rw [if_neg (by rw [htaken, hid, hc]; simp)]
      exact h.append hid hc
  | error e =>
      by_cases hfree : t.holds .id (.text job.id) = true ∨
          t.holds .correlationId (.text job.correlationId) = true
      · rw [if_pos (htaken.mpr hfree)]
        exact h
      · simp only [not_or, Bool.not_eq_true] at hfree
        rw [create_eq_ok.mpr ⟨hfree.2, hfree.1, rfl⟩] at hcreate
        cases hcreate

theorem Records.enter_update (h : t.Records jobs) (job : Job) :
    (((Call.update job).perform t).2).Records ((Call.update job).enter jobs) := by
  have hwrite := h.write_if job none (fun k => k.id = job.id) (by simp)
  rw [Call.perform, Call.enter, update]
  cases hit : t.hits job none with
  | true => simpa [Call.written] using hwrite
  | false =>
      rw [write_eq_self hit] at hwrite
      simpa [Call.written] using hwrite

theorem Records.enter (h : t.Records jobs) (c : Call) :
    ((c.perform t).2).Records (c.enter jobs) := by
  cases c with
  | create job => exact h.enter_create job
  | update job => exact h.enter_update job
  | updateIfState job expected =>
      exact h.write_if job (some expected) (fun k => k.id = job.id && k.state = expected) (by simp)
  | get _ | findId _ | next _ _ | count _ => exact h

/-- What a store holds is its ledger, row by row. -/
theorem records_ledger (calls : List Call) : (Table.replay {} calls).Records (ledger calls) := by
  have hall : ∀ (t : Table) (jobs : List Job), t.Records jobs →
      (t.replay calls).Records (calls.foldl Call.enter jobs) := by
    induction calls with
    | nil => exact fun t jobs h => h
    | cons c calls ih => exact fun t jobs h => ih _ _ (h.enter c)
  exact hall {} [] ⟨rfl, List.nodup_nil, List.nodup_nil⟩

/-! ## The line -/

/-- Whose last move was earlier comes first, and of two in one millisecond the one that was
made first. -/
def comesFirst (a b : Job × Nat) : Bool :=
  a.1.stateTimestamp.millis < b.1.stateTimestamp.millis ||
    (a.1.stateTimestamp.millis = b.1.stateTimestamp.millis && a.2 ≤ b.2)

/-- The jobs of a ledger in a state, each with its place, in the order of their line. -/
def line (state : JobState) (jobs : List Job) : List Job :=
  ((jobs.zipIdx.filter fun p => p.1.state = state).mergeSort comesFirst).map Prod.fst

/-- By the millisecond alone. -/
def notLater (a b : Job) : Bool :=
  a.stateTimestamp.millis ≤ b.stateTimestamp.millis

theorem zipIdxLE_notLater : List.zipIdxLE notLater = comesFirst := by
  funext a b
  simp only [List.zipIdxLE, notLater, comesFirst, decide_eq_true_eq]
  split
  · split
    · grind
    · grind
  · grind

/-- A sort that keeps equals in order sorts by the places as well. -/
theorem line_eq (state : JobState) (jobs : List Job) :
    line state jobs = (jobs.filter fun job => job.state = state).mergeSort notLater := by
  have htrans : ∀ a b c : Job, notLater a b = true → notLater b c = true → notLater a c = true := by
    simp only [notLater, decide_eq_true_eq]
    omega
  have htotal : ∀ a b : Job, (notLater a b || notLater b a) = true := by
    simp only [notLater, Bool.or_eq_true, decide_eq_true_eq]
    omega
  have hplaces : ∀ a b c : Job × Nat,
      comesFirst a b = true → comesFirst b c = true → comesFirst a c = true := by
    simp only [comesFirst, Bool.or_eq_true, Bool.and_eq_true, decide_eq_true_eq]
    omega
  have hplaced : ∀ a b : Job × Nat, (comesFirst a b || comesFirst b a) = true := by
    simp only [comesFirst, Bool.or_eq_true, Bool.and_eq_true, decide_eq_true_eq]
    omega
  calc line state jobs
    _ = ((jobs.zipIdx.mergeSort comesFirst).filter fun p => p.1.state = state).map Prod.fst := by
        rw [line, filter_mergeSort hplaces hplaced]
    _ = ((jobs.zipIdx.mergeSort comesFirst).map Prod.fst).filter fun job => job.state = state := by
        rw [List.filter_map]
        rfl
    _ = (jobs.mergeSort notLater).filter fun job => job.state = state := by
        rw [← zipIdxLE_notLater]
        exact congrArg (List.filter _) List.mergeSort_zipIdx
    _ = (jobs.filter fun job => job.state = state).mergeSort notLater :=
        filter_mergeSort htrans htotal _ jobs

theorem line_perm (state : JobState) (jobs : List Job) :
    (line state jobs).Perm (jobs.filter fun job => job.state = state) := by
  rw [line_eq]
  exact List.mergeSort_perm _ _

theorem rows_in_state (h : t.Records jobs) (state : JobState) :
    t.rows.filter (fun r => r.state == .text state.name) =
      (jobs.filter fun job => job.state = state).map Row.ofJob := by
  rw [h.rows, List.filter_map]
  congr 1
  refine List.filter_congr fun job _ => ?_
  show (Cell.text job.state.name == Cell.text state.name) = decide (job.state = state)
  rw [Bool.eq_iff_iff, beq_iff_eq, Cell.text.injEq, decide_eq_true_eq]
  exact ⟨JobState.name_inj, fun hstate => by rw [hstate]⟩

/-- The queue of a state is its line. -/
theorem queue_eq_line (h : t.Records jobs) (state : JobState) :
    t.queue state = (line state jobs).map Row.ofJob := by
  rw [queue, rows_in_state h, line_eq, List.map_mergeSort]
  intro a _ b _
  have hle := Cell.le_iff_of_value? (a := (Row.ofJob a).stateTimestamp)
    (b := (Row.ofJob b).stateTimestamp) rfl rfl
  rw [Bool.eq_iff_iff, hle, notLater, decide_eq_true_eq]
  exact Int.cast_le.symm

theorem count_eq_length (h : t.Records jobs) (state : JobState) :
    t.count state = (line state jobs).length := by
  rw [count, rows_in_state h, List.length_map, (line_perm state jobs).length_eq]

theorem count_all (h : t.Records jobs) : (JobState.all.map t.count).sum = jobs.length := by
  have hcount : ∀ state, t.count state = jobs.countP fun job => job.state = state := by
    intro state
    rw [count, rows_in_state h, List.length_map, List.countP_eq_length_filter]
  rw [List.map_congr_left fun state _ => hcount state]
  clear h hcount
  induction jobs with
  | nil => rfl
  | cons job jobs ih =>
      -- the job is in one state, so it is counted once
      have honce : (JobState.all.map fun state => if job.state = state then 1 else 0).sum = 1 := by
        cases job.state <;> rfl
      have hcons : ∀ state, (job :: jobs).countP (fun job => job.state = state) =
          jobs.countP (fun job => job.state = state) + if job.state = state then 1 else 0 := by
        intro state
        simp [List.countP_cons]
      rw [List.map_congr_left fun state _ => hcons state, List.sum_map_add, ih, honce]
      rfl

end Table

/-! ## Reading the line -/

end Store

namespace Time

theorem fixedNumber?_of_not_isDigit {n : Nat} {c : Char} (hc : c.isDigit = false)
    (rest : List Char) : fixedNumber? (n + 1) (c :: rest) = none := by
  simp [fixedNumber?, hc]

/-- A year that does not have four digits is written with a sign, and no number begins with
one. -/
theorem Instant.parse?_toOffset_eq_none {t : Instant} (h : ¬ (0 ≤ t.year ∧ t.year ≤ 9999)) :
    parse? t.toOffset = none := by
  have hyear : yearText (Date.ofDays (t.seconds / 86400)).year =
      (if t.year < 0 then '-' else '+') :: padded 4 t.year.natAbs :=
    if_neg (by simpa [Instant.year] using h)
  have hsign : (if t.year < 0 then '-' else '+' : Char).isDigit = false := by
    split <;> rfl
  rw [parse?, toOffset, String.toList_ofList, stamp, hyear]
  simp only [List.cons_append]
  rw [strictFields?, fixedNumber?_of_not_isDigit hsign]
  rfl

end Time

/-- The dates of the job are among those that columns can hold. -/
structure Job.Datable (job : Job) : Prop where
  created : job.createdAt.Legible
  moved : job.stateTimestamp.Storable

/-- Some date of the job is not among those that columns can hold. -/
def Job.Undatable (job : Job) : Prop :=
  ¬ (0 ≤ job.createdAt.year ∧ job.createdAt.year ≤ 9999) ∨ ¬ job.stateTimestamp.Storable

/-- The job without what a millisecond does not show of its last move. -/
def Job.shown (job : Job) : Job :=
  { job with stateTimestamp := job.stateTimestamp.truncated }

namespace Store

theorem Row.toJob?_eq_none_of_year {job : Job}
    (h : ¬ (0 ≤ job.createdAt.year ∧ job.createdAt.year ≤ 9999)) : (ofJob job).toJob? = none := by
  cases hread : (ofJob job).toJob? with
  | none => rfl
  | some shown =>
      have hcreated := (reads_of_toJob? hread).createdAt
      simp only [ofJob, Cell.text?, Option.bind_some, Instant.parse?_toOffset_eq_none h] at hcreated
      cases hcreated

namespace Table

variable {t : Table} {jobs : List Job} {state : JobState}

theorem mapM_readRow_datable (h : ∀ job ∈ jobs, job.Datable) :
    (jobs.map Row.ofJob).mapM readRow = .ok (jobs.map Job.shown) := by
  induction jobs with
  | nil => rfl
  | cons job jobs ih =>
      rw [List.forall_mem_cons] at h
      have hread : (Row.ofJob job).toJob? = some job.shown :=
        (Row.reads_ofJob_truncated h.1.created h.1.moved).toJob?
      rw [List.map_cons, List.mapM_cons, ih h.2, readRow, hread]
      rfl

theorem mapM_readRow_eq_error {rows : List Row} (h : ∃ r ∈ rows, r.toJob? = none) :
    rows.mapM readRow = .error rowError := by
  induction rows with
  | nil => simp at h
  | cons r rows ih =>
      rw [List.mapM_cons, readRow]
      cases hread : r.toJob? with
      | none => rfl
      | some job =>
          obtain ⟨r', hmem, hnone⟩ := h
          rcases List.mem_cons.mp hmem with rfl | hrest
          · rw [hread] at hnone
            cases hnone
          · rw [ih ⟨r', hrest, hnone⟩]
            rfl

theorem mapM_readRow_take {rows : List Row} (n : Nat) (h : rows.mapM readRow = .ok jobs) :
    (rows.take n).mapM readRow = .ok (jobs.take n) := by
  induction rows generalizing jobs n with
  | nil =>
      cases h
      simp
      rfl
  | cons r rows ih =>
      rw [List.mapM_cons] at h
      cases hr : readRow r with
      | error e => rw [hr] at h; cases h
      | ok job =>
          cases hrest : rows.mapM readRow with
          | error e => rw [hr, hrest] at h; cases h
          | ok rest =>
              rw [hr, hrest] at h
              cases h
              cases n with
              | zero => rfl
              | succ n =>
                  rw [List.take_succ_cons, List.mapM_cons, hr, ih n hrest]
                  rfl

/-- The limit leaves out nobody whom the database could have listed. -/
def Within (limit : Nat) (jobs : List Job) : Prop :=
  limit ≤ maxLimit ∨ jobs.length ≤ maxLimit

theorem next_eq_take (h : t.Records jobs) {limit : Nat} (hlimit : Within limit jobs) :
    t.next state limit = (((line state jobs).take limit).map Row.ofJob).mapM readRow := by
  have hlength : (line state jobs).length ≤ jobs.length := by
    rw [(line_perm state jobs).length_eq]
    exact List.length_filter_le ..
  have htake : (line state jobs).take (min limit maxLimit) = (line state jobs).take limit := by
    rcases hlimit with hlimit | hjobs
    · rw [Nat.min_eq_left hlimit]
    · rw [List.take_eq_take_iff]
      omega
  rw [next, queue_eq_line h, ← List.map_take, htake]

theorem next_datable (h : t.Records jobs) {limit : Nat} (hlimit : Within limit jobs)
    (hdates : ∀ job ∈ (line state jobs).take limit, job.Datable) :
    t.next state limit = .ok (((line state jobs).take limit).map Job.shown) := by
  rw [next_eq_take h hlimit, mapM_readRow_datable hdates]

theorem next_undatable (h : t.Records jobs) {limit : Nat} (hlimit : Within limit jobs)
    (hdates : ∃ job ∈ (line state jobs).take limit, job.Undatable) :
    t.next state limit = .error rowError := by
  obtain ⟨job, hjob, hundatable⟩ := hdates
  have hnone : (Row.ofJob job).toJob? = none :=
    hundatable.elim Row.toJob?_eq_none_of_year Row.toJob?_eq_none
  rw [next_eq_take h hlimit]
  exact mapM_readRow_eq_error ⟨_, List.mem_map_of_mem hjob, hnone⟩

/-- The ids of an answer are those of the front of the line. -/
theorem ids_of_next (h : t.Records jobs) {limit : Nat} {answer : List Job}
    (hnext : t.next state limit = .ok answer) :
    answer.map Job.id = ((line state jobs).take (min limit maxLimit)).map Job.id := by
  rw [next, queue_eq_line h, ← List.map_take] at hnext
  have hread := mapM_readRow_eq_ok hnext
  rw [List.forall₂_map_left_iff] at hread
  have hids := hread.imp fun job shown hshown => (Row.toJob?_ofJob hshown).1.symm
  have hmaps : List.Forall₂ (· = ·)
      (((line state jobs).take (min limit maxLimit)).map Job.id) (answer.map Job.id) :=
    List.forall₂_map_left_iff.mpr (List.forall₂_map_right_iff.mpr hids)
  rw [List.forall₂_eq_eq_eq] at hmaps
  exact hmaps.symm

theorem nodup_ids_of_next (h : t.Records jobs) {limit : Nat} {answer : List Job}
    (hnext : t.next state limit = .ok answer) : (answer.map Job.id).Nodup := by
  rw [ids_of_next h hnext]
  have hline : ((line state jobs).map Job.id).Nodup := by
    rw [((line_perm state jobs).map Job.id).nodup_iff]
    exact h.ids.sublist (List.filter_sublist.map _)
  exact hline.sublist ((List.take_sublist _ _).map _)

/-- A longer answer begins with the shorter one. -/
theorem next_of_le {limit more : Nat} {longer : List Job} (hle : limit ≤ more)
    (hnext : t.next state more = .ok longer) :
    ∃ answer, t.next state limit = .ok answer ∧ answer <+: longer := by
  have htake := mapM_readRow_take (min limit maxLimit) hnext
  rw [List.take_take, Nat.min_eq_left (by omega)] at htake
  exact ⟨_, htake, List.take_prefix _ _⟩

end Table

end Store

end Ferry
