import Ferry.Api.Route
import Ferry.Api.Transfers
import Ferry.Proofs.Net.Query
import Ferry.Proofs.Store.Ledger
import Mathlib.Data.List.TakeWhile

/-!
# What is listed

A listing is the front of a line. Of any calls of the store the ledger tells its queues,
and a client who asks for a state and a limit gets the front of the line for that state,
as long as the limit put within its bounds (`queued_replay`).

Only a job whose dates no column can hold stands in the way: it can be created, it is
counted, and as soon as it is within the limit nobody is listed (`distant_not_listed`).
-/

namespace Ferry.Api

open Net Net.Percent Store Store.Table

/-! ## The target of a listing -/

/-- The query that asks for the jobs in a state, and perhaps for so many of them. -/
def listingQuery (state : JobState) : Option Nat → List Char
  | none => pairText "state".toList state.name.toList
  | some n => pairText "state".toList state.name.toList ++
      '&' :: pairText "limit".toList (Nat.toDigits 10 n)

def listingTarget (state : JobState) (limit : Option Nat) : String :=
  String.ofList ("/api/v1/transfers".toList ++ '?' :: listingQuery state limit)

example : listingTarget .sent (some 20) = "/api/v1/transfers?state=sent&limit=20" := by
  decide +kernel

variable {state : JobState} {limit : Option Nat} {r : HttpRequest}

theorem isPlain_of_all {cs : List Char} (h : cs.all Char.isAlphanum = true) : IsPlain cs :=
  List.all_eq_true.mp h

theorem isPlain_name (state : JobState) : IsPlain state.name.toList := by
  apply isPlain_of_all
  cases state <;> decide +kernel

theorem isPlain_digits (n : Nat) : IsPlain (Nat.toDigits 10 n) := by
  intro c hc
  have hdigit := Nat.isDigit_of_mem_toDigits (by decide) (by decide) hc
  simp [Char.isAlphanum, hdigit]

theorem isPlain_words : IsPlain "state".toList ∧ IsPlain "limit".toList :=
  ⟨isPlain_of_all (by decide +kernel), isPlain_of_all (by decide +kernel)⟩

theorem not_mem_listingQuery : '#' ∉ listingQuery state limit := by
  have hpair : ∀ {name value : List Char}, IsPlain name → IsPlain value →
      '#' ∉ pairText name value := by
    intro name value hname hvalue
    simp [pairText, hname.not_mem, hvalue.not_mem]
  have hstate := hpair isPlain_words.1 (isPlain_name state)
  cases limit with
  | none => exact hstate
  | some n =>
      have hlimit := hpair isPlain_words.2 (isPlain_digits n)
      rw [listingQuery, List.mem_append, List.mem_cons]
      exact not_or.mpr ⟨hstate, not_or.mpr ⟨by decide, hlimit⟩⟩

theorem count?_digits {n : Nat} (hn : n < Width.bound64) :
    HttpRequest.count? (String.ofList (Nat.toDigits 10 n)) = some n := by
  have hdigits : ∀ c ∈ Nat.toDigits 10 n, c.isDigit = true :=
    fun c hc => Nat.isDigit_of_mem_toDigits (by decide) (by decide) hc
  have hvalue : (Nat.toDigits 10 n).foldl (fun n c => n * 10 + (c.toNat - 48)) 0 = n := by
    have hread := Time.digitsValue_eq (Nat.toDigits 10 n)
    rwa [Nat.ofDigitChars_ten_toDigits] at hread
  have hunsigned : ∀ ds, Nat.toDigits 10 n = '+' :: ds → False := by
    intro ds hds
    have hplus := hdigits '+' (hds ▸ List.mem_cons_self)
    exact absurd hplus (by decide)
  have hfull : (Nat.toDigits 10 n).isEmpty = false := by
    simp [Nat.toDigits_ne_nil]
  have hall : (Nat.toDigits 10 n).all Char.isDigit = true := List.all_eq_true.mpr hdigits
  rw [HttpRequest.count?, String.toList_ofList]
  simp only [hvalue, hfull, hall, Bool.not_true, Bool.or_false, Bool.false_or,
    decide_eq_true_eq]
  exact if_neg (Nat.not_le_of_lt hn)

theorem path_unquestioned : ∀ c ∈ "/api/v1/transfers".toList, (c != '?') = true := by
  have hall : ("/api/v1/transfers".toList.all fun c => c != '?') = true := by decide +kernel
  exact List.all_eq_true.mp hall

section Request

variable (htarget : r.target = listingTarget state limit)
include htarget

theorem sent_listing : r.sent = "/api/v1/transfers".toList ++ '?' :: listingQuery state limit := by
  have hpath : '#' ∉ "/api/v1/transfers".toList := by decide +kernel
  have hall : ∀ c ∈ "/api/v1/transfers".toList ++ '?' :: listingQuery state limit,
      (c != '#') = true := by
    intro c hc
    rw [bne_iff_ne]
    rintro rfl
    rw [List.mem_append, List.mem_cons] at hc
    rcases hc with hc | hc | hc
    · exact hpath hc
    · exact absurd hc (by decide)
    · exact not_mem_listingQuery hc
  have htext : r.target.toList = "/api/v1/transfers".toList ++ '?' :: listingQuery state limit := by
    rw [htarget]
    exact String.toList_ofList
  rw [HttpRequest.sent, htext]
  exact List.takeWhile_eq_self_iff.mpr hall

theorem path_listing : r.path = "/api/v1/transfers" := by
  rw [HttpRequest.path, sent_listing htarget, List.takeWhile_append_of_pos path_unquestioned]
  simp only [List.takeWhile_cons, bne_self_eq_false, Bool.false_eq_true, if_false, List.append_nil,
    String.ofList_toList]

theorem query_listing : r.query = String.ofList (listingQuery state limit) := by
  rw [HttpRequest.query, sent_listing htarget, List.dropWhile_append_of_pos path_unquestioned]
  simp only [List.dropWhile_cons, bne_self_eq_false, Bool.false_eq_true, if_false,
    List.drop_succ_cons, List.drop_zero]

/-- Such a request is for the transfers. -/
theorem route_listing : Route.ofPath? r.path = some .transfers := by
  rw [path_listing htarget]
  decide +kernel

theorem readListing_listing (hlimit : ∀ n, limit = some n → n < Width.bound64) :
    r.readListing = .ok (state.name, limit) := by
  have hstate : String.ofList "state".toList = "state" := by decide +kernel
  have hcount : String.ofList "limit".toList = "limit" := by decide +kernel
  rw [HttpRequest.readListing, query_listing htarget]
  cases limit with
  | none =>
      rw [listingQuery, queryPairs_single isPlain_words.1 (isPlain_name state), hstate,
        String.ofList_toList]
      rfl
  | some n =>
      rw [listingQuery, queryPairs_cons isPlain_words.1 (isPlain_name state),
        queryPairs_single isPlain_words.2 (isPlain_digits n), hstate, hcount, String.ofList_toList]
      have hread := count?_digits (hlimit n rfl)
      simp [HttpRequest.onlyValue?, hread]

/-- A listing is asked for by anyone who reads the target. -/
theorem action_listing (hlimit : ∀ n, limit = some n → n < Width.bound64)
    (hmethod : r.method = "GET") : r.action .transfers = .ok (.list state.name limit) := by
  rw [HttpRequest.action, hmethod]
  simp [readListing_listing htarget hlimit, Except.map]

end Request

/-! ## The answer to a listing -/

theorem run_ask {σ α : Type} (world : (q : Request) → σ → q.Reply × σ) (q : Request)
    (g : q.Reply → Activity α) (s : σ) :
    Program.run (S := operationSignature) world (q.ask >>= g) s =
      Program.run (S := operationSignature) world (g (world q s).1) (world q s).2 :=
  rfl

/-- Nothing is asked but the store, and its answer is shown. -/
theorem run_listTransfers {world : (q : Request) → Table → q.Reply × Table}
    (hstore : ∀ c t, world (.store c) t = c.perform t) (state : JobState) (limit : Option Nat)
    (t : Table) :
    Program.run (S := operationSignature) world (listTransfers state.name limit) t =
      (match t.next state (effectiveLimit limit) with
        | .ok jobs => .ofJson 200 (.obj [("transfers", .arr (jobs.map Job.toView)),
            ("state", state.toJson), ("limit", .nat (effectiveLimit limit))])
        | .error e => .failure 500 e.message, t) := by
  have hparse : JobState.parse state.name = .ok state := by
    rw [JobState.parse, JobState.ofName?_name]
  rw [listTransfers, hparse]
  show Program.run (S := operationSignature) world
    ((Request.store (.next state (effectiveLimit limit))).ask >>= fun answer => _) t = _
  rw [run_ask, hstore]
  simp only [Call.perform]
  cases t.next state (effectiveLimit limit) <;> rfl

/-! ## Any calls of a store -/

/-- What a store that holds these jobs, in the order in which they were made, answers about
its queues. -/
structure Queued (t : Table) (jobs : List Job) : Prop where
  next : ∀ state limit, Within limit jobs →
    (∀ job ∈ (line state jobs).take limit, job.Datable) →
    t.next state limit = .ok (((line state jobs).take limit).map Job.shown)
  /-- Who cannot be shown keeps those behind him from being shown, and those before him. -/
  refused : ∀ state limit, Within limit jobs →
    (∃ job ∈ (line state jobs).take limit, job.Undatable) →
    t.next state limit = .error rowError
  once : ∀ state limit answer, t.next state limit = .ok answer → (answer.map Job.id).Nodup
  longer : ∀ state limit more longer, limit ≤ more → t.next state more = .ok longer →
    ∃ answer, t.next state limit = .ok answer ∧ answer <+: longer
  count : ∀ state, t.count state = (jobs.filter fun job => job.state = state).length
  total : (JobState.all.map t.count).sum = jobs.length
  /-- A client gets the front of the line, however the rest of the program is answered. -/
  listed : ∀ (r : HttpRequest) state limit, r.method = "GET" →
    r.target = listingTarget state limit → (∀ n, limit = some n → n < Width.bound64) →
    Route.ofPath? r.path = some .transfers ∧ r.action .transfers = .ok (.list state.name limit) ∧
    ∀ bound, bound = min (max (limit.getD 100) 1) 1000 →
      (∀ job ∈ (line state jobs).take bound, job.Datable) →
      ∀ world : (q : Request) → Table → q.Reply × Table,
        (∀ c t, world (.store c) t = c.perform t) →
        Program.run (S := operationSignature) world (listTransfers state.name limit) t =
          (.ofJson 200 (.obj [
            ("transfers", .arr (((line state jobs).take bound).map fun job => job.shown.toView)),
            ("state", state.toJson), ("limit", .nat bound)]), t)

theorem effectiveLimit_within (limit : Option Nat) (jobs : List Job) :
    Within (effectiveLimit limit) jobs := by
  have hle : effectiveLimit limit ≤ 1000 := Nat.min_le_right ..
  exact .inl (Nat.le_trans hle (by decide))

/-- Of a store that holds these jobs a listing is the front of their line. -/
theorem listed_of_records {t : Table} {jobs : List Job} (h : t.Records jobs) (state : JobState)
    (limit : Option Nat)
    (hdates : ∀ job ∈ (line state jobs).take (effectiveLimit limit), job.Datable)
    {world : (q : Request) → Table → q.Reply × Table}
    (hstore : ∀ c t, world (.store c) t = c.perform t) :
    Program.run (S := operationSignature) world (listTransfers state.name limit) t =
      (.ofJson 200 (.obj [
        ("transfers", .arr (((line state jobs).take (effectiveLimit limit)).map
          fun job => job.shown.toView)),
        ("state", state.toJson), ("limit", .nat (effectiveLimit limit))]), t) := by
  rw [run_listTransfers hstore, next_datable h (effectiveLimit_within limit jobs) hdates]
  simp only [List.map_map]
  rfl

/-- Whatever the calls were, each queue is the line of the ledger. -/
theorem queued_replay (calls : List Call) : Queued (Table.replay {} calls) (ledger calls) := by
  have h := records_ledger calls
  exact
    { next := fun state limit hlimit hdates => next_datable h hlimit hdates
      refused := fun state limit hlimit hdates => next_undatable h hlimit hdates
      once := fun state limit answer hnext => nodup_ids_of_next h hnext
      longer := fun state limit more longer hle hnext => next_of_le hle hnext
      count := fun state => by rw [count_eq_length h, (line_perm state _).length_eq]
      total := count_all h
      listed := by
        intro r state limit hmethod htarget hlimit
        refine ⟨route_listing htarget, action_listing htarget hlimit hmethod, ?_⟩
        rintro bound rfl hdates world hstore
        exact listed_of_records h state limit hdates hstore }

/-- A job made in the first year that is not written in four digits. -/
def distantJob : Job :=
  { plainJob with createdAt := ⟨253402300800, 0⟩ }

/-- It is made and counted, and it keeps its queue from being listed. -/
theorem distant_not_listed :
    let t := Table.replay {} [.create distantJob]
    ledger [.create distantJob] = [distantJob] ∧ t.count .initial = 1 ∧
      t.next .initial 10 = .error rowError ∧
      t.next .initial 10 ≠ .ok (((line .initial [distantJob]).take 10).map Job.shown) := by
  intro t
  have hyear : ¬ (0 ≤ distantJob.createdAt.year ∧ distantJob.createdAt.year ≤ 9999) := by
    decide +kernel
  have hnext : t.next .initial 10 = .error rowError := by
    refine next_undatable (records_ledger [.create distantJob]) (.inl (by decide)) ?_
    exact ⟨distantJob, by decide +kernel, .inl hyear⟩
  refine ⟨rfl, rfl, hnext, ?_⟩
  rw [hnext]
  simp

end Ferry.Api
