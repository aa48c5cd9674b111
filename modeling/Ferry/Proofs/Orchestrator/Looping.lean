import Ferry.Proofs.TaskSystem.Consistency
import Ferry.Proofs.TaskSystem.Counting
import Ferry.Proofs.Orchestrator.Backoff

/-!
# The worker's loop, call by call

A loop that was carried through is a list of rounds and an ending (`Course`). A round is what
a cycle came to, with the delay of the sleep after it and whether somebody interrupted that;
which calls it makes is decided by the kind of the cycle's result alone (`Round.calls`). All
rounds but the last go on, and the ending puts the flag down. These are the only runs, and
all of them are runs (`ranWith_work_iff`), so whatever is said of a loop is read off its rounds.

Others set the flag whenever they like, between any two calls of the loop. The loop looks at
it once a round, before the cycle. While it is down and nobody puts it up no look finds it
up, and so no round begins.
-/

namespace Ferry.Looping

open TaskSystem (Log RanWith)
open Worker (Exit leave pause settle work)

/-! ## Rounds -/

/-- What a cycle comes to. -/
abbrev Result := Except OrchestratorError CycleReport

inductive Kind where
  | idle
  | busy
  | recoverable
  | fatal
deriving DecidableEq, Repr

/-- A cycle is idle if it took up no job. An error is fatal if an invariant is broken or the
store was asked for a move that does not exist. -/
def kind : Result → Kind
  | .ok report => if report.total = 0 then .idle else .busy
  | .error (.invariantViolation _) => .fatal
  | .error (.store (.invalidTransition ..)) => .fatal
  | .error _ => .recoverable

/-- The wait strategy is called like this after a cycle. -/
def Kind.waits : Kind → List WaitStrategy.Call
  | idle => [.succeeded, .idle]
  | busy => [.succeeded]
  | recoverable => [.failed]
  | fatal => []

def Kind.sleeps : Kind → Bool
  | idle | recoverable => true
  | busy | fatal => false

theorem kind_ok (report : CycleReport) :
    kind (.ok report) = if report.isIdle then .idle else .busy := by
  simp [kind, CycleReport.isIdle]

theorem kind_error (e : OrchestratorError) :
    kind (.error e) = if e.isFatal then .fatal else .recoverable := by
  cases e with
  | store e => cases e <;> rfl
  | invariantViolation _ | invalidRequest _ | worker _ => rfl

/-- A cycle, and where a sleep follows, its delay and whether it went by undisturbed. -/
structure Round where
  result : Result
  delay : Nat
  elapsed : Bool

namespace Round

/-- The calls between the cycle and the next round. -/
def rest (r : Round) : Log :=
  match kind r.result with
  | .idle => [⟨.succeeded, ()⟩, ⟨.idleDelay, r.delay⟩, ⟨.sleep r.delay, r.elapsed⟩]
  | .busy => [⟨.succeeded, ()⟩]
  | .recoverable => [⟨.countError false, ()⟩, ⟨.errorDelay, r.delay⟩, ⟨.sleep r.delay, r.elapsed⟩]
  | .fatal => [⟨.countError true, ()⟩]

def calls (r : Round) : Log :=
  ⟨.isRunning, true⟩ :: ⟨.cycle, r.result⟩ :: r.rest

/-- Another round may follow. -/
def goesOn (r : Round) : Bool :=
  match kind r.result with
  | .busy => true
  | .fatal => false
  | .idle | .recoverable => r.elapsed

/-- How the loop ends if no other round follows. -/
def exit (r : Round) : Exit :=
  match r.result with
  | .ok _ => .ok ()
  | .error e => if kind (.error e) = .fatal then .error e else .ok ()

theorem exit_eq_error_iff {r : Round} {e : OrchestratorError} :
    r.exit = .error e ↔ r.result = .error e ∧ kind r.result = .fatal := by
  obtain ⟨result, delay, elapsed⟩ := r
  cases result with
  | ok report => simp [exit]
  | error e' =>
      simp only [exit]
      split
      · next h => simp [h]
      · next h => simp [h]

/-- In a round the cycle comes right after the look at the flag. -/
theorem looks (r : Round) :
    r.calls.IsChain fun a b => b.1 = .cycle → a = ⟨.isRunning, true⟩ := by
  cases hkind : kind r.result <;> simp [calls, rest, hkind]

theorem not_fatal_of_goesOn {r : Round} (h : r.goesOn = true) : kind r.result ≠ .fatal := by
  intro hkind
  simp [goesOn, hkind] at h

end Round

/-! ## The courses of a loop -/

/-- The rounds of a loop that has so many cycles left, with all of its calls and how it ended;
it has not ended if no cycle is left to it. -/
inductive Course : Nat → List Round → Log → Option Exit → Prop where
  | spent : Course 0 [] [] none
  | told (n : Nat) :
      Course (n + 1) [] [⟨.isRunning, false⟩, ⟨.clearRunning, ()⟩] (some (.ok ()))
  | last (n : Nat) (r : Round) (h : r.goesOn = false) :
      Course (n + 1) [r] (r.calls ++ [⟨.clearRunning, ()⟩]) (some r.exit)
  | on (r : Round) {n : Nat} {rounds : List Round} {log : Log} {result : Option Exit}
      (h : r.goesOn = true) (rest : Course n rounds log result) :
      Course (n + 1) (r :: rounds) (r.calls ++ log) result

section RanWith

variable {goOn : Worker.Task (Option Exit)} {log : Log} {result : Option Exit} {ended : Result}

theorem ranWith_done_iff {α : Type} {a b : α} : RanWith (.done a) log b ↔ log = [] ∧ b = a := by
  constructor
  · intro h
    cases h
    exact ⟨rfl, rfl⟩
  · rintro ⟨rfl, rfl⟩
    exact .done _

theorem ranWith_ask_iff {α : Type} {c : Worker.Request} {next : c.Reply → Worker.Task α} {a : α} :
    RanWith (Worker.ask c >>= next) log a ↔
      ∃ r log', log = ⟨c, r⟩ :: log' ∧ RanWith (next r) log' a := by
  constructor
  · intro h
    cases h with
    | call r h => exact ⟨r, _, rfl, h⟩
  · rintro ⟨r, log', rfl, h⟩
    exact RanWith.call (c := c) r h

theorem ranWith_leave_iff {exit : Exit} :
    RanWith (leave exit) log result ↔ log = [⟨.clearRunning, ()⟩] ∧ result = some exit := by
  rw [leave, ranWith_ask_iff]
  constructor
  · rintro ⟨_, log', rfl, h⟩
    obtain ⟨rfl, hresult⟩ := ranWith_done_iff.mp h
    exact ⟨rfl, hresult⟩
  · rintro ⟨rfl, hresult⟩
    exact ⟨(), [], rfl, ranWith_done_iff.mpr ⟨rfl, hresult⟩⟩

theorem ranWith_pause_iff {delay : Nat} :
    RanWith (pause delay goOn) log result ↔
      (∃ log', log = ⟨.sleep delay, true⟩ :: log' ∧ RanWith goOn log' result) ∨
        log = [⟨.sleep delay, false⟩, ⟨.clearRunning, ()⟩] ∧ result = some (.ok ()) := by
  rw [pause, ranWith_ask_iff]
  constructor
  · rintro ⟨elapsed, log', rfl, h⟩
    cases elapsed with
    | true => exact .inl ⟨log', rfl, h⟩
    | false =>
        obtain ⟨rfl, hresult⟩ := ranWith_leave_iff.mp h
        exact .inr ⟨rfl, hresult⟩
  · rintro (⟨log', rfl, h⟩ | ⟨rfl, hresult⟩)
    · exact ⟨true, log', rfl, h⟩
    · exact ⟨false, _, rfl, ranWith_leave_iff.mpr ⟨rfl, hresult⟩⟩

/-- After a cycle with this result comes the rest of its round, and then the next round or
the end of the loop. -/
def Settled (ended : Result) (goOn : Worker.Task (Option Exit)) (log : Log)
    (result : Option Exit) : Prop :=
  ∃ r : Round, r.result = ended ∧
    (r.goesOn = true ∧ (∃ log', log = r.rest ++ log' ∧ RanWith goOn log' result) ∨
      r.goesOn = false ∧ log = r.rest ++ [⟨.clearRunning, ()⟩] ∧ result = some r.exit)

/-- Where a sleep follows, what was called before it is all that is left to say. -/
theorem settled_iff_of_sleeps (asked : Nat → Log) (hsleeps : (kind ended).sleeps = true)
    (hrest : ∀ delay elapsed,
      (Round.mk ended delay elapsed).rest = asked delay ++ [⟨.sleep delay, elapsed⟩]) :
    Settled ended goOn log result ↔
      ∃ delay log', log = asked delay ++ log' ∧ RanWith (pause delay goOn) log' result := by
  have hgoesOn : ∀ delay elapsed, (Round.mk ended delay elapsed).goesOn = elapsed := by
    intro delay elapsed
    cases hkind : kind ended <;> simp_all [Round.goesOn, Kind.sleeps]
  have hexit : ∀ delay elapsed, (Round.mk ended delay elapsed).exit = .ok () := by
    intro delay elapsed
    cases ended with
    | ok report => rfl
    | error e => cases hkind : kind (.error e) <;> simp_all [Round.exit, Kind.sleeps]
  constructor
  · rintro ⟨⟨_, delay, elapsed⟩, rfl, ⟨hgo, log', rfl, h⟩ | ⟨hgo, rfl, rfl⟩⟩
    · obtain rfl : elapsed = true := (hgoesOn delay elapsed).symm.trans hgo
      exact ⟨delay, _, by rw [hrest, List.append_assoc]; rfl,
        ranWith_pause_iff.mpr (.inl ⟨log', rfl, h⟩)⟩
    · obtain rfl : elapsed = false := (hgoesOn delay elapsed).symm.trans hgo
      exact ⟨delay, _, by rw [hrest, List.append_assoc]; rfl,
        ranWith_pause_iff.mpr (.inr ⟨rfl, by rw [hexit]⟩)⟩
  · rintro ⟨delay, _, rfl, hpause⟩
    rcases ranWith_pause_iff.mp hpause with ⟨log', rfl, h⟩ | ⟨rfl, rfl⟩
    · exact ⟨⟨ended, delay, true⟩, rfl, .inl ⟨hgoesOn .., log', by simp [hrest], h⟩⟩
    · exact ⟨⟨ended, delay, false⟩, rfl, .inr ⟨hgoesOn .., by simp [hrest], by rw [hexit]⟩⟩

theorem settled_iff_of_busy (hkind : kind ended = .busy) :
    Settled ended goOn log result ↔
      ∃ log', log = ⟨.succeeded, ()⟩ :: log' ∧ RanWith goOn log' result := by
  constructor
  · rintro ⟨r, rfl, ⟨-, log', rfl, h⟩ | ⟨hgo, -, -⟩⟩
    · exact ⟨log', by simp [Round.rest, hkind], h⟩
    · simp [Round.goesOn, hkind] at hgo
  · rintro ⟨log', rfl, h⟩
    exact ⟨⟨ended, 0, true⟩, rfl, .inl ⟨by simp [Round.goesOn, hkind], log',
      by simp [Round.rest, hkind], h⟩⟩

theorem settled_iff_of_fatal {e : OrchestratorError} (hkind : kind (.error e) = .fatal) :
    Settled (.error e) goOn log result ↔
      log = [⟨.countError true, ()⟩, ⟨.clearRunning, ()⟩] ∧ result = some (.error e) := by
  constructor
  · rintro ⟨r, hresult, ⟨hgo, -⟩ | ⟨-, rfl, rfl⟩⟩
    · simp [Round.goesOn, hresult, hkind] at hgo
    · simp [Round.rest, Round.exit, hresult, hkind]
  · rintro ⟨rfl, rfl⟩
    exact ⟨⟨.error e, 0, false⟩, rfl, .inr ⟨by simp [Round.goesOn, hkind],
      by simp [Round.rest, hkind], by simp [Round.exit, hkind]⟩⟩

theorem ranWith_ask_ask_iff {c d : Worker.Request} {next : d.Reply → Worker.Task (Option Exit)} :
    RanWith (Worker.ask c >>= fun _ => Worker.ask d >>= next) log result ↔
      ∃ r s log', log = ⟨c, r⟩ :: ⟨d, s⟩ :: log' ∧ RanWith (next s) log' result := by
  constructor
  · intro h
    obtain ⟨r, _, rfl, hnext⟩ := ranWith_ask_iff.mp h
    obtain ⟨s, log', rfl, hrest⟩ := ranWith_ask_iff.mp hnext
    exact ⟨r, s, log', rfl, hrest⟩
  · rintro ⟨r, s, log', rfl, h⟩
    exact ranWith_ask_iff.mpr ⟨r, _, rfl, ranWith_ask_iff.mpr ⟨s, log', rfl, h⟩⟩

/-- An answer that carries nothing is known. -/
theorem exists_reply_iff {p : Unit → Prop} : (∃ r, p r) ↔ p () := by
  constructor
  · rintro ⟨⟨⟩, h⟩
    exact h
  · exact fun h => ⟨(), h⟩

theorem ranWith_settle_iff :
    RanWith (settle ended goOn) log result ↔ Settled ended goOn log result := by
  cases ended with
  | ok report =>
      by_cases hidle : report.isIdle
      · have hkind : kind (.ok report) = .idle := by rw [kind_ok, if_pos hidle]
        rw [settled_iff_of_sleeps (fun delay => [⟨.succeeded, ()⟩, ⟨.idleDelay, delay⟩])
          (by rw [hkind]; rfl) (by simp [Round.rest, hkind])]
        simp only [settle, hidle, if_true]
        exact ranWith_ask_ask_iff.trans exists_reply_iff
      · have hkind : kind (.ok report) = .busy := by rw [kind_ok, if_neg hidle]
        rw [settled_iff_of_busy hkind]
        simp only [settle, hidle]
        exact ranWith_ask_iff.trans exists_reply_iff
  | error e =>
      by_cases hfatal : e.isFatal
      · have hkind : kind (.error e) = .fatal := by rw [kind_error, if_pos hfatal]
        rw [settled_iff_of_fatal hkind, settle, if_pos hfatal, ranWith_ask_iff]
        constructor
        · rintro ⟨_, log', rfl, h⟩
          obtain ⟨rfl, hresult⟩ := ranWith_leave_iff.mp h
          exact ⟨rfl, hresult⟩
        · rintro ⟨rfl, hresult⟩
          exact ⟨(), _, rfl, ranWith_leave_iff.mpr ⟨rfl, hresult⟩⟩
      · have hkind : kind (.error e) = .recoverable := by rw [kind_error, if_neg hfatal]
        rw [settled_iff_of_sleeps (fun delay => [⟨.countError false, ()⟩, ⟨.errorDelay, delay⟩])
          (by rw [hkind]; rfl) (by simp [Round.rest, hkind])]
        rw [settle, if_neg hfatal]
        exact ranWith_ask_ask_iff.trans exists_reply_iff

/-- The runs of a loop are its courses. -/
theorem ranWith_work_iff {n : Nat} :
    RanWith (work n) log result ↔ ∃ rounds, Course n rounds log result := by
  induction n generalizing log with
  | zero =>
      constructor
      · intro h
        obtain ⟨rfl, rfl⟩ := ranWith_done_iff.mp h
        exact ⟨[], .spent⟩
      · rintro ⟨_, ⟨⟩⟩
        exact .done _
  | succ n ih =>
      rw [work, ranWith_ask_iff]
      constructor
      · rintro ⟨wanted, _, rfl, h⟩
        cases wanted with
        | false =>
            obtain ⟨rfl, rfl⟩ := ranWith_leave_iff.mp h
            exact ⟨[], .told n⟩
        | true =>
            obtain ⟨ended, _, rfl, hcycle⟩ := ranWith_ask_iff.mp h
            obtain ⟨r, rfl, ⟨hgo, log', rfl, hrest⟩ | ⟨hgo, rfl, rfl⟩⟩ :=
              ranWith_settle_iff.mp hcycle
            · obtain ⟨rounds, hcourse⟩ := ih.mp hrest
              exact ⟨r :: rounds, .on r hgo hcourse⟩
            · exact ⟨[r], .last n r hgo⟩
      · rintro ⟨rounds, hcourse⟩
        cases hcourse with
        | told => exact ⟨false, _, rfl, ranWith_leave_iff.mpr ⟨rfl, rfl⟩⟩
        | last _ r hgo =>
            exact ⟨true, _, rfl, ranWith_ask_iff.mpr ⟨r.result, _, rfl,
              ranWith_settle_iff.mpr ⟨r, rfl, .inr ⟨hgo, rfl, rfl⟩⟩⟩⟩
        | on r hgo hrest =>
            exact ⟨true, _, rfl, ranWith_ask_iff.mpr ⟨r.result, _, rfl,
              ranWith_settle_iff.mpr ⟨r, rfl, .inl ⟨hgo, _, rfl, ih.mpr ⟨_, hrest⟩⟩⟩⟩⟩

end RanWith

/-! ## What is read off a course -/

section Course

variable {n : Nat} {rounds : List Round} {log : Log} {result : Option Exit}

/-- The calls after the last round. -/
def ending (rounds : List Round) : Option Exit → Log
  | none => []
  | some _ =>
    if rounds.all Round.goesOn then [⟨.isRunning, false⟩, ⟨.clearRunning, ()⟩]
    else [⟨.clearRunning, ()⟩]

theorem ending_cons {r : Round} (h : r.goesOn = true) (rounds : List Round)
    (result : Option Exit) : ending (r :: rounds) result = ending rounds result := by
  cases result with
  | none => rfl
  | some exit => simp [ending, h]

theorem ending_some (rounds : List Round) (exit : Exit) :
    ∃ before, ending rounds (some exit) = before ++ [⟨.clearRunning, ()⟩] := by
  rw [ending]
  split
  · exact ⟨[⟨.isRunning, false⟩], rfl⟩
  · exact ⟨[], rfl⟩

namespace Course

theorem log_eq (h : Course n rounds log result) :
    log = rounds.flatMap Round.calls ++ ending rounds result := by
  induction h with
  | spent => rfl
  | told n => rfl
  | last n r hgo => simp [ending, hgo]
  | on r hgo _ ih => rw [ih, ending_cons hgo, List.flatMap_cons, List.append_assoc]

theorem goesOn (h : Course n rounds log result) : ∀ r ∈ rounds.dropLast, r.goesOn = true := by
  induction h with
  | spent | told n => simp
  | last n r hgo => simp
  | @on r n rounds _ _ hgo _ ih =>
      cases rounds with
      | nil => simp
      | cons next rounds =>
          rw [List.dropLast_cons_cons]
          exact List.forall_mem_cons.mpr ⟨hgo, ih⟩

theorem spent_of_none (h : Course n rounds log none) :
    rounds.length = n ∧ ∀ r ∈ rounds, r.goesOn = true := by
  generalize hnone : none = result at h
  induction h with
  | spent => simp
  | told n | last n r hgo => simp at hnone
  | on r hgo _ ih =>
      obtain ⟨hlength, hall⟩ := ih hnone
      exact ⟨by rw [List.length_cons, hlength], List.forall_mem_cons.mpr ⟨hgo, hall⟩⟩

theorem exit_eq_error_iff {exit : Exit} (h : Course n rounds log (some exit))
    (e : OrchestratorError) :
    exit = .error e ↔ ∃ r ∈ rounds, r.result = .error e ∧ kind r.result = .fatal := by
  generalize hsome : some exit = result at h
  induction h with
  | spent => cases hsome
  | told n =>
      obtain rfl := Option.some.inj hsome
      simp
  | last n r hgo =>
      obtain rfl := Option.some.inj hsome
      simp [Round.exit_eq_error_iff]
  | on r hgo _ ih => simp [ih hsome, Round.not_fatal_of_goesOn hgo]

/-- What is kept of the calls between cycle and next round is kept round by round. -/
theorem filterMap_log {β : Type} (h : Course n rounds log result)
    (f : ((c : Worker.Request) × c.Reply) → Option β)
    (hread : ∀ read, f ⟨.isRunning, read⟩ = none) (hcycle : ∀ ended, f ⟨.cycle, ended⟩ = none)
    (hclear : f ⟨.clearRunning, ()⟩ = none) :
    log.filterMap f = rounds.flatMap fun r => r.rest.filterMap f := by
  induction h with
  | spent => rfl
  | told n => simp [hread, hclear]
  | last n r hgo => simp [Round.calls, hread, hcycle, hclear]
  | on r hgo _ ih => simp [Round.calls, hread, hcycle, ih]

theorem head_ne_cycle (h : Course n rounds log result) : ∀ c ∈ log.head?, c.1 ≠ .cycle := by
  cases h <;> simp [Round.calls]

theorem looks (h : Course n rounds log result) :
    log.IsChain fun a b => b.1 = .cycle → a = ⟨.isRunning, true⟩ := by
  induction h with
  | spent => simp
  | told n => simp
  | last n r hgo => exact List.isChain_append.mpr ⟨r.looks, by simp, by simp⟩
  | on r hgo hrest ih =>
      refine List.isChain_append.mpr ⟨r.looks, ih, fun _ _ c hc hcycle => ?_⟩
      exact absurd hcycle (hrest.head_ne_cycle c hc)

/-- Every cycle comes right after a look that found the flag up. -/
theorem looked (h : Course n rounds log result) {before after : Log} {ended : Result}
    (hsplit : log = before ++ ⟨.cycle, ended⟩ :: after) :
    before.getLast? = some ⟨.isRunning, true⟩ := by
  subst hsplit
  cases hlast : before.getLast? with
  | none =>
      obtain rfl := List.getLast?_eq_none_iff.mp hlast
      exact absurd rfl (h.head_ne_cycle _ rfl)
  | some a =>
      have hstep := (List.isChain_append.mp h.looks).2.2 a hlast _ rfl
      exact congrArg some (hstep rfl)

end Course

end Course

/-! ## Waits, sleeps and counters -/

/-- The call of the wait strategy, if it is one. -/
def waiting? : (c : Worker.Request) × c.Reply → Option WaitStrategy.Call
  | ⟨.succeeded, _⟩ => some .succeeded
  | ⟨.idleDelay, _⟩ => some .idle
  | ⟨.errorDelay, _⟩ => some .failed
  | _ => none

/-- The delay of a sleep and whether it went by, if the call is one. -/
def sleeping? : (c : Worker.Request) × c.Reply → Option (Nat × Bool)
  | ⟨.sleep delay, elapsed⟩ => some (delay, elapsed)
  | _ => none

/-- The kind of error that is counted, if one is. -/
def counting? : (c : Worker.Request) × c.Reply → Option Bool
  | ⟨.countError fatal, _⟩ => some fatal
  | _ => none

/-- The counters after the calls. -/
def metered (m : Metrics) (log : Log) : Metrics :=
  (log.filterMap counting?).foldl (fun m fatal => m.add (.cycleErrors fatal) 1) m

/-- The failed cycles of a kind. -/
def failedAs (fatal : Bool) (r : Round) : Bool :=
  kind r.result = if fatal then .fatal else .recoverable

namespace Round

theorem filterMap_waiting? (r : Round) : r.rest.filterMap waiting? = (kind r.result).waits := by
  rw [rest]
  cases kind r.result <;> rfl

theorem filterMap_sleeping? (r : Round) :
    r.rest.filterMap sleeping? =
      if (kind r.result).sleeps then [(r.delay, r.elapsed)] else [] := by
  rw [rest]
  cases kind r.result <;> rfl

theorem countP_counting? (r : Round) (fatal : Bool) :
    ((r.rest.filterMap counting?).countP fun f => Counter.cycleErrors f = .cycleErrors fatal) =
      if failedAs fatal r then 1 else 0 := by
  rw [rest, failedAs]
  cases kind r.result <;> cases fatal <;> rfl

end Round

theorem count_metered {n : Nat} {rounds : List Round} {log : Log} {result : Option Exit}
    (h : Course n rounds log result) (m : Metrics) (fatal : Bool) :
    (metered m log).count (.cycleErrors fatal) =
      m.count (.cycleErrors fatal) + rounds.countP (failedAs fatal) := by
  rw [metered, Metrics.count_foldl_add, h.filterMap_log counting? (fun _ => rfl) (fun _ => rfl) rfl]
  congr 1
  clear h
  induction rounds with
  | nil => rfl
  | cons r rounds ih =>
      rw [List.flatMap_cons, List.countP_append, ih, r.countP_counting?, List.countP_cons]
      omega

/-! ## The flag -/

/-- What happens to a loop: a call of its own, or somebody else sets the flag. -/
inductive Event where
  | call (call : (c : Worker.Request) × c.Reply)
  | flag (up : Bool)

def Event.call? : Event → Option ((c : Worker.Request) × c.Reply)
  | call c => some c
  | flag _ => none

/-- The loop's own calls. -/
def log (events : List Event) : Log :=
  events.filterMap Event.call?

/-- The flag after the event. -/
def Event.flagAfter (up : Bool) : Event → Bool
  | call ⟨.clearRunning, _⟩ => false
  | call _ => up
  | flag set => set

/-- Who looks at the flag sees it. -/
def Event.Sees (up : Bool) : Event → Prop
  | call ⟨.isRunning, read⟩ => read = up
  | _ => True

def flagAfter (up : Bool) (events : List Event) : Bool :=
  events.foldl Event.flagAfter up

/-- All looks along the events see the flag. -/
def Sees : Bool → List Event → Prop
  | _, [] => True
  | up, e :: events => e.Sees up ∧ Sees (e.flagAfter up) events

theorem Sees.of_append {up : Bool} {before after : List Event} (h : Sees up (before ++ after)) :
    Sees (flagAfter up before) after := by
  induction before generalizing up with
  | nil => exact h
  | cons e before ih => exact ih h.2

/-- A flag that is down and that nobody puts up is not seen up. -/
theorem Sees.not_up {events : List Event} (h : Sees false events)
    (hdown : Event.flag true ∉ events) : Event.call ⟨.isRunning, true⟩ ∉ events := by
  induction events with
  | nil => simp
  | cons e events ih =>
      obtain ⟨hsees, hrest⟩ := h
      rw [List.mem_cons, not_or] at hdown ⊢
      have hstays : e.flagAfter false = false := by
        cases e with
        | call c => obtain ⟨c, r⟩ := c; cases c <;> rfl
        | flag up =>
            cases up with
            | false => rfl
            | true => exact absurd rfl hdown.1
      rw [hstays] at hrest
      refine ⟨?_, ih hrest hdown.2⟩
      rintro rfl
      cases hsees

theorem log_append (before after : List Event) : log (before ++ after) = log before ++ log after :=
  List.filterMap_append ..

theorem call_mem_of_mem_log {events : List Event} {c : (c : Worker.Request) × c.Reply}
    (h : c ∈ log events) : Event.call c ∈ events := by
  obtain ⟨e, he, hcall⟩ := List.mem_filterMap.mp h
  cases e with
  | call c' => obtain rfl := Option.some.inj hcall; exact he
  | flag up => cases hcall

/-- The last call of a loop is the last event but for what others do to the flag. -/
theorem split_last {events : List Event} {calls : Log} {c : (c : Worker.Request) × c.Reply}
    (h : log events = calls ++ [c]) :
    ∃ before after, events = before ++ .call c :: after ∧ ∀ e ∈ after, ∃ up, e = .flag up := by
  obtain ⟨first, rest, rfl, -, hrest⟩ := List.filterMap_eq_append_iff.mp h
  obtain ⟨flags, e, after, rfl, -, he, hafter⟩ := List.filterMap_eq_cons_iff.mp hrest
  refine ⟨first ++ flags, after, ?_, fun e' he' => ?_⟩
  · cases e with
    | call c' => rw [← Option.some.inj he, List.append_assoc]
    | flag up => cases he
  · have hnone := List.filterMap_eq_nil_iff.mp hafter e' he'
    cases e' with
    | call c' => cases hnone
    | flag up => exact ⟨up, rfl⟩

/-! ## The protocol -/

/-- What a loop with `n` cycles left does, round by round, while others set the flag. -/
structure Protocol (n : Nat) (up : Bool) (events : List Event) (result : Option Exit)
    (rounds : List Round) : Prop where
  calls : log events = rounds.flatMap Round.calls ++ ending rounds result
  waits : (log events).filterMap waiting? = rounds.flatMap fun r => (kind r.result).waits
  sleeps : (log events).filterMap sleeping? =
    rounds.flatMap fun r => if (kind r.result).sleeps then [(r.delay, r.elapsed)] else []
  /-- A fatal error and an interrupted sleep are in no round but the last. -/
  goesOn : ∀ r ∈ rounds.dropLast, r.goesOn = true
  /-- Once the flag is down for good there is no other cycle, unless the loop has just looked
  at the flag and stands before it. -/
  lowered : ∀ before after, events = before ++ after → flagAfter up before = false →
    Event.flag true ∉ after → (log before).getLast? ≠ some ⟨.isRunning, true⟩ →
    ∀ ended, Event.call ⟨.cycle, ended⟩ ∉ after
  /-- The loop has an answer once a round is the last or it finds the flag down. -/
  goesOn_of_none : result = none → rounds.length = n ∧ ∀ r ∈ rounds, r.goesOn = true
  answers : ∀ exit, result = some exit → ∀ e,
    exit = .error e ↔ ∃ r ∈ rounds, r.result = .error e ∧ kind r.result = .fatal
  counted : ∀ m fatal, (metered m (log events)).count (.cycleErrors fatal) =
    m.count (.cycleErrors fatal) + rounds.countP (failedAs fatal)
  /-- It leaves with the flag down. -/
  cleared : result ≠ none → ∃ before after, events = before ++ .call ⟨.clearRunning, ()⟩ :: after ∧
    flagAfter up (before ++ [.call ⟨.clearRunning, ()⟩]) = false ∧ ∀ e ∈ after, ∃ set, e = .flag set

theorem lowered_of_course {n : Nat} {up : Bool} {events : List Event} {rounds : List Round}
    {result : Option Exit} (h : Course n rounds (log events) result) (hsees : Sees up events)
    {before after : List Event} (hsplit : events = before ++ after)
    (hdown : flagAfter up before = false) (hflag : Event.flag true ∉ after)
    (hlast : (log before).getLast? ≠ some ⟨.isRunning, true⟩) (ended : Result) :
    Event.call ⟨.cycle, ended⟩ ∉ after := by
  subst hsplit
  have hunseen : Event.call ⟨.isRunning, true⟩ ∉ after :=
    Sees.not_up (hdown ▸ hsees.of_append) hflag
  intro hcycle
  obtain ⟨first, rest, rfl⟩ := List.append_of_mem hcycle
  have hlog : log (before ++ (first ++ .call ⟨.cycle, ended⟩ :: rest)) =
      (log before ++ log first) ++ ⟨.cycle, ended⟩ :: log rest := by
    rw [log_append, log_append, List.append_assoc]
    rfl
  have hlook := h.looked hlog
  rw [List.getLast?_append] at hlook
  cases hfirst : (log first).getLast? with
  | none =>
      rw [hfirst] at hlook
      exact hlast hlook
  | some c =>
      rw [hfirst] at hlook
      obtain rfl := Option.some.inj hlook
      have hmem := call_mem_of_mem_log (List.mem_of_getLast? hfirst)
      exact hunseen (List.mem_append_left _ hmem)

/-- Whatever the cycles come to, however long the sleeps are and whoever interrupts them, and
whenever others set the flag: the loop keeps to its protocol. -/
theorem protocol_kept {n : Nat} {up : Bool} {events : List Event} {result : Option Exit}
    (hran : RanWith (work n) (log events) result) (hsees : Sees up events) :
    ∃ rounds, Protocol n up events result rounds := by
  obtain ⟨rounds, hcourse⟩ := ranWith_work_iff.mp hran
  refine ⟨rounds, ?_⟩
  exact
    { calls := hcourse.log_eq
      waits := by
        rw [hcourse.filterMap_log waiting? (fun _ => rfl) (fun _ => rfl) rfl]
        simp only [Round.filterMap_waiting?]
      sleeps := by
        rw [hcourse.filterMap_log sleeping? (fun _ => rfl) (fun _ => rfl) rfl]
        simp only [Round.filterMap_sleeping?]
      goesOn := hcourse.goesOn
      lowered := fun before after hsplit hdown hflag hlast =>
        lowered_of_course hcourse hsees hsplit hdown hflag hlast
      goesOn_of_none := by
        rintro rfl
        exact hcourse.spent_of_none
      answers := by
        rintro exit rfl
        exact hcourse.exit_eq_error_iff
      counted := count_metered hcourse
      cleared := by
        intro hsome
        obtain ⟨exit, rfl⟩ := Option.ne_none_iff_exists'.mp hsome
        obtain ⟨last, hlast⟩ := ending_some rounds exit
        have hlog := hcourse.log_eq
        rw [hlast, ← List.append_assoc] at hlog
        obtain ⟨before, after, hsplit, hafter⟩ := split_last hlog
        exact ⟨before, after, hsplit, by simp [flagAfter, Event.flagAfter], hafter⟩ }

/-- A busy round, and one that a stop meets between the look at the flag and the cycle. The
cycle fails, and the sleep after it is interrupted at once. -/
def stopped : List Event :=
  [.call ⟨.isRunning, true⟩, .call ⟨.cycle, .ok { provisioned := 1 }⟩, .call ⟨.succeeded, ()⟩,
    .call ⟨.isRunning, true⟩, .flag false,
    .call ⟨.cycle, .error (.store (.database "locked"))⟩, .call ⟨.countError false, ()⟩,
    .call ⟨.errorDelay, 500⟩, .call ⟨.sleep 500, false⟩, .call ⟨.clearRunning, ()⟩]

theorem protocol_kept_when_stopped :
    RanWith (work 5) (log stopped) (some (.ok ())) ∧ Sees true stopped ∧
      ∃ rounds, Protocol 5 true stopped (some (.ok ())) rounds := by
  have hcourse : Course 5 _ (log stopped) (some (.ok ())) :=
    .on ⟨.ok { provisioned := 1 }, 0, true⟩ rfl
      (.last 3 ⟨.error (.store (.database "locked")), 500, false⟩ rfl)
  have hran : RanWith (work 5) (log stopped) (some (.ok ())) := ranWith_work_iff.mpr ⟨_, hcourse⟩
  have hsees : Sees true stopped := by simp [Sees, stopped, Event.Sees, Event.flagAfter]
  exact ⟨hran, hsees, protocol_kept hran hsees⟩

end Ferry.Looping
