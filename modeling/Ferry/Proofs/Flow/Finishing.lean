import Ferry.Flow.Finish
import Ferry.Proofs.Provision.Responses

/-!
# How a data flow ends for its job

While nobody else writes the job, the end of a flow is stored over the state that was
read, whatever that is: the executor that was provisioned or executing has completed, or
has failed with the detail that was reported.
-/

namespace Ferry

open Time (Instant)
open Store (Table Row Cell)

namespace Job

/-- The job after its data flow. -/
def afterwards (job : Job) (now : Instant) : (failure : Option String) → Job
  | none => { job with state := .completed, stateTimestamp := now }
  | some detail =>
    { job with state := .error, stateTimestamp := now, errorDetail := some detail }

theorem afterwards_id (job : Job) (now : Instant) (failure : Option String) :
    (job.afterwards now failure).id = job.id := by
  cases failure <;> rfl

/-- An executor that moves data may go on to any of the two ends. -/
theorem ended_eq {job : Job} (hrole : job.role = .executor)
    (hstate : job.state = .provisioned ∨ job.state = .executing) (now : Instant)
    (failure : Option String) :
    Flow.ended job failure now = .ok (job.afterwards now failure) := by
  rcases hstate with hstate | hstate
  · have hstart : job.executing now =
        .ok { job with state := .executing, stateTimestamp := now } := by
      rw [executing, move, if_pos (by rw [hrole, hstate]; rfl)]
    rw [Flow.ended, if_pos hstate, hstart]
    cases failure with
    | none => exact if_pos (by rw [hrole]; rfl)
    | some detail => rfl
  · rw [Flow.ended, if_neg (by rw [hstate]; decide)]
    cases failure with
    | none => exact if_pos (by rw [hrole, hstate]; rfl)
    | some detail =>
        change job.failed detail now = _
        rw [failed, move, if_pos (by rw [hstate]; rfl)]
        rfl

end Job

namespace Store

/-- The row that is found for an id is the one that is written. -/
theorem Table.row?_write_of_matches {t : Table} {job : Job} {r : Row}
    {expected : Option JobState} (hr : t.row? job.id = some r)
    (hmatch : Table.matchesJob job expected r = true) :
    (t.write job expected).row? job.id = some (r.updatedFrom job) := by
  have hpred : (fun r : Row => r.id == .text job.id) ∘ (fun r =>
      if Table.matchesJob job expected r then r.updatedFrom job else r) =
        fun r => r.id == .text job.id := by
    funext r
    simp only [Function.comp_apply]
    split <;> rfl
  rw [Table.row?] at hr
  rw [Table.row?, Table.write, List.find?_map, hpred, hr, Option.map_some, if_pos hmatch]

end Store

namespace Handoff

variable {α β : Type} {now : Instant} {t t' : Table} {id c : String} {job : Job}

theorem alone_bind {f : Operation α} {g : α → Operation β} {a : α}
    (h : alone now f t = (.ok a, t')) : alone now (f >>= g) t = alone now (g a) t' := by
  rw [alone] at h
  rw [alone, Operation.run_bind, h]
  rfl

theorem alone_load (hfind : t.findId c = .ok (some id)) (hget : t.get id = .ok (some job)) :
    alone now (Flow.load c) t = (.ok job, t) := by
  rw [Flow.load, alone_store, Store.Call.perform, hfind]
  dsimp only
  rw [alone_store, Store.Call.perform, hget]
  rfl

/-- The end of a flow is stored. -/
theorem row?_finish (hfind : t.findId c = .ok (some id)) (hget : t.get id = .ok (some job))
    (hrole : job.role = .executor) (hstate : job.state = .provisioned ∨ job.state = .executing)
    (now : Instant) (failure : Option String) (rounds : Nat) :
    ∃ r, t.row? id = some r ∧
      (alone now (Flow.finish c failure (rounds + 1)) t).2.row? id =
        some (r.updatedFrom (job.afterwards now failure)) := by
  obtain ⟨rfl, r, hr, hread⟩ := Table.get_eq_some hget
  have hrow := (Row.shows_of_toJob? hread).state_eq
  have hid : r.id = .text job.id := by simpa [Table.row?] using List.find?_some hr
  have hlive : job.state.isTerminal = false := by
    rcases hstate with hstate | hstate <;> rw [hstate] <;> rfl
  have hmatch : Table.matchesJob (job.afterwards now failure) (some job.state) r = true := by
    simp [Table.matchesJob, Job.afterwards_id, hid, hrow]
  have hhit : t.hits (job.afterwards now failure) (some job.state) = true :=
    List.any_eq_true.2 ⟨r, List.mem_of_find?_eq_some hr, hmatch⟩
  refine ⟨r, hr, ?_⟩
  have hdone : (alone now (Flow.finish c failure (rounds + 1)) t).2 =
      t.write (job.afterwards now failure) (some job.state) := by
    rw [Flow.finish, alone_bind (alone_load hfind hget), if_neg (by simp [hlive]), alone_ask,
      alone_move]
    simp only [reply]
    rw [Job.ended_eq hrole hstate]
    dsimp only
    rw [alone_store, Store.Call.perform, Table.updateIfState, hhit]
    rfl
  rw [hdone, ← Job.afterwards_id job now failure]
  rw [← Job.afterwards_id job now failure] at hr
  exact Table.row?_write_of_matches hr hmatch

end Handoff

end Ferry
