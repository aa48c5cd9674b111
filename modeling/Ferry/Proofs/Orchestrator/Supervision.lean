import Ferry.Proofs.Orchestrator.Crossing
import Mathlib.Data.List.Induction

/-!
# One worker at a time

A schedule in which no start raises the flag while a stop is under way never has
more than one worker, and no worker leaves its loop for a stop that is older than
itself (`soleWorker_of_not_crossed`). That condition is also the weakest: wherever a
start does cross a stop, the schedule can be gone on with so that two workers are
there at once or a worker is ended by somebody else's stop (`doomed_of_crossing`).
-/

namespace Ferry.Supervision

open Supervisor (Handle)

namespace Plan

/-! ## Schedules without a crossing -/

theorem reached_append (orders : Nat → Order) (moves : List Move) (m : Move) :
    reached orders (moves ++ [m]) = (reached orders moves).move m := by
  simp [reached, List.foldl_append]

theorem first_callers (orders : Nat → Order) (i : Nat) :
    (first orders).callers i = .lock ∨ (first orders).callers i = .lower := by
  cases hi : orders i <;> simp [first, hi]

theorem not_live_first (orders : Nat → Order) (h : Handle) : ¬ (first orders).Live h := by
  simp [Live, first, Spot.isGone]

theorem orderly_first (orders : Nat → Order) : (first orders).Orderly where
  guarded :=
    have hfree : ∀ i, ((first orders).callers i).holds ≠ true := fun i => by
      rcases first_callers orders i with hi | hi <;> simp [hi]
    ⟨fun hi => absurd hi (hfree _), fun hi => absurd hi (hfree _)⟩
  handle := by simp [first]
  found := fun {i h} hi => by
    rcases first_callers orders i with hq | hq <;> rw [hq] at hi <;> cases hi
  live := fun hlive => absurd hlive (not_live_first orders _)

theorem uncrossed_first (orders : Nat → Order) : (first orders).Uncrossed where
  newest := fun hlive => absurd hlive (not_live_first orders _)
  vacant := fun _ => not_live_first orders
  flagRaised := fun _ =>
    { unopposed := fun j hj => by
        rcases first_callers orders j with hq | hq <;> rw [Stopping, hq] at hj <;> cases hj
      wanted := fun {i} hi => by
        rcases first_callers orders i with hq | hq <;> rw [hq] at hi <;> cases hi
      running := fun hlive => absurd hlive (not_live_first orders _)
      unread := fun hlive => absurd hlive (not_live_first orders _)
      unrecalled := fun hlive => absurd hlive (not_live_first orders _)
      kept := fun hlive => absurd hlive (not_live_first orders _) }
  flagLowered := by simp [first]

theorem orderly_reached (orders : Nat → Order) (moves : List Move) :
    (reached orders moves).Orderly := by
  induction moves using List.reverseRecOn with
  | nil => exact orderly_first orders
  | append_singleton moves m ih =>
      rw [reached_append]
      exact ih.move m

theorem Uncrossed.move {p : Plan} (hc : p.Uncrossed) (ho : p.Orderly) {m : Move}
    (hcross : ¬ p.control.Crosses m) : (p.move m).Uncrossed := by
  cases m with
  | call i =>
      exact hc.call ho i fun hi hrunning j hj =>
        hcross (crosses_control.2 ⟨hi, hrunning, j, hj⟩)
  | work h turn => exact hc.work h turn

end Plan

open Plan (reached reached_append reached_control)

variable {orders : Nat → Order} {moves before : List Move} {m : Move}

theorem not_crossed_earlier (hinit : before <+: moves) (h : ¬ Crossed orders moves) :
    ¬ Crossed orders before :=
  fun ⟨before', m, hlast, hcross⟩ => h ⟨before', m, hlast.trans hinit, hcross⟩

theorem uncrossed_reached (h : ¬ Crossed orders moves) : (reached orders moves).Uncrossed := by
  induction moves using List.reverseRecOn with
  | nil => exact Plan.uncrossed_first orders
  | append_singleton moves m ih =>
      have hcross : ¬ (reached orders moves).control.Crosses m := by
        rw [reached_control]
        exact fun hcross => h ⟨moves, m, List.prefix_rfl, hcross⟩
      rw [reached_append]
      exact (ih (not_crossed_earlier (List.prefix_append _ _) h)).move
        (Plan.orderly_reached orders moves) hcross

/-- A worker leaves only after a stop has lowered the flag. -/
theorem Plan.Uncrossed.not_leaving_unrecalled {p : Plan} (hc : p.Uncrossed) (m : Move) :
    ¬ p.control.LeavesUnrecalled m := by
  cases m with
  | call i => exact id
  | work h turn =>
      rintro ⟨hrecalled, hleaving⟩
      replace hleaving := Plan.leaving_control.1 hleaving
      have hlive : p.Live h := by
        unfold Plan.Leaving at hleaving
        cases hspot : (p.workers h).spot with
        | gone exit => rw [hspot] at hleaving; exact hleaving.elim
        | _ => rw [Plan.Live, hspot]; rfl
      cases hr : p.recalled with
      | true =>
          have hdown := (hc.flagLowered hr).recalled hlive
          exact absurd (hdown.symm.trans hrecalled) (by decide)
      | false =>
          have hup := hc.flagRaised hr
          unfold Plan.Leaving at hleaving
          split at hleaving
          · exact absurd ((hup.running hlive).symm.trans hleaving) (by decide)
          · exact absurd ((hup.unread hlive).symm.trans hleaving.1) (by decide)
          · exact hleaving

theorem soleWorker_of_not_crossed (h : ¬ Crossed orders moves) : SoleWorker orders moves where
  single := by
    intro before hinit w w' hw hw'
    have hc := uncrossed_reached (not_crossed_earlier hinit h)
    rw [← reached_control] at hw hw'
    exact Nat.succ.inj
      ((hc.newest (Plan.live_control.1 hw)).trans (hc.newest (Plan.live_control.1 hw')).symm)
  undisturbed := by
    intro before m hinit
    have hc := uncrossed_reached
      (not_crossed_earlier ((List.prefix_append _ _).trans hinit) h)
    rw [← reached_control]
    exact hc.not_leaving_unrecalled m

/-! ## Schedules with one -/

theorem not_soleWorker_of_doomed {p : Plan} (hp : p.Doomed) :
    ∀ {moves}, p = reached orders moves → ∃ more, ¬ SoleWorker orders (moves ++ more) := by
  induction hp with
  | crowded hne hlive hlive' =>
      rintro moves rfl
      refine ⟨[], fun hsole => hne (hsole.single moves ?_ _ _ ?_ ?_)⟩
      · exact List.prefix_append _ _
      · exact reached_control orders moves ▸ Plan.live_control.2 hlive
      · exact reached_control orders moves ▸ Plan.live_control.2 hlive'
  | @leaves _ h turn hrecalled hleaving =>
      rintro moves rfl
      refine ⟨[.work h turn], fun hsole => hsole.undisturbed _ _ List.prefix_rfl ?_⟩
      rw [← reached_control]
      exact ⟨hrecalled, Plan.leaving_control.2 hleaving⟩
  | move m hnext ih =>
      rintro moves rfl
      obtain ⟨more, hmore⟩ := ih (reached_append orders moves m).symm
      exact ⟨m :: more, by rwa [List.append_cons]⟩

theorem not_soleWorker_of_crosses (hcross : (after orders before).Crosses m) :
    ∃ more, ¬ SoleWorker orders (before ++ m :: more) := by
  rw [← reached_control] at hcross
  cases m with
  | work h turn => exact hcross.elim
  | call i =>
      obtain ⟨hi, hrunning, j, hj⟩ := Plan.crosses_control.1 hcross
      have ho := Plan.orderly_reached orders before
      obtain ⟨more, hmore⟩ := not_soleWorker_of_doomed (Plan.doomed_of_crossing ho hi hrunning hj)
        (reached_append orders before (.call i)).symm
      exact ⟨more, by rwa [List.append_cons]⟩

/-- There is one worker at a time, and no worker leaves its loop for a stop older
than itself, in every schedule in which no start crosses a stop; and wherever one
does, some way to go on breaks that. -/
theorem soleWorker_unless_crossed (orders : Nat → Order) :
    (∀ moves, ¬ Crossed orders moves → SoleWorker orders moves) ∧
      ∀ before m, (after orders before).Crosses m →
        ∃ more, ¬ SoleWorker orders (before ++ m :: more) :=
  ⟨fun _ => soleWorker_of_not_crossed, fun _ _ => not_soleWorker_of_crosses⟩

/-! The second of two starts comes while the stop between them waits for the worker
of the first. -/

def twoStarts : Nat → Order
  | 1 => .stop
  | _ => .start

def overtaking : List Move :=
  List.replicate 5 (.call 0) ++ .work 0 {} ::
    List.replicate 5 (.call 1) ++ List.replicate 5 (.call 2) ++ [.work 1 {}]

/-- The old worker ends as it was told, and the new one comes to its next round. -/
def overtaken : List Move :=
  overtaking ++ List.replicate 5 (.work 0 {}) ++ List.replicate 5 (.work 1 {})

/-- Two cycles are run at once, and then the end of the first worker ends the second. -/
theorem cycles_overlap :
    (after twoStarts overtaking).InCycle 0 ∧ (after twoStarts overtaking).InCycle 1 ∧
      (after twoStarts overtaken).LeavesUnrecalled (.work 1 {}) :=
  ⟨⟨_, rfl⟩, ⟨_, rfl⟩, rfl, rfl⟩

end Ferry.Supervision
