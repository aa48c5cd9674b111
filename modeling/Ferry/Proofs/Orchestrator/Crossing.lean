import Ferry.Proofs.Orchestrator.Custody

/-!
# What a crossing leads to

A start that raises the flag while a stop is under way has already lost, though
it may take some more moves to see it. Either the stop still waits for a worker,
and then the new one runs beside it; or its order is still to be sent, and then
the new one gets it; or the start itself waits for the old worker, which lowers
the flag when it ends and so ends the new one.
-/

namespace Ferry.Supervision

open Supervisor (Handle)

namespace Plan

/-- Some schedule leads on to two workers at once, or to a worker that leaves its loop though no
stop has recalled it. -/
inductive Doomed : Plan → Prop where
  | crowded {p : Plan} {h h' : Handle} (hne : h ≠ h') (hlive : p.Live h)
      (hlive' : p.Live h') : Doomed p
  | leaves {p : Plan} {h : Handle} (turn : Turn)
      (hrecalled : (p.workers h).recalled = false) (hleaving : p.Leaving h turn) : Doomed p
  | move {p : Plan} (m : Move) (hnext : Doomed (p.move m)) : Doomed p

variable {p : Plan} {i j : Nat} {h : Handle}

@[simp] theorem work_self (turn : Turn) :
    (p.work h turn).workers h =
      { p.workers h with
        spot := (p.workers h).spot.next p.running (p.workers h).mail turn } :=
  Function.update_self ..

/-- A stop under way is not the call that stands elsewhere. -/
theorem Stopping.ne {q : Point} (hj : p.Stopping j) (hi : p.callers i = q)
    (hq : ¬ q.Pending p.Live) : j ≠ i := by
  rintro rfl
  rw [Stopping, hi] at hj
  exact hq hj

theorem Stopping.put {q : Point} (hj : p.Stopping j) (hne : j ≠ i) :
    (p.put i q).Stopping j := by
  rw [Stopping, put_of_ne hne]
  exact hj

/-! ## A new worker with an old order -/

/-- A worker that nobody has recalled, while the flag is up. -/
structure Fresh (p : Plan) (h : Handle) (q : Spot) : Prop where
  running : p.running = true
  unrecalled : (p.workers h).recalled = false
  spot : (p.workers h).spot = q

theorem Fresh.doomed_of_work {q : Spot} (hf : p.Fresh h q)
    (hmail : (p.workers h).mail = true) (hstay : q.isLeaving = false)
    (hnext : ∀ {p' : Plan}, p'.Fresh h (q.next true true {}) →
      (p'.workers h).mail = true → Doomed p') : Doomed p := by
  refine .move (.work h {}) (hnext ⟨?_, ?_, ?_⟩ ?_)
  · simp [move, work, hf.running, hf.spot, hstay]
  · rw [move, work_recalled, hf.unrecalled]
  · rw [move, work_self, hf.running, hf.spot, hmail]
  · rw [move, work_mail, hmail]

/-- It runs one idle cycle, and its sleep is interrupted. -/
theorem Fresh.doomed_of_mail (hf : p.Fresh h .asking) (hmail : (p.workers h).mail = true) :
    Doomed p := by
  refine hf.doomed_of_work hmail rfl fun hcycling hmail => ?_
  refine hcycling.doomed_of_work hmail rfl fun htelling hmail => ?_
  refine htelling.doomed_of_work hmail rfl fun hidling hmail => ?_
  refine hidling.doomed_of_work hmail rfl fun hsleeping hmail => ?_
  refine .leaves (h := h) {} hsleeping.unrecalled ?_
  rw [Leaving, hsleeping.spot]
  exact ⟨hmail, rfl⟩

theorem Fresh.doomed_of_signal {found : Option Handle} (hf : p.Fresh h .asking)
    (hj : p.callers j = .signal found) : Doomed p := by
  refine .move (.call j) ?_
  simp only [move, call, hj]
  exact Fresh.doomed_of_mail (h := h) ⟨hf.running, hf.unrecalled, hf.spot⟩ rfl

theorem Fresh.doomed_of_exit {wasRunning : Bool} (hf : p.Fresh h .asking)
    (hj : p.callers j = .exit wasRunning (some h)) : Doomed p := by
  refine .move (.call j) ?_
  simp only [move, call, hj, Option.isNone_some, Bool.and_false]
  exact Fresh.doomed_of_signal (h := h) ⟨hf.running, hf.unrecalled, hf.spot⟩ put_self

theorem Fresh.doomed_of_seize {wasRunning : Bool} (hf : p.Fresh h .asking)
    (hj : p.callers j = .seize wasRunning) (hhandle : p.handle = some h) : Doomed p := by
  refine .move (.call j) ?_
  simp only [move, call, hj, hhandle]
  exact Fresh.doomed_of_exit (h := h) ⟨hf.running, hf.unrecalled, hf.spot⟩ put_self

/-- A stop that comes late takes the new worker for the one it is to stop. -/
theorem Fresh.doomed_of_enter {wasRunning : Bool} (hf : p.Fresh h .asking)
    (hj : p.callers j = .enter wasRunning) (hfree : p.locked = false)
    (hhandle : p.handle = some h) : Doomed p := by
  refine .move (.call j) ?_
  simp only [move, call, hj, hfree]
  exact Fresh.doomed_of_seize (h := h) ⟨hf.running, hf.unrecalled, hf.spot⟩ put_self hhandle

/-! ## Hiring -/

theorem hired_self (q : Point) :
    (p.hired.put i q).workers p.spawned = { spot := .asking, recalled := p.recalled } :=
  Function.update_self ..

/-- The flag was lowered before the new worker has looked at it. -/
theorem doomed_of_hire_down (hi : p.callers i = .hire) (hrecalled : p.recalled = false)
    (hrunning : p.running = false) : Doomed p := by
  refine .move (.call i) ?_
  simp only [move, call, hi]
  refine .leaves (h := p.spawned) {} ?_ ?_
  · rw [hired_self, hrecalled]
  · rw [Leaving, hired_self]
    exact hrunning

theorem doomed_of_hire_up (ho : p.Orderly) (hi : p.callers i = .hire)
    (hrecalled : p.recalled = false) (hrunning : p.running = true) (hj : p.Stopping j) :
    Doomed p := by
  have hholds : (p.callers i).holds = true := by rw [hi]; rfl
  have hne : j ≠ i := hj.ne hi id
  have hf : (p.hired.put i .unlock).Fresh p.spawned .asking :=
    ⟨hrunning, by rw [hired_self, hrecalled], by rw [hired_self]⟩
  have hcallers : (p.hired.put i .unlock).callers j = p.callers j := put_of_ne hne
  refine .move (.call i) ?_
  simp only [move, call, hi]
  unfold Stopping at hj
  cases hq : p.callers j with
  | join h =>
      rw [hq] at hj
      have hold : h ≠ p.spawned := Nat.ne_of_lt (ho.live hj)
      exact .crowded hold (live_hired.2 (.inr hj)) (live_hired.2 (.inl rfl))
  | signal found => exact hf.doomed_of_signal (hcallers.trans hq)
  | enter wasRunning =>
      refine .move (.call i) ?_
      simp only [move, call, put_self]
      exact Fresh.doomed_of_enter (h := p.spawned) ⟨hf.running, hf.unrecalled, hf.spot⟩
        ((put_of_ne hne).trans (hcallers.trans hq)) rfl rfl
  | seize | exit =>
      exact absurd (ho.guarded.alone (i := j) (by rw [hq]; rfl) hholds) hne
  | _ => rw [hq] at hj; exact hj.elim

/-! ## The old worker -/

/-- After the worker's end, which lowers the flag. -/
def ended (p : Plan) (h : Handle) (exit : Worker.Exit) : Plan :=
  { p with
    running := false,
    workers := Function.update p.workers h { p.workers h with spot := .gone exit } }

/-- If a plan is doomed once the worker that stands here has ended, it is doomed already, for the
worker can be taken to its end. -/
def Ends (q : Spot) : Prop :=
  ∀ (p : Plan) (h : Handle), (p.workers h).spot = q →
    (∀ exit, Doomed (p.ended h exit)) → Doomed p

theorem ended_work {h : Handle} {turn : Turn} (exit : Worker.Exit) :
    (p.work h turn).ended h exit = p.ended h exit := by
  simp [work, ended, Function.update_idem]

theorem Ends.of_next {q : Spot} (turn : Turn)
    (hnext : ∀ running mail, Ends (q.next running mail turn)) : Ends q := by
  intro p h hq hended
  refine .move (.work h turn) (hnext p.running (p.workers h).mail _ h ?_ fun exit => ?_)
  · rw [move, work_self, hq]
  · rw [move, ended_work]
    exact hended exit

theorem ends_leaving (exit : Worker.Exit) : Ends (.leaving exit) := by
  intro p h hq hended
  refine .move (.work h {}) ?_
  have hwork : p.work h {} = p.ended h exit := by
    simp [work, ended, hq, Spot.isLeaving, Spot.next]
  rw [move, hwork]
  exact hended exit

/-- The next cycle of a worker may end in a fatal error. -/
theorem ends_cycling : Ends .cycling :=
  Ends.of_next { result := .error (.invariantViolation "") } fun _ _ =>
    Ends.of_next {} fun _ _ => ends_leaving _

theorem ends_asking : Ends .asking :=
  Ends.of_next {} fun running _ => by
    cases running
    · exact ends_leaving _
    · exact ends_cycling

theorem ends_between : Ends .between :=
  Ends.of_next {} fun _ _ => ends_asking

theorem ends_sleeping (delay : Nat) : Ends (.sleeping delay) :=
  Ends.of_next { heeds := false } fun _ mail => by
    simp only [Spot.next, Bool.and_false]
    exact ends_between

theorem ends_erring : Ends .erring :=
  Ends.of_next {} fun _ _ => ends_sleeping _

theorem ends_idling : Ends .idling :=
  Ends.of_next {} fun _ _ => ends_sleeping _

theorem ends {q : Spot} (hlive : q.isGone = false) : Ends q := by
  cases q with
  | asking => exact ends_asking
  | cycling => exact ends_cycling
  | telling report =>
      refine Ends.of_next {} fun _ _ => ?_
      cases hidle : report.isIdle <;> simp only [Spot.next, hidle]
      · exact ends_between
      · exact ends_idling
  | idling => exact ends_idling
  | sleeping delay => exact ends_sleeping delay
  | counting e =>
      refine Ends.of_next {} fun _ _ => ?_
      cases hfatal : e.isFatal <;> simp only [Spot.next, hfatal]
      · exact ends_erring
      · exact ends_leaving _
  | erring => exact ends_erring
  | leaving exit => exact ends_leaving exit
  | between => exact ends_between
  | gone exit => cases hlive

/-! ## Crossing -/

/-- The flag is up, a stop is under way, and the start is to take the handle. -/
theorem doomed_of_take (ho : p.Orderly) (hi : p.callers i = .take)
    (hrecalled : p.recalled = false) (hrunning : p.running = true) (hj : p.Stopping j) :
    Doomed p := by
  have hne : j ≠ i := hj.ne hi id
  have ho' := ho.call i
  have hj' : ∀ q, ({ p with handle := none }.put i q).Stopping j := fun q =>
    Stopping.put (p := { p with handle := none }) hj hne
  refine .move (.call i) ?_
  simp only [call, hi] at ho'
  simp only [move, call, hi]
  cases hhandle : p.handle with
  | none =>
      rw [hhandle] at ho'
      exact doomed_of_hire_up ho' put_self hrecalled hrunning (hj' _)
  | some h =>
      rw [hhandle] at ho'
      cases hgone : p.isGone h with
      | true =>
          have hgone' : ({ p with handle := none }.put i (.wait h)).isGone h = true := hgone
          have ho'' := ho'.call i
          simp only [call, Point.hiring, put_self, hgone', if_true] at ho''
          refine .move (.call i) ?_
          simp only [move, call, Point.hiring, put_self, hgone', if_true]
          exact doomed_of_hire_up ho'' put_self hrecalled hrunning ((hj' _).put hne)
      | false =>
          refine ends hgone _ h rfl fun exit => .move (.call i) ?_
          have hi' : (({ p with handle := none }.put i (.wait h)).ended h exit).callers i =
              .wait h := put_self
          have hgone' : (({ p with handle := none }.put i (.wait h)).ended h exit).isGone h =
              true := by simp [isGone, ended, Spot.isGone]
          simp only [move, Point.hiring, call, hi', hgone', if_true]
          exact doomed_of_hire_down put_self hrecalled rfl

theorem doomed_of_crossing (ho : p.Orderly) (hi : p.callers i = .raise)
    (hrunning : p.running = false) (hj : p.Stopping j) : Doomed (p.call i) := by
  have hj' : ({ p with running := true, recalled := false }.put i .take).Stopping j :=
    Stopping.put (p := { p with running := true, recalled := false }) hj (hj.ne hi id)
  have ho' := ho.call i
  simp only [call, hi, hrunning, Bool.false_eq_true, if_false] at ho' ⊢
  exact doomed_of_take ho' put_self rfl rfl hj'

end Plan

end Ferry.Supervision
