import Ferry.Proofs.Orchestrator.Points

/-!
# Who answers for a worker

The lock is held by one call at a time, and a handle that anybody has was given
out (`Orderly`); this holds whatever the schedule does.

As long as no start raises the flag while a stop is under way, more can be said
(`Uncrossed`). After a start has raised the flag no stop is pending, and the worker
that there is can be reached by its handle (`FlagRaised`). After a stop has lowered
it every worker is in the charge of a stop, which has the handle or is on its way
to it (`FlagLowered`). A start that finds the flag down and no stop pending
therefore finds no worker either, so the worker it hires is alone.
-/

namespace Ferry.Supervision

open Supervisor (Handle)

namespace Point

/-- The call has the lock. -/
@[simp]
def holds : Point → Bool
  | raise | giveUp | take | wait _ | hire | unlock | seize _ | exit _ _ => true
  | _ => false

/-- A start that has raised the flag and is to hire. -/
@[simp]
def hires : Point → Bool
  | take | wait _ | hire => true
  | _ => false

/-- A stop that is to take the handle. -/
@[simp]
def comes : Point → Bool
  | enter _ | seize _ => true
  | _ => false

/-- The worker a stop has taken the handle of. -/
@[simp]
def found : Point → Option Handle
  | exit _ found | signal found => found
  | join h => some h
  | _ => none

theorem holds_of_hires {q : Point} (h : q.hires = true) : q.holds = true := by
  cases q <;> first | rfl | cases h

theorem pending_of_comes {live : Handle → Prop} {q : Point} (h : q.comes = true) :
    q.Pending live := by
  cases q <;> first | exact trivial | cases h

theorem pending_of_found {live : Handle → Prop} {q : Point} {h : Handle}
    (hq : q.found = some h) (hlive : live h) : q.Pending live := by
  cases q with
  | join h' => exact Option.some.inj hq ▸ hlive
  | exit | signal => exact trivial
  | _ => cases hq

theorem pending_mono {live live' : Handle → Prop} {q : Point}
    (hlive : ∀ {h}, q.found = some h → live h → live' h) (hq : q.Pending live) :
    q.Pending live' := by
  cases q with
  | join h => exact hlive rfl hq
  | enter | seize | exit | signal => exact trivial
  | _ => cases hq

theorem holds_joining (found : Option Handle) : (joining found).holds = false := by
  cases found <;> rfl

theorem hires_joining (found : Option Handle) : (joining found).hires = false := by
  cases found <;> rfl

theorem found_joining (found : Option Handle) : (joining found).found = found := by
  cases found <;> rfl

theorem found_hiring (found : Option Handle) : (hiring found).found = none := by
  cases found <;> rfl

theorem not_pending_hiring {live : Handle → Prop} (found : Option Handle) :
    ¬ (hiring found).Pending live := by
  cases found <;> exact id

end Point

/-! ## The lock -/

/-- Who holds the lock holds it alone. -/
structure Guarded (locked : Bool) (callers : Nat → Point) : Prop where
  locked : ∀ {i}, (callers i).holds = true → locked = true
  alone : ∀ {i j}, (callers i).holds = true → (callers j).holds = true → i = j

namespace Guarded

variable {locked : Bool} {callers : Nat → Point} {i : Nat} {q : Point}

theorem acquire (hg : Guarded false callers) :
    Guarded true (Function.update callers i q) := by
  have hself : ∀ {j}, (Function.update callers i q j).holds = true → j = i := by
    intro j hj
    by_contra hne
    rw [Function.update_of_ne hne] at hj
    exact nomatch hg.locked hj
  exact ⟨fun _ => rfl, fun hj hk => (hself hj).trans (hself hk).symm⟩

theorem keep (hg : Guarded locked callers)
    (hq : q.holds = true → (callers i).holds = true) :
    Guarded locked (Function.update callers i q) := by
  have hold : ∀ {j}, (Function.update callers i q j).holds = true →
      (callers j).holds = true := by
    intro j hj
    rcases eq_or_ne j i with rfl | hne
    · rw [Function.update_self] at hj
      exact hq hj
    · rwa [Function.update_of_ne hne] at hj
  exact ⟨fun hj => hg.locked (hold hj), fun hj hk => hg.alone (hold hj) (hold hk)⟩

theorem release (hg : Guarded locked callers) (hi : (callers i).holds = true)
    (hq : q.holds = false) : Guarded false (Function.update callers i q) := by
  have hfree : ∀ j, (Function.update callers i q j).holds ≠ true := by
    intro j hj
    rcases eq_or_ne j i with rfl | hne
    · rw [Function.update_self, hq] at hj
      cases hj
    · rw [Function.update_of_ne hne] at hj
      exact hne (hg.alone hj hi)
  exact ⟨fun hj => absurd hj (hfree _), fun hj => absurd hj (hfree _)⟩

end Guarded

namespace Spot

theorem isGone_next (q : Spot) (running mail : Bool) (turn : Turn) :
    (q.next running mail turn).isGone = (q.isGone || q.isLeaving) := by
  cases q with
  | asking => cases running <;> rfl
  | cycling => cases hresult : turn.result <;> simp only [next, hresult] <;> rfl
  | telling report => cases hidle : report.isIdle <;> simp only [next, hidle] <;> rfl
  | sleeping delay =>
      cases hheeds : mail && turn.heeds <;> simp only [next, hheeds] <;> rfl
  | counting e => cases hfatal : e.isFatal <;> simp only [next, hfatal] <;> rfl
  | _ => rfl

theorem isGone_of_isLeaving {q : Spot} (h : q.isLeaving = true) : q.isGone = false := by
  cases q <;> first | rfl | cases h

end Spot

namespace Plan

variable {p : Plan} {i : Nat} {q : Point}

/-! ## What moves leave alone -/

@[simp] theorem put_self : (p.put i q).callers i = q :=
  Function.update_self ..

theorem put_of_ne {j : Nat} (hne : j ≠ i) : (p.put i q).callers j = p.callers j :=
  Function.update_of_ne hne ..

theorem live_hired {h : Handle} : p.hired.Live h ↔ h = p.spawned ∨ p.Live h := by
  unfold Live hired
  rcases eq_or_ne h p.spawned with rfl | hne
  · simp [Spot.isGone]
  · simp [hne]

theorem live_work {h h' : Handle} {turn : Turn} :
    (p.work h turn).Live h' ↔
      p.Live h' ∧ (h' = h → (p.workers h).spot.isLeaving = false) := by
  unfold Live work
  rcases eq_or_ne h' h with rfl | hne
  · simp [Spot.isGone_next]
  · simp [hne]

theorem work_mail (h h' : Handle) (turn : Turn) :
    ((p.work h turn).workers h').mail = (p.workers h').mail := by
  unfold work
  rcases eq_or_ne h' h with rfl | hne
  · simp
  · simp [hne]

theorem work_recalled (h h' : Handle) (turn : Turn) :
    ((p.work h turn).workers h').recalled = (p.workers h').recalled := by
  unfold work
  rcases eq_or_ne h' h with rfl | hne
  · simp
  · simp [hne]

/-! ## What holds of every plan -/

structure Orderly (p : Plan) : Prop where
  guarded : Guarded p.locked p.callers
  handle : ∀ {h}, p.handle = some h → h < p.spawned
  found : ∀ {i h}, (p.callers i).found = some h → h < p.spawned
  live : ∀ {h}, p.Live h → h < p.spawned

namespace Orderly

theorem found_put (ho : p.Orderly) (hq : ∀ {h}, q.found = some h → h < p.spawned)
    {j : Nat} {h : Handle} (hj : ((p.put i q).callers j).found = some h) :
    h < p.spawned := by
  rcases eq_or_ne j i with rfl | hne
  · rw [put_self] at hj
    exact hq hj
  · rw [put_of_ne hne] at hj
    exact ho.found hj

theorem put (ho : p.Orderly) {locked : Bool}
    (hguarded : Guarded locked (Function.update p.callers i q))
    (hfound : ∀ {h}, q.found = some h → h < p.spawned) :
    ({ p with locked }.put i q).Orderly :=
  { ho with guarded := hguarded, found := ho.found_put hfound }

theorem taken (ho : p.Orderly) : Orderly { p with handle := none } :=
  { ho with handle := by simp }

theorem hired (ho : p.Orderly) : p.hired.Orderly where
  guarded := ho.guarded
  handle := fun hh => Option.some.inj hh ▸ Nat.lt_succ_self _
  found := fun hi => Nat.lt_succ_of_lt (ho.found hi)
  live := by
    intro h hlive
    rcases live_hired.1 hlive with rfl | hold
    · exact Nat.lt_succ_self _
    · exact Nat.lt_succ_of_lt (ho.live hold)

theorem lowered (ho : p.Orderly) : p.lowered.Orderly :=
  { ho with }

theorem signalled (ho : p.Orderly) : p.signalled.Orderly :=
  { ho with }

theorem call (ho : p.Orderly) (i : Nat) : (p.call i).Orderly := by
  have hg := ho.guarded
  have hfound : ∀ {found : Option Handle}, (p.callers i).found = found →
      ∀ {h}, found = some h → h < p.spawned := fun heq _ hh => ho.found (heq.trans hh)
  cases hi : p.callers i with
  | lock | enter =>
      cases hlocked : p.locked <;> simp only [Plan.call, hi, hlocked]
      · exact ho.put (hlocked ▸ hg).acquire (by simp)
      · exact ho
  | raise =>
      cases hrunning : p.running <;> simp only [Plan.call, hi, hrunning]
      · exact { ho.put (hg.keep (by simp [hi])) (by simp) with }
      · exact ho.put (hg.keep (by simp [hi])) (by simp)
  | giveUp | unlock =>
      simp only [Plan.call, hi]
      exact ho.put (hg.release (by simp [hi]) (by simp)) (by simp)
  | take =>
      simp only [Plan.call, hi]
      refine ho.taken.put (hg.keep (by simp [hi])) fun hq => ?_
      rw [Point.found_hiring] at hq
      cases hq
  | wait h =>
      cases hgone : p.isGone h <;> simp only [Plan.call, hi, hgone]
      · exact ho
      · exact ho.put (hg.keep (by simp [hi])) (by simp)
  | hire =>
      simp only [Plan.call, hi]
      exact ho.hired.put (hg.keep (by simp [hi])) (by simp)
  | lower =>
      simp only [Plan.call, hi]
      exact ho.lowered.put (hg.keep (by simp)) (by simp)
  | seize wasRunning =>
      simp only [Plan.call, hi]
      exact ho.taken.put (hg.keep (by simp [hi])) (by exact ho.handle)
  | exit wasRunning found =>
      simp only [Plan.call, hi]
      refine ho.put (hg.release (by simp [hi]) ?_) fun {h} hq => ?_
      · split <;> rfl
      · split at hq
        · cases hq
        · exact hfound (by rw [hi]; rfl) hq
  | signal found =>
      simp only [Plan.call, hi]
      refine ho.signalled.put (hg.keep fun hq => ?_) fun hq => ?_
      · rw [Point.holds_joining] at hq
        cases hq
      · rw [Point.found_joining] at hq
        exact hfound (by rw [hi]; rfl) hq
  | join h =>
      cases hgone : p.isGone h <;> simp only [Plan.call, hi, hgone]
      · exact ho
      · exact ho.put (hg.keep (by simp)) (by simp)
  | finished order =>
      simp only [Plan.call, hi]
      exact ho

theorem move (ho : p.Orderly) (m : Move) : (p.move m).Orderly := by
  cases m with
  | call i => exact ho.call i
  | work h turn => exact { ho with live := fun hlive => ho.live (live_work.1 hlive).1 }

end Orderly

/-! ## What holds while no start crosses a stop -/

/-- Some stop has lowered the flag and is yet to take the handle. -/
def StopComing (p : Plan) : Prop :=
  ∃ j, (p.callers j).comes = true

/-- A stop has taken the handle of the worker. -/
def TakenByStop (p : Plan) (h : Handle) : Prop :=
  ∃ j, (p.callers j).found = some h

/-- Some stop has taken the handle of the worker, or will: the worker has the handle that is kept,
and a stop is on its way to it. -/
def StopAnswersFor (p : Plan) (h : Handle) : Prop :=
  p.handle = some h ∧ p.StopComing ∨ p.TakenByStop h

/-- No stop has lowered the flag since a start raised it, and none is under way. The worker can be
reached by the handle that is kept. -/
structure FlagRaised (p : Plan) : Prop where
  unopposed : ∀ j, ¬ p.Stopping j
  wanted : ∀ {i}, (p.callers i).hires = true → p.running = true
  running : ∀ {h}, p.Live h → p.running = true
  unread : ∀ {h}, p.Live h → (p.workers h).mail = false
  unrecalled : ∀ {h}, p.Live h → (p.workers h).recalled = false
  kept : ∀ {h}, p.Live h → p.handle = some h

/-- A stop has lowered the flag since, and every worker there is has been recalled by a stop that
answers for it. -/
structure FlagLowered (p : Plan) : Prop where
  coming : ∀ {i}, (p.callers i).hires = true → p.StopComing
  recalled : ∀ {h}, p.Live h → (p.workers h).recalled = true
  answeredFor : ∀ {h}, p.Live h → p.StopAnswersFor h

/-- What holds as long as no start has raised the flag while a stop was under way. There is one
worker at most, the one hired last, and none while a start is about to hire. -/
structure Uncrossed (p : Plan) : Prop where
  newest : ∀ {h}, p.Live h → h + 1 = p.spawned
  vacant : ∀ {i}, (p.callers i).hires = true → ∀ h, ¬ p.Live h
  flagRaised : p.recalled = false → p.FlagRaised
  flagLowered : p.recalled = true → p.FlagLowered

theorem StopComing.put (hp : p.StopComing) (hq : (p.callers i).comes = true → q.comes = true) :
    (p.put i q).StopComing := by
  obtain ⟨j, hj⟩ := hp
  rcases eq_or_ne j i with rfl | hne
  · exact ⟨j, by rw [put_self]; exact hq hj⟩
  · exact ⟨j, by rwa [put_of_ne hne]⟩

theorem TakenByStop.put {h : Handle} (hp : p.TakenByStop h)
    (hq : (p.callers i).found = some h → q.found = some h) : (p.put i q).TakenByStop h := by
  obtain ⟨j, hj⟩ := hp
  rcases eq_or_ne j i with rfl | hne
  · exact ⟨j, by rw [put_self]; exact hq hj⟩
  · exact ⟨j, by rwa [put_of_ne hne]⟩

theorem StopAnswersFor.stopping {h : Handle} (hp : p.StopAnswersFor h) (hlive : p.Live h) :
    ∃ j, p.Stopping j := by
  rcases hp with ⟨-, j, hj⟩ | ⟨j, hj⟩
  · exact ⟨j, Point.pending_of_comes hj⟩
  · exact ⟨j, Point.pending_of_found hj hlive⟩

theorem hires_put (hq : q.hires = true → (p.callers i).hires = true) {j : Nat}
    (hj : ((p.put i q).callers j).hires = true) : (p.callers j).hires = true := by
  rcases eq_or_ne j i with rfl | hne
  · rw [put_self] at hj
    exact hq hj
  · rwa [put_of_ne hne] at hj

theorem stopping_put (hq : q.Pending p.Live → p.Stopping i) {j : Nat}
    (hj : (p.put i q).Stopping j) : p.Stopping j := by
  unfold Stopping at hj ⊢
  rcases eq_or_ne j i with rfl | hne
  · rw [put_self] at hj
    exact hq hj
  · rwa [put_of_ne hne] at hj

namespace Uncrossed

/-- Whoever hires is the only one who can. -/
theorem not_hires_put (ho : p.Orderly) (hi : (p.callers i).holds = true)
    (hq : q.hires = false) (j : Nat) : ((p.put i q).callers j).hires ≠ true := by
  intro hj
  rcases eq_or_ne j i with rfl | hne
  · rw [put_self, hq] at hj
    cases hj
  · rw [put_of_ne hne] at hj
    exact hne (ho.guarded.alone (Point.holds_of_hires hj) hi)

/-- A call that only goes on, with or without the lock. -/
theorem put (hc : p.Uncrossed) (locked : Bool)
    (hhires : q.hires = true → (p.callers i).hires = true)
    (hcomes : (p.callers i).comes = true → q.comes = true)
    (hfound : ∀ {h}, p.Live h → (p.callers i).found = some h → q.found = some h)
    (hpending : q.Pending p.Live → p.Stopping i) :
    ({ p with locked }.put i q).Uncrossed where
  newest := hc.newest
  vacant := fun hj => hc.vacant (hires_put hhires hj)
  flagRaised := fun hr =>
    { hc.flagRaised hr with
      unopposed := fun j hj => (hc.flagRaised hr).unopposed j (stopping_put hpending hj)
      wanted := fun hj => (hc.flagRaised hr).wanted (hires_put hhires hj) }
  flagLowered := fun hr =>
    { hc.flagLowered hr with
      coming := fun hj => ((hc.flagLowered hr).coming (hires_put hhires hj)).put hcomes
      answeredFor := fun hlive =>
        ((hc.flagLowered hr).answeredFor hlive).imp
          (fun hkept => ⟨hkept.1, hkept.2.put hcomes⟩)
          fun hfound' => hfound'.put (hfound hlive) }

/-- With the flag down and no stop pending there is no worker. -/
theorem not_live (hc : p.Uncrossed) (hrunning : p.running = false)
    (hstop : ∀ j, ¬ p.Stopping j) (h : Handle) : ¬ p.Live h := by
  intro hlive
  cases hr : p.recalled with
  | false =>
      have hup := (hc.flagRaised hr).running hlive
      rw [hrunning] at hup
      cases hup
  | true =>
      obtain ⟨j, hj⟩ := ((hc.flagLowered hr).answeredFor hlive).stopping hlive
      exact hstop j hj

theorem raise (hc : p.Uncrossed) (hrunning : p.running = false)
    (hstop : ∀ j, ¬ p.Stopping j) :
    ({ p with running := true, recalled := false }.put i .take).Uncrossed where
  newest := fun hlive => absurd hlive (hc.not_live hrunning hstop _)
  vacant := fun _ => hc.not_live hrunning hstop
  flagRaised := fun _ =>
    { unopposed := fun j hj => hstop j (stopping_put False.elim hj)
      wanted := fun _ => rfl
      running := fun _ => rfl
      unread := fun hlive => absurd hlive (hc.not_live hrunning hstop _)
      unrecalled := fun hlive => absurd hlive (hc.not_live hrunning hstop _)
      kept := fun hlive => absurd hlive (hc.not_live hrunning hstop _) }
  flagLowered := by simp [Plan.put]

theorem take (hc : p.Uncrossed) (hi : p.callers i = .take) :
    ({ p with handle := none }.put i (.hiring p.handle)).Uncrossed where
  newest := hc.newest
  vacant := fun _ => hc.vacant (i := i) (by rw [hi]; rfl)
  flagRaised := fun hr =>
    { hc.flagRaised hr with
      unopposed := fun j hj =>
        (hc.flagRaised hr).unopposed j (stopping_put
          (fun hq => (Point.not_pending_hiring _ hq).elim) hj)
      wanted := fun _ => (hc.flagRaised hr).wanted (i := i) (by rw [hi]; rfl)
      kept := fun hlive => absurd hlive (hc.vacant (i := i) (by rw [hi]; rfl) _) }
  flagLowered := fun hr =>
    { hc.flagLowered hr with
      coming := fun _ =>
        ((hc.flagLowered hr).coming (i := i) (by rw [hi]; rfl)).put (by simp [hi])
      answeredFor := fun hlive => absurd hlive (hc.vacant (i := i) (by rw [hi]; rfl) _) }

/-- The new worker is alone, and whoever stops it will find its handle. -/
theorem hire (hc : p.Uncrossed) (ho : p.Orderly) (hi : p.callers i = .hire) :
    (p.hired.put i .unlock).Uncrossed := by
  have hhires : (p.callers i).hires = true := by rw [hi]; rfl
  have hvacant := hc.vacant hhires
  have hnew : ∀ {h}, (p.hired.put i .unlock).Live h → h = p.spawned := fun hlive =>
    (live_hired.1 hlive).resolve_right (hvacant _)
  have hpost : (p.hired.put i .unlock).workers p.spawned =
      { spot := .asking, recalled := p.recalled } := Function.update_self ..
  have hnot := not_hires_put (p := p) (q := .unlock) ho (Point.holds_of_hires hhires) rfl
  refine ⟨fun hlive => congrArg (· + 1) (hnew hlive), fun hj => absurd hj (hnot _), ?_, ?_⟩
  · intro hr
    have hup := hc.flagRaised hr
    refine
      { unopposed := ?_
        wanted := fun _ => hup.wanted hhires
        running := fun _ => hup.wanted hhires
        unread := fun hlive => by rw [hnew hlive, hpost]
        unrecalled := fun hlive => by rw [hnew hlive, hpost]; exact hr
        kept := fun hlive => by rw [hnew hlive]; rfl }
    intro j hj
    refine hup.unopposed j (stopping_put (i := i) (q := .unlock) False.elim ?_)
    -- A stop that joins the new worker would have known its handle before.
    refine Point.pending_mono (fun hfound hlive => ?_) hj
    exact absurd (ho.found_put (by simp) hfound) (by rw [hnew hlive]; exact Nat.lt_irrefl _)
  · intro hr
    have hdown := hc.flagLowered hr
    have hcoming : (p.put i .unlock).StopComing :=
      (hdown.coming hhires).put (by simp [hi])
    exact
      { coming := fun _ => hcoming
        recalled := fun hlive => by rw [hnew hlive, hpost]; exact hr
        answeredFor := fun hlive => .inl ⟨by rw [hnew hlive]; rfl, hcoming⟩ }

theorem lower (hc : p.Uncrossed) (hi : p.callers i = .lower) (wasRunning : Bool) :
    (p.lowered.put i (.enter wasRunning)).Uncrossed := by
  have hcoming : (p.lowered.put i (.enter wasRunning)).StopComing := ⟨i, by rw [put_self]; rfl⟩
  refine ⟨hc.newest, fun hj => hc.vacant (hires_put (by simp) hj), ?_, fun _ => ?_⟩
  · simp [Plan.put, Plan.lowered]
  refine ⟨fun _ => hcoming, fun _ => rfl, fun {h} hlive => ?_⟩
  cases hr : p.recalled with
  | false => exact .inl ⟨(hc.flagRaised hr).kept hlive, hcoming⟩
  | true =>
      rcases (hc.flagLowered hr).answeredFor hlive with ⟨hkept, -⟩ | hfound
      · exact .inl ⟨hkept, hcoming⟩
      · exact .inr (hfound.put (by simp [hi]))

theorem recalled_of_stopping (hc : p.Uncrossed) (hstop : p.Stopping i) : p.recalled = true := by
  cases hr : p.recalled with
  | false => exact absurd hstop ((hc.flagRaised hr).unopposed i)
  | true => rfl

theorem seize (hc : p.Uncrossed) (ho : p.Orderly) {wasRunning : Bool}
    (hi : p.callers i = .seize wasRunning) :
    ({ p with handle := none }.put i (.exit wasRunning p.handle)).Uncrossed := by
  have hr := hc.recalled_of_stopping (i := i) (by rw [Stopping, hi]; trivial)
  have hdown := hc.flagLowered hr
  have hnot := not_hires_put (p := p) (i := i) (q := .exit wasRunning p.handle) ho
    (by rw [hi]; rfl) rfl
  refine ⟨hc.newest, fun hj => absurd hj (hnot _), fun hr' => ?_, fun _ => ?_⟩
  · exact absurd (hr.symm.trans hr') (by decide)
  refine ⟨fun hj => absurd hj (hnot _), hdown.recalled, fun {h} hlive => .inr ?_⟩
  rcases hdown.answeredFor hlive with ⟨hkept, -⟩ | hfound
  · exact ⟨i, by rw [put_self]; exact hkept⟩
  · exact hfound.put (by simp [hi])

/-- After a stop has lowered the flag nobody needs an empty mailbox. -/
theorem signalled (hc : p.Uncrossed) (hr : p.recalled = true) : p.signalled.Uncrossed where
  newest := hc.newest
  vacant := hc.vacant
  flagRaised := fun hr' => absurd (hr.symm.trans hr') (by decide)
  flagLowered := fun _ => ⟨(hc.flagLowered hr).coming, (hc.flagLowered hr).recalled,
    (hc.flagLowered hr).answeredFor⟩

/-- A stop that frees the lock keeps the handle it has found. -/
theorem exit (hc : p.Uncrossed) {wasRunning : Bool} {found : Option Handle}
    (hi : p.callers i = .exit wasRunning found) :
    ({ p with locked := false }.put i
      (if !wasRunning && found.isNone then .finished .stop else .signal found)).Uncrossed := by
  refine hc.put false ?_ (by simp [hi]) ?_ fun _ => by rw [Stopping, hi]; trivial
  · intro hq
    split at hq <;> cases hq
  · intro h _ hfound
    obtain rfl : found = some h := by simpa [hi] using hfound
    simp

theorem signal (hc : p.Uncrossed) {found : Option Handle} (hi : p.callers i = .signal found) :
    (p.signalled.put i (.joining found)).Uncrossed := by
  have hr := hc.recalled_of_stopping (i := i) (by rw [Stopping, hi]; trivial)
  have hi' : p.signalled.callers i = .signal found := hi
  refine (hc.signalled hr).put p.locked ?_ (by simp [hi']) ?_ fun _ => ?_
  · intro hq
    rw [Point.hires_joining] at hq
    cases hq
  · intro h _ hfound
    rwa [hi', ← Point.found_joining found] at hfound
  · rw [Stopping, hi']
    trivial

/-- A worker that has been joined needs nobody to answer for it. -/
theorem join (hc : p.Uncrossed) {h : Handle} (hi : p.callers i = .join h)
    (hgone : p.isGone h = true) : (p.put i (.finished .stop)).Uncrossed := by
  refine hc.put p.locked (by simp) (by simp [hi]) ?_ False.elim
  intro h' hlive hfound
  obtain rfl : h = h' := by simpa [hi] using hfound
  exact absurd (hgone.symm.trans hlive) (by decide)

theorem call (hc : p.Uncrossed) (ho : p.Orderly) (i : Nat)
    (hcross : p.callers i = .raise → p.running = false → ∀ j, ¬ p.Stopping j) :
    (p.call i).Uncrossed := by
  cases hi : p.callers i with
  | lock =>
      cases hlocked : p.locked <;> simp only [Plan.call, hi, hlocked]
      · exact hc.put true (by simp) (by simp [hi]) (by simp [hi]) False.elim
      · exact hc
  | raise =>
      cases hrunning : p.running <;> simp only [Plan.call, hi, hrunning]
      · exact hc.raise hrunning (hcross hi hrunning)
      · exact hc.put p.locked (by simp) (by simp [hi]) (by simp [hi]) False.elim
  | giveUp | unlock =>
      simp only [Plan.call, hi]
      exact hc.put false (by simp) (by simp [hi]) (by simp [hi]) False.elim
  | take =>
      simp only [Plan.call, hi]
      exact hc.take hi
  | wait h =>
      cases hgone : p.isGone h <;> simp only [Plan.call, hi, hgone]
      · exact hc
      · exact hc.put p.locked (by simp [hi]) (by simp [hi]) (by simp [hi]) False.elim
  | hire =>
      simp only [Plan.call, hi]
      exact hc.hire ho hi
  | lower =>
      simp only [Plan.call, hi]
      exact hc.lower hi p.running
  | enter wasRunning =>
      cases hlocked : p.locked <;> simp only [Plan.call, hi, hlocked]
      · refine hc.put true (by simp) (by simp) (by simp [hi]) fun _ => ?_
        rw [Stopping, hi]
        trivial
      · exact hc
  | seize wasRunning =>
      simp only [Plan.call, hi]
      exact hc.seize ho hi
  | exit wasRunning found =>
      simp only [Plan.call, hi]
      exact hc.exit hi
  | signal found =>
      simp only [Plan.call, hi]
      exact hc.signal hi
  | join h =>
      cases hgone : p.isGone h <;> simp only [Plan.call, hi, hgone]
      · exact hc
      · exact hc.join hi hgone
  | finished order =>
      simp only [Plan.call, hi]
      exact hc

/-- A worker that leaves leaves nobody behind, who would need the flag. -/
theorem not_leaving (hc : p.Uncrossed) {h : Handle} (turn : Turn)
    (hneed : (∃ h', (p.work h turn).Live h') ∨ ∃ i, (p.callers i).hires = true) :
    (p.workers h).spot.isLeaving = false := by
  refine Bool.eq_false_iff.2 fun hleaving => ?_
  have hlive : p.Live h := Spot.isGone_of_isLeaving hleaving
  rcases hneed with ⟨h', hlive'⟩ | ⟨i, hi⟩
  · have hother := live_work.1 hlive'
    have hsame : h' = h :=
      Nat.succ.inj ((hc.newest hother.1).trans (hc.newest hlive).symm)
    exact absurd (hleaving.symm.trans (hother.2 hsame)) (by decide)
  · exact hc.vacant hi h hlive

theorem work (hc : p.Uncrossed) (h : Handle) (turn : Turn) : (p.work h turn).Uncrossed := by
  have hlive : ∀ {h'}, (p.work h turn).Live h' → p.Live h' := fun hl => (live_work.1 hl).1
  have hstop : ∀ {j}, (p.work h turn).Stopping j → p.Stopping j :=
    Point.pending_mono fun _ => hlive
  have hflag : (p.workers h).spot.isLeaving = false →
      (p.work h turn).running = p.running := fun hleaving => by simp [Plan.work, hleaving]
  refine ⟨fun hl => hc.newest (hlive hl), fun hi h' hl => hc.vacant hi h' (hlive hl), ?_, ?_⟩
  · intro hr
    have hup := hc.flagRaised hr
    exact
      { unopposed := fun j hj => hup.unopposed j (hstop hj)
        wanted := fun hi => (hflag (hc.not_leaving turn (.inr ⟨_, hi⟩))).trans (hup.wanted hi)
        running := fun hl =>
          (hflag (hc.not_leaving turn (.inl ⟨_, hl⟩))).trans (hup.running (hlive hl))
        unread := fun hl => (work_mail h _ turn).trans (hup.unread (hlive hl))
        unrecalled := fun hl => (work_recalled h _ turn).trans (hup.unrecalled (hlive hl))
        kept := fun hl => hup.kept (hlive hl) }
  · intro hr
    have hdown := hc.flagLowered hr
    exact
      { coming := hdown.coming
        recalled := fun hl => (work_recalled h _ turn).trans (hdown.recalled (hlive hl))
        answeredFor := fun hl => hdown.answeredFor (hlive hl) }

end Uncrossed

end Plan

end Ferry.Supervision
