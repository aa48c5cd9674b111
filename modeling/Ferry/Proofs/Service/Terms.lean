import Ferry.Proofs.Orchestrator.CycleRules
import Ferry.Proofs.Service.Ownership

/-!
# The terms on which programs share the service

Worker, writer and tasks differ only in what they ask of the others and what they
grant them, so the rules for their calls are proved once for any such share. A
call that changes no job goes unnoticed by everybody. A call that writes one asks
for two things only: that the write is a move the job may make, and that the job
is not somebody else's.
-/

namespace Ferry.Service

open Operation

/-- The call changes nothing that is shared. -/
def Quiet : Request → Prop
  | .store (.get _) | .store (.findId _) | .store (.next ..) | .store (.count _) => True
  | .store _ | .provision _ | .send .. | .startFlow _ => False
  | .acknowledge .. | .isComplete _ | .now | .freshId | .overflow | .count .. | .isRunning => True

/-- The world admits the reply to the call, and `w'` is the world after it. -/
def Answers (c : Request) (w : World) (r : c.Reply) (w' : World) : Prop :=
  w.Admits c r ∧ w' = w.after c r

/-- What a program asks of the others beyond the progress of jobs, and what it
grants them. -/
structure Share where
  asks : World → World → Prop
  grants : World → World → Prop
  asks_refl : ∀ w, asks w w
  asks_trans : ∀ {w w' w''}, asks w w' → asks w' w'' → asks w w''
  asks_onlyJournaled : ∀ {w w' : World}, w.OnlyJournaled w' → asks w w'
  grants_onlyJournaled : ∀ {w w' : World}, w.OnlyJournaled w' → grants w w'

namespace Share

/-- The worker keeps away from the job the writer is at work on. -/
def worker : Share where
  asks := World.SparesWorker
  grants := World.SparesWriter
  asks_refl := .refl
  asks_trans := .trans
  asks_onlyJournaled := World.OnlyJournaled.sparesWorker
  grants_onlyJournaled := World.OnlyJournaled.sparesWriter

def writer : Share where
  asks := World.SparesWriter
  grants := World.SparesWorker
  asks_refl := .refl
  asks_trans := .trans
  asks_onlyJournaled := World.OnlyJournaled.sparesWriter
  grants_onlyJournaled := World.OnlyJournaled.sparesWorker

/-- A task has nothing of its own. -/
def task : Share where
  asks _ _ := True
  grants w w' := w.SparesWorker w' ∧ w.SparesWriter w'
  asks_refl _ := trivial
  asks_trans _ _ := trivial
  asks_onlyJournaled _ := trivial
  grants_onlyJournaled h := ⟨h.sparesWorker, h.sparesWriter⟩

def terms (p : Share) : Discipline operationSignature World where
  inv := World.Sound
  answers := Answers
  rely w w' := w.Advances w' ∧ p.asks w w'
  guarantee w w' := w.Legal w' ∧ p.grants w w'
  rely_refl w := ⟨.refl w, p.asks_refl w⟩
  rely_trans h h' := ⟨h.1.trans h'.1, p.asks_trans h.2 h'.2⟩

end Share

/-! ## What each call does -/

variable {w w' w₁ w₂ : World} {c : Request} {job : Job} {id : String}

theorem onlyJournaled_after {r : c.Reply} (heffect : w.effect c r = w)
    (hsent : Exchange.sent? ⟨c, r⟩ = none) : w.OnlyJournaled (w.after c r) :=
  ⟨⟨c, r⟩, hsent, by rw [World.after, heffect]⟩

theorem effect_of_quiet (hc : Quiet c) (r : c.Reply) : w.effect c r = w := by
  cases c with
  | store s =>
      cases s with
      | create _ | update _ | updateIfState _ _ => exact hc.elim
      | get _ | findId _ | next _ _ | count _ => cases r <;> rfl
  | provision _ | send _ _ | startFlow _ => exact hc.elim
  | acknowledge _ _ | isComplete _ | now | freshId | count _ _ | isRunning | overflow => rfl

theorem sent?_of_quiet (hc : Quiet c) (r : c.Reply) : Exchange.sent? ⟨c, r⟩ = none := by
  cases c with
  | provision _ | send _ _ | startFlow _ => exact hc.elim
  | store _ | acknowledge _ _ | isComplete _ | now | freshId | count _ _
  | isRunning | overflow => rfl

theorem Answers.onlyJournaled {r : c.Reply} (hc : Quiet c) (h : Answers c w r w') :
    w.OnlyJournaled w' := by
  obtain ⟨_, rfl⟩ := h
  exact onlyJournaled_after (effect_of_quiet hc r) (sent?_of_quiet hc r)

/-- A statement of the store that failed was only written down. -/
theorem Answers.onlyJournaled_of_error {s : Store.Call} {e : JobError}
    (h : Answers (.store s) w (.error e) w') : w.OnlyJournaled w' := by
  obtain ⟨_, rfl⟩ := h
  exact onlyJournaled_after rfl rfl

/-- A statement of the store that did not fail answered what it should. -/
theorem Answers.perform_eq {s : Store.Call} {a : s.Answer}
    (h : Answers (.store s) w (.ok a) w') : (s.perform w.table).1 = .ok a := by
  rcases h.1 with hr | ⟨e, he⟩
  · exact hr.symm
  · cases he

theorem writesStanding_after {s : Store.Call} {a : s.Answer} {st : Standing}
    (h : Answers (.store s) w (.ok a) w')
    (hbecomes : w.table.Becomes (s.perform w.table).2 id st) : w.WritesStanding w' id st := by
  obtain ⟨_, rfl⟩ := h
  exact ⟨hbecomes, ⟨.store s, .ok a⟩, rfl, rfl⟩

theorem Answers.created (hs : w.Sound) (hreq : job.request.id = job.correlationId)
    (h : Answers (.store (.create job)) w (.ok ()) w') :
    w.standing? job.id = none ∧ w.WritesStanding w' job.id job.standing := by
  have hperform := h.perform_eq
  cases hcreate : w.table.create job with
  | error e => simp [Store.Call.perform, hcreate, Store.Call.written] at hperform
  | ok t =>
      obtain ⟨hnone, hbecomes⟩ := Store.Table.create_ok hs.table hreq hcreate
      refine ⟨hnone, writesStanding_after h ?_⟩
      simpa [Store.Call.perform, hcreate, Store.Call.written] using hbecomes

theorem Answers.updated (hs : w.Sound) (h : Answers (.store (.update job)) w (.ok ()) w') :
    ∃ st, w.standing? job.id = some st ∧ w.WritesStanding w' job.id (st.inState job.state) := by
  have hperform := h.perform_eq
  cases hupdate : w.table.update job with
  | error e => simp [Store.Call.perform, hupdate, Store.Call.written] at hperform
  | ok t =>
      obtain ⟨st, hst, hbecomes⟩ := Store.Table.update_ok hs.table hupdate
      refine ⟨st, hst, writesStanding_after h ?_⟩
      simpa [Store.Call.perform, hupdate, Store.Call.written] using hbecomes

theorem Answers.swapped {expected : JobState} (hs : w.Sound)
    (h : Answers (.store (.updateIfState job expected)) w (.ok true) w') :
    ∃ st, w.standing? job.id = some st ∧ st.state = expected ∧
      w.WritesStanding w' job.id (st.inState job.state) := by
  have hhit : (w.table.updateIfState job expected).1 = true :=
    Except.ok.inj h.perform_eq
  obtain ⟨st, hst, hstate, hbecomes⟩ :=
    Store.Table.updateIfState_hit hs.table (Prod.ext hhit rfl)
  exact ⟨st, hst, hstate, writesStanding_after h hbecomes⟩

theorem Answers.onlyJournaled_of_miss {expected : JobState}
    (h : Answers (.store (.updateIfState job expected)) w (.ok false) w') : w.OnlyJournaled w' := by
  have hmiss : (w.table.updateIfState job expected).1 = false :=
    Except.ok.inj h.perform_eq
  have htable : (w.table.updateIfState job expected).2 = w.table :=
    Store.Table.updateIfState_miss (Prod.ext hmiss rfl)
  obtain ⟨_, rfl⟩ := h
  refine onlyJournaled_after ?_ rfl
  change { w with table := (w.table.updateIfState job expected).2 } = w
  rw [htable]

/-! ## Rules for calls -/

section Rules

variable {α : Type} {p : Share} {Q : α → World → Prop}

theorem unnoticed_of_quiet (p : Share) (hc : Quiet c) : p.terms.Unnoticed c := by
  intro w r w' hs hans
  have hnoted := Answers.onlyJournaled hc hans
  exact ⟨⟨hnoted.legal.advances, p.asks_onlyJournaled hnoted⟩, hnoted.sound hs,
    hnoted.legal, p.grants_onlyJournaled hnoted⟩

theorem wp_quiet {next : c.Reply → Activity α} (hc : Quiet c)
    (h : ∀ r w', p.terms.rely w w' → w'.Sound → p.terms.wp (next r) Q w') :
    p.terms.wp (.call c next) Q w :=
  (unnoticed_of_quiet p hc).wp h

theorem wpOk_quiet {g : c.Reply → Operation α} (hc : Quiet c)
    (h : ∀ r w', p.terms.rely w w' → w'.Sound → p.terms.wpOk (g r) Q w') :
    p.terms.wpOk (ask c >>= g) Q w :=
  wp_quiet hc h

theorem wpOk_checkCount {job : Job} {outcome : FlowOutcome} {g : Unit → Operation α}
    (h : ∀ w', p.terms.rely w w' → p.terms.wpOk (g ()) Q w') :
    p.terms.wpOk (Cycle.checkCount job outcome >>= g) Q w :=
  Discipline.wpOk_iff.2 (Discipline.wpOr_checkCount
    (fun _ => Discipline.wpOk_iff.1 (wpOk_quiet trivial fun _ w' hrely _ => h w' hrely))
    (Discipline.wpOk_iff.1 (h w (p.terms.rely_refl w))))

theorem wpOk_quiet_last {Q : c.Reply → World → Prop} (hc : Quiet c)
    (h : ∀ r w', p.terms.rely w w' → w'.Sound → Q r w') : p.terms.wpOk (ask c) Q w := by
  refine wp_quiet hc fun r w' hrely _ => ?_
  intro w'' hrely' hs b hb
  cases hb
  exact h r w'' (p.terms.rely_trans hrely hrely') hs

theorem wp_read {s : Store.Call} {next : Except JobError s.Answer → Activity α}
    (hc : Quiet (.store s))
    (h : ∀ r w', p.terms.rely w w' → w'.Sound →
      (∀ a, r = .ok a → (s.perform w'.table).1 = .ok a) → p.terms.wp (next r) Q w') :
    p.terms.wp (.call (.store s) next) Q w := by
  intro w₁ hrely hs r w₂ hans
  obtain ⟨hrely', hs', hguar⟩ := unnoticed_of_quiet p hc w₁ r w₂ hs hans
  refine ⟨hs', hguar, h r w₂ (p.terms.rely_trans hrely hrely') hs' ?_⟩
  rintro a rfl
  obtain ⟨_, _, heq⟩ := Answers.onlyJournaled hc hans
  rw [heq]
  exact hans.perform_eq

theorem wpOk_read {s : Store.Call} {g : s.Answer → Operation α} (hc : Quiet (.store s))
    (h : ∀ a w', p.terms.rely w w' → w'.Sound → (s.perform w'.table).1 = .ok a →
      p.terms.wpOk (g a) Q w') : p.terms.wpOk (store s >>= g) Q w := by
  refine wp_read hc fun r w' hrely hs hread => ?_
  match r with
  | .ok a => exact h a w' hrely hs (hread a rfl)
  | .error e => exact Discipline.wpOk_throw (.store e)

/-- A write is in order if the job is not awaited and may make the move, and the
others do not mind. -/
theorem wpOk_update {g : Unit → Operation α}
    (h : ∀ w₁, p.terms.rely w w₁ → w₁.Sound → ∀ st, w₁.standing? job.id = some st →
      Standing.Follows (some st) (some (st.inState job.state)) ∧ job.id ∉ w₁.awaited ∧
      ∀ w₂, w₁.WritesStanding w₂ job.id (st.inState job.state) → p.grants w₁ w₂ ∧
        (w₂.Sound → (⟨.store (.update job), .ok ()⟩ : Exchange) ∈ w₂.journal →
          p.terms.wpOk (g ()) Q w₂)) :
    p.terms.wpOk (store (.update job) >>= g) Q w := by
  refine Discipline.wpOk_store fun w₁ hrely hs r w₂ hans => ?_
  match r with
  | .error e =>
      have hnoted := Answers.onlyJournaled_of_error hans
      exact ⟨hnoted.sound hs, ⟨hnoted.legal, p.grants_onlyJournaled hnoted⟩, by rintro a ⟨⟩⟩
  | .ok () =>
      obtain ⟨st, hst, hwrites⟩ := Answers.updated hs hans
      obtain ⟨hfollows, hnot, hafter⟩ := h w₁ hrely hs st hst
      obtain ⟨hgrants, hnext⟩ := hafter w₂ hwrites
      rw [← hst] at hfollows
      have hs₂ := hwrites.sound hs hfollows hnot
      refine ⟨hs₂, ⟨hwrites.legal hfollows, hgrants⟩, fun a _ => hnext hs₂ ?_⟩
      rw [hans.2]
      exact List.mem_cons_self

/-- A write over a state is in order if a job in that state may make the move, and
the others do not mind. -/
theorem wp_swap {expected : JobState} {next : Except JobError Bool → Activity α}
    (hexpected : expected ≠ .provisioning)
    (h : ∀ w₁, p.terms.rely w w₁ → w₁.Sound → ∀ st, w₁.standing? job.id = some st →
      st.state = expected →
      Standing.Follows (some st) (some (st.inState job.state)) ∧
      ∀ w₂, w₁.WritesStanding w₂ job.id (st.inState job.state) → p.grants w₁ w₂ ∧
        (w₂.Sound → p.terms.wp (next (.ok true)) Q w₂))
    (hmiss : ∀ r w', p.terms.rely w w' → w'.Sound → r ≠ .ok true →
      p.terms.wp (next r) Q w') :
    p.terms.wp (.call (.store (.updateIfState job expected)) next) Q w := by
  intro w₁ hrely hs r w₂ hans
  by_cases hr : r = .ok true
  · subst hr
    obtain ⟨st, hst, hstate, hwrites⟩ := Answers.swapped hs hans
    obtain ⟨hfollows, hafter⟩ := h w₁ hrely hs st hst hstate
    obtain ⟨hgrants, hnext⟩ := hafter w₂ hwrites
    have hnot : job.id ∉ w₁.awaited := by
      intro hid
      obtain ⟨st', hst', hprov⟩ := hs.awaited job.id hid
      rw [hst] at hst'
      cases hst'
      exact hexpected (hstate.symm.trans hprov)
    rw [← hst] at hfollows
    have hs₂ := hwrites.sound hs hfollows hnot
    exact ⟨hs₂, ⟨hwrites.legal hfollows, hgrants⟩, hnext hs₂⟩
  · have hnoted : w₁.OnlyJournaled w₂ := by
      match r with
      | .ok true => exact absurd rfl hr
      | .ok false => exact Answers.onlyJournaled_of_miss hans
      | .error e => exact Answers.onlyJournaled_of_error hans
    have hrely' : p.terms.rely w₁ w₂ := ⟨hnoted.legal.advances, p.asks_onlyJournaled hnoted⟩
    exact ⟨hnoted.sound hs, ⟨hnoted.legal, p.grants_onlyJournaled hnoted⟩,
      hmiss r w₂ (p.terms.rely_trans hrely hrely') (hnoted.sound hs) hr⟩

theorem wpOk_swap {expected : JobState} {g : Bool → Operation α}
    (hexpected : expected ≠ .provisioning)
    (h : ∀ w₁, p.terms.rely w w₁ → w₁.Sound → ∀ st, w₁.standing? job.id = some st →
      st.state = expected →
      Standing.Follows (some st) (some (st.inState job.state)) ∧
      ∀ w₂, w₁.WritesStanding w₂ job.id (st.inState job.state) → p.grants w₁ w₂ ∧
        (w₂.Sound → p.terms.wpOk (g true) Q w₂))
    (hmiss : ∀ w', p.terms.rely w w' → w'.Sound → p.terms.wpOk (g false) Q w') :
    p.terms.wpOk (store (.updateIfState job expected) >>= g) Q w := by
  refine wp_swap hexpected h fun r w' hrely hs hr => ?_
  match r with
  | .ok true => exact absurd rfl hr
  | .ok false => exact hmiss w' hrely hs
  | .error e => exact Discipline.wpOk_throw (.store e)

end Rules

end Ferry.Service
