import Ferry.Proofs.Service.InHand
import Ferry.Proofs.Service.Lifecycle

/-!
# Following a job through the service

What a program does with a job that it has in hand depends on the replies it gets, and
the replies depend on where the job stands in the table. Here the two are brought
together: as long as the provisioning of a job is not over, there is a hand that fits
both what the table says of the job and what is left of the worker's program, and after
each step there is one again (`Followed`).
-/

namespace Ferry.Service

open World

variable {w w' : World} {s s' : Service} {id : String} {c : Request} {m : Hand}

/-! ## The world and the hand -/

namespace World

/-- The table says that the job is being provisioned. -/
def Provisioning (w : World) (id : String) : Prop :=
  ∃ st, w.standing? id = some st ∧ st.state = .provisioning

/-- Provisioning is over. -/
def Past (w : World) (id : String) : Prop :=
  ∃ st, w.standing? id = some st ∧ st.state.PastProvisioning

theorem Past.advances (h : w.Past id) (ha : w.Advances w') : w'.Past id := by
  obtain ⟨st, hst, hpast⟩ := h
  obtain ⟨st', hst', hleads⟩ := ha id st hst
  exact ⟨st', hst', hleads.state.pastProvisioning hpast⟩

theorem Past.not_provisioning (h : w.Past id) : ¬ w.Provisioning id := by
  obtain ⟨st, hst, hpast⟩ := h
  rintro ⟨st', hst', hstate⟩
  obtain rfl : st = st' := Option.some.inj (hst.symm.trans hst')
  exact hpast.2 hstate

/-- A job that was being provisioned still is, or no longer. -/
theorem Provisioning.advances (h : w.Provisioning id) (ha : w.Advances w') :
    w'.Provisioning id ∨ w'.Past id := by
  obtain ⟨st, hst, hstate⟩ := h
  obtain ⟨st', hst', hleads⟩ := ha id st hst
  by_cases hstate' : st'.state = .provisioning
  · exact .inl ⟨st', hst', hstate'⟩
  · exact .inr ⟨st', hst', hleads.state.ne_initial (by rw [hstate]; decide), hstate'⟩

theorem Provisioning.congr (h : w.Provisioning id) (heq : w'.standing? id = w.standing? id) :
    w'.Provisioning id := by
  rwa [Provisioning, heq]

/-- Nobody else is at a job that the worker may write. -/
theorem Provisioning.owned (h : w.Provisioning id) (hawaited : id ∉ w.awaited)
    (hwriting : w.writing ≠ some id) : ∃ st, w.Owned id st ∧ st.state = .provisioning := by
  obtain ⟨st, hst, hstate⟩ := h
  exact ⟨st, ⟨hst, .inr (.inl ⟨hstate, hawaited, hwriting⟩)⟩, hstate⟩

theorem Owned.provisioning {st : Standing} (ho : w.Owned id st)
    (hstate : st.state = .provisioning) :
    w.Provisioning id ∧ id ∉ w.awaited ∧ w.writing ≠ some id := by
  refine ⟨⟨st, ho.standing, hstate⟩, ?_⟩
  rcases ho.share with hnew | ⟨-, hrest⟩ | ⟨-, hready | hready⟩
  · rw [hstate] at hnew; cases hnew
  · exact hrest
  · rw [hstate] at hready; cases hready
  · rw [hstate] at hready; cases hready

theorem standing?_of_not_touches {r : c.Reply} (hs : w.Sound) (h : Answers c w r w')
    (hc : ¬ c.Touches id) : w'.standing? id = w.standing? id := by
  cases c with
  | store s =>
      cases s with
      | create job => exact absurd trivial hc
      | update job =>
          cases r with
          | ok _ =>
              obtain ⟨st, -, hwrites⟩ := h.updated hs
              exact hwrites.standing?_of_ne (Ne.symm hc)
          | error e => exact congrFun h.onlyJournaled_of_error.standing?_eq id
      | updateIfState job expected =>
          match r with
          | .ok true =>
              obtain ⟨st, -, -, hwrites⟩ := h.swapped hs
              exact hwrites.standing?_of_ne (Ne.symm hc)
          | .ok false => exact congrFun h.onlyJournaled_of_miss.standing?_eq id
          | .error e => exact congrFun h.onlyJournaled_of_error.standing?_eq id
      | get _ | findId _ | next _ _ | count _ =>
          exact congrFun (h.onlyJournaled (by trivial)).standing?_eq id
  | provision job =>
      obtain ⟨-, rfl⟩ := h
      cases r <;> rfl
  | startFlow request =>
      obtain ⟨-, rfl⟩ := h
      cases r <;> rfl
  | send _ _ =>
      obtain ⟨-, rfl⟩ := h
      rfl
  | acknowledge _ _ | isComplete _ | now | freshId | count _ _ | isRunning | overflow =>
      exact congrFun (h.onlyJournaled (by trivial)).standing?_eq id

theorem writing_after (c : Request) (r : c.Reply) : (w.after c r).writing = w.writing := by
  cases c with
  | store _ | provision _ | startFlow _ => cases r <;> rfl
  | send _ _ | acknowledge _ _ | isComplete _ | now | freshId | count _ _
  | isRunning | overflow => rfl

theorem mem_asked_after {k : String} (h : k ∈ w.asked) (r : c.Reply) : k ∈ (w.after c r).asked := by
  cases c with
  | provision job =>
      cases r with
      | ok _ => exact List.mem_cons_of_mem _ h
      | error _ => exact h
  | store _ | startFlow _ => cases r <;> exact h
  | send _ _ | acknowledge _ _ | isComplete _ | now | freshId | count _ _
  | isRunning | overflow => exact h

theorem mem_inbox_after {response : ProvisionResponse} (h : response ∈ w.inbox) (r : c.Reply) :
    response ∈ (w.after c r).inbox := by
  cases c with
  | store _ | provision _ | startFlow _ => cases r <;> exact h
  | send _ _ | acknowledge _ _ | isComplete _ | now | freshId | count _ _
  | isRunning | overflow => exact h

theorem not_mem_awaited_after (h : id ∉ w.awaited) (hc : ¬ c.Touches id) (r : c.Reply) :
    id ∉ (w.after c r).awaited := by
  cases c with
  | provision job =>
      cases r with
      | ok _ => exact List.not_mem_cons_of_ne_of_not_mem (Ne.symm hc) h
      | error _ => exact h
  | store _ | startFlow _ => cases r <;> exact h
  | send _ _ | acknowledge _ _ | isComplete _ | now | freshId | count _ _
  | isRunning | overflow => exact h

end World

namespace Hand

/-- What the hand says of the job is so, and a job that the worker holds it alone may
write. -/
def Fits (w : World) (id : String) : Hand → Prop
  | untouched => ∀ st, w.standing? id = some st → st.state = .initial
  | holding => ∃ st, w.Owned id st ∧ st.state = .provisioning
  | handedOn => w.Provisioning id
  | astray => False

theorem Fits.ne_astray (h : m.Fits w id) : m ≠ astray := by
  rintro rfl
  exact h

theorem Fits.not_provisioning (h : untouched.Fits w id) : ¬ w.Provisioning id := by
  rintro ⟨st, hst, hstate⟩
  have hnew := h st hst
  rw [hstate] at hnew
  cases hnew

theorem credible_of_answers {r : c.Reply} (hs : w.Sound) (h : Answers c w r w')
    (hstate : ∀ st, w.standing? id = some st → st.state = m.state)
    (hthere : m = holding → w.Provisioning id) : m.Credible id c r := by
  cases c with
  | store s =>
      cases s with
      | next state limit =>
          cases r with
          | ok jobs =>
              obtain ⟨hdistinct, hjobs⟩ := Store.Table.next_ok hs.table h.perform_eq
              refine ⟨hdistinct, fun job hjob hid => ?_⟩
              obtain ⟨hread, hst, -⟩ := hjobs job hjob
              rw [← hread]
              exact hstate job.standing (hid ▸ hst)
          | error e => trivial
      | get k =>
          cases r with
          | ok found =>
              rintro rfl hm
              obtain ⟨st, hst, hprov⟩ := hthere hm
              cases found with
              | none =>
                  have hnone : w.standing? k = none :=
                    Store.Table.standing?_of_get_none h.perform_eq
                  rw [hst] at hnone
                  cases hnone
              | some job =>
                  obtain ⟨rfl, hjob, -⟩ := Store.Table.get_some hs.table h.perform_eq
                  obtain rfl : job.standing = st := Option.some.inj (hjob.symm.trans hst)
                  exact ⟨job, rfl, rfl, hprov⟩
          | error e => trivial
      | create _ | update _ | updateIfState _ _ | findId _ | count _ => cases r <;> trivial
  | provision _ | send _ _ | acknowledge _ _ | startFlow _ | isComplete _ | now | freshId
  | count _ _ | isRunning | overflow => trivial

theorem Fits.credible {r : c.Reply} (hf : m.Fits w id) (hs : w.Sound) (h : Answers c w r w') :
    m.Credible id c r := by
  refine credible_of_answers hs h (fun st hst => ?_) ?_
  · cases m with
    | untouched => exact hf st hst
    | holding =>
        obtain ⟨st', ho, hstate⟩ := hf
        obtain rfl : st = st' := Option.some.inj (hst.symm.trans ho.standing)
        exact hstate
    | handedOn =>
        obtain ⟨st', hst', hstate⟩ := hf
        obtain rfl : st = st' := Option.some.inj (hst.symm.trans hst')
        exact hstate
    | astray => exact hf.elim
  · rintro rfl
    obtain ⟨st, ho, hstate⟩ := hf
    exact (ho.provisioning hstate).1

/-- A new job stays new until its provisioning begins, and then it is the worker's. -/
theorem fits_after_untouched {r : c.Reply} (hf : untouched.Fits w id) (hs : w.Sound)
    (hpermits : untouched.Permits id c) (h : Answers c w r w') :
    (untouched.after id c r).Fits w' id := by
  by_cases htouches : c.Touches id
  · have hbegins : c.Begins id := hpermits htouches
    cases c with
    | store s =>
        cases s with
        | update job =>
            obtain ⟨rfl, hstate⟩ := hbegins
            cases r with
            | ok _ =>
                obtain ⟨st, hst, hwrites⟩ := h.updated hs
                have hnew : st.state = .initial := hf st hst
                rw [hstate] at hwrites
                have ho := owned_provisioning hs ⟨hst, .inl hnew⟩ hnew hwrites
                rw [show untouched.after job.id (.store (.update job)) (.ok ()) = holding from
                  if_pos rfl]
                exact ⟨_, ho, rfl⟩
            | error e =>
                refine fun st hst => hf st ?_
                rwa [h.onlyJournaled_of_error.standing?_eq] at hst
        | create _ | updateIfState _ _ | get _ | findId _ | next _ _ | count _ =>
            exact hbegins.elim
    | provision _ | send _ _ | acknowledge _ _ | startFlow _ | isComplete _ | now | freshId
    | count _ _ | isRunning | overflow => exact hbegins.elim
  · rw [after_of_not_touches (by simp) htouches]
    refine fun st hst => hf st ?_
    rwa [standing?_of_not_touches hs h htouches] at hst

/-- A job in the worker's hand stays there until it is handed on or its outcome is
stored. -/
theorem fits_after_holding {r : c.Reply} (hf : holding.Fits w id)
    (hpermits : holding.Permits id c) (h : Answers c w r w') (ha : w.Advances w') :
    (holding.after id c r).Fits w' id ∨ w'.Past id := by
  obtain ⟨st, ho, hstate⟩ := hf
  have hprov := (ho.provisioning hstate).1
  have hnoted : w.OnlyJournaled w' → holding.Fits w' id :=
    fun hn => ⟨st, hn.sparesWorker.owned id st ho, hstate⟩
  rcases hpermits with hharmless | hsees
  · rw [after_of_harmless hharmless]
    exact .inl (hnoted (h.onlyJournaled (quiet_of_harmless hharmless)))
  · cases c with
    | provision job =>
        cases r with
        | ok _ => exact hprov.advances ha
        | error e =>
            obtain ⟨-, rfl⟩ := h
            exact .inl (hnoted (onlyJournaled_after rfl rfl))
    | store s =>
        cases s with
        | get k =>
            cases r with
            | ok found => exact .inl (hnoted (h.onlyJournaled (by trivial)))
            | error e => exact hprov.advances ha
        | update job => cases r <;> exact hprov.advances ha
        | create _ | updateIfState _ _ | findId _ | next _ _ | count _ => exact hsees.elim
    | send _ _ | acknowledge _ _ | startFlow _ | isComplete _ | now | freshId | count _ _
    | isRunning | overflow => exact hsees.elim

/-- A call that the hand permits leads to a hand that fits again, or to the end of
provisioning. -/
theorem Fits.after {r : c.Reply} (hf : m.Fits w id) (hs : w.Sound) (hpermits : m.Permits id c)
    (h : Answers c w r w') (ha : w.Advances w') :
    (m.after id c r).Fits w' id ∨ w'.Past id := by
  cases m with
  | untouched => exact .inl (fits_after_untouched hf hs hpermits h)
  | holding => exact fits_after_holding hf hpermits h ha
  | handedOn =>
      rw [after_of_not_touches (by simp) hpermits.1]
      exact Provisioning.advances hf ha
  | astray => exact hf.elim

/-- What the others do does not change it either. -/
theorem Fits.spared (hf : m.Fits w id) (hlegal : w.Legal w') (hspares : w.SparesWorker w') :
    m.Fits w' id ∨ w'.Past id := by
  cases m with
  | untouched =>
      refine .inl fun st' hst' => ?_
      cases hst : w.standing? id with
      | none =>
          have hfollows := hlegal id
          rw [hst, hst'] at hfollows
          cases hfollows
          rfl
      | some st =>
          have ho := hspares.owned id st ⟨hst, .inl (hf st hst)⟩
          obtain rfl : st = st' := Option.some.inj (ho.standing.symm.trans hst')
          exact hf st hst
  | holding =>
      obtain ⟨st, ho, hstate⟩ := hf
      exact .inl ⟨st, hspares.owned id st ho, hstate⟩
  | handedOn => exact Provisioning.advances hf hlegal.advances
  | astray => exact hf.elim

end Hand

/-! ## Steps, as the worker and the writer see them -/

theorem step_worker (h : InOrder s) (hstep : Step s s') :
    (∃ config report, s.worker = .done report ∧ s' = { s with worker := (cycle config).run }) ∨
    (∃ c next r, s.worker = .call c next ∧ s.world.Admits c r ∧
      s' = { s with world := s.world.after c r, worker := next r }) ∨
    s' = { world := s.world.outlived } ∨
    (s'.worker = s.worker ∧ s.world.SparesWorker s'.world) := by
  cases hstep with
  | begin config idle => exact .inl ⟨config, _, idle, rfl⟩
  | work turn r admits => exact .inr (.inl ⟨_, _, r, turn, admits, rfl⟩)
  | restart => exact .inr (.inr (.inl rfl))
  | write turn r admits =>
      have hwriter := h.writer
      rw [turn] at hwriter
      exact .inr (.inr (.inr ⟨rfl, (Discipline.wp_call hwriter h.sound ⟨admits, rfl⟩).2.1.2⟩))
  | @serve before after errand c next turn r admits =>
      have htask := h.tasks ⟨errand, .call c next⟩ (by simp [turn])
      exact .inr (.inr (.inr
        ⟨rfl, (Discipline.wp_call htask h.sound ⟨admits, rfl⟩).2.1.2.1⟩))
  | @publish before after id outcome asked =>
      refine .inr (.inr (.inr ⟨rfl, sparesWorker_handed (fun k hk => ?_) fun _ => .inr⟩))
      rw [awaited, asked]
      simp only [List.mem_append, List.map_append, List.mem_map, List.mem_cons,
        List.map_cons, List.map_nil, List.not_mem_nil] at hk ⊢
      tauto
  | @take response rest result idle inbox =>
      refine .inr (.inr (.inr ⟨rfl, sparesWorker_handed (fun k hk => ?_) fun k hk => .inl ?_⟩))
      · rw [awaited, inbox]
        simp only [List.mem_append, List.map_cons, List.mem_cons] at hk ⊢
        tauto
      · obtain rfl : response.jobId = k := Option.some.inj hk
        simp [awaited, inbox]
  | flowEnds failure rounds flows =>
      exact .inr (.inr (.inr
        ⟨rfl, fun _ _ ho => ⟨ho.standing, ho.share⟩, rfl, fun _ he => he⟩))
  | arrive errand outside => exact .inr (.inr (.inr ⟨rfl, .refl _⟩))

theorem step_writer (h : InOrder s) (hstep : Step s s') :
    (∃ response rest result, s.writer = .done result ∧ s.world.inbox = response :: rest ∧
      s' = { s with
        world := { s.world with inbox := rest, writing := some response.jobId },
        writer := (applyResponse response).run }) ∨
    (∃ c next r, s.writer = .call c next ∧ s.world.Admits c r ∧
      s' = { s with world := s.world.after c r, writer := next r }) ∨
    s' = { world := s.world.outlived } ∨
    (s'.writer = s.writer ∧ s.world.SparesWriter s'.world) := by
  cases hstep with
  | @take response rest result idle inbox =>
      exact .inl ⟨response, rest, result, idle, inbox, rfl⟩
  | write turn r admits => exact .inr (.inl ⟨_, _, r, turn, admits, rfl⟩)
  | restart => exact .inr (.inr (.inl rfl))
  | work turn r admits =>
      have hworker := h.worker
      rw [turn] at hworker
      exact .inr (.inr (.inr ⟨rfl, (Discipline.wp_call hworker h.sound ⟨admits, rfl⟩).2.1.2⟩))
  | @serve before after errand c next turn r admits =>
      have htask := h.tasks ⟨errand, .call c next⟩ (by simp [turn])
      exact .inr (.inr (.inr
        ⟨rfl, (Discipline.wp_call htask h.sound ⟨admits, rfl⟩).2.1.2.2⟩))
  | begin _ _ | publish _ _ | flowEnds _ _ _ | arrive _ _ =>
      exact .inr (.inr (.inr ⟨rfl, rfl, fun _ _ _ hst _ => hst⟩))

/-- Wherever the job stands, the worker and the writer deal with it as they should. -/
structure Followed (s : Service) (id : String) : Prop where
  worker : s.world.Past id ∨ ∃ m : Hand, m.Fits s.world id ∧
    (handling id).wp s.worker HoldsNothing m
  writer : s.world.writing = some id → s.world.Provisioning id →
    (handling id).wp s.writer HoldsNothing .holding ∨
      (handling id).wp s.writer HoldsNothing .handedOn

theorem holdsNothing_of_wp_done {α : Type} {a : α} (h : (handling id).wp (.done a) HoldsNothing m)
    (hm : m ≠ .astray) : m ≠ .holding :=
  h m rfl hm

theorem wp_done_of_free {α : Type} {a : α} (hm : m ≠ .holding) :
    (handling id).wp (.done a) HoldsNothing m := by
  rintro _ rfl _
  exact hm

theorem followed_empty (id : String) : Followed {} id where
  worker := .inr ⟨.untouched, by simp [Hand.Fits, standing?, Store.Table.standing?],
    wp_done_of_free (by simp)⟩
  writer := by simp

theorem followed_worker (h : InOrder s) (h' : InOrder s') (hlegal : s.world.Legal s'.world)
    (hf : Followed s id) (hstep : Step s s') :
    s'.world.Past id ∨ ∃ m : Hand, m.Fits s'.world id ∧
      (handling id).wp s'.worker HoldsNothing m := by
  obtain hpast | ⟨m, hfits, hwp⟩ := hf.worker
  · exact .inl (hpast.advances hlegal.advances)
  · rcases step_worker h hstep with ⟨config, report, idle, rfl⟩ | ⟨c, next, r, turn, admits, rfl⟩ |
      rfl | ⟨hworker, hspares⟩
    · rw [idle] at hwp
      exact .inr ⟨m, hfits, wp_cycle config (holdsNothing_of_wp_done hwp hfits.ne_astray)⟩
    · rw [turn] at hwp
      have hans : Answers c s.world r (s.world.after c r) := ⟨admits, rfl⟩
      obtain ⟨hpermits, hnext⟩ := permits_of_wp hwp hfits.ne_astray
      refine (hfits.after h.sound hpermits hans hlegal.advances).symm.imp_right fun hfits' => ?_
      exact ⟨_, hfits', hnext r (hfits.credible h.sound hans)⟩
    · -- what the worker held is in nobody's hand now
      cases m with
      | untouched => exact .inr ⟨.untouched, hfits, wp_done_of_free (by simp)⟩
      | holding =>
          obtain ⟨st, ho, hstate⟩ := hfits
          exact .inr ⟨.handedOn, ⟨st, ho.standing, hstate⟩, wp_done_of_free (by simp)⟩
      | handedOn => exact .inr ⟨.handedOn, hfits, wp_done_of_free (by simp)⟩
      | astray => exact hfits.elim
    · rw [hworker]
      exact (hfits.spared hlegal hspares).symm.imp_right fun hfits' => ⟨m, hfits', hwp⟩

/-- A job that the writer has taken up was being provisioned if it still is. -/
theorem provisioning_of_writing (hs : w.Sound) (hwriting : w.writing = some id)
    (ha : w.Advances w') (h : w'.Provisioning id) : w.Provisioning id := by
  obtain ⟨-, st, hst, hne⟩ := hs.writing id hwriting
  by_cases hstate : st.state = .provisioning
  · exact ⟨st, hst, hstate⟩
  · exact absurd h (Past.advances ⟨st, hst, hne, hstate⟩ ha).not_provisioning

/-- What the writer may be told of a job that it has taken up. -/
theorem credible_of_provisioning {r : c.Reply} (hs : w.Sound) (h : Answers c w r w')
    (hprov : w.Provisioning id) (hm : m.state = .provisioning) : m.Credible id c r := by
  refine Hand.credible_of_answers hs h (fun st hst => ?_) fun _ => hprov
  obtain ⟨st', hst', hstate⟩ := hprov
  obtain rfl : st = st' := Option.some.inj (hst.symm.trans hst')
  rw [hstate, hm]

theorem followed_writer (h : InOrder s) (hlegal : s.world.Legal s'.world) (hf : Followed s id)
    (hstep : Step s s') (hwriting : s'.world.writing = some id)
    (hprov : s'.world.Provisioning id) :
    (handling id).wp s'.writer HoldsNothing .holding ∨
      (handling id).wp s'.writer HoldsNothing .handedOn := by
  rcases step_writer h hstep with ⟨response, rest, result, -, -, rfl⟩ |
    ⟨c, next, r, turn, admits, rfl⟩ | rfl | ⟨hwriter, hspares⟩
  · obtain rfl := Option.some.inj hwriting
    exact .inl (wp_applyResponse response)
  · have hwriting : s.world.writing = some id := (writing_after c r).symm.trans hwriting
    have hprov := provisioning_of_writing h.sound hwriting hlegal.advances hprov
    have hans : Answers c s.world r (s.world.after c r) := ⟨admits, rfl⟩
    have hwp := hf.writer hwriting hprov
    rw [turn] at hwp
    rcases hwp with hwp | hwp
    · have hnext := (permits_of_wp hwp (by simp)).2 r
        (credible_of_provisioning h.sound hans hprov rfl)
      rcases Hand.after_holding id c r with hafter | hafter
      · exact .inl (hafter ▸ hnext)
      · exact .inr (hafter ▸ hnext)
    · obtain ⟨hpermits, hnext⟩ := permits_of_wp hwp (by simp)
      have hafter : Hand.handedOn.after id c r = .handedOn :=
        Hand.after_of_not_touches (by simp) hpermits.1 r
      exact .inr (hafter ▸ hnext r (credible_of_provisioning h.sound hans hprov rfl))
  · cases hwriting
  · rw [hspares.writing] at hwriting
    rw [hwriter]
    exact hf.writer hwriting (provisioning_of_writing h.sound hwriting hlegal.advances hprov)

theorem followed_step (h : InOrder s) (hf : Followed s id) (hstep : Step s s') :
    Followed s' id := by
  obtain ⟨h', hlegal⟩ := inOrder_step h hstep
  exact ⟨followed_worker h h' hlegal hf hstep, followed_writer h hlegal hf hstep⟩

end Ferry.Service
