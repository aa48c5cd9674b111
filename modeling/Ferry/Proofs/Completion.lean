import Ferry.Completion
import Ferry.Proofs.Metrics
import Mathlib.Data.List.Induction

/-!
# Asking until one says yes

The checker of a kind is the one that was registered for it last. When a job is asked about,
its resources are gone through in order: those that nobody looks at are passed over, and the
first yes ends it. There are no other ways to go on, so whatever is said of the outcome is
one induction with a case for each of them (`examine_ind`).

To the verdict neither the order of the resources nor those that are passed over matter. What
they do decide is who is asked, and by that what is counted. The questions are not only what
is written down of them: another answer of someone who is not asked would change nothing
(`examine_congr`).
-/

namespace Ferry.Checkers

variable {χ : Type}

/-! ## The registry -/

/-- No registration for the kind comes after the one of this checker. -/
def Latest (registrations : List (String × χ)) (kind : String) (checker : χ) : Prop :=
  ∃ before after, registrations = before ++ (kind, checker) :: after ∧ ∀ e ∈ after, e.1 ≠ kind

/-- A registration puts a checker in the place of the one before it, and leaves the others. -/
theorem find?_register (c : Checkers χ) (kind k : String) (checker : χ) :
    (c.register kind checker).find? k = if kind = k then some checker else c.find? k := by
  rw [find?, register, List.find?_append]
  by_cases hk : kind = k
  · subst hk
    have hgone : (c.entries.filter fun e => e.1 != kind).find? (fun e => e.1 == kind) = none :=
      List.find?_eq_none.2 fun e he => by simpa using (List.mem_filter.1 he).2
    simp [hgone]
  · have hkept : (fun e : String × χ => decide ((e.1 != kind) = true ∧ (e.1 == k) = true)) =
        fun e => e.1 == k := by
      funext e
      by_cases he : e.1 = k
      · simp [he, Ne.symm hk]
      · simp [he]
    rw [List.find?_filter, hkept, if_neg hk, find?]
    simp [hk]

theorem ofList_concat (registrations : List (String × χ)) (e : String × χ) :
    ofList (registrations ++ [e]) = (ofList registrations).register e.1 e.2 := by
  rw [ofList, List.foldl_append]
  rfl

/-- A look-up goes through the registrations from the last one backwards. -/
theorem find?_ofList (registrations : List (String × χ)) (kind : String) :
    (ofList registrations).find? kind =
      (registrations.reverse.find? fun e => e.1 == kind).map (·.2) := by
  induction registrations using List.reverseRecOn with
  | nil => rfl
  | append_singleton registrations e ih =>
      -- The new registration is the first one to be met backwards.
      rw [ofList_concat, find?_register, ih, List.reverse_concat, List.find?_cons]
      by_cases he : e.1 = kind
      · simp [he]
      · simp [he, beq_false_of_ne he]

theorem find?_ofList_eq_some_iff {registrations : List (String × χ)} {kind : String}
    {checker : χ} :
    (ofList registrations).find? kind = some checker ↔ Latest registrations kind checker := by
  rw [find?_ofList, Option.map_eq_some_iff]
  constructor
  · rintro ⟨⟨k, checker⟩, hfound, rfl⟩
    obtain ⟨hkind, after, before, hsplit, hafter⟩ := List.find?_eq_some_iff_append.1 hfound
    obtain rfl : k = kind := beq_iff_eq.1 hkind
    refine ⟨before.reverse, after.reverse, ?_, fun e he => ?_⟩
    · rw [← List.reverse_reverse registrations, hsplit]
      simp
    · simpa using hafter e (List.mem_reverse.1 he)
  · rintro ⟨before, after, rfl, hafter⟩
    refine ⟨(kind, checker), List.find?_eq_some_iff_append.2 ⟨beq_self_eq_true kind,
      after.reverse, before.reverse, by simp, fun e he => ?_⟩, rfl⟩
    simpa using hafter e (List.mem_reverse.1 he)

theorem find?_ofList_eq_none_iff {registrations : List (String × χ)} {kind : String} :
    (ofList registrations).find? kind = none ↔ kind ∉ registrations.map (·.1) := by
  rw [find?_ofList, Option.map_eq_none_iff, List.find?_eq_none, List.mem_map]
  constructor
  · rintro h ⟨e, he, rfl⟩
    exact h e (List.mem_reverse.2 he) (beq_self_eq_true e.1)
  · intro h e he hkind
    exact h ⟨e, List.mem_reverse.1 he, beq_iff_eq.1 hkind⟩

/-! ## Going through the resources -/

/-- The checker that is asked about a resource, if it is a destination. -/
def checkerFor (c : Checkers χ) (r : ProvisionedResource) : Option χ :=
  if r.isDestination then c.find? r.kind else none

variable {c : Checkers χ} {answer : χ → ProvisionedResource → Bool}

theorem checkerFor_eq_some_iff {r : ProvisionedResource} {checker : χ} :
    c.checkerFor r = some checker ↔
      r.isDestination = true ∧ c.find? r.kind = some checker := by
  rw [checkerFor]
  cases r.isDestination <;> simp

theorem examine_cons (r : ProvisionedResource) (rest : List ProvisionedResource) :
    c.examine answer (r :: rest) =
      match c.checkerFor r with
      | none => c.examine answer rest
      | some checker =>
        if answer checker r then (true, [(checker, r, true)])
        else ((c.examine answer rest).1, (checker, r, false) :: (c.examine answer rest).2) :=
  rfl

/-- A resource is passed over, or the yes of its checker is the end, or it is pending and
the rest decides. -/
@[elab_as_elim]
theorem examine_ind
    {motive : List ProvisionedResource → Bool × List (χ × ProvisionedResource × Bool) → Prop}
    (nil : motive [] (false, []))
    (passed : ∀ r rest found, c.checkerFor r = none → motive rest found →
      motive (r :: rest) found)
    (yes : ∀ r rest checker, c.checkerFor r = some checker → answer checker r = true →
      motive (r :: rest) (true, [(checker, r, true)]))
    (pending : ∀ r rest checker complete asked, c.checkerFor r = some checker →
      answer checker r = false → motive rest (complete, asked) →
      motive (r :: rest) (complete, (checker, r, false) :: asked))
    (rs : List ProvisionedResource) : motive rs (c.examine answer rs) := by
  induction rs with
  | nil => exact nil
  | cons r rest ih =>
      rw [examine_cons]
      cases hchecker : c.checkerFor r with
      | none => exact passed r rest _ hchecker ih
      | some checker =>
          dsimp only
          cases hanswer : answer checker r with
          | true => exact yes r rest checker hchecker hanswer
          | false => exact pending r rest checker _ _ hchecker hanswer ih

theorem examine_iff (c : Checkers χ) (answer : χ → ProvisionedResource → Bool)
    (rs : List ProvisionedResource) : (c.examine answer rs).1 = true ↔
      ∃ r ∈ rs, ∃ checker, c.checkerFor r = some checker ∧ answer checker r = true := by
  refine examine_ind ?nil ?passed ?yes ?pending rs
  case nil => simp
  case passed =>
    intro r rest found hnone ih
    simp [ih, hnone]
  case yes =>
    intro r rest checker hsome hyes
    simp [hsome, hyes]
  case pending =>
    intro r rest checker complete asked hsome hno ih
    simp [hsome, hno, ih]

/-- The answers to the questions that are asked decide which these are. -/
theorem examine_congr {answer' : χ → ProvisionedResource → Bool} {rs : List ProvisionedResource}
    (h : ∀ q ∈ (c.examine answer rs).2, answer' q.1 q.2.1 = q.2.2) :
    c.examine answer' rs = c.examine answer rs := by
  revert h
  refine examine_ind ?nil ?passed ?yes ?pending rs
  case nil => exact fun _ => rfl
  case passed =>
    intro r rest found hnone ih h
    rw [examine_cons, hnone]
    exact ih h
  case yes =>
    intro r rest checker hsome _ h
    have hyes : answer' checker r = true := h _ (List.mem_singleton_self _)
    simp [examine_cons, hsome, hyes]
  case pending =>
    intro r rest checker complete asked hsome _ ih h
    rw [List.forall_mem_cons] at h
    simp [examine_cons, hsome, h.1, ih h.2]

/-! ## What is asked -/

/-- A destination of a kind that somebody was registered for. -/
def Eligible (registrations : List (String × χ)) (r : ProvisionedResource) : Prop :=
  r.isDestination = true ∧ r.kind ∈ registrations.map (·.1)

instance (registrations : List (String × χ)) : DecidablePred (Eligible registrations) :=
  fun r => inferInstanceAs (Decidable (r.isDestination = true ∧ _))

section Registered

variable {registrations : List (String × χ)} {r : ProvisionedResource} {checker : χ}

theorem checkerFor_ofList_eq_some_iff : (ofList registrations).checkerFor r = some checker ↔
    r.isDestination = true ∧ Latest registrations r.kind checker := by
  rw [checkerFor_eq_some_iff, find?_ofList_eq_some_iff]

theorem checkerFor_ofList_eq_none_iff :
    (ofList registrations).checkerFor r = none ↔ ¬ Eligible registrations r := by
  rw [checkerFor, Eligible, not_and, ← find?_ofList_eq_none_iff]
  cases r.isDestination <;> simp

theorem eligible_of_checkerFor (h : (ofList registrations).checkerFor r = some checker) :
    Eligible registrations r := by
  by_contra hnot
  rw [checkerFor_ofList_eq_none_iff.2 hnot] at h
  cases h

end Registered

/-- The questions about these resources. All who can be asked are asked in turn, unless one
says yes, and after him nobody is. -/
structure Asked (registrations : List (String × χ)) (answer : χ → ProvisionedResource → Bool)
    (rs : List ProvisionedResource) (asked : List (χ × ProvisionedResource × Bool)) : Prop where
  latest : ∀ q ∈ asked, Latest registrations q.2.1.kind q.1
  answered : ∀ q ∈ asked, q.2.2 = answer q.1 q.2.1
  inTurn : asked.map (·.2.1) <+: rs.filter (Eligible registrations)
  pending : ∀ q ∈ asked.dropLast, q.2.2 = false
  stopped : asked.map (·.2.1) ≠ rs.filter (Eligible registrations) →
    ∃ q, asked.getLast? = some q ∧ q.2.2 = true

section

variable {registrations : List (String × χ)} {r : ProvisionedResource}
  {rest : List ProvisionedResource} {checker : χ} {asked : List (χ × ProvisionedResource × Bool)}

theorem asked_nil : Asked registrations answer [] [] where
  latest := nofun
  answered := nofun
  inTurn := List.nil_prefix
  pending := nofun
  stopped h := absurd rfl h

theorem Asked.passed (hr : ¬ Eligible registrations r)
    (h : Asked registrations answer rest asked) :
    Asked registrations answer (r :: rest) asked := by
  have hfilter : (r :: rest).filter (Eligible registrations) =
      rest.filter (Eligible registrations) := List.filter_cons_of_neg (by simpa using hr)
  exact ⟨h.latest, h.answered, hfilter ▸ h.inTurn, h.pending, hfilter ▸ h.stopped⟩

theorem filter_eligible_cons (h : (ofList registrations).checkerFor r = some checker) :
    (r :: rest).filter (Eligible registrations) =
      r :: rest.filter (Eligible registrations) :=
  List.filter_cons_of_pos (by simpa using eligible_of_checkerFor h)

theorem asked_yes (hchecker : (ofList registrations).checkerFor r = some checker)
    (hyes : answer checker r = true) :
    Asked registrations answer (r :: rest) [(checker, r, true)] where
  latest := by simpa using (checkerFor_ofList_eq_some_iff.1 hchecker).2
  answered := by simp [hyes]
  inTurn := by
    rw [filter_eligible_cons hchecker]
    exact ⟨_, rfl⟩
  pending := nofun
  stopped _ := ⟨_, rfl, rfl⟩

theorem Asked.pendingAt (h : Asked registrations answer rest asked)
    (hchecker : (ofList registrations).checkerFor r = some checker)
    (hno : answer checker r = false) :
    Asked registrations answer (r :: rest) ((checker, r, false) :: asked) where
  latest := List.forall_mem_cons.2 ⟨(checkerFor_ofList_eq_some_iff.1 hchecker).2, h.latest⟩
  answered := List.forall_mem_cons.2 ⟨hno.symm, h.answered⟩
  inTurn := by
    rw [filter_eligible_cons hchecker]
    exact List.cons_prefix_cons.2 ⟨rfl, h.inTurn⟩
  pending := by
    -- The new question is not the last one if others follow, and it did not end in a yes.
    cases asked with
    | nil => nofun
    | cons q asked =>
        rw [List.dropLast_cons_cons]
        exact List.forall_mem_cons.2 ⟨rfl, h.pending⟩
  stopped hne := by
    rw [filter_eligible_cons hchecker] at hne
    obtain ⟨q, hlast, hyes⟩ := h.stopped fun heq => hne (by rw [List.map_cons, heq])
    exact ⟨q, by rw [List.getLast?_cons, hlast]; rfl, hyes⟩

end

theorem asked_examine (registrations : List (String × χ))
    (answer : χ → ProvisionedResource → Bool) (rs : List ProvisionedResource) :
    Asked registrations answer rs ((ofList registrations).examine answer rs).2 := by
  refine examine_ind ?nil ?passed ?yes ?pending rs
  case nil => exact asked_nil
  case passed =>
    exact fun r rest found hnone ih => ih.passed (checkerFor_ofList_eq_none_iff.1 hnone)
  case yes => exact fun r rest checker => asked_yes
  case pending =>
    exact fun r rest checker complete asked hchecker hno ih => ih.pendingAt hchecker hno

/-! ## Resources that are alike -/

/-- The same resources in another order, or with more or fewer of those that nobody looks at. -/
inductive Alike (registrations : List (String × χ)) :
    List ProvisionedResource → List ProvisionedResource → Prop where
  | reordered {rs rs' : List ProvisionedResource} (h : rs.Perm rs') : Alike registrations rs rs'
  | added {r : ProvisionedResource} (h : ¬ Eligible registrations r)
      (before after : List ProvisionedResource) :
      Alike registrations (before ++ after) (before ++ r :: after)
  | symm {rs rs' : List ProvisionedResource} (h : Alike registrations rs rs') :
      Alike registrations rs' rs
  | trans {rs₁ rs₂ rs₃ : List ProvisionedResource} (h₁ : Alike registrations rs₁ rs₂)
      (h₂ : Alike registrations rs₂ rs₃) : Alike registrations rs₁ rs₃

theorem Alike.mem_iff {registrations : List (String × χ)} {rs rs' : List ProvisionedResource}
    (h : Alike registrations rs rs') {r : ProvisionedResource}
    (hr : Eligible registrations r) : r ∈ rs ↔ r ∈ rs' := by
  induction h with
  | reordered h => exact h.mem_iff
  | @added other hnot before after =>
      have hne : r ≠ other := fun heq => hnot (heq ▸ hr)
      simp [hne]
  | symm _ ih => exact ih.symm
  | trans _ _ ih₁ ih₂ => exact ih₁.trans ih₂

theorem examine_alike {registrations : List (String × χ)} {rs rs' : List ProvisionedResource}
    (h : Alike registrations rs rs') (answer : χ → ProvisionedResource → Bool) :
    ((ofList registrations).examine answer rs').1 =
      ((ofList registrations).examine answer rs).1 := by
  have hcarried : ∀ {rs rs'}, Alike registrations rs rs' →
      ((ofList registrations).examine answer rs).1 = true →
      ((ofList registrations).examine answer rs').1 = true := by
    intro rs rs' halike hcomplete
    obtain ⟨r, hr, checker, hchecker, hyes⟩ := (examine_iff _ _ _).1 hcomplete
    have hr' : r ∈ rs' := (halike.mem_iff (eligible_of_checkerFor hchecker)).1 hr
    exact (examine_iff _ _ _).2 ⟨r, hr', checker, hchecker, hyes⟩
  exact Bool.eq_iff_iff.2 ⟨hcarried h.symm, hcarried h⟩

/-! ## What is counted -/

/-- The checks that ended like this have a counter of their own on a scrape. -/
theorem shows_check_iff (c : Counter) (complete : Bool) :
    c.family = "courier_completion_checks_total" ∧
      c.label = ("result", if complete then "complete" else "pending") ↔
    Counter.completionChecks complete = c := by
  constructor
  · rintro ⟨hfamily, hlabel⟩
    cases c with
    | completionChecks b => cases b <;> cases complete <;> simp_all [Counter.label]
    | _ => simp [Counter.family] at hfamily
  · rintro rfl
    exact ⟨rfl, rfl⟩

/-- The verdict is that some eligible resource is complete in the eyes of the checker that
was registered last for its kind. It is the same for resources that are alike. Those who are
asked are asked in turn up to the first yes, nobody else's answer is used, and each answer
adds one to what a scrape shows of its kind and nothing to any other counter. -/
theorem polled_as_registered (registrations : List (String × χ))
    (answer : χ → ProvisionedResource → Bool) (job : Job) (m : Metrics) :
    let found := (ofList registrations).poll answer job m
    (found.complete = true ↔ ∃ r ∈ job.resources, r.isDestination = true ∧
      ∃ checker, Latest registrations r.kind checker ∧ answer checker r = true) ∧
    (∀ resources m', Alike registrations job.resources resources →
      ((ofList registrations).poll answer { job with resources } m').complete = found.complete) ∧
    Asked registrations answer job.resources found.asked ∧
    (∀ answer', (∀ q ∈ found.asked, answer' q.1 q.2.1 = q.2.2) →
      (ofList registrations).poll answer' job m = found) ∧
    ∀ c : Counter, found.metrics.count c = m.count c + found.asked.countP fun q =>
      c.family = "courier_completion_checks_total" ∧
        c.label = ("result", if q.2.2 then "complete" else "pending") := by
  refine ⟨?verdict, ?alike, asked_examine _ _ _, ?others, fun c => ?counted⟩
  case verdict =>
    have hverdict := examine_iff (ofList registrations) answer job.resources
    simp only [checkerFor_ofList_eq_some_iff, and_assoc, exists_and_left] at hverdict
    exact hverdict
  case alike => exact fun resources m' halike => examine_alike halike answer
  case others =>
    intro answer' h
    simp only [poll, examine_congr h]
  case counted =>
    simp only [shows_check_iff]
    exact Metrics.count_foldl_add m _ _ c

/-- Buckets got another checker after the one for disks. -/
def replaced : List (String × Nat) :=
  [("bucket", 0), ("disk", 1), ("bucket", 2)]

def place (id kind : String) (isDestination : Bool) : ProvisionedResource :=
  { id, definitionId := id, kind, isDestination }

/-- The data has arrived at `c`, and only the second checker of buckets sees it. -/
def seen (checker : Nat) (r : ProvisionedResource) : Bool :=
  checker = 2 && r.id = "c"

/-- Nobody looks at `b`, which is no destination. -/
def places : List ProvisionedResource :=
  [place "a" "disk" true, place "b" "bucket" false, place "c" "bucket" true,
    place "d" "bucket" true]

/-- Nobody looks at `t`, for whose kind there is no checker. -/
def otherPlaces : List ProvisionedResource :=
  [place "c" "bucket" true, place "d" "bucket" true, place "t" "tape" true,
    place "a" "disk" true]

/-- The disk is asked about and then `c`, but not `d`, so that it makes no difference whether
somebody would have said yes to `d`. In the other order the disk is not asked about. -/
theorem polled_places :
    let job : Job := { (default : Job) with resources := places }
    let found := (ofList replaced).poll seen job .empty
    Alike replaced places otherPlaces ∧
    found.complete = true ∧
    found.asked = [(1, place "a" "disk" true, false), (2, place "c" "bucket" true, true)] ∧
    found.metrics.count (.completionChecks false) = 1 ∧
    found.metrics.count (.completionChecks true) = 1 ∧
    (ofList replaced).poll (fun k r => seen k r || r.id = "d") job .empty = found ∧
    ((ofList replaced).poll seen { job with resources := otherPlaces } .empty).complete = true ∧
    ((ofList replaced).poll seen { job with resources := otherPlaces } .empty).asked =
      [(2, place "c" "bucket" true, true)] := by
  intro job found
  have halike : Alike replaced places otherPlaces :=
    .trans (.symm (.added (by decide) [place "a" "disk" true]
      [place "c" "bucket" true, place "d" "bucket" true])) <|
    .trans (.added (r := place "t" "tape" true) (by decide) [place "a" "disk" true] _)
      (.reordered (by decide))
  have hasked : found.asked =
      [(1, place "a" "disk" true, false), (2, place "c" "bucket" true, true)] := by decide
  obtain ⟨hverdict, hsame, -, hothers, hcounted⟩ :=
    polled_as_registered replaced seen job .empty
  have hcomplete : found.complete = true :=
    hverdict.2 ⟨place "c" "bucket" true, by decide, rfl, 2,
      ⟨[("bucket", 0), ("disk", 1)], [], rfl, nofun⟩, rfl⟩
  refine ⟨halike, hcomplete, hasked, ?_, ?_, hothers _ ?_, ?_, by decide⟩
  · rw [hcounted, hasked]
    rfl
  · rw [hcounted, hasked]
    rfl
  · rw [hasked]
    decide
  · rw [hsame otherPlaces .empty halike]
    exact hcomplete

end Ferry.Checkers
