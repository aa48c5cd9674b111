import Ferry.Orchestrator.Operation

/-!
# Programs among others

Between two calls of a program anybody may move the world. What can still be
said of the program is said under a discipline: what holds of every state, what
the others may do meanwhile (`rely`), and what each call of the program must not
do to them (`guarantee`).

`wp` is the weakest precondition under a discipline, by recursion on the
program. It asks each call for its guarantee and hands on the state the call
leaves; before the next call the others have had their turn, which is why a
precondition survives every move they may make (`wp_rely`). That is the whole
of the interference argument: a program whose `wp` holds keeps it while others
move, and loses nothing but one call by moving itself.

Of an operation `wpOr` tells what it answers and how it may fail. Mostly errors are
not of interest: an operation that failed has made all its calls within its
guarantee, and `wpOk` says of it nothing more.
-/

namespace Ferry

/-- The terms on which a program shares the world. -/
structure Discipline (S : Signature) (σ : Type) where
  /-- What holds of every state. -/
  inv : σ → Prop
  /-- The replies a call may get, and the states they leave. -/
  answers : (c : S.Call) → σ → S.Reply c → σ → Prop
  /-- What the others may do between two calls. -/
  rely : σ → σ → Prop
  /-- What a call must keep to. -/
  guarantee : σ → σ → Prop
  rely_refl : ∀ s, rely s s
  rely_trans : ∀ {s s' s''}, rely s s' → rely s' s'' → rely s s''

namespace Discipline

variable {S : Signature} {σ α β : Type} {D : Discipline S σ}

/-- From this state on, the program keeps to the discipline whatever the others
do, and what it answers fits. -/
def wp (D : Discipline S σ) : Program S α → (α → σ → Prop) → σ → Prop
  | .done a, Q, s => ∀ s', D.rely s s' → D.inv s' → Q a s'
  | .call c next, Q, s => ∀ s₁, D.rely s s₁ → D.inv s₁ → ∀ r s₂, D.answers c s₁ r s₂ →
      D.inv s₂ ∧ D.guarantee s₁ s₂ ∧ D.wp (next r) Q s₂

theorem wp_rely {p : Program S α} {Q : α → σ → Prop} {s s' : σ} (hrely : D.rely s s')
    (h : D.wp p Q s) : D.wp p Q s' := by
  cases p with
  | done a => exact fun s'' h' hinv => h s'' (D.rely_trans hrely h') hinv
  | call c next => exact fun s₁ h' hinv => h s₁ (D.rely_trans hrely h') hinv

/-- It is enough to look at the states the others may leave. -/
theorem wp_of_rely {p : Program S α} {Q : α → σ → Prop} {s : σ}
    (h : ∀ s', D.rely s s' → D.inv s' → D.wp p Q s') : D.wp p Q s := by
  cases p with
  | done a => exact fun s' hrely hinv => h s' hrely hinv s' (D.rely_refl s') hinv
  | call c next =>
      exact fun s₁ hrely hinv => h s₁ hrely hinv s₁ (D.rely_refl s₁) hinv

theorem wp_mono {p : Program S α} {Q Q' : α → σ → Prop} {s : σ}
    (hQ : ∀ a s', D.inv s' → Q a s' → Q' a s') (h : D.wp p Q s) : D.wp p Q' s := by
  induction p generalizing s with
  | done a => exact fun s' hrely hinv => hQ a s' hinv (h s' hrely hinv)
  | call c next ih =>
      intro s₁ hrely hinv r s₂ hans
      obtain ⟨hinv', hguar, hnext⟩ := h s₁ hrely hinv r s₂ hans
      exact ⟨hinv', hguar, ih r hnext⟩

/-- What fits when the program is done goes on to fit whatever the others do then. -/
theorem wp_stable {p : Program S α} {Q : α → σ → Prop} {s : σ} (h : D.wp p Q s) :
    D.wp p (fun a s' => ∀ s'', D.rely s' s'' → D.inv s'' → Q a s'') s := by
  induction p generalizing s with
  | done a => exact fun s' hrely _ s'' hrely' hinv => h s'' (D.rely_trans hrely hrely') hinv
  | call c next ih =>
      intro s₁ hrely hinv r s₂ hans
      obtain ⟨hinv', hguar, hnext⟩ := h s₁ hrely hinv r s₂ hans
      exact ⟨hinv', hguar, ih r hnext⟩

theorem wp_bind {p : Program S α} {f : α → Program S β} {Q : β → σ → Prop} {s : σ}
    (h : D.wp p (fun a s' => D.wp (f a) Q s') s) : D.wp (p.bind f) Q s := by
  induction p generalizing s with
  | done a => exact wp_of_rely h
  | call c next ih =>
      intro s₁ hrely hinv r s₂ hans
      obtain ⟨hinv', hguar, hnext⟩ := h s₁ hrely hinv r s₂ hans
      exact ⟨hinv', hguar, ih r hnext⟩

/-- Where a program does no more than the others may do, it too leaves what they may
leave. -/
theorem wp_and_rely (hguarantee : ∀ s s', D.guarantee s s' → D.rely s s') {p : Program S α}
    {Q : α → σ → Prop} {s : σ} (h : D.wp p Q s) :
    D.wp p (fun a s' => Q a s' ∧ D.rely s s') s := by
  suffices hfrom : ∀ s₀, D.rely s₀ s → D.wp p (fun a s' => Q a s' ∧ D.rely s₀ s') s from
    hfrom s (D.rely_refl s)
  induction p generalizing s with
  | done a => exact fun s₀ h₀ s' hrely hinv => ⟨h s' hrely hinv, D.rely_trans h₀ hrely⟩
  | call c next ih =>
      intro s₀ h₀ s₁ hrely hinv r s₂ hans
      obtain ⟨hinv', hguar, hnext⟩ := h s₁ hrely hinv r s₂ hans
      refine ⟨hinv', hguar, ih r hnext s₀ ?_⟩
      exact D.rely_trans (D.rely_trans h₀ hrely) (hguarantee s₁ s₂ hguar)

/-- One call of a program that keeps to the discipline. -/
theorem wp_call {c : S.Call} {next : S.Reply c → Program S α} {Q : α → σ → Prop} {s s' : σ}
    {r : S.Reply c} (h : D.wp (.call c next) Q s) (hinv : D.inv s)
    (hans : D.answers c s r s') : D.inv s' ∧ D.guarantee s s' ∧ D.wp (next r) Q s' :=
  h s (D.rely_refl s) hinv r s' hans

/-- The others may themselves have made such a call. -/
def Unnoticed (D : Discipline S σ) (c : S.Call) : Prop :=
  ∀ s r s', D.inv s → D.answers c s r s' → D.rely s s' ∧ D.inv s' ∧ D.guarantee s s'

theorem Unnoticed.wp {c : S.Call} {next : S.Reply c → Program S α} {Q : α → σ → Prop} {s : σ}
    (hc : D.Unnoticed c)
    (h : ∀ r s', D.rely s s' → D.inv s' → D.wp (next r) Q s') :
    D.wp (.call c next) Q s := by
  intro s₁ hrely hinv r s₂ hans
  obtain ⟨hrely', hinv', hguar⟩ := hc s₁ r s₂ hinv hans
  exact ⟨hinv', hguar, h r s₂ (D.rely_trans hrely hrely') hinv'⟩

/-! ## Runs -/

/-- The program was carried through while the others moved. -/
inductive Runs (D : Discipline S σ) : Program S α → σ → α → σ → Prop where
  | done {a : α} {s s' : σ} (rely : D.rely s s') (inv : D.inv s') : Runs D (.done a) s a s'
  | call {c : S.Call} {next : S.Reply c → Program S α} {s s₁ s₂ s' : σ} {r : S.Reply c} {a : α}
      (rely : D.rely s s₁) (inv : D.inv s₁) (answers : D.answers c s₁ r s₂)
      (rest : Runs D (next r) s₂ a s') : Runs D (.call c next) s a s'

theorem Runs.of_wp {p : Program S α} {Q : α → σ → Prop} {s s' : σ} {a : α}
    (h : D.Runs p s a s') (hwp : D.wp p Q s) : D.inv s' ∧ Q a s' := by
  induction h with
  | done rely inv => exact ⟨inv, hwp _ rely inv⟩
  | call rely inv answers _ ih => exact ih (hwp _ rely inv _ _ answers).2.2

/-- A call while nobody else is at work. -/
theorem runs_call {c : S.Call} {next : S.Reply c → Program S α} {s s₁ s' : σ} {a : α}
    (r : S.Reply c) (hinv : D.inv s) (h : D.answers c s r s₁) (rest : D.Runs (next r) s₁ a s') :
    D.Runs (.call c next) s a s' :=
  .call (D.rely_refl s) hinv h rest

/-- The others may have moved before the program began. -/
theorem Runs.of_rely {p : Program S α} {s s₁ s' : σ} {a : α} (hrely : D.rely s s₁)
    (h : D.Runs p s₁ a s') : D.Runs p s a s' := by
  cases h with
  | done rely inv => exact .done (D.rely_trans hrely rely) inv
  | call rely inv answers rest => exact .call (D.rely_trans hrely rely) inv answers rest

/-- A program that keeps to the discipline can be carried through alone. -/
theorem runs_alone {reply : (c : S.Call) → σ → S.Reply c × σ}
    (hreply : ∀ c s, D.answers c s (reply c s).1 (reply c s).2) {p : Program S α}
    {Q : α → σ → Prop} {s : σ} (hinv : D.inv s) (hwp : D.wp p Q s) :
    D.Runs p s (p.run reply s).1 (p.run reply s).2 := by
  induction p generalizing s with
  | done a => exact .done (D.rely_refl s) hinv
  | call c next ih =>
      obtain ⟨hinv', -, hnext⟩ := wp_call hwp hinv (hreply c s)
      exact runs_call _ hinv (hreply c s) (ih _ hinv' hnext)

/-! ## Operations -/

section Operations

variable {D : Discipline operationSignature σ} {E : OrchestratorError → σ → Prop}
  {Q : β → σ → Prop} {s : σ}

/-- From this state on the operation keeps to the discipline, and ends with an answer of which `Q`
holds or an error of which `E` holds. -/
def wpOr (D : Discipline operationSignature σ) (E : OrchestratorError → σ → Prop)
    (f : Operation α) (Q : α → σ → Prop) : σ → Prop :=
  D.wp f.run fun result s => match result with
    | .ok a => Q a s
    | .error e => E e s

theorem wpOr_of_rely {f : Operation β} (h : ∀ s', D.rely s s' → D.inv s' → D.wpOr E f Q s') :
    D.wpOr E f Q s :=
  wp_of_rely h

theorem wpOr_mono {f : Operation β} {Q' : β → σ → Prop}
    (hQ : ∀ b s', D.inv s' → Q b s' → Q' b s') (h : D.wpOr E f Q s) : D.wpOr E f Q' s := by
  refine wp_mono (fun result s' hinv hresult => ?_) h
  cases result with
  | ok b => exact hQ b s' hinv hresult
  | error e => exact hresult

/-- What fits goes on to fit whatever the others do then. -/
theorem wpOr_stable {f : Operation β} (h : D.wpOr E f Q s) :
    D.wpOr E f (fun b s' => ∀ s'', D.rely s' s'' → D.inv s'' → Q b s'') s := by
  refine wp_mono (fun result s' hinv hresult => ?_) (wp_stable h)
  cases result with
  | ok b => exact hresult
  | error e => exact hresult s' (D.rely_refl s') hinv

/-- Of the answers and the errors the same is said. -/
theorem wp_of_wpOr {f : Operation β} {P : σ → Prop} (h : D.wpOr (fun _ => P) f (fun _ => P) s) :
    D.wp f.run (fun _ => P) s := by
  refine wp_mono (fun result s' _ hresult => ?_) h
  cases result with
  | ok _ | error _ => exact hresult

theorem wpOr_pure {b : β} (h : ∀ s', D.rely s s' → D.inv s' → Q b s') :
    D.wpOr E (pure b) Q s :=
  h

theorem wpOr_throw {e : OrchestratorError} (h : ∀ s', D.rely s s' → D.inv s' → E e s') :
    D.wpOr E (throw e) Q s :=
  h

theorem wpOr_bind {f : Operation α} {g : α → Operation β}
    (h : D.wpOr E f (fun a s' => D.wpOr E (g a) Q s') s) : D.wpOr E (f >>= g) Q s := by
  refine wp_bind (wp_mono (fun result s' hinv hresult => ?_) (wp_stable h))
  cases result with
  | ok a => exact hresult s' (D.rely_refl s') hinv
  | error e => exact hresult

/-- An operation of which less is known, and what comes after it. -/
theorem wpOr_then {f : Operation α} {g : α → Operation β} {R : α → σ → Prop}
    (hf : D.wpOr E f R s) (hg : ∀ a s', D.inv s' → R a s' → D.wpOr E (g a) Q s') :
    D.wpOr E (f >>= g) Q s :=
  wpOr_bind (wpOr_mono hg hf)

theorem wpOr_move {moved : Except JobError Job} {g : Job → Operation β}
    (hrefused : ∀ e, moved = .error e → ∀ s', D.rely s s' → D.inv s' → E (.store e) s')
    (h : ∀ job, moved = .ok job → D.wpOr E (g job) Q s) :
    D.wpOr E (Operation.move moved >>= g) Q s := by
  cases moved with
  | ok job => exact h job rfl
  | error e => exact wpOr_throw (hrefused e rfl)

theorem wpOr_moved {moved : Except JobError Job} {job : Job} {g : Job → Operation β}
    (hmoved : moved = .ok job) (h : D.wpOr E (g job) Q s) :
    D.wpOr E (Operation.move moved >>= g) Q s := by
  subst hmoved
  exact h

/-- A loop over jobs: what is said of the jobs still to come is kept by the others
and by each turn. -/
theorem wpOr_forEach {f : Job → Operation Unit} {I : List Job → σ → Prop}
    (hstable : ∀ jobs s s', D.rely s s' → I jobs s → I jobs s')
    (hturn : ∀ job rest s, D.inv s → I (job :: rest) s →
      D.wpOr E (f job) (fun _ s' => I rest s') s) (jobs : List Job) (hI : I jobs s) :
    D.wpOr E (Operation.forEach f jobs) (fun _ s' => I [] s') s := by
  induction jobs generalizing s with
  | nil => exact wpOr_pure fun s' hrely _ => hstable [] s s' hrely hI
  | cons job rest ih =>
      refine wpOr_bind (wpOr_of_rely fun s' hrely hinv => ?_)
      refine wpOr_mono (fun _ s'' _ hrest => ih hrest) ?_
      exact hturn job rest s' hinv (hstable _ s s' hrely hI)

end Operations

/-! ## Operations that preserve -/

section Preserving

variable {D : Discipline operationSignature σ} {E : OrchestratorError → σ → Prop} {P : σ → Prop}
  {f : Operation α} {g : α → Operation β}

/-- No step of the others takes a state of which `P` holds to one of which it does not. -/
def Stable (D : Discipline operationSignature σ) (P : σ → Prop) : Prop :=
  ∀ s s', D.rely s s' → P s → P s'

theorem stable_true : D.Stable fun _ => True :=
  fun _ _ _ _ => trivial

/-- From every state of which `P` holds the operation keeps to the discipline, and `P` holds when
it ends, unless it fails and `E` holds of that. -/
def Preserves (D : Discipline operationSignature σ) (E : OrchestratorError → σ → Prop)
    (P : σ → Prop) (f : Operation α) : Prop :=
  ∀ s, P s → D.wpOr E f (fun _ s' => P s') s

theorem preserves_pure (hP : D.Stable P) (a : α) : D.Preserves E P (pure a : Operation α) :=
  fun s h => wpOr_pure fun s' hrely _ => hP s s' hrely h

theorem preserves_bind (hf : D.Preserves E P f) (hg : ∀ a, D.Preserves E P (g a)) :
    D.Preserves E P (f >>= g) :=
  fun s h => wpOr_then (hf s h) fun a s' _ h' => hg a s' h'

theorem preserves_moved {moved : Except JobError Job} {g : Job → Operation β}
    (hmoved : ∃ after, moved = .ok after)
    (h : ∀ after, moved = .ok after → D.Preserves E P (g after)) :
    D.Preserves E P (Operation.move moved >>= g) := by
  obtain ⟨after, hafter⟩ := hmoved
  exact fun s hs => wpOr_moved hafter (h after hafter s hs)

/-- A move that may be refused. -/
theorem preserves_move (hP : D.Stable P) (hE : ∀ e s, P s → E e s)
    {moved : Except JobError Job} {g : Job → Operation β}
    (h : ∀ after, moved = .ok after → D.Preserves E P (g after)) :
    D.Preserves E P (Operation.move moved >>= g) :=
  fun s hs => wpOr_move (fun _ _ s' hrely _ => hE _ s' (hP s s' hrely hs))
    fun after hafter => h after hafter s hs

theorem preserves_forEach (hP : D.Stable P) {f : Job → Operation Unit} {jobs : List Job}
    (h : ∀ job ∈ jobs, D.Preserves E P (f job)) :
    D.Preserves E P (Operation.forEach f jobs) := by
  induction jobs with
  | nil => exact preserves_pure hP ()
  | cons job rest ih =>
      obtain ⟨hfirst, hlater⟩ := List.forall_mem_cons.1 h
      exact preserves_bind hfirst fun _ => ih hlater

end Preserving

/-! ## Operations of which only the answers matter -/

section Answers

variable {D : Discipline operationSignature σ} {Q : β → σ → Prop} {s : σ}

/-- From this state on the operation keeps to the discipline, and ends with an answer of which `Q`
holds or with any error. -/
def wpOk (D : Discipline operationSignature σ) (f : Operation α) (Q : α → σ → Prop) :
    σ → Prop :=
  D.wp f.run fun result s => ∀ a, result = .ok a → Q a s

theorem wpOk_mono {f : Operation β} {Q' : β → σ → Prop}
    (hQ : ∀ b s', D.inv s' → Q b s' → Q' b s') (h : D.wpOk f Q s) : D.wpOk f Q' s :=
  wp_mono (fun _ s' hinv hr b hb => hQ b s' hinv (hr b hb)) h

theorem wpOk_pure {b : β} (h : ∀ s', D.rely s s' → D.inv s' → Q b s') :
    D.wpOk (pure b) Q s := by
  intro s' hrely hinv b' hb
  cases hb
  exact h s' hrely hinv

theorem wpOk_throw (e : OrchestratorError) : D.wpOk (throw e) Q s := by
  intro s' _ _ b hb
  cases hb

/-- Such an operation may fail in any way. -/
theorem wpOk_iff {f : Operation β} : D.wpOk f Q s ↔ D.wpOr (fun _ _ => True) f Q s := by
  constructor <;> refine wp_mono fun result _ _ hresult => ?_
  · cases result with
    | ok b => exact hresult b rfl
    | error e => trivial
  · rintro b rfl
    exact hresult

theorem wpOk_bind {f : Operation α} {g : α → Operation β}
    (h : D.wpOk f (fun a s' => D.wpOk (g a) Q s') s) : D.wpOk (f >>= g) Q s :=
  wpOk_iff.2 (wpOr_then (wpOk_iff.1 h) fun _ _ _ => wpOk_iff.1)

theorem wpOk_move {moved : Except JobError Job} {g : Job → Operation β}
    (h : ∀ job, moved = .ok job → D.wpOk (g job) Q s) :
    D.wpOk (Operation.move moved >>= g) Q s := by
  match moved with
  | .ok job => exact h job rfl
  | .error e => exact wpOk_throw (.store e)

theorem wpOk_ask {c : Request} {g : c.Reply → Operation β}
    (h : ∀ s₁, D.rely s s₁ → D.inv s₁ → ∀ r s₂, D.answers c s₁ r s₂ →
      D.inv s₂ ∧ D.guarantee s₁ s₂ ∧ D.wpOk (g r) Q s₂) :
    D.wpOk (Operation.ask c >>= g) Q s :=
  h

theorem wpOk_store {c : Store.Call} {g : c.Answer → Operation β}
    (h : ∀ s₁, D.rely s s₁ → D.inv s₁ → ∀ r s₂, D.answers (.store c) s₁ r s₂ →
      D.inv s₂ ∧ D.guarantee s₁ s₂ ∧ ∀ a, r = .ok a → D.wpOk (g a) Q s₂) :
    D.wpOk (Operation.store c >>= g) Q s := by
  intro s₁ hrely hinv r s₂ hans
  obtain ⟨hinv', hguar, hnext⟩ := h s₁ hrely hinv r s₂ hans
  refine ⟨hinv', hguar, ?_⟩
  match r with
  | .ok a => exact hnext a rfl
  | .error e => exact wpOk_throw (.store e)

theorem wpOk_forEach {f : Job → Operation Unit} {I : List Job → σ → Prop}
    (hstable : ∀ jobs s s', D.rely s s' → I jobs s → I jobs s')
    (hturn : ∀ job rest s, D.inv s → I (job :: rest) s →
      D.wpOk (f job) (fun _ s' => I rest s') s) (jobs : List Job) (hI : I jobs s) :
    D.wpOk (Operation.forEach f jobs) (fun _ s' => I [] s') s :=
  wpOk_iff.2 (wpOr_forEach hstable
    (fun job rest s hinv hjobs => wpOk_iff.1 (hturn job rest s hinv hjobs)) jobs hI)

end Answers

/-! ## Operations that do not fail -/

section Sure

variable {D : Discipline operationSignature σ} {Q : β → σ → Prop} {s : σ}

/-- From this state on the operation keeps to the discipline, and ends without an error and with
an answer of which `Q` holds. -/
def wpSure (D : Discipline operationSignature σ) (f : Operation α) (Q : α → σ → Prop) :
    σ → Prop :=
  D.wp f.run fun result s => ∃ a, result = .ok a ∧ Q a s

theorem wpSure_mono {f : Operation β} {Q' : β → σ → Prop}
    (hQ : ∀ b s', D.inv s' → Q b s' → Q' b s') (h : D.wpSure f Q s) : D.wpSure f Q' s :=
  wp_mono (fun _ s' hinv hr => hr.imp fun b hb => ⟨hb.1, hQ b s' hinv hb.2⟩) h

theorem wpSure_pure {b : β} (h : ∀ s', D.rely s s' → D.inv s' → Q b s') :
    D.wpSure (pure b) Q s := by
  intro s' hrely hinv
  exact ⟨b, rfl, h s' hrely hinv⟩

theorem wpSure_bind {f : Operation α} {g : α → Operation β}
    (h : D.wpSure f (fun a s' => D.wpSure (g a) Q s') s) : D.wpSure (f >>= g) Q s := by
  refine wp_bind (wp_mono (fun r s' _ hr => ?_) h)
  obtain ⟨a, rfl, ha⟩ := hr
  exact ha

theorem wpSure_move {moved : Except JobError Job} {job : Job} {g : Job → Operation β}
    (hmoved : moved = .ok job) (h : D.wpSure (g job) Q s) :
    D.wpSure (Operation.move moved >>= g) Q s := by
  subst hmoved
  exact h

theorem wpSure_store {c : Store.Call} {g : c.Answer → Operation β}
    (h : ∀ s₁, D.rely s s₁ → D.inv s₁ → ∀ r s₂, D.answers (.store c) s₁ r s₂ →
      D.inv s₂ ∧ D.guarantee s₁ s₂ ∧ ∃ a, r = .ok a ∧ D.wpSure (g a) Q s₂) :
    D.wpSure (Operation.store c >>= g) Q s := by
  intro s₁ hrely hinv r s₂ hans
  obtain ⟨hinv', hguar, a, rfl, hnext⟩ := h s₁ hrely hinv r s₂ hans
  exact ⟨hinv', hguar, hnext⟩

end Sure

end Discipline

end Ferry
