import Ferry.Proofs.Interference
import Ferry.Proofs.Provision.Responses
import Ferry.Proofs.Store.Reading
import Mathlib.Data.List.Induction
import Mathlib.Logic.Function.Basic

/-!
# Parties that share the table

Each of any number of parties has a program. The schedule chooses who makes its next
call, and between two calls it may let somebody else have a statement carried out that
spares one job, the one the parties meet over. The store has no faults.

The history holds who called what, with the reply and the table before and after it, the
latest call first. Nobody reads it, but an invariant can speak of it, and then there is
little left that a party has to be granted: the others add to the history, and nothing
in its name (`Shared.Others`). Whatever else a party relies on is the invariant's
business. So the invariant holds after any schedule if each program keeps it with its own
calls, and a program that is done has done what its weakest precondition says
(`Invariant.after`).
-/

namespace Ferry.Race

open Store
open Time (Instant)

/-- A call that one of the parties has made. -/
structure Entry (ι : Type) where
  party : ι
  call : Request
  reply : call.Reply
  before : Table
  after : Table

structure Shared (ι : Type) where
  table : Table
  history : List (Entry ι) := []

structure State {ι : Type} (α : ι → Type) where
  shared : Shared ι
  /-- What is left of each party's program. -/
  rest : (i : ι) → Activity (α i)

inductive Move (ι : Type) (id : String) where
  /-- A party makes its next call, at a time. -/
  | turn (party : ι) (now : Instant) (storable : now.Storable)
  /-- Somebody else has a statement carried out. -/
  | other (c : Store.Call) (spares : c.Spares id)

/-- The replies of a world without faults, in which this is what becomes of a request
that is sent. -/
def reply (sent : Except DispatchError Unit) (now : Instant) :
    (q : Request) → Table → q.Reply × Table
  | .send .., t => (sent, t)
  | q, t => Handoff.reply now q t

variable {ι : Type} {α : ι → Type} {id : String} {sent : Except DispatchError Unit}

/-- The reply to a call of a party, and what is shared after it. -/
def Shared.asked (s : Shared ι) (sent : Except DispatchError Unit) (i : ι) (now : Instant)
    (q : Request) : q.Reply × Shared ι :=
  let (r, t) := reply sent now q s.table
  (r, { table := t, history := ⟨i, q, r, s.table, t⟩ :: s.history })

/-- Somebody else has had a statement carried out. -/
def Shared.passing (s : Shared ι) (c : Store.Call) : Shared ι :=
  { s with table := (c.perform s.table).2 }

section Moves

variable [DecidableEq ι]

def State.turn (s : State α) (sent : Except DispatchError Unit) (i : ι) (now : Instant) :
    State α :=
  match s.rest i with
  | .done _ => s
  | .call q next =>
    let (r, shared) := s.shared.asked sent i now q
    { shared, rest := Function.update s.rest i (next r) }

def State.move (sent : Except DispatchError Unit) (s : State α) : Move ι id → State α
  | .turn i now _ => s.turn sent i now
  | .other c _ => { s with shared := s.shared.passing c }

/-- The state a schedule leads to. -/
def State.after (s : State α) (sent : Except DispatchError Unit) (moves : List (Move ι id)) :
    State α :=
  moves.foldl (State.move sent) s

theorem after_append (s : State α) (moves : List (Move ι id)) (m : Move ι id) :
    s.after sent (moves ++ [m]) = State.move sent (s.after sent moves) m := by
  rw [State.after, List.foldl_append]
  rfl

def Move.isTurnOf (i : ι) : Move ι id → Bool
  | .turn k .. => k = i
  | .other .. => false

/-- How often a party was let to move. -/
def turns (i : ι) (moves : List (Move ι id)) : Nat :=
  moves.countP (Move.isTurnOf i)

/-- The calls that a party has made. -/
def Shared.own (s : Shared ι) (i : ι) : List (Entry ι) :=
  s.history.filter fun e => e.party = i

end Moves

/-! ## How long a program takes -/

/-- The program makes at most so many calls. -/
def Within {β : Type} : Nat → Activity β → Prop
  | _, .done _ => True
  | 0, .call .. => False
  | n + 1, .call _ next => ∀ r, Within n (next r)

section Length

variable {β γ : Type} {n m : Nat}

theorem Within.mono {p : Activity β} (h : Within n p) (hle : n ≤ m) : Within m p := by
  induction p generalizing n m with
  | done b => cases m <;> trivial
  | call q next ih =>
      cases n with
      | zero => cases h
      | succ n =>
          obtain ⟨k, rfl⟩ : ∃ k, m = k + 1 := ⟨m - 1, by omega⟩
          exact fun r => ih r (h r) (by omega)

theorem Within.bind {p : Activity β} {f : β → Activity γ} (h : Within n p)
    (hf : ∀ b, Within m (f b)) : Within (n + m) (p.bind f) := by
  induction p generalizing n with
  | done b => exact (hf b).mono (by omega)
  | call q next ih =>
      cases n with
      | zero => cases h
      | succ n =>
          rw [Nat.add_right_comm]
          exact fun r => ih r (h r)

theorem within_bind {f : Operation β} {g : β → Operation γ} (h : Within n f.run)
    (hg : ∀ b, Within m (g b).run) : Within (n + m) (f >>= g).run := by
  refine h.bind fun r => ?_
  match r with
  | .ok b => exact hg b
  | .error e => cases m <;> trivial

theorem within_ask {q : Request} : Within 1 (Operation.ask q).run :=
  fun _ => trivial

theorem within_store {c : Store.Call} : Within 1 (Operation.store c).run := by
  intro r
  cases r <;> trivial

theorem within_move {moved : Except JobError Job} : Within 0 (Operation.move moved).run := by
  cases moved <;> trivial

variable [DecidableEq ι] {s : State α} {i : ι}

theorem within_turn_self {now : Instant} (h : Within n (s.rest i)) :
    Within (n - 1) ((s.turn sent i now).rest i) := by
  unfold State.turn
  split
  · next hi =>
    rw [hi]
    cases n - 1 <;> trivial
  · next hi =>
    rw [hi] at h
    cases n with
    | zero => cases h
    | succ n =>
        simp only [Function.update_self]
        exact h _

theorem rest_turn_of_ne {k : ι} {now : Instant} (hk : i ≠ k) :
    (s.turn sent k now).rest i = s.rest i := by
  unfold State.turn
  split
  · rfl
  · exact Function.update_of_ne hk _ _

theorem within_after (sent : Except DispatchError Unit) (h : Within n (s.rest i))
    (moves : List (Move ι id)) :
    Within (n - turns i moves) ((s.after sent moves).rest i) := by
  induction moves using List.reverseRecOn with
  | nil => exact h
  | append_singleton moves m ih =>
      rw [after_append, turns, List.countP_append]
      cases m with
      | turn k now storable =>
          by_cases hk : k = i
          · subst hk
            refine (within_turn_self ih).mono ?_
            simp [turns, Move.isTurnOf]
            omega
          · rw [State.move, rest_turn_of_ne (Ne.symm hk)]
            simpa [turns, Move.isTurnOf, hk] using ih
      | other c spares => exact ih

/-- A party that has had turns enough is done. -/
theorem done_of_turns (sent : Except DispatchError Unit) (h : Within n (s.rest i))
    {moves : List (Move ι id)} (hturns : n ≤ turns i moves) :
    ∃ a, (s.after sent moves).rest i = .done a := by
  have hafter := within_after sent h moves
  rw [Nat.sub_eq_zero_of_le hturns] at hafter
  cases hrest : (s.after sent moves).rest i with
  | done a => exact ⟨a, rfl⟩
  | call q next =>
      rw [hrest] at hafter
      cases hafter

end Length

/-! ## Writes that hit -/

/-- The call is a write of the job over an expected state, and it hit. -/
def hit (id : String) : (q : Request) → q.Reply → Bool
  | .store (.updateIfState job _), .ok true => job.id == id
  | _, _ => false

/-- Whose writes of the job hit, the latest first. -/
def Shared.winners (s : Shared ι) (id : String) : List ι :=
  (s.history.filter fun e => hit id e.call e.reply).map (·.party)

section Winners

variable {s : Shared ι} {i : ι} {now : Instant} {q : Request}

theorem history_asked (s : Shared ι) (i : ι) (now : Instant) (q : Request) :
    (s.asked sent i now q).2.history =
      ⟨i, q, (s.asked sent i now q).1, s.table, (s.asked sent i now q).2.table⟩ :: s.history :=
  rfl

theorem winners_asked (h : hit id q (s.asked sent i now q).1 = false) :
    (s.asked sent i now q).2.winners id = s.winners id := by
  rw [Shared.winners, history_asked, List.filter_cons_of_neg (by rw [h]; decide)]
  rfl

theorem winners_asked_hit (h : hit id q (s.asked sent i now q).1 = true) :
    (s.asked sent i now q).2.winners id = i :: s.winners id := by
  rw [Shared.winners, history_asked, List.filter_cons_of_pos (by rw [h])]
  rfl

variable {new : Job} {expected : JobState} {t : Table}

theorem asked_hit (sent : Except DispatchError Unit) (i : ι) (now : Instant)
    (h : s.table.updateIfState new expected = (true, t)) :
    (s.asked sent i now (.store (.updateIfState new expected))).1 = .ok true ∧
      (s.asked sent i now (.store (.updateIfState new expected))).2.table = t ∧
      (s.asked sent i now (.store (.updateIfState new expected))).2.winners new.id =
        i :: s.winners new.id := by
  have hreply : (s.asked sent i now (.store (.updateIfState new expected))).1 = .ok true := by
    show Except.ok (s.table.updateIfState new expected).1 = _
    rw [h]
  refine ⟨hreply, ?_, winners_asked_hit ?_⟩
  · show (s.table.updateIfState new expected).2 = t
    rw [h]
  · rw [hreply]
    exact beq_self_eq_true new.id

theorem asked_miss (sent : Except DispatchError Unit) (i : ι) (now : Instant)
    (h : s.table.updateIfState new expected = (false, t)) (id : String) :
    (s.asked sent i now (.store (.updateIfState new expected))).1 = .ok false ∧
      (s.asked sent i now (.store (.updateIfState new expected))).2.table = t ∧
      (s.asked sent i now (.store (.updateIfState new expected))).2.winners id =
        s.winners id := by
  have hreply : (s.asked sent i now (.store (.updateIfState new expected))).1 = .ok false := by
    show Except.ok (s.table.updateIfState new expected).1 = _
    rw [h]
  refine ⟨hreply, ?_, winners_asked ?_⟩
  · show (s.table.updateIfState new expected).2 = t
    rw [h]
  · rw [hreply]
    rfl

end Winners

/-! ## What a party can rely on -/

section Terms

variable [DecidableEq ι] {inv : Shared ι → Prop} {i : ι}

/-- The others add to the history, and nothing in the party's name. -/
structure Shared.Others (i : ι) (s s' : Shared ι) : Prop where
  history : s.history <:+ s'.history
  own : s'.own i = s.own i

/-- The terms on which a party meets the others. -/
def terms (sent : Except DispatchError Unit) (inv : Shared ι → Prop) (i : ι) :
    Discipline operationSignature (Shared ι) where
  inv := inv
  answers q s r s' := ∃ now : Instant, now.Storable ∧ s.asked sent i now q = (r, s')
  rely := Shared.Others i
  guarantee _ _ := True
  rely_refl _ := ⟨List.suffix_rfl, rfl⟩
  rely_trans h h' := ⟨h.history.trans h'.history, h'.own.trans h.own⟩

variable {s s' : Shared ι}

theorem Shared.Others.winners (h : Others i s s') (id : String) :
    s.winners id <:+ s'.winners id :=
  (h.history.filter _).map _

theorem Shared.mem_winners (s : Shared ι) (i : ι) (id : String) :
    i ∈ s.winners id ↔ ∃ e ∈ s.own i, hit id e.call e.reply = true := by
  simp only [Shared.winners, Shared.own, List.mem_map, List.mem_filter, decide_eq_true_eq]
  constructor
  · rintro ⟨e, ⟨he, hhit⟩, hi⟩
    exact ⟨e, ⟨he, hi⟩, hhit⟩
  · rintro ⟨e, ⟨he, hi⟩, hhit⟩
    exact ⟨e, ⟨he, hhit⟩, hi⟩

/-- Nobody else wins in the party's name. -/
theorem Shared.Others.mem_winners (h : Others i s s') (id : String) :
    i ∈ s'.winners id ↔ i ∈ s.winners id := by
  rw [s'.mem_winners, s.mem_winners, h.own]

theorem own_asked (sent : Except DispatchError Unit) (s : Shared ι) (i : ι) (now : Instant)
    (q : Request) :
    (s.asked sent i now q).2.own i =
      ⟨i, q, (s.asked sent i now q).1, s.table, (s.asked sent i now q).2.table⟩ :: s.own i :=
  List.filter_cons_of_pos (decide_eq_true rfl)

/-! ### One call -/

section Call

variable {β γ : Type} {Q : γ → Shared ι → Prop} {q : Request}

theorem wp_asked {next : q.Reply → Activity γ} (h : ∀ s₁ : Shared ι, ∀ now : Instant,
      Shared.Others i s s₁ → inv s₁ → now.Storable → inv (s₁.asked sent i now q).2 ∧
      (terms sent inv i).wp (next (s₁.asked sent i now q).1) Q (s₁.asked sent i now q).2) :
    (terms sent inv i).wp (.call q next) Q s := by
  rintro s₁ hrely hinv r s₂ ⟨now, hnow, hasked⟩
  obtain ⟨hinv', hnext⟩ := h s₁ now hrely hinv hnow
  rw [hasked] at hinv' hnext
  exact ⟨hinv', trivial, hnext⟩

/-- A call of a party whose calls so far are known. -/
theorem wp_asked_own {next : q.Reply → Activity γ} {own : List (Entry ι)} (hown : s.own i = own)
    (h : ∀ s₁ : Shared ι, ∀ now : Instant, inv s₁ → now.Storable →
      inv (s₁.asked sent i now q).2 ∧ ((s₁.asked sent i now q).2.own i =
          ⟨i, q, (s₁.asked sent i now q).1, s₁.table, (s₁.asked sent i now q).2.table⟩ :: own →
        (terms sent inv i).wp (next (s₁.asked sent i now q).1) Q (s₁.asked sent i now q).2)) :
    (terms sent inv i).wp (.call q next) Q s := by
  refine wp_asked fun s₁ now hothers hinv hnow => ?_
  obtain ⟨hinv', hnext⟩ := h s₁ now hinv hnow
  exact ⟨hinv', hnext (by rw [own_asked, hothers.own, hown])⟩

theorem wpSure_asked {g : q.Reply → Operation γ} (h : ∀ s₁ : Shared ι, ∀ now : Instant,
      Shared.Others i s s₁ → inv s₁ → now.Storable → inv (s₁.asked sent i now q).2 ∧
      (terms sent inv i).wpSure (g (s₁.asked sent i now q).1) Q (s₁.asked sent i now q).2) :
    (terms sent inv i).wpSure (Operation.ask q >>= g) Q s :=
  wp_asked h

theorem wpSure_last {Q : q.Reply → Shared ι → Prop} (h : ∀ s₁ : Shared ι, ∀ now : Instant,
      Shared.Others i s s₁ → inv s₁ → now.Storable → inv (s₁.asked sent i now q).2 ∧
      ∀ s₂, Shared.Others i (s₁.asked sent i now q).2 s₂ → Q (s₁.asked sent i now q).1 s₂) :
    (terms sent inv i).wpSure (Operation.ask q) Q s := by
  refine wp_asked fun s₁ now hothers hinv hnow => ?_
  obtain ⟨hinv', hQ⟩ := h s₁ now hothers hinv hnow
  exact ⟨hinv', fun s₂ hothers₂ _ => ⟨_, rfl, hQ s₂ hothers₂⟩⟩

theorem wpSure_performed {c : Store.Call} {g : c.Answer → Operation γ}
    (h : ∀ s₁ : Shared ι, ∀ now : Instant, Shared.Others i s s₁ → inv s₁ → now.Storable →
      inv (s₁.asked sent i now (.store c)).2 ∧ ∃ a, (c.perform s₁.table).1 = .ok a ∧
      (terms sent inv i).wpSure (g a) Q (s₁.asked sent i now (.store c)).2) :
    (terms sent inv i).wpSure (Operation.store c >>= g) Q s := by
  refine Discipline.wpSure_store ?_
  rintro s₁ hrely hinv r s₂ ⟨now, hnow, hasked⟩
  obtain ⟨hinv', a, ha, hnext⟩ := h s₁ now hrely hinv hnow
  have hr : r = (c.perform s₁.table).1 := (congrArg Prod.fst hasked).symm
  rw [hasked] at hinv' hnext
  exact ⟨hinv', trivial, a, hr.trans ha, hnext⟩

end Call

/-! ### All of them -/

/-- The invariant holds and every program will keep it, to end with what is promised. -/
structure Invariant (sent : Except DispatchError Unit) (inv : Shared ι → Prop)
    (Q : (i : ι) → α i → Shared ι → Prop) (s : State α) : Prop where
  holds : inv s.shared
  keeps : ∀ i, (terms sent inv i).wp (s.rest i) (Q i) s.shared

section All

variable {Q : (i : ι) → α i → Shared ι → Prop} {s : State α}

theorem Invariant.turn (h : Invariant sent inv Q s) (i : ι) {now : Instant} (hnow : now.Storable) :
    Invariant sent inv Q (s.turn sent i now) := by
  unfold State.turn
  split
  · exact h
  · next q next hi =>
    have hcall := h.keeps i
    rw [hi] at hcall
    have hanswers : (terms sent inv i).answers q s.shared (s.shared.asked sent i now q).1
        (s.shared.asked sent i now q).2 := ⟨now, hnow, rfl⟩
    obtain ⟨hinv, -, hnext⟩ := Discipline.wp_call hcall h.holds hanswers
    refine ⟨hinv, fun k => ?_⟩
    by_cases hk : k = i
    · subst hk
      simp only [Function.update_self]
      exact hnext
    · simp only [Function.update_of_ne hk]
      refine Discipline.wp_rely ?_ (h.keeps k)
      -- the new entry is not in the name of `k`
      refine ⟨List.suffix_cons _ _, ?_⟩
      simp [Shared.own, Shared.asked, Ne.symm hk]

theorem Invariant.other (h : Invariant sent inv Q s) {c : Store.Call}
    (hinv : inv (s.shared.passing c)) :
    Invariant sent inv Q { s with shared := s.shared.passing c } :=
  ⟨hinv, fun k => (terms sent inv k).wp_rely (s := s.shared) ⟨List.suffix_rfl, rfl⟩ (h.keeps k)⟩

/-- Whatever the schedule, the invariant holds after it. -/
theorem Invariant.after (h : Invariant sent inv Q s)
    (hother : ∀ s c, Store.Call.Spares id c → inv s → inv (s.passing c))
    (moves : List (Move ι id)) : Invariant sent inv Q (s.after sent moves) := by
  induction moves using List.reverseRecOn with
  | nil => exact h
  | append_singleton moves m ih =>
      rw [after_append]
      cases m with
      | turn i now storable => exact ih.turn i storable
      | other c spares => exact ih.other (hother _ c spares ih.holds)

/-- Who is done has done what was promised. -/
theorem Invariant.done (h : Invariant sent inv Q s) {a : α i} (hi : s.rest i = .done a) :
    Q i a s.shared := by
  have hdone := h.keeps i
  rw [hi] at hdone
  exact hdone s.shared ((terms sent inv i).rely_refl _) h.holds

end All

end Terms

end Ferry.Race
