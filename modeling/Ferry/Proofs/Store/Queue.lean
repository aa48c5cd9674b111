import Ferry.Proofs.Store.Rows
import Mathlib.Algebra.Order.Field.Power
import Mathlib.Data.Rat.Cast.Order
import Mathlib.Tactic.Positivity
import Mathlib.Tactic.Ring

/-!
# The queue of a state

Rows that have been in a state for the same time stand in the order of their insertion,
so the queue is a stable sort: what leaves it leaves the order of the others alone.
-/

namespace Ferry.Store

/-! ## The order of cells -/

theorem scaledLe_iff (a i b j : Int) :
    scaledLe a i b j = true ↔ (a : ℚ) * 10 ^ i ≤ b * 10 ^ j := by
  have hscale : ∀ m k : Int, min i j ≤ k →
      (m : ℚ) * 10 ^ k = ((m * Width.tenTo (k - min i j).toNat : Int) : ℚ) * 10 ^ (min i j) := by
    intro m k hk
    have hpow : (10 : ℚ) ^ k = 10 ^ (k - min i j).toNat * 10 ^ (min i j) := by
      rw [← zpow_natCast, ← zpow_add₀ (by norm_num), Int.toNat_of_nonneg (by omega)]
      congr 1
      omega
    rw [hpow, Width.tenTo, Nat.pow_eq]
    push_cast
    ring
  rw [scaledLe, decide_eq_true_eq, hscale a i (min_le_left i j), hscale b j (min_le_right i j),
    mul_le_mul_iff_of_pos_right (by positivity), Int.cast_le]

namespace Cell

def value? : Cell → Option ℚ
  | .integer n => some n
  | .decimal mantissa scale => some (mantissa * 10 ^ scale)
  | _ => none

theorem le_iff_of_value? {a b : Cell} {x y : ℚ} (ha : a.value? = some x) (hb : b.value? = some y) :
    a.le b = true ↔ x ≤ y := by
  cases a <;> cases b <;> cases ha <;> cases hb <;> simp [le, scaledLe_iff]

theorem total (a b : Cell) : (a.le b || b.le a) = true := by
  rw [Bool.or_eq_true]
  cases ha : a.value? with
  | some x =>
      cases hb : b.value? with
      | some y =>
          rw [le_iff_of_value? ha hb, le_iff_of_value? hb ha]
          exact le_total x y
      | none => cases a <;> cases b <;> simp_all [value?, le]
  | none =>
      cases a <;> cases b <;> simp_all [value?, le]
      exact String.le_total _ _

theorem trans (a b c : Cell) (hab : a.le b = true) (hbc : b.le c = true) :
    a.le c = true := by
  cases ha : a.value? with
  | none => cases a <;> cases b <;> cases c <;> simp_all [value?, le]; exact String.le_trans hab hbc
  | some x =>
      cases hb : b.value? with
      | none => cases a <;> cases b <;> cases c <;> simp_all [value?, le]
      | some y =>
          cases hc : c.value? with
          | none => cases a <;> cases b <;> cases c <;> simp_all [value?, le]
          | some z =>
              rw [le_iff_of_value? ha hb] at hab
              rw [le_iff_of_value? hb hc] at hbc
              rw [le_iff_of_value? ha hc]
              exact hab.trans hbc

end Cell

/-! ## Stable sorting -/

theorem filter_append_eq_left {α : Type} {p : α → Bool} {l₁ l₂ : List α}
    (h₁ : ∀ b ∈ l₁, p b = true) (h₂ : ∀ b ∈ l₂, p b = false) : (l₁ ++ l₂).filter p = l₁ := by
  rw [List.filter_append, List.filter_eq_self.2 h₁,
    List.filter_eq_nil_iff.2 fun b hb => Bool.eq_false_iff.1 (h₂ b hb), List.append_nil]

section Sorting

variable {α : Type} {le : α → α → Bool}
  (htrans : ∀ a b c, le a b = true → le b c = true → le a c = true)
  (htotal : ∀ a b, (le a b || le b a) = true)

include htrans htotal

/-- Where an element goes: behind what is less, and before all else. -/
theorem mergeSort_cons_split (a : α) (l : List α) :
    ∃ l₁ l₂, (a :: l).mergeSort le = l₁ ++ a :: l₂ ∧ l.mergeSort le = l₁ ++ l₂ ∧
      (∀ b ∈ l₁, le a b = false) ∧ ∀ b ∈ l₂, le a b = true := by
  obtain ⟨l₁, l₂, hcons, hl, hbefore⟩ := List.mergeSort_cons htrans htotal a l
  have hsorted := List.pairwise_mergeSort htrans htotal (a :: l)
  rw [hcons, List.pairwise_append] at hsorted
  exact ⟨l₁, l₂, hcons, hl, fun b hb => by simpa using hbefore b hb,
    (List.pairwise_cons.1 hsorted.2.1).1⟩

/-- What is left of a sorted list is the sorted list of what is left. -/
theorem filter_mergeSort (p : α → Bool) (l : List α) :
    (l.mergeSort le).filter p = (l.filter p).mergeSort le := by
  induction l with
  | nil => simp
  | cons a l ih =>
      obtain ⟨l₁, l₂, hcons, hl, hbefore, hafter⟩ := mergeSort_cons_split htrans htotal a l
      rw [hl, List.filter_append] at ih
      rw [hcons, List.filter_append]
      by_cases hp : p a = true
      · obtain ⟨m₁, m₂, hcons', hm, hbefore', hafter'⟩ :=
          mergeSort_cons_split htrans htotal a (l.filter p)
        rw [List.filter_cons_of_pos hp, List.filter_cons_of_pos hp, hcons']
        -- both sides are split where `a` begins to be less or equal
        have hsplit : l₁.filter p ++ l₂.filter p = m₁ ++ m₂ := ih.trans hm
        have hfirst : l₁.filter p = m₁ := by
          have hleft : (l₁.filter p ++ l₂.filter p).filter (fun b => !le a b) = l₁.filter p :=
            filter_append_eq_left (fun b hb => by simpa using hbefore b (List.mem_filter.1 hb).1)
              (fun b hb => by simpa using hafter b (List.mem_filter.1 hb).1)
          have hright : (m₁ ++ m₂).filter (fun b => !le a b) = m₁ :=
            filter_append_eq_left (by simpa using hbefore') (by simpa using hafter')
          rw [← hleft, hsplit, hright]
        rw [hfirst] at hsplit
        rw [hfirst, List.append_cancel_left hsplit]
      · rw [List.filter_cons_of_neg hp, List.filter_cons_of_neg hp, ih]

end Sorting

/-! ## Queues -/

/-- A queue of which some at the front are taken up at a time: those that are done leave,
and the others keep their places. -/
def passOver {α : Type} (n : Nat) (done : α → Bool) (q : List α) : List α :=
  (q.take n).filter (fun a => !done a) ++ q.drop n

section PassOver

variable {α : Type} {n : Nat} {done : α → Bool} {before after : List α} {a : α}

theorem passOver_sublist (n : Nat) (done : α → Bool) (q : List α) :
    (passOver n done q).Sublist q := by
  have hsub := (List.filter_sublist (p := fun a => !done a) (l := q.take n)).append_right (q.drop n)
  rwa [List.take_append_drop] at hsub

theorem iterate_passOver_sublist (n : Nat) (done : α → Bool) (q : List α) (k : Nat) :
    ((passOver n done)^[k] q).Sublist q := by
  induction k with
  | zero => exact List.Sublist.refl q
  | succ k ih =>
      rw [Function.iterate_succ_apply']
      exact (passOver_sublist n done _).trans ih

theorem passOver_append (h : n ≤ before.length) :
    passOver n done (before ++ after) = passOver n done before ++ after := by
  rw [passOver, List.take_append_of_le_length h, List.drop_append_of_le_length h, passOver,
    List.append_assoc]

/-- Nobody who is not done leaves. -/
theorem countP_passOver (n : Nat) (done : α → Bool) (q : List α) :
    (passOver n done q).countP (fun a => !done a) = q.countP fun a => !done a := by
  rw [passOver, List.countP_append, List.countP_filter]
  simp only [Bool.and_self]
  rw [← List.countP_append, List.take_append_drop]

theorem length_passOver_le (done : α → Bool) (h : n ≤ before.length) :
    (passOver n done before).length + (n - before.countP fun a => !done a) ≤ before.length := by
  have hfront : ((before.take n).filter fun a => !done a).length ≤
      before.countP fun a => !done a := by
    rw [← List.countP_eq_length_filter]
    exact (List.take_sublist n before).countP_le
  have htake : ((before.take n).filter fun a => !done a).length ≤ n :=
    (List.length_filter_le _ _).trans (List.length_take_le n before)
  rw [passOver, List.length_append, List.length_drop]
  omega

/-- Behind a front that is never done nobody is taken up. -/
theorem iterate_passOver_append (h : n ≤ before.countP fun a => !done a) (k : Nat) :
    (passOver n done)^[k] (before ++ after) = (passOver n done)^[k] before ++ after := by
  induction k generalizing before with
  | zero => rfl
  | succ k ih =>
      rw [Function.iterate_succ_apply, Function.iterate_succ_apply,
        passOver_append (h.trans List.countP_le_length)]
      exact ih (by rwa [countP_passOver])

/-- Who is done leaves when all before it that are done have left or come up with it. -/
theorem not_mem_iterate_passOver (hdone : done a = true) (hbefore : a ∉ before)
    (hafter : a ∉ after) {k : Nat}
    (h : before.length < k * (n - before.countP fun a => !done a)) :
    a ∉ (passOver n done)^[k] (before ++ a :: after) := by
  induction k generalizing before with
  | zero => simp at h
  | succ k ih =>
      rw [Function.iterate_succ_apply]
      by_cases hlen : n ≤ before.length
      · rw [passOver_append hlen]
        refine ih (fun hmem => hbefore ((passOver_sublist n done before).mem hmem)) ?_
        have hshort := length_passOver_le done hlen
        rw [countP_passOver]
        rw [Nat.succ_mul] at h
        omega
      · -- it is taken up now
        intro hmem
        have hnow := (iterate_passOver_sublist n done _ k).mem hmem
        rw [passOver, List.mem_append, List.mem_filter, hdone] at hnow
        rcases hnow with hnow | hnow
        · exact absurd hnow.2 (by decide)
        · rw [List.drop_append, List.drop_eq_nil_of_le (by omega), List.nil_append] at hnow
          obtain ⟨m, hm⟩ : ∃ m, n - before.length = m + 1 := ⟨n - before.length - 1, by omega⟩
          rw [hm, List.drop_succ_cons] at hnow
          exact hafter (List.mem_of_mem_drop hnow)

end PassOver

namespace Table

/-- The rows in a state, in the order in which they are taken up. -/
def inTurn (rows : List Row) : List Row :=
  rows.mergeSort fun a b => a.stateTimestamp.le b.stateTimestamp

theorem filter_inTurn (p : Row → Bool) (rows : List Row) :
    (inTurn rows).filter p = inTurn (rows.filter p) :=
  filter_mergeSort (fun a b c => Cell.trans a.stateTimestamp b.stateTimestamp c.stateTimestamp)
    (fun a b => Cell.total a.stateTimestamp b.stateTimestamp) p rows

theorem mapM_readRow_eq_ok {rows : List Row} {jobs : List Job} :
    rows.mapM readRow = .ok jobs → List.Forall₂ (fun r j => r.toJob? = some j) rows jobs := by
  induction rows generalizing jobs with
  | nil =>
      intro h
      cases h
      exact .nil
  | cons r rest ih =>
      intro h
      rw [List.mapM_cons, readRow] at h
      cases hr : r.toJob? with
      | none => rw [hr] at h; cases h
      | some j =>
          rw [hr] at h
          cases hrest : rest.mapM readRow with
          | error e => rw [hrest] at h; cases h
          | ok js =>
              rw [hrest] at h
              cases h
              exact .cons hr (ih hrest)

theorem exists_mapM_readRow {rows : List Row} (h : ∀ r ∈ rows, ∃ job, r.toJob? = some job) :
    ∃ jobs, rows.mapM readRow = .ok jobs := by
  induction rows with
  | nil => exact ⟨[], rfl⟩
  | cons r rows ih =>
      obtain ⟨⟨job, hjob⟩, hrest⟩ := List.forall_mem_cons.1 h
      obtain ⟨jobs, hjobs⟩ := ih hrest
      refine ⟨job :: jobs, ?_⟩
      rw [List.mapM_cons, hjobs, readRow, hjob]
      rfl

theorem next_rows {t : Table} {state : JobState} {limit : Nat} {jobs : List Job}
    (h : t.next state limit = .ok jobs) :
    List.Forall₂ (fun r j => r.toJob? = some j)
      ((t.queue state).take (min limit maxLimit)) jobs :=
  mapM_readRow_eq_ok h

theorem mem_queue {t : Table} {state : JobState} {r : Row} :
    r ∈ t.queue state ↔ r ∈ t.rows ∧ r.state = .text state.name := by
  rw [(queue_perm t state).mem_iff, List.mem_filter, beq_iff_eq]

/-- Whoever is taken up has waited for as long as any that are not. -/
theorem le_of_mem_take {t : Table} {state : JobState} {n : Nat} {r r' : Row}
    (hr : r ∈ (t.queue state).take n) (hr' : r' ∈ (t.queue state).drop n) :
    r.stateTimestamp.le r'.stateTimestamp = true := by
  have hsorted : (t.queue state).Pairwise fun a b => a.stateTimestamp.le b.stateTimestamp = true :=
    List.pairwise_mergeSort (fun a b c => Cell.trans a.stateTimestamp b.stateTimestamp
      c.stateTimestamp) (fun a b => Cell.total a.stateTimestamp b.stateTimestamp) _
  rw [← List.take_append_drop n (t.queue state)] at hsorted
  exact (List.pairwise_append.1 hsorted).2.2 r hr r' hr'

theorem queue_eq_nil {t : Table} {state : JobState}
    (h : ∀ r ∈ t.rows, r.state ≠ .text state.name) : t.queue state = [] := by
  refine List.eq_nil_iff_forall_not_mem.2 fun r hr => ?_
  exact h r (mem_queue.1 hr).1 (mem_queue.1 hr).2

theorem next_eq_nil {t : Table} {state : JobState}
    (h : ∀ r ∈ t.rows, r.state ≠ .text state.name) (limit : Nat) :
    t.next state limit = .ok [] := by
  rw [next, queue_eq_nil h, List.take_nil]
  rfl

/-- Rows that have been inserted in the order of their times. -/
theorem queue_eq_rows {t : Table} {state : JobState}
    (hstate : ∀ r ∈ t.rows, r.state = .text state.name)
    (hsorted : t.rows.Pairwise fun a b => a.stateTimestamp.le b.stateTimestamp = true) :
    t.queue state = t.rows := by
  have hall : t.rows.filter (fun r => r.state == .text state.name) = t.rows :=
    List.filter_eq_self.2 fun r hr => beq_iff_eq.2 (hstate r hr)
  rw [queue, hall]
  exact List.mergeSort_of_pairwise hsorted

/-- A batch from a table of one job. -/
theorem next_single {r : Row} {j : Job} {limit : Nat} (hread : r.toJob? = some j)
    (hlimit : 0 < limit) : next ⟨[r]⟩ j.state limit = .ok [j] := by
  have hstate := (Row.shows_of_toJob? hread).state_eq
  have hqueue : queue ⟨[r]⟩ j.state = [r] :=
    queue_eq_rows (by simpa using hstate) (List.pairwise_singleton _ _)
  obtain ⟨n, hn⟩ : ∃ n, min limit maxLimit = n + 1 :=
    Nat.exists_eq_succ_of_ne_zero (by simp only [maxLimit, Width.bound63]; omega)
  rw [next, hqueue, hn, List.take_succ_cons, List.take_nil]
  simp [readRow, hread]

theorem next_single_of_ne {r : Row} {state : JobState} (h : r.state ≠ .text state.name)
    (limit : Nat) : next ⟨[r]⟩ state limit = .ok [] :=
  next_eq_nil (by simpa using h) limit

/-- A batch of one is the job that has waited longest. -/
theorem next_first {t : Table} {r : Row} {j : Job} (hread : r.toJob? = some j) (hr : r ∈ t.rows)
    (hfirst : ∀ r' ∈ t.rows, r'.stateTimestamp.le r.stateTimestamp = true → r' = r) :
    t.next j.state 1 = .ok [j] := by
  have hmem : r ∈ t.queue j.state := mem_queue.2 ⟨hr, (Row.shows_of_toJob? hread).state_eq⟩
  obtain ⟨first, rest, hqueue⟩ := List.exists_cons_of_ne_nil (List.ne_nil_of_mem hmem)
  have hmin : min 1 maxLimit = 1 := by decide
  have hle : first.stateTimestamp.le r.stateTimestamp = true := by
    rw [hqueue] at hmem
    rcases List.mem_cons.1 hmem with heq | hrest
    · have hself := Cell.total r.stateTimestamp r.stateTimestamp
      rw [heq] at hself ⊢
      simpa using hself
    · have htake : first ∈ (t.queue j.state).take 1 := hqueue ▸ List.mem_cons_self
      have hdrop : r ∈ (t.queue j.state).drop 1 := hqueue ▸ hrest
      exact le_of_mem_take htake hdrop
  have hrow : first ∈ t.rows := (mem_queue.1 (hqueue ▸ List.mem_cons_self)).1
  rw [next, hqueue, hmin, List.take_succ_cons, List.take_zero, hfirst first hrow hle]
  simp [readRow, hread]

/-- Each job of a batch was read of a row in the state. -/
theorem exists_row_of_next {t : Table} {state : JobState} {limit : Nat} {jobs : List Job}
    {j : Job} (h : t.next state limit = .ok jobs) (hj : j ∈ jobs) :
    ∃ r ∈ t.rows, r.state = .text state.name ∧ r.toJob? = some j := by
  obtain ⟨n, hn, rfl⟩ := List.getElem_of_mem hj
  have hrows := next_rows h
  have hn' : n < ((t.queue state).take (min limit maxLimit)).length := hrows.length_eq ▸ hn
  obtain ⟨hmem, hstate⟩ := mem_queue.1 (List.mem_of_mem_take (List.getElem_mem hn'))
  exact ⟨_, hmem, hstate, hrows.get hn' hn⟩

end Table

end Ferry.Store
