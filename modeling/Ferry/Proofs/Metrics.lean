import Ferry.Metrics

/-!
# What the counters say after an addition

An addition changes the value of one counter. So after one step for each member of a list a
counter has grown by the members that stand for it, in whatever order they came.
-/

namespace Ferry.Metrics

theorem count_cons (c d : Counter) (k : Nat) (rest : List (Counter × Nat)) :
    count ⟨(c, k) :: rest⟩ d = if c = d then k else count ⟨rest⟩ d := by
  rw [count, List.find?_cons]
  by_cases hcd : c = d
  · simp [hcd]
  · simp [hcd, beq_false_of_ne hcd, count]

theorem count_add (m : Metrics) (c d : Counter) (n : Nat) :
    (m.add c n).count d = m.count d + if c = d then n else 0 := by
  obtain ⟨entries⟩ := m
  rw [add]
  induction entries with
  | nil =>
      have hempty : count ⟨[]⟩ d = 0 := rfl
      rw [addEntry, count_cons, hempty, Nat.zero_add]
  | cons e rest ih =>
      obtain ⟨first, held⟩ := e
      rw [addEntry, count_cons]
      by_cases hfirst : first = c
      · subst hfirst
        rw [if_pos rfl, count_cons]
        split <;> rfl
      · rw [if_neg hfirst, count_cons, ih]
        by_cases hd : first = d
        · have hcd : c ≠ d := fun h => hfirst (hd.trans h.symm)
          rw [if_pos hd, if_pos hd, if_neg hcd, Nat.add_zero]
        · rw [if_neg hd, if_neg hd]

theorem count_foldl_add {α : Type} (m : Metrics) (counter : α → Counter) (as : List α)
    (c : Counter) :
    (as.foldl (fun m a => m.add (counter a) 1) m).count c =
      m.count c + as.countP fun a => counter a = c := by
  induction as generalizing m with
  | nil => rfl
  | cons a rest ih =>
      rw [List.foldl_cons, ih, count_add, List.countP_cons, Nat.add_right_comm, Nat.add_assoc]
      simp only [decide_eq_true_eq]

end Ferry.Metrics
