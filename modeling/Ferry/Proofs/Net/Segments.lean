import Ferry.Proofs.Net.Percent

/-!
# The segments of a path

A path falls into segments at its slashes, the dots among them are followed, and what is
left is written with a slash in front of each. The segments that are written are those
that the path had, though not all of them, and whoever splits the path at its slashes
finds them again (`splitAll_normalPath`).
-/

namespace Ferry.Net.Url

open Percent (Escapes isDigit splitAll)

/-! ## Falling into segments -/

theorem segments_ne_nil (cs : List Char) : segments cs ≠ [] := by
  cases cs with
  | nil => simp [segments]
  | cons c cs =>
      rw [segments]
      split
      · simp
      · split <;> simp

theorem segments_append (front rest : List Char) :
    segments (front ++ '/' :: rest) = segments front ++ segments rest := by
  induction front with
  | nil => rfl
  | cons c front ih =>
      rw [List.cons_append, segments, segments, ih]
      split
      · rfl
      · cases hfront : segments front with
        | nil => exact absurd hfront (segments_ne_nil front)
        | cons s more => rfl

theorem segments_of_slashless {cs : List Char} (h : ∀ c ∈ cs, isSlash c = false) :
    segments cs = [cs] := by
  induction cs with
  | nil => rfl
  | cons c cs ih =>
      rw [List.forall_mem_cons] at h
      rw [segments, ih h.2, h.1]
      rfl

/-- A segment is a part of the path, and has no slash. -/
theorem slashless_of_mem_segments {cs s : List Char} (h : s ∈ segments cs) :
    s.Sublist cs ∧ ∀ c ∈ s, isSlash c = false := by
  induction cs generalizing s with
  | nil =>
      rw [segments, List.mem_singleton] at h
      simp [h]
  | cons c cs ih =>
      rw [segments] at h
      split at h
      · rcases List.mem_cons.1 h with rfl | h
        · simp
        · exact ⟨(ih h).1.cons c, (ih h).2⟩
      · next hc =>
        have hc : isSlash c = false := by simpa using hc
        cases hcs : segments cs with
        | nil => exact absurd hcs (segments_ne_nil cs)
        | cons s' more =>
            rw [hcs] at h ih
            rcases List.mem_cons.1 h with rfl | h
            · obtain ⟨hsub, hslash⟩ := ih List.mem_cons_self
              exact ⟨hsub.cons_cons c, List.forall_mem_cons.2 ⟨hc, hslash⟩⟩
            · obtain ⟨hsub, hslash⟩ := ih (List.mem_cons_of_mem _ h)
              exact ⟨hsub.cons c, hslash⟩

/-! ## Following the dots -/

/-- The segment leads to where one is, or up. -/
def IsDots (s : List Char) : Prop :=
  plainDots s = ['.'] ∨ plainDots s = ['.', '.']

theorem plainDots_of_not_escapes {cs : List Char} (h : ¬ Escapes cs) : plainDots cs = cs := by
  fun_induction plainDots cs with
  | case1 rest ih => exact absurd ⟨'2', 'e', rfl, rfl, List.prefix_append _ rest |>.isInfix⟩ h
  | case2 rest ih => exact absurd ⟨'2', 'E', rfl, rfl, List.prefix_append _ rest |>.isInfix⟩ h
  | case3 c rest _ _ ih => rw [ih fun hrest => h (Percent.escapes_cons.2 (.inr hrest))]
  | case4 => rfl

theorem followDots_cons {above : List (List Char)} {s : List Char} (h : ¬ IsDots s)
    (rest : List (List Char)) : followDots above (s :: rest) = followDots (s :: above) rest := by
  obtain ⟨hone, htwo⟩ := not_or.1 h
  cases rest with
  | nil => simp [followDots, hone, htwo]
  | cons t rest => simp [followDots, hone, htwo]

/-- Where the dots lead nothing new is met, but perhaps an empty segment at the end. -/
theorem mem_of_mem_followDots {above rest : List (List Char)} {s : List Char}
    (h : s ∈ followDots above rest) : s ∈ above ∨ s ∈ rest ∧ ¬ IsDots s ∨ s = [] := by
  induction rest generalizing above with
  | nil => exact .inl (List.mem_reverse.1 h)
  | cons t rest ih =>
      by_cases ht : IsDots t
      · obtain ⟨n, hn⟩ : ∃ n, followDots above (t :: rest) =
            if rest = [] then ([] :: above.drop n).reverse
            else followDots (above.drop n) rest := by
          cases rest with
          | nil =>
              rcases ht with ht | ht
              · exact ⟨0, by simp [followDots, ht]⟩
              · exact ⟨1, by simp [followDots, ht]⟩
          | cons u rest =>
              rcases ht with ht | ht
              · exact ⟨0, by simp [followDots, ht]⟩
              · exact ⟨1, by simp [followDots, ht]⟩
        rw [hn] at h
        split at h
        · rcases List.mem_cons.1 (List.mem_reverse.1 h) with rfl | h
          · exact .inr (.inr rfl)
          · exact .inl (List.mem_of_mem_drop h)
        · rcases ih h with h | ⟨h, hs⟩ | h
          · exact .inl (List.mem_of_mem_drop h)
          · exact .inr (.inl ⟨List.mem_cons_of_mem _ h, hs⟩)
          · exact .inr (.inr h)
      · rw [followDots_cons ht] at h
        rcases ih h with h | ⟨h, hs⟩ | h
        · rcases List.mem_cons.1 h with rfl | h
          · exact .inr (.inl ⟨List.mem_cons_self, ht⟩)
          · exact .inl h
        · exact .inr (.inl ⟨List.mem_cons_of_mem _ h, hs⟩)
        · exact .inr (.inr h)

/-! ## Writing the path -/

/-- What a path holds is what was put in, or belongs to a percent sign. -/
theorem mem_encodePath {c : Char} {cs : List Char} (h : c ∈ encodePath cs) :
    c ∈ cs ∧ staysInPath c = true ∨ c = '%' ∨ isDigit c = true := by
  obtain ⟨d, hd, hc⟩ := List.mem_flatMap.1 h
  split at hc
  · next hstays =>
      obtain rfl := List.mem_singleton.1 hc
      exact .inl ⟨hd, hstays⟩
  · obtain ⟨b, hb, hc⟩ := List.mem_flatMap.1 hc
    have hlt := Percent.encodeChar_lt d b hb
    have hhigh := (Percent.digit?_upperHexDigit (n := b / 16) (by omega)).1
    have hlow := (Percent.digit?_upperHexDigit (n := b % 16) (by omega)).1
    simp only [List.mem_cons, List.not_mem_nil, or_false] at hc
    rcases hc with rfl | rfl | rfl
    · exact .inr (.inl rfl)
    · exact .inr (.inr (by simp [isDigit, hhigh]))
    · exact .inr (.inr (by simp [isDigit, hlow]))

theorem not_mem_encodePath {c : Char} {cs : List Char} (hc : c ∈ cs → staysInPath c = false)
    (hplain : c ≠ '%' ∧ isDigit c = false) : c ∉ encodePath cs := by
  intro h
  rcases mem_encodePath h with ⟨hmem, hstays⟩ | h | h
  · rw [hc hmem] at hstays
    cases hstays
  · exact hplain.1 h
  · rw [hplain.2] at h
    cases h

/-- The path as it is written between slashes. -/
def joined (ss : List (List Char)) : List Char :=
  ss.flatMap fun s => '/' :: encodePath s

theorem splitAll_joined {ss : List (List Char)} (h : ∀ s ∈ ss, '/' ∉ s) :
    splitAll '/' (joined ss) = [] :: ss.map encodePath := by
  induction ss with
  | nil => rfl
  | cons s rest ih =>
      rw [List.forall_mem_cons] at h
      have hs : '/' ∉ encodePath s :=
        not_mem_encodePath (fun hmem => absurd hmem h.1) (by decide)
      have hrest := ih h.2
      rw [joined, List.flatMap_cons, List.cons_append, splitAll, if_pos rfl, ← joined]
      cases rest with
      | nil => simp [joined, Percent.splitAll_of_not_mem hs]
      | cons t rest =>
          rw [joined, List.flatMap_cons, List.cons_append] at hrest ⊢
          rw [splitAll, if_pos rfl] at hrest
          rw [Percent.splitAll_append hs, (List.cons.inj hrest).2]
          rfl

/-- No question mark and no number sign ends a path before its end. -/
theorem not_mem_joined {c : Char} {ss : List (List Char)} (h : staysInPath c = false)
    (hplain : c ≠ '%' ∧ isDigit c = false ∧ c ≠ '/') : c ∉ joined ss := by
  intro hmem
  obtain ⟨s, -, hs⟩ := List.mem_flatMap.1 hmem
  rcases List.mem_cons.1 hs with hs | hs
  · exact hplain.2.2 hs
  · exact not_mem_encodePath (fun _ => h) ⟨hplain.1, hplain.2.1⟩ hs

theorem slashless_of_mem_followDots {cs s : List Char} (h : s ∈ followDots [] (segments cs)) :
    '/' ∉ s := by
  intro hslash
  rcases mem_of_mem_followDots h with h | ⟨h, -⟩ | rfl
  · cases h
  · have := (slashless_of_mem_segments h).2 '/' hslash
    cases this
  · cases hslash

/-- Whoever splits a path at its slashes finds what is left of its segments. -/
theorem splitAll_normalPath (cs : List Char) :
    splitAll '/' (normalPath ('/' :: cs)) =
      [] :: (followDots [] (segments cs)).map encodePath :=
  splitAll_joined fun _ => slashless_of_mem_followDots

end Ferry.Net.Url
