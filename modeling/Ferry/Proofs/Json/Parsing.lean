import Ferry.Json.Parser
import Ferry.Proofs.Json.Lexing

/-!
# What is printed is read back

The parser too runs on fuel: one unit for a value, one for each further item or
field. Two units a word always cover it, which is what `readDocument` starts
with, so the walk below carries `2 * words.length ≤ fuel` and nothing else.

What comes out is `readDocument_print`: the text of a value is read as the
complete draft of that value, with nothing left over.
-/

namespace Ferry.Json

theorem words_ne_nil {j : Json} (h : j.textual = true) : j.words ≠ [] := by
  match j with
  | .null | .bool _ | .str _ | .arr [] | .arr (_ :: _) | .obj [] | .obj (_ :: _) => simp [words]
  | .nat _ => simp [textual] at h

/-- A value never begins with a closing bracket, so an array that has items is
not taken for an empty one. -/
theorem readValue_openArr {j : Json} (h : j.textual = true) (n : Nat) (ts : List Token) :
    readValue (n + 1) (.openArr :: (j.words ++ ts)) =
      ((.arr (readItems n (j.words ++ ts)).1 (readItems n (j.words ++ ts)).2.isSome),
        (readItems n (j.words ++ ts)).2) := by
  match j with
  | .null | .bool _ | .str _ | .arr [] | .arr (_ :: _) | .obj [] | .obj (_ :: _) =>
      rw [words]; simp [readValue]
  | .nat _ => simp [textual] at h

mutual

theorem readValue_words {j : Json} {n : Nat} (rest : List Token) (h : j.textual = true)
    (hn : 2 * j.words.length ≤ n) : readValue n (j.words ++ rest) = (j.draft, some rest) := by
  obtain ⟨n, rfl⟩ : ∃ k, n = k + 1 := by
    have := List.length_pos_iff.2 (words_ne_nil h)
    exact ⟨n - 1, by omega⟩
  match j with
  | .null | .bool _ | .str _ | .arr [] | .obj [] =>
      rw [words]; simp [readValue, draft, draftItems, draftFields]
  | .arr (j :: items) =>
      rw [textual, textualItems, Bool.and_eq_true] at h
      rw [words] at hn ⊢
      simp only [List.cons_append, List.append_assoc, List.length_cons,
        List.length_append] at hn ⊢
      rw [readValue_openArr h.1, readItems_words rest h.1 h.2 (by omega)]
      simp [draft, draftItems]
  | .obj ((k, j) :: fields) =>
      rw [textual, textualFields, Bool.and_eq_true] at h
      rw [words] at hn ⊢
      simp only [List.cons_append, List.append_assoc, List.length_cons,
        List.length_append] at hn ⊢
      rw [readValue]
      · rw [readFields_words rest h.1 h.2 (by omega)]
        simp [draft, draftFields]
      · nofun
termination_by n

theorem readItems_words {j : Json} {items : List Json} {n : Nat} (rest : List Token)
    (h : j.textual = true) (hs : textualItems items = true)
    (hn : 2 * (j.words.length + (itemsWords items).length) ≤ n) :
    readItems n (j.words ++ (itemsWords items ++ rest)) =
      (draftItems (j :: items), some rest) := by
  obtain ⟨n, rfl⟩ : ∃ k, n = k + 1 := by
    have := List.length_pos_iff.2 (words_ne_nil h)
    exact ⟨n - 1, by omega⟩
  match items with
  | [] =>
      rw [itemsWords, List.length_singleton] at hn
      rw [readItems, readValue_words _ h (by omega), itemsWords]
      simp [draftItems]
  | j' :: items =>
      rw [textualItems, Bool.and_eq_true] at hs
      rw [itemsWords] at hn ⊢
      simp only [List.cons_append, List.append_assoc, List.length_cons,
        List.length_append] at hn ⊢
      rw [readItems, readValue_words _ h (by omega)]
      simp only []
      rw [readItems_words rest hs.1 hs.2 (by omega)]
      simp only [draftItems]
termination_by n

theorem readFields_words {k : String} {j : Json} {fields : List (String × Json)} {n : Nat}
    (rest : List Token) (h : j.textual = true) (hs : textualFields fields = true)
    (hn : 2 * (j.words.length + (fieldsWords fields).length) ≤ n) :
    readFields n (.str k :: .colon :: (j.words ++ (fieldsWords fields ++ rest))) =
      (draftFields ((k, j) :: fields), some rest) := by
  obtain ⟨n, rfl⟩ : ∃ k, n = k + 1 := by
    have := List.length_pos_iff.2 (words_ne_nil h)
    exact ⟨n - 1, by omega⟩
  match fields with
  | [] =>
      rw [fieldsWords, List.length_singleton] at hn
      rw [readFields]
      simp only []
      rw [readValue_words _ h (by omega), fieldsWords]
      simp [draftFields]
  | (k', j') :: fields =>
      rw [textualFields, Bool.and_eq_true] at hs
      rw [fieldsWords] at hn ⊢
      simp only [List.cons_append, List.append_assoc, List.length_cons,
        List.length_append] at hn ⊢
      rw [readFields]
      simp only []
      rw [readValue_words _ h (by omega)]
      simp only []
      rw [readFields_words rest hs.1 hs.2 (by omega)]
      simp only [draftFields]
termination_by n

end

/-- A printed value is read as the draft of that value, and nothing follows it. -/
theorem readDocument_print {j : Json} (h : j.textual = true) :
    readDocument j.print = (j.draft, true) := by
  have hread := readValue_words (n := 2 * j.words.length + 1) [] h (by omega)
  rw [List.append_nil] at hread
  rw [readDocument, print, String.toList_ofList, tokens_text h, hread]

end Ferry.Json
