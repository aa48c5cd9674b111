import Ferry.Net.Percent
import Mathlib.Data.List.Basic

/-!
# Plain queries

A query whose names and values are letters and digits says what it shows: none of these
characters stands for another one, and none of them separates. So its pairs are read one
after the other.
-/

namespace Ferry.Net

/-- A letter or a digit stands for itself. -/
def IsPlain (cs : List Char) : Prop :=
  ∀ c ∈ cs, c.isAlphanum = true

theorem toNat_lt_of_isAlphanum {c : Char} (h : c.isAlphanum = true) : c.toNat < 128 := by
  have hval : c.toNat = c.val.toNat := rfl
  unfold Char.isAlphanum Char.isAlpha Char.isUpper Char.isLower Char.isDigit at h
  simp [UInt32.le_iff_toNat_le] at h
  omega

theorem ne_of_isAlphanum {c d : Char} (h : c.isAlphanum = true) (hd : d.isAlphanum = false) :
    c ≠ d := by
  rintro rfl
  rw [h] at hd
  cases hd

theorem IsPlain.not_mem {cs : List Char} (h : IsPlain cs) {d : Char}
    (hd : d.isAlphanum = false) : d ∉ cs :=
  fun hmem => ne_of_isAlphanum (h d hmem) hd rfl

namespace Utf8

theorem encodeChar_plain {c : Char} (h : c.toNat < 128) : encodeChar c = [c.toNat] :=
  if_pos h

theorem encode_plain {cs : List Char} (h : ∀ c ∈ cs, c.toNat < 128) :
    encode cs = cs.map Char.toNat := by
  induction cs with
  | nil => rfl
  | cons c cs ih =>
      rw [List.forall_mem_cons] at h
      rw [encode, List.flatMap_cons, encodeChar_plain h.1, ← encode, ih h.2]
      rfl

theorem next_plain {a : Nat} (h : a < 128) (rest : List Nat) :
    next a rest = (some (Char.ofNat a), rest) := by
  have hone : lengthFrom a = 1 := if_pos h
  simp [next, hone]

theorem decodeMarked_plain {cs : List Char} (h : ∀ c ∈ cs, c.toNat < 128) :
    decodeMarked (cs.map Char.toNat) = cs := by
  have hread : ∀ n, cs.length ≤ n → readWithin n (cs.map Char.toNat) = cs.map some := by
    induction cs with
    | nil =>
        intro n _
        cases n <;> rfl
    | cons c cs ih =>
        intro n hn
        rw [List.forall_mem_cons] at h
        obtain ⟨m, rfl⟩ : ∃ m, n = m + 1 := Nat.exists_eq_succ_of_ne_zero (by
          rw [List.length_cons] at hn
          omega)
        rw [List.map_cons, readWithin, next_plain h.1, Char.ofNat_toNat]
        exact congrArg (some c :: ·) (ih h.2 m (Nat.le_of_succ_le_succ hn))
  rw [decodeMarked, readAll, hread _ (by simp), List.map_map]
  exact List.map_id cs

end Utf8

namespace Percent

theorem decodeBytes_plain {bytes : List Nat} (h : ∀ b ∈ bytes, b ≠ 0x25) :
    decodeBytes bytes = bytes := by
  induction bytes with
  | nil => rfl
  | cons b rest ih =>
      rw [List.forall_mem_cons] at h
      rw [decodeBytes, ih h.2]
      intro a c more heq
      exact absurd heq h.1

theorem decodeQuery_plain {cs : List Char} (h : IsPlain cs) :
    decodeQuery cs = String.ofList cs := by
  have hspaced : (cs.map fun c => if c = '+' then ' ' else c) = cs := by
    refine (List.map_congr_left fun c hc => ?_).trans (List.map_id cs)
    exact if_neg (ne_of_isAlphanum (h c hc) rfl)
  have hascii : ∀ c ∈ cs, c.toNat < 128 := fun c hc => toNat_lt_of_isAlphanum (h c hc)
  have hbytes : ∀ b ∈ cs.map Char.toNat, b ≠ 0x25 := by
    intro b hb
    obtain ⟨c, hc, rfl⟩ := List.mem_map.mp hb
    intro hpercent
    have hchar : c = '%' := by
      rw [← Char.ofNat_toNat c, hpercent]
    exact ne_of_isAlphanum (h c hc) rfl hchar
  rw [decodeQuery]
  simp only [hspaced, Utf8.encode_plain hascii, decodeBytes_plain hbytes,
    Utf8.decodeMarked_plain hascii]

theorem splitAll_of_not_mem {sep : Char} {cs : List Char} (h : sep ∉ cs) :
    splitAll sep cs = [cs] := by
  induction cs with
  | nil => rfl
  | cons c cs ih =>
      rw [List.mem_cons, not_or] at h
      rw [splitAll, if_neg fun heq => h.1 heq.symm, ih h.2]

theorem splitAll_append {sep : Char} {cs : List Char} (h : sep ∉ cs) (rest : List Char) :
    splitAll sep (cs ++ sep :: rest) = cs :: splitAll sep rest := by
  induction cs with
  | nil => rw [List.nil_append, splitAll, if_pos rfl]
  | cons c cs ih =>
      rw [List.mem_cons, not_or] at h
      rw [List.cons_append, splitAll, if_neg fun heq => h.1 heq.symm, ih h.2]

/-- A name with its value, as it stands in a query. -/
def pairText (name value : List Char) : List Char :=
  name ++ '=' :: value

variable {name value : List Char}

theorem not_mem_pairText (hname : IsPlain name) (hvalue : IsPlain value) :
    '&' ∉ pairText name value := by
  simp [pairText, hname.not_mem, hvalue.not_mem]

theorem readPair_plain (hname : IsPlain name) (hvalue : IsPlain value) :
    (decodeQuery ((pairText name value).takeWhile (· != '=')),
      decodeQuery (((pairText name value).dropWhile (· != '=')).drop 1)) =
        (String.ofList name, String.ofList value) := by
  have hbefore : ∀ c ∈ name, (c != '=') = true := by
    intro c hc
    simpa using ne_of_isAlphanum (hname c hc) (d := '=') rfl
  have htake : (pairText name value).takeWhile (· != '=') = name := by
    rw [pairText, List.takeWhile_append_of_pos hbefore]
    simp
  have hdrop : (pairText name value).dropWhile (· != '=') = '=' :: value := by
    rw [pairText, List.dropWhile_append_of_pos hbefore]
    simp
  rw [htake, hdrop, decodeQuery_plain hname]
  exact congrArg _ (decodeQuery_plain hvalue)

theorem queryPairs_single (hname : IsPlain name) (hvalue : IsPlain value) :
    queryPairs (String.ofList (pairText name value)) =
      [(String.ofList name, String.ofList value)] := by
  have hfull : (pairText name value).isEmpty = false := by simp [pairText]
  rw [queryPairs, String.toList_ofList, splitAll_of_not_mem (not_mem_pairText hname hvalue)]
  simp only [List.filter_cons, hfull, Bool.not_false, if_true, List.filter_nil, List.map_cons,
    List.map_nil, readPair_plain hname hvalue]

theorem queryPairs_cons (hname : IsPlain name) (hvalue : IsPlain value) (rest : List Char) :
    queryPairs (String.ofList (pairText name value ++ '&' :: rest)) =
      (String.ofList name, String.ofList value) :: queryPairs (String.ofList rest) := by
  have hfull : (pairText name value).isEmpty = false := by simp [pairText]
  rw [queryPairs, String.toList_ofList, splitAll_append (not_mem_pairText hname hvalue)]
  simp only [List.filter_cons, hfull, Bool.not_false, if_true, List.map_cons,
    readPair_plain hname hvalue]
  rw [queryPairs, String.toList_ofList]

end Percent

end Ferry.Net
