import Ferry.Net.Url
import Ferry.Proofs.Net.Utf8

/-!
# What percent signs do to a text

A text becomes a path by `Url.encodePath`, which puts percent signs before what a path
cannot hold but lets the percent signs be that are there. So the text of a path is not
always what it was made of: each percent sign with two digits behind it has become a byte
(`bytesOf`). A text that has no such sign comes back as it was, any other one comes back
shorter.
-/

namespace Ferry.Net.Percent

open Utf8 Url

def isDigit (c : Char) : Bool :=
  (digit? c.toNat).isSome

/-- Somewhere in the text a percent sign stands before two digits. -/
def Escapes (cs : List Char) : Prop :=
  ∃ a b, isDigit a = true ∧ isDigit b = true ∧ ['%', a, b] <:+: cs

/-- The bytes of a text with percent signs. -/
def bytesOf : List Char → List Nat
  | '%' :: a :: b :: rest =>
    match digit? a.toNat, digit? b.toNat with
    | some x, some y => (x * 16 + y) :: bytesOf rest
    | _, _ => 0x25 :: bytesOf (a :: b :: rest)
  | c :: rest => encodeChar c ++ bytesOf rest
  | [] => []

/-! ## Digits -/

theorem digit?_eq_none {b : Nat} (h : b < 0x30 ∨ 0x80 ≤ b) : digit? b = none := by
  unfold digit?
  simp only [Bool.and_eq_true, decide_eq_true_eq]
  rw [if_neg (by omega), if_neg (by omega), if_neg (by omega)]

theorem isDigit_eq_false {c : Char} : isDigit c = false ↔ digit? c.toNat = none := by
  simp [isDigit]

theorem toNat_lt_of_isDigit {c : Char} (h : isDigit c = true) : c.toNat < 0x80 := by
  by_contra hge
  rw [isDigit, digit?_eq_none (.inr (by omega))] at h
  cases h

theorem digit?_upperHexDigit {n : Nat} (h : n < 16) :
    digit? (upperHexDigit n).toNat = some n ∧ (upperHexDigit n).toNat < 0x80 := by
  have hall : ∀ n < 16,
      digit? (upperHexDigit n).toNat = some n ∧ (upperHexDigit n).toNat < 0x80 := by decide
  exact hall n h

theorem staysInPath_of_isDigit {c : Char} (h : isDigit c = true) : staysInPath c = true := by
  have hlt := toNat_lt_of_isDigit h
  have hall : ∀ n < 0x80, isDigit (Char.ofNat n) = true → staysInPath (Char.ofNat n) = true := by
    decide +kernel
  have hstays := hall c.toNat hlt
  rw [Char.ofNat_toNat] at hstays
  exact hstays h

/-! ## Percent signs in front -/

theorem decodeBytes_append_plain {bs : List Nat} (h : ∀ b ∈ bs, b ≠ 0x25) (rest : List Nat) :
    decodeBytes (bs ++ rest) = bs ++ decodeBytes rest := by
  induction bs with
  | nil => rfl
  | cons b bs ih =>
      rw [List.forall_mem_cons] at h
      rw [List.cons_append, decodeBytes, ih h.2, List.cons_append]
      intro a c more heq
      exact absurd heq h.1

theorem decodeBytes_percent {bs : List Nat}
    (h : ∀ a b rest, bs = a :: b :: rest → digit? a = none ∨ digit? b = none) :
    decodeBytes (0x25 :: bs) = 0x25 :: decodeBytes bs := by
  match bs with
  | [] => simp [decodeBytes]
  | [a] => simp [decodeBytes]
  | a :: b :: rest =>
      rw [decodeBytes]
      rcases h a b rest rfl with hnone | hnone
      · simp [hnone]
      · rw [hnone]
        cases digit? a <;> rfl

theorem decodeBytes_percentEncode {bs : List Nat} (h : ∀ b ∈ bs, b < 0x100) (rest : List Nat) :
    decodeBytes (encode (bs.flatMap fun b =>
      ['%', upperHexDigit (b / 16), upperHexDigit (b % 16)]) ++ rest) = bs ++ decodeBytes rest := by
  induction bs with
  | nil => rfl
  | cons b bs ih =>
      rw [List.forall_mem_cons] at h
      obtain ⟨hhigh, hhigh'⟩ := digit?_upperHexDigit (n := b / 16) (by omega)
      obtain ⟨hlow, hlow'⟩ := digit?_upperHexDigit (n := b % 16) (by omega)
      have hbyte : b / 16 * 16 + b % 16 = b := by omega
      have hpercent : encodeChar '%' = [0x25] := rfl
      rw [List.flatMap_cons, encode, List.flatMap_append, ← encode, ← encode, List.append_assoc]
      simp only [encode, List.flatMap_cons, List.flatMap_nil, hpercent, encodeChar_plain hhigh',
        encodeChar_plain hlow', List.append_nil, List.cons_append, List.nil_append]
      rw [decodeBytes, hhigh, hlow]
      simp only [hbyte]
      rw [← encode, ih h.2]

/-! ## The bytes of a text -/

/-- A way to write characters that changes none of the percent signs. -/
structure Spelling (write : Char → List Nat) : Prop where
  plain : ∀ c, c = '%' ∨ isDigit c = true → write c = [c.toNat]
  other : ∀ c, c ≠ '%' → ∀ rest,
    decodeBytes (write c ++ rest) = encodeChar c ++ decodeBytes rest
  head : ∀ c, isDigit c = false → ∃ b bs, write c = b :: bs ∧ digit? b = none

variable {write : Char → List Nat}

/-- A percent sign stays where one of the two characters after it is no digit. -/
theorem Spelling.decodeBytes_percent (h : Spelling write) {cs : List Char}
    (hcs : ∀ a b rest, cs = a :: b :: rest → isDigit a = false ∨ isDigit b = false) :
    decodeBytes (0x25 :: cs.flatMap write) = 0x25 :: decodeBytes (cs.flatMap write) := by
  refine Percent.decodeBytes_percent fun u v more heq => ?_
  match cs with
  | [] => cases heq
  | a :: rest =>
      rw [List.flatMap_cons] at heq
      cases ha : isDigit a with
      | false =>
          obtain ⟨w, ws, hwrite, hnone⟩ := h.head a ha
          rw [hwrite] at heq
          exact .inl ((List.cons.inj heq).1 ▸ hnone)
      | true =>
          rw [h.plain a (.inr ha)] at heq
          match rest with
          | [] => cases heq
          | b :: last =>
              obtain ⟨w, ws, hwrite, hnone⟩ :=
                h.head b ((hcs a b last rfl).resolve_left (by simp [ha]))
              rw [List.flatMap_cons, hwrite] at heq
              exact .inr ((List.cons.inj (List.cons.inj heq).2).1 ▸ hnone)

theorem Spelling.decodeBytes_flatMap (h : Spelling write) (cs : List Char) :
    decodeBytes (cs.flatMap write) = bytesOf cs := by
  have hpercent : write '%' = [0x25] := h.plain '%' (.inl rfl)
  fun_induction bytesOf cs with
  | case1 a b rest x y hy hx ih =>
      have ha := h.plain a (.inr (by simp [isDigit, hx]))
      have hb := h.plain b (.inr (by simp [isDigit, hy]))
      simp only [List.flatMap_cons, hpercent, ha, hb, List.cons_append, List.nil_append]
      rw [decodeBytes, hx, hy, ih]
  | case2 a b rest hnone ih =>
      rw [List.flatMap_cons, hpercent, List.singleton_append, h.decodeBytes_percent, ih]
      intro a' b' rest' heq
      cases heq
      rw [isDigit_eq_false, isDigit_eq_false]
      cases ha : digit? a.toNat with
      | none => exact .inl rfl
      | some x =>
          cases hb : digit? b.toNat with
          | none => exact .inr rfl
          | some y => exact (hnone x y ha hb).elim
  | case3 c rest hrest ih =>
      rw [List.flatMap_cons]
      by_cases hc : c = '%'
      · subst hc
        rw [hpercent, List.singleton_append, h.decodeBytes_percent, ih]
        · rfl
        · intro a b rest' heq
          exact absurd heq (hrest a b rest' rfl)
      · rw [h.other c hc, ih]
  | case4 => rfl

theorem encodeChar_of_le {c : Char} (h : 0x80 ≤ c.toNat) : ∀ b ∈ encodeChar c, 0x80 ≤ b := by
  unfold encodeChar
  rw [if_neg (by omega)]
  split
  · simp
    omega
  · split <;> simp <;> omega

theorem encodeChar_lt (c : Char) : ∀ b ∈ encodeChar c, b < 0x100 := by
  have hvalid : c.toNat.isValidChar := c.valid
  unfold Nat.isValidChar at hvalid
  unfold encodeChar
  dsimp only
  split
  · simp
    omega
  · split
    · simp
      omega
    · split <;> simp <;> omega

theorem toNat_ne_of_ne {c d : Char} (h : c ≠ d) : c.toNat ≠ d.toNat := by
  intro heq
  exact h (Char.toNat_inj.1 heq)

theorem spelling_encodeChar : Spelling encodeChar where
  plain c hc := by
    refine encodeChar_plain ?_
    rcases hc with rfl | hc
    · decide
    · exact toNat_lt_of_isDigit hc
  other c hc := by
    refine decodeBytes_append_plain fun b hb hpercent => ?_
    by_cases hlt : c.toNat < 0x80
    · rw [encodeChar_plain hlt, List.mem_singleton] at hb
      exact toNat_ne_of_ne hc (hb ▸ hpercent)
    · have hle := encodeChar_of_le (Nat.le_of_not_lt hlt) b hb
      omega
  head c hc := by
    by_cases hlt : c.toNat < 0x80
    · exact ⟨_, [], encodeChar_plain hlt, isDigit_eq_false.1 hc⟩
    · obtain ⟨b, bs, hb⟩ := List.exists_cons_of_ne_nil (encodeChar_ne_nil c)
      have hle := encodeChar_of_le (Nat.le_of_not_lt hlt) b (by simp [hb])
      exact ⟨b, bs, hb, digit?_eq_none (.inr hle)⟩

theorem spelling_encodePath :
    Spelling fun c => encode (if staysInPath c then [c] else percentEncode c) where
  plain c hc := by
    have hstays : staysInPath c = true := by
      rcases hc with rfl | hc
      · decide
      · exact staysInPath_of_isDigit hc
    simp [hstays, encode, spelling_encodeChar.plain c hc]
  other c hc rest := by
    split
    · simpa [encode] using spelling_encodeChar.other c hc rest
    · exact decodeBytes_percentEncode (encodeChar_lt c) rest
  head c hc := by
    split
    · simpa [encode] using spelling_encodeChar.head c hc
    · obtain ⟨b, bs, hb⟩ := List.exists_cons_of_ne_nil (encodeChar_ne_nil c)
      rw [percentEncode, hb]
      exact ⟨0x25, _, rfl, rfl⟩

theorem decodeBytes_encodePath (cs : List Char) :
    decodeBytes (encode (encodePath cs)) = bytesOf cs := by
  rw [← spelling_encodePath.decodeBytes_flatMap, encodePath, encode, List.flatMap_assoc]
  rfl

/-! ## What comes back -/

theorem escapes_cons {c : Char} {rest : List Char} : Escapes (c :: rest) ↔
    (∃ a b more, c = '%' ∧ rest = a :: b :: more ∧ isDigit a = true ∧ isDigit b = true) ∨
      Escapes rest := by
  simp only [Escapes, List.infix_cons_iff]
  constructor
  · rintro ⟨a, b, ha, hb, ⟨more, hmore⟩ | hrest⟩
    · cases hmore
      exact .inl ⟨a, b, more, rfl, rfl, ha, hb⟩
    · exact .inr ⟨a, b, ha, hb, hrest⟩
  · rintro (⟨a, b, more, rfl, rfl, ha, hb⟩ | ⟨a, b, ha, hb, hrest⟩)
    · exact ⟨a, b, ha, hb, .inl ⟨more, rfl⟩⟩
    · exact ⟨a, b, ha, hb, .inr hrest⟩

theorem not_escapes_nil : ¬ Escapes [] := by
  rintro ⟨a, b, -, -, h⟩
  simp at h

theorem bytesOf_of_not_escapes {cs : List Char} (h : ¬ Escapes cs) : bytesOf cs = encode cs := by
  fun_induction bytesOf cs with
  | case1 a b rest x y hy hx ih =>
      refine absurd (escapes_cons.2 (.inl ⟨a, b, rest, rfl, rfl, ?_, ?_⟩)) h
      · simp [isDigit, hx]
      · simp [isDigit, hy]
  | case2 a b rest hnone ih =>
      rw [ih fun hrest => h (escapes_cons.2 (.inr hrest))]
      rfl
  | case3 c rest hrest ih =>
      rw [ih fun hrest => h (escapes_cons.2 (.inr hrest))]
      rfl
  | case4 => rfl

theorem length_encode_cons (c : Char) (cs : List Char) :
    (encode (c :: cs)).length = (encodeChar c).length + (encode cs).length := by
  rw [encode, List.flatMap_cons, List.length_append, ← encode]

theorem length_encodeChar_pos (c : Char) : 0 < (encodeChar c).length :=
  List.length_pos_of_ne_nil (encodeChar_ne_nil c)

theorem length_bytesOf_le (cs : List Char) : (bytesOf cs).length ≤ (encode cs).length := by
  fun_induction bytesOf cs with
  | case1 a b rest x y hy hx ih =>
      simp only [length_encode_cons, List.length_cons]
      have hpos := length_encodeChar_pos '%'
      omega
  | case2 a b rest hnone ih =>
      rw [length_encode_cons, List.length_cons]
      have hpos := length_encodeChar_pos '%'
      omega
  | case3 c rest hrest ih =>
      rw [length_encode_cons, List.length_append]
      omega
  | case4 => exact Nat.le_refl _

/-- Where a percent sign stands before two digits something is lost. -/
theorem length_bytesOf_lt {cs : List Char} (h : Escapes cs) :
    (bytesOf cs).length < (encode cs).length := by
  fun_induction bytesOf cs with
  | case1 a b rest x y hy hx ih =>
      have hle := length_bytesOf_le rest
      have hpos := length_encodeChar_pos '%'
      have hpos' := length_encodeChar_pos a
      simp only [length_encode_cons, List.length_cons]
      omega
  | case2 a b rest hnone ih =>
      have hpos := length_encodeChar_pos '%'
      rw [length_encode_cons, List.length_cons]
      rcases escapes_cons.1 h with ⟨a', b', more, -, heq, ha, hb⟩ | hrest
      · cases heq
        obtain ⟨x, hx⟩ := Option.isSome_iff_exists.1 ha
        obtain ⟨y, hy⟩ := Option.isSome_iff_exists.1 hb
        exact (hnone x y hx hy).elim
      · have hlt := ih hrest
        omega
  | case3 c rest hrest ih =>
      rw [length_encode_cons, List.length_append]
      rcases escapes_cons.1 h with ⟨a, b, more, rfl, rfl, -, -⟩ | hmore
      · exact (hrest a b more rfl rfl).elim
      · have hlt := ih hmore
        omega
  | case4 => exact absurd h not_escapes_nil

/-- A text comes back from a path as it was just if it has no such percent sign. -/
theorem bytesOf_eq_encode {cs : List Char} : bytesOf cs = encode cs ↔ ¬ Escapes cs := by
  constructor
  · intro heq h
    have hlt := length_bytesOf_lt h
    rw [heq] at hlt
    omega
  · exact bytesOf_of_not_escapes

/-- What a segment of a path says when it was made of a text. -/
theorem decodeSegment?_encodePath {cs : List Char} {text : String} :
    decodeSegment? (String.ofList (encodePath cs)) = some text ↔
      encode text.toList = bytesOf cs := by
  rw [decodeSegment?, String.toList_ofList, decodeBytes_encodePath, Option.map_eq_some_iff]
  constructor
  · rintro ⟨cs', hcs', rfl⟩
    rw [String.toList_ofList]
    exact decode?_eq_some.1 hcs'
  · intro h
    exact ⟨text.toList, decode?_eq_some.2 h, String.ofList_toList⟩

end Ferry.Net.Percent
