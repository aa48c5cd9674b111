import Ferry.Proofs.Net.Query

/-!
# Characters are read as they were encoded

Each character has one encoding, and whatever is read as the character is that encoding
(`encodeChar_of_next`). So a text can be decoded just from its own bytes (`decode?_eq_some`).
-/

namespace Ferry.Net.Utf8

theorem toNat_ofNat_of_valid {n : Nat} (h : n.isValidChar) : (Char.ofNat n).toNat = n := by
  rw [Char.ofNat, dif_pos h]
  rfl

theorem mayFollow_iff {a b : Nat} : mayFollow a b = true ↔
    0x80 ≤ b ∧ b ≤ 0xbf ∧ (a = 0xe0 → 0xa0 ≤ b) ∧ (a = 0xf0 → 0x90 ≤ b) ∧
      (a = 0xed → b ≤ 0x9f) ∧ (a = 0xf4 → b ≤ 0x8f) := by
  grind [mayFollow]

theorem isTail_iff {b : Nat} : isTail b = true ↔ 0x80 ≤ b ∧ b < 0xc0 := by
  simp [isTail]

/-! ## The lead byte tells the length -/

variable {a : Nat} {rest more : List Nat} {c : Char}

theorem lengthFrom_eq_one : lengthFrom a = 1 ↔ a < 0x80 := by
  grind [lengthFrom]

theorem lengthFrom_eq_two : lengthFrom a = 2 ↔ 0xc2 ≤ a ∧ a < 0xe0 := by
  grind [lengthFrom]

theorem lengthFrom_eq_three : lengthFrom a = 3 ↔ 0xe0 ≤ a ∧ a < 0xf0 := by
  grind [lengthFrom]

theorem lengthFrom_eq_four : lengthFrom a = 4 ↔ 0xf0 ≤ a ∧ a < 0xf5 := by
  grind [lengthFrom]

/-! ## Characters -/

theorem encodeChar_one (ha : a < 0x80) : encodeChar (Char.ofNat a) = [a] := by
  have hvalue := toNat_ofNat_of_valid (n := a) (.inl (by omega))
  rw [encodeChar, hvalue, if_pos ha]

theorem encodeChar_two {b : Nat} (ha : 0xc2 ≤ a ∧ a < 0xe0) (hb : 0x80 ≤ b ∧ b < 0xc0) :
    encodeChar (Char.ofNat ((a - 0xc0) * 0x40 + (b - 0x80))) = [a, b] := by
  have hvalue := toNat_ofNat_of_valid (n := (a - 0xc0) * 0x40 + (b - 0x80)) (.inl (by omega))
  simp only [encodeChar, hvalue]
  rw [if_neg (by omega), if_pos (by omega)]
  simp only [List.cons.injEq, and_true]
  omega

theorem encodeChar_three {b d : Nat} (ha : 0xe0 ≤ a ∧ a < 0xf0) (hb : mayFollow a b = true)
    (hd : 0x80 ≤ d ∧ d < 0xc0) :
    encodeChar (Char.ofNat ((a - 0xe0) * 0x1000 + (b - 0x80) * 0x40 + (d - 0x80))) =
      [a, b, d] := by
  have hb := mayFollow_iff.1 hb
  have hvalid : ((a - 0xe0) * 0x1000 + (b - 0x80) * 0x40 + (d - 0x80)).isValidChar := by
    unfold Nat.isValidChar
    omega
  simp only [encodeChar, toNat_ofNat_of_valid hvalid]
  rw [if_neg (by omega), if_neg (by omega), if_pos (by omega)]
  simp only [List.cons.injEq, and_true]
  omega

theorem encodeChar_four {b d e : Nat} (ha : 0xf0 ≤ a ∧ a < 0xf5) (hb : mayFollow a b = true)
    (hd : 0x80 ≤ d ∧ d < 0xc0) (he : 0x80 ≤ e ∧ e < 0xc0) :
    encodeChar (Char.ofNat ((a - 0xf0) * 0x40000 + (b - 0x80) * 0x1000 + (d - 0x80) * 0x40 +
      (e - 0x80))) = [a, b, d, e] := by
  have hb := mayFollow_iff.1 hb
  have hvalid : ((a - 0xf0) * 0x40000 + (b - 0x80) * 0x1000 + (d - 0x80) * 0x40 +
      (e - 0x80)).isValidChar := by
    unfold Nat.isValidChar
    omega
  simp only [encodeChar, toNat_ofNat_of_valid hvalid]
  rw [if_neg (by omega), if_neg (by omega), if_neg (by omega)]
  simp only [List.cons.injEq, and_true]
  omega

/-- What is read as a character is its encoding. -/
theorem encodeChar_of_next (h : next a rest = (some c, more)) :
    a :: rest = encodeChar c ++ more := by
  unfold next at h
  split at h
  · next hlength =>
      simp only [Prod.mk.injEq, Option.some.injEq] at h
      obtain ⟨rfl, rfl⟩ := h
      rw [encodeChar_one (lengthFrom_eq_one.1 hlength)]
      rfl
  · next b last hlength =>
      split at h
      · next htail =>
          simp only [Prod.mk.injEq, Option.some.injEq] at h
          obtain ⟨rfl, rfl⟩ := h
          rw [encodeChar_two (lengthFrom_eq_two.1 hlength) (isTail_iff.1 htail)]
          rfl
      · cases h
  · next b last hlength =>
      split at h
      · cases h
      · next hfollow =>
          split at h
          · cases h
          · next d last' =>
              split at h
              · next htail =>
                  simp only [Prod.mk.injEq, Option.some.injEq] at h
                  obtain ⟨rfl, rfl⟩ := h
                  rw [encodeChar_three (lengthFrom_eq_three.1 hlength) (by simpa using hfollow)
                    (isTail_iff.1 htail)]
                  rfl
              · cases h
  · next b last hlength =>
      split at h
      · cases h
      · next hfollow =>
          split at h
          · cases h
          · next d third =>
              split at h
              · cases h
              · next htail =>
                  split at h
                  · cases h
                  · next e last' =>
                      split at h
                      · next htail' =>
                          simp only [Prod.mk.injEq, Option.some.injEq] at h
                          obtain ⟨rfl, rfl⟩ := h
                          rw [encodeChar_four (lengthFrom_eq_four.1 hlength)
                            (by simpa using hfollow) (isTail_iff.1 (by simpa using htail))
                            (isTail_iff.1 htail')]
                          rfl
                      · cases h
  · cases h

/-- The encoding of a character is read as the character. -/
theorem next_of_encodeChar (h : a :: rest = encodeChar c ++ more) :
    next a rest = (some c, more) := by
  have hvalid : c.toNat.isValidChar := c.valid
  unfold Nat.isValidChar at hvalid
  have hofNat : ∀ n, n = c.toNat → Char.ofNat n = c := by
    rintro _ rfl
    exact c.ofNat_toNat
  rw [encodeChar] at h
  split at h
  · obtain ⟨rfl, rfl⟩ := List.cons.inj h
    have hlength := lengthFrom_eq_one.2 ‹_›
    simp [next, hlength, hofNat]
  · split at h
    · simp only [List.cons_append, List.nil_append, List.cons.injEq] at h
      obtain ⟨ha, rfl⟩ := h
      have hlength := lengthFrom_eq_two.2 (show 0xc2 ≤ a ∧ a < 0xe0 by omega)
      have htail := isTail_iff.2 (show 0x80 ≤ 0x80 + c.toNat % 0x40 ∧ _ by omega)
      simp only [next, hlength, htail, if_true]
      rw [hofNat _ (by omega)]
    · split at h
      · simp only [List.cons_append, List.nil_append, List.cons.injEq] at h
        obtain ⟨ha, rfl⟩ := h
        have hlength := lengthFrom_eq_three.2 (show 0xe0 ≤ a ∧ a < 0xf0 by omega)
        have hfollow : mayFollow a (0x80 + c.toNat / 0x40 % 0x40) = true :=
          mayFollow_iff.2 (by omega)
        have htail := isTail_iff.2 (show 0x80 ≤ 0x80 + c.toNat % 0x40 ∧ _ by omega)
        simp only [next, hlength, hfollow, htail, if_true, Bool.not_true, Bool.false_eq_true,
          if_false]
        rw [hofNat _ (by omega)]
      · simp only [List.cons_append, List.nil_append, List.cons.injEq] at h
        obtain ⟨ha, rfl⟩ := h
        have hlength := lengthFrom_eq_four.2 (show 0xf0 ≤ a ∧ a < 0xf5 by omega)
        have hfollow : mayFollow a (0x80 + c.toNat / 0x1000 % 0x40) = true :=
          mayFollow_iff.2 (by omega)
        have htail := isTail_iff.2 (show 0x80 ≤ 0x80 + c.toNat / 0x40 % 0x40 ∧ _ by omega)
        have htail' := isTail_iff.2 (show 0x80 ≤ 0x80 + c.toNat % 0x40 ∧ _ by omega)
        simp only [next, hlength, hfollow, htail, htail', if_true, Bool.not_true,
          Bool.false_eq_true, if_false]
        rw [hofNat _ (by omega)]

theorem encodeChar_ne_nil (c : Char) : encodeChar c ≠ [] := by
  grind [encodeChar]

/-! ## Texts -/

theorem length_of_encodeChar (h : a :: rest = encodeChar c ++ more) :
    more.length ≤ rest.length := by
  have hpos := List.length_pos_of_ne_nil (encodeChar_ne_nil c)
  have hlength := congrArg List.length h
  rw [List.length_cons, List.length_append] at hlength
  omega

theorem readWithin_eq {cs : List Char} {bytes : List Nat} {n : Nat} (hn : bytes.length ≤ n) :
    readWithin n bytes = cs.map some ↔ encode cs = bytes := by
  induction cs generalizing bytes n with
  | nil => cases n <;> cases bytes <;> simp_all [readWithin, encode]
  | cons c cs ih =>
      cases bytes with
      | nil => cases n <;> simp [readWithin, encode, encodeChar_ne_nil]
      | cons a rest =>
          obtain ⟨m, rfl⟩ : ∃ m, n = m + 1 := Nat.exists_eq_succ_of_ne_zero (by
            rw [List.length_cons] at hn
            omega)
          have hle : rest.length ≤ m := Nat.le_of_succ_le_succ hn
          simp only [readWithin, List.map_cons, List.cons.injEq, encode, List.flatMap_cons]
          constructor
          · intro h
            have hbytes := encodeChar_of_next (Prod.ext h.1 rfl : next a rest = (some c, _))
            have hmore := Nat.le_trans (length_of_encodeChar hbytes) hle
            rw [← encode, (ih hmore).1 h.2]
            exact hbytes.symm
          · intro h
            have hmore := Nat.le_trans (length_of_encodeChar h.symm) hle
            rw [next_of_encodeChar h.symm]
            exact ⟨rfl, (ih hmore).2 rfl⟩

theorem mapM_id_eq_some {ds : List (Option Char)} {cs : List Char} :
    ds.mapM id = some cs ↔ ds = cs.map some := by
  induction ds generalizing cs with
  | nil => cases cs <;> simp
  | cons d rest ih =>
      rw [List.mapM_cons]
      cases d with
      | none => cases cs <;> simp
      | some c =>
          show (rest.mapM id >>= fun more => pure (c :: more)) = some cs ↔ _
          rw [Option.bind_eq_bind, Option.bind_eq_some_iff]
          simp only [ih, Option.pure_def, Option.some.injEq]
          constructor
          · rintro ⟨more, rfl, rfl⟩
            rfl
          · intro h
            cases cs with
            | nil => cases h
            | cons c' cs' =>
                obtain ⟨hc, hrest⟩ := List.cons.inj h
                exact ⟨cs', hrest, congrArg (· :: cs') (Option.some.inj hc)⟩

/-- A text is read just from its own bytes. -/
theorem decode?_eq_some {bytes : List Nat} {cs : List Char} :
    decode? bytes = some cs ↔ encode cs = bytes := by
  rw [decode?, mapM_id_eq_some]
  exact readWithin_eq (Nat.le_refl _)

end Ferry.Net.Utf8
