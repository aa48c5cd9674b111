import Ferry.Proofs.Time.Calendar
import Ferry.Time.Rfc3339

/-!
# Time stamps are read back

The strict reader gives back what was written, of every instant the notation is
made for: the year has four digits, and a leap second is the last second of its
minute. Each field of the time stamp is a number of a fixed width, so it is enough
to read back a padded number whatever follows it, and then the parts one by one.
-/

namespace Ferry.Time

variable {width n : Nat} {rest : List Char}

/-! ## Numbers of a fixed width -/

theorem length_padded (hwidth : 0 < width) (hn : n < 10 ^ width) :
    (padded width n).length = width := by
  have hle : (Nat.toDigits 10 n).length ≤ width :=
    (Nat.length_toDigits_le_iff (by decide) hwidth).2 hn
  rw [padded, List.length_append, List.length_replicate]
  omega

theorem isDigit_of_mem_padded {c : Char} (h : c ∈ padded width n) : c.isDigit = true := by
  rcases List.mem_append.1 h with hzero | hdigit
  · rw [List.eq_of_mem_replicate hzero]
    rfl
  · exact Nat.isDigit_of_mem_toDigits (by decide) (by decide) hdigit

theorem digitsValue_eq (cs : List Char) : digitsValue cs = Nat.ofDigitChars 10 cs 0 := by
  rw [digitsValue, Nat.ofDigitChars_eq_foldl]
  refine congrArg (fun f => cs.foldl f 0) ?_
  funext value c
  rw [Nat.mul_comm]
  rfl

theorem digitsValue_padded (width n : Nat) : digitsValue (padded width n) = n := by
  rw [digitsValue_eq, padded, Nat.ofDigitChars_append, Nat.ofDigitChars_replicate_zero,
    Nat.mul_zero, Nat.ofDigitChars_ten_toDigits]

theorem takeWhile_padded : (padded width n).takeWhile Char.isDigit = padded width n := by
  have happ : (padded width n ++ []).takeWhile Char.isDigit = padded width n ++ [] :=
    List.takeWhile_append_of_pos fun _ => isDigit_of_mem_padded
  rwa [List.append_nil] at happ

theorem drop_padded (hwidth : 0 < width) (hn : n < 10 ^ width) :
    (padded width n ++ rest).drop width = rest := by
  have hlength := length_padded hwidth hn
  rw [List.drop_append_of_le_length hlength.ge, List.drop_of_length_le hlength.le]
  rfl

theorem fixedNumber?_padded (hwidth : 0 < width) (hn : n < 10 ^ width) :
    fixedNumber? width (padded width n ++ rest) = some (n, rest) := by
  have hlength := length_padded hwidth hn
  have htake : (padded width n ++ rest).take width = padded width n := by
    rw [List.take_append_of_le_length hlength.ge, List.take_of_length_le hlength.le]
  simp only [fixedNumber?, htake, drop_padded hwidth hn, takeWhile_padded, hlength, if_true,
    digitsValue_padded]

/-! ## The fraction -/

/-- The digits of a fraction end before the sign of the offset. -/
theorem fraction?_padded (hwidth : 0 < width) (hnine : width ≤ 9) (hn : n < 10 ^ width) :
    fraction? ('.' :: padded width n ++ '+' :: rest) =
      some (n * Width.tenTo (9 - width), '+' :: rest) := by
  have hlength := length_padded hwidth hn
  have hdigits : (padded width n ++ '+' :: rest).takeWhile Char.isDigit = padded width n := by
    rw [List.takeWhile_append_of_pos fun _ => isDigit_of_mem_padded]
    simp [Char.isDigit]
  have hsome : (padded width n).isEmpty = false := by
    rw [List.isEmpty_eq_false_iff_exists_mem, ← List.length_pos_iff_exists_mem, hlength]
    exact hwidth
  have hkept : (padded width n).take 9 = padded width n :=
    List.take_of_length_le (hlength.le.trans hnine)
  simp only [fraction?, List.cons_append, hdigits, hkept, hlength, drop_padded hwidth hn,
    digitsValue_padded, hsome, Bool.false_eq_true, if_false]

theorem fraction?_fractionText {nanos : Nat} (h : nanos < 1000000000) :
    fraction? (fractionText nanos ++ '+' :: rest) = some (nanos, '+' :: rest) := by
  rw [fractionText]
  split
  · next hzero =>
    subst hzero
    rfl
  split
  · next hmillis =>
    rw [fraction?_padded (by decide) (by decide) (by omega)]
    have hscale : nanos / 1000000 * Width.tenTo (9 - 3) = nanos := by
      show nanos / 1000000 * 1000000 = nanos
      omega
    rw [hscale]
  split
  · next hmicros =>
    rw [fraction?_padded (by decide) (by decide) (by omega)]
    have hscale : nanos / 1000 * Width.tenTo (9 - 6) = nanos := by
      show nanos / 1000 * 1000 = nanos
      omega
    rw [hscale]
  · rw [fraction?_padded (by decide) (by decide) (by omega)]
    have hscale : nanos * Width.tenTo (9 - 9) = nanos := Nat.mul_one nanos
    rw [hscale]

/-! ## The time stamp -/

namespace Instant

/-- The year of the calendar. -/
def year (t : Instant) : Int :=
  (Date.ofDays (t.seconds / 86400)).year

/-- There is a time stamp for the instant: the year has four digits, and a leap
second is the last second of its minute. -/
structure Legible (t : Instant) : Prop where
  year_nonneg : 0 ≤ t.year
  year_le : t.year ≤ 9999
  nanos_lt : t.nanos < 2000000000
  leap : 1000000000 ≤ t.nanos → t.seconds % 60 = 59

/-- What the time stamp of the instant says. -/
def fields (t : Instant) : Fields :=
  let date := Date.ofDays (t.seconds / 86400)
  let secondOfDay := (t.seconds % 86400).toNat
  { year := date.year, month := date.month, day := date.day
    hour := secondOfDay / 3600, minute := secondOfDay / 60 % 60
    second := secondOfDay % 60 + if 1000000000 ≤ t.nanos then 1 else 0
    nanos := if 1000000000 ≤ t.nanos then t.nanos - 1000000000 else t.nanos
    offset := 0 }

variable {t : Instant}

theorem strictFields?_stamp (h : t.Legible) :
    strictFields? (stamp t ++ ['+', '0', '0', ':', '0', '0']) = some t.fields := by
  obtain ⟨hmonth, hday⟩ := Date.bounds_of_exists? (Date.exists?_ofDays (t.seconds / 86400))
  have hyear : yearText (Date.ofDays (t.seconds / 86400)).year = padded 4 t.year.toNat :=
    if_pos (by simpa [year] using And.intro h.year_nonneg h.year_le)
  have hyear4 : t.year.toNat < 10 ^ 4 := by
    have := h.year_le
    omega
  have hday86400 : (t.seconds % 86400).toNat < 86400 := by omega
  have hnanos : t.fields.nanos < 1000000000 := by
    have := h.nanos_lt
    simp only [fields]
    split <;> omega
  have hstamp : stamp t = padded 4 t.year.toNat ++ '-' :: padded 2 t.fields.month ++
      '-' :: padded 2 t.fields.day ++ 'T' :: padded 2 t.fields.hour ++
      ':' :: padded 2 t.fields.minute ++ ':' :: padded 2 t.fields.second ++
      fractionText t.fields.nanos := by
    rw [stamp, hyear]
    rfl
  have hmonth100 : t.fields.month < 10 ^ 2 := hmonth.trans_lt (by decide)
  have hday100 : t.fields.day < 10 ^ 2 := hday.trans_lt (by decide)
  have hhour : t.fields.hour < 10 ^ 2 := by
    simp only [fields]
    omega
  have hminute : t.fields.minute < 10 ^ 2 := by
    simp only [fields]
    omega
  have hsecond : t.fields.second < 10 ^ 2 := by
    simp only [fields]
    split <;> omega
  have htwo : 0 < 2 := by decide
  rw [hstamp]
  simp only [List.append_assoc, List.cons_append]
  -- the parts are read one after the other
  refine Option.bind_eq_some_iff.2 ⟨_, fixedNumber?_padded (by decide) hyear4, ?_⟩
  refine Option.bind_eq_some_iff.2 ⟨_, rfl, ?_⟩
  refine Option.bind_eq_some_iff.2 ⟨_, fixedNumber?_padded htwo hmonth100, ?_⟩
  refine Option.bind_eq_some_iff.2 ⟨_, rfl, ?_⟩
  refine Option.bind_eq_some_iff.2 ⟨_, fixedNumber?_padded htwo hday100, ?_⟩
  refine Option.bind_eq_some_iff.2 ⟨_, fixedNumber?_padded htwo hhour, ?_⟩
  refine Option.bind_eq_some_iff.2 ⟨_, rfl, ?_⟩
  refine Option.bind_eq_some_iff.2 ⟨_, fixedNumber?_padded htwo hminute, ?_⟩
  refine Option.bind_eq_some_iff.2 ⟨_, rfl, ?_⟩
  refine Option.bind_eq_some_iff.2 ⟨_, fixedNumber?_padded htwo hsecond, ?_⟩
  refine Option.bind_eq_some_iff.2 ⟨_, fraction?_fractionText hnanos, ?_⟩
  refine Option.bind_eq_some_iff.2 ⟨(0, []), by decide, ?_⟩
  have hyear0 : (t.year.toNat : Int) = t.fields.year := Int.toNat_of_nonneg h.year_nonneg
  rw [hyear0]
  rfl

/-- An instant of a year with four digits is in range. -/
theorem inRange_of_year (h0 : 0 ≤ t.year) (h9999 : t.year ≤ 9999) : t.inRange = true := by
  obtain ⟨era, d, hdays, hdate⟩ := Date.exists_ofDays (t.seconds / 86400)
  have hyear : t.year = d.yearOfEra + era * 400 + (if d.month ≤ 2 then 1 else 0) := by
    rw [year, hdate]
    rfl
  have hd0 := d.dayOfEra_nonneg
  have hd := d.dayOfEra_lt
  have hy0 := d.yearOfEra_nonneg
  have hy := d.yearOfEra_lt
  have hera : -1 ≤ era ∧ era ≤ 25 := by
    split at hyear <;> omega
  have hmin : minSeconds ≤ -100000000000 := by decide
  have hmax : 400000000000 ≤ maxSeconds := by decide
  rw [inRange, Bool.and_eq_true, decide_eq_true_eq, decide_eq_true_eq]
  omega

/-- The fields of the time stamp name the instant. -/
theorem toInstant?_fields (h : t.Legible) : t.fields.toInstant? = some t := by
  have hexists : Date.exists? ⟨t.fields.year, t.fields.month, t.fields.day⟩ = true :=
    Date.exists?_ofDays (t.seconds / 86400)
  have hdays : Date.toDays ⟨t.fields.year, t.fields.month, t.fields.day⟩ = t.seconds / 86400 :=
    Date.toDays_ofDays (t.seconds / 86400)
  have hyear : minYear ≤ t.fields.year ∧ t.fields.year ≤ maxYear := by
    have h0 : 0 ≤ t.fields.year := h.year_nonneg
    have h9999 : t.fields.year ≤ 9999 := h.year_le
    have hmin : minYear ≤ 0 := by decide
    have hmax : 9999 ≤ maxYear := by decide
    omega
  have hhour : t.fields.hour = (t.seconds % 86400).toNat / 3600 := rfl
  have hminute : t.fields.minute = (t.seconds % 86400).toNat / 60 % 60 := rfl
  have hsecond : t.fields.second = (t.seconds % 86400).toNat % 60 +
      if 1000000000 ≤ t.nanos then 1 else 0 := rfl
  have hnanos : t.fields.nanos =
      if 1000000000 ≤ t.nanos then t.nanos - 1000000000 else t.nanos := rfl
  have hoffset : t.fields.offset = 0 := rfl
  have hvalid : (minYear ≤ t.fields.year && t.fields.year ≤ maxYear &&
      Date.exists? ⟨t.fields.year, t.fields.month, t.fields.day⟩ && t.fields.hour < 24 &&
      t.fields.minute < 60 && t.fields.second ≤ 60 && -86400 < t.fields.offset &&
      t.fields.offset < 86400) = true := by
    simp only [Bool.and_eq_true, decide_eq_true_eq]
    have hle : t.fields.second ≤ 60 := by
      rw [hsecond]
      split <;> omega
    refine ⟨⟨⟨⟨⟨⟨hyear, hexists⟩, ?_⟩, ?_⟩, hle⟩, ?_⟩, ?_⟩ <;> omega
  have hleap := h.leap
  have hcivil : t.seconds / 86400 * 86400 + t.fields.hour * 3600 + t.fields.minute * 60 +
      (min t.fields.second 59 : Nat) - t.fields.offset = t.seconds := by
    rw [hhour, hminute, hsecond, hoffset]
    split
    · next hl =>
      have h59 := hleap hl
      omega
    · omega
  have hcount : (if t.fields.second = 60 then t.fields.nanos + 1000000000 else t.fields.nanos) =
      t.nanos := by
    rw [hsecond, hnanos]
    split
    · next hl =>
      have h59 := hleap hl
      rw [if_pos (by omega)]
      omega
    · rw [if_neg (by omega)]
  rw [Fields.toInstant?]
  simp only [hvalid, if_true, hdays, hcivil, hcount]
  rw [if_pos (inRange_of_year h.year_nonneg h.year_le)]

/-- What is written is read back. -/
theorem parse?_toOffset (h : t.Legible) : parse? t.toOffset = some t := by
  rw [parse?, toOffset, String.toList_ofList, strictFields?_stamp h, Option.bind_some,
    toInstant?_fields h]

end Instant

end Ferry.Time
