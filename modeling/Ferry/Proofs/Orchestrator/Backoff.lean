import Ferry.Config.Validate
import Mathlib.Algebra.Group.Nat.Defs
import Mathlib.Data.List.Induction
import Mathlib.Tactic.SplitIfs

/-!
# How long the worker waits

The delay after a failed cycle is to double up to its cap. What a strategy answers depends
on its calls only through the failures since the last success (`streak`), which it counts
in 32 bits, and of which no more than sixteen make a delay longer.

The power of two is too small to saturate. The product may be too long for a duration, but
it is then above every cap of 64 bits, and so the cap that stands in for it is the delay.
What is left of the doubling is therefore bounded by the sixteen and by the width of the
counter, and by nothing else (`errorDelay_after`).
-/

namespace Ferry.WaitStrategy

/-! ## The delay of one failure -/

theorem growth_eq (failures : UInt32) : growth failures = 2 ^ min failures.toNat 16 := by
  have hexp : min failures.toNat 16 ≤ 16 := Nat.min_le_right ..
  have hpow := Nat.pow_le_pow_right Nat.two_pos hexp
  rw [growth, Width.twoTo, Nat.pow_eq, maxDoublings, Width.bound32]
  omega

/-- A product that is too long for a duration is above the cap as well. -/
theorem min_times?_getD {cap : Nat} (hcap : cap < Width.bound64) (base factor : Nat) :
    min ((times? base factor).getD cap) cap = min (base * factor) cap := by
  by_cases hfits : base * factor < durationBound
  · rw [times?, if_pos hfits, Option.getD_some]
  · have hbound : Width.bound64 ≤ durationBound := Nat.le_mul_of_pos_right _ (by decide)
    have hle : cap ≤ base * factor := by omega
    rw [times?, if_neg hfits, Option.getD_none, Nat.min_self, Nat.min_eq_right hle]

theorem errorDelay_doubling {idle base cap : Nat} (hcap : cap < Width.bound64)
    (failures : UInt32) :
    (doubling idle base cap failures).errorDelay =
      (min (base * 2 ^ min failures.toNat 16) cap, doubling idle base cap (failures + 1)) := by
  simp only [errorDelay, growth_eq, min_times?_getD hcap]

/-! ## Any calls -/

inductive Call where
  | idle
  | failed
  | succeeded
deriving DecidableEq, Repr

/-- The strategy after one more call. -/
def called (s : WaitStrategy) : Call → WaitStrategy
  | .idle => s
  | .failed => s.errorDelay.2
  | .succeeded => s.succeeded

/-- The strategy after all of the calls. -/
def after (s : WaitStrategy) (calls : List Call) : WaitStrategy :=
  calls.foldl called s

/-- How many failures there were since the last success. -/
def streak (calls : List Call) : Nat :=
  (calls.reverse.takeWhile fun c => c ≠ .succeeded).count .failed

theorem streak_append_idle (calls : List Call) : streak (calls ++ [.idle]) = streak calls := by
  simp [streak]

theorem streak_append_failed (calls : List Call) :
    streak (calls ++ [.failed]) = streak calls + 1 := by
  simp [streak]

theorem streak_append_succeeded (calls : List Call) : streak (calls ++ [.succeeded]) = 0 := by
  simp [streak]

/-- Nothing but the streak is kept of the calls, and of the streak what 32 bits hold. -/
theorem after_doubling {idle base cap : Nat} (hcap : cap < Width.bound64) (calls : List Call) :
    (doubling idle base cap 0).after calls =
      doubling idle base cap (UInt32.ofNat (streak calls)) := by
  induction calls using List.reverseRecOn with
  | nil => rfl
  | append_singleton calls c ih =>
    have hcalled : (doubling idle base cap 0).after (calls ++ [c]) =
        called ((doubling idle base cap 0).after calls) c :=
      List.foldl_append ..
    rw [hcalled, ih]
    cases c with
    | idle => rw [streak_append_idle]; rfl
    | failed =>
      rw [streak_append_failed, UInt32.ofNat_add]
      exact congrArg Prod.snd (errorDelay_doubling hcap _)
    | succeeded => rw [streak_append_succeeded]; rfl

/-! ## Doubling up to the cap -/

/-- The delay after `k` failures in a row and one more, if each doubles it. -/
def doubled (base cap k : Nat) : Nat :=
  min (base * 2 ^ k) cap

/-- A delay that has doubled fewer times is the same only at the cap. -/
theorem min_mul_pow_eq_doubled_iff {base cap m k : Nat} (hbase : 0 < base) (hlt : m < k) :
    min (base * 2 ^ m) cap = doubled base cap k ↔ cap ≤ base * 2 ^ m := by
  have hpow : 2 ^ m < 2 ^ k := Nat.pow_lt_pow_right (by decide) hlt
  have hmul : base * 2 ^ m < base * 2 ^ k := Nat.mul_lt_mul_of_pos_left hpow hbase
  rw [doubled]
  omega

theorem min_mul_pow_mod_eq_doubled_iff {base cap : Nat} (hbase : 0 < base) (k : Nat) :
    min (base * 2 ^ min (k % 2 ^ 32) 16) cap = doubled base cap k ↔
      k ≤ 16 ∨ cap ≤ base * 2 ^ min (k % 2 ^ 32) 16 := by
  by_cases hk : k ≤ 16
  · have hexp : min (k % 2 ^ 32) 16 = k := by omega
    rw [hexp]
    simp [doubled, hk]
  · rw [min_mul_pow_eq_doubled_iff hbase (by omega)]
    simp [hk]

end Ferry.WaitStrategy

namespace Ferry.Config

open WaitStrategy

/-- What a configuration has to say of the waits to be accepted. -/
theorem waits_of_validate {c : Config} (hvalid : c.validate = .ok ()) :
    0 < c.orchestrator.errorWait ∧
      (c.orchestrator.maxErrorWait ≠ 0 →
        c.orchestrator.errorWait ≤ c.orchestrator.maxErrorWait) := by
  have hnone : c.complaint? = none := by
    rw [validate] at hvalid
    split at hvalid
    · assumption
    · cases hvalid
  simp only [complaint?] at hnone
  split_ifs at hnone with hport hbatch hzero hcap hbuffer
  simp only [Bool.or_eq_true, decide_eq_true_eq, Bool.and_eq_true] at hzero hcap
  omega

theorem waitStrategy_of_validate {c : Config} (hvalid : c.validate = .ok ())
    (hcap : c.orchestrator.maxErrorWait ≠ 0) :
    c.orchestrator.waitStrategy =
      .doubling c.orchestrator.idleWait c.orchestrator.errorWait c.orchestrator.maxErrorWait 0 := by
  have hle := (waits_of_validate hvalid).2 hcap
  rw [Orchestrator.waitStrategy, if_neg hcap, exponential, Nat.max_eq_left hle]

/-- Of a configuration that is accepted, the wait after each failure, whatever was called
before. It has doubled with each failure in a row as long as these are no more than
seventeen; after that only where sixteen doublings reach the cap, or fewer of them once the
counter has started over. -/
theorem errorDelay_after {c : Config} (hvalid : c.validate = .ok ())
    (hcap : c.orchestrator.maxErrorWait ≠ 0)
    (hwidth : c.orchestrator.maxErrorWait < Width.bound64) (calls : List Call) :
    let o := c.orchestrator
    let s := o.waitStrategy.after calls
    let k := streak calls
    s = .doubling o.idleWait o.errorWait o.maxErrorWait (UInt32.ofNat k) ∧
      s.idleDelay = o.idleWait ∧
      s.errorDelay.1 = min (o.errorWait * 2 ^ min (k % 2 ^ 32) 16) o.maxErrorWait ∧
      (s.errorDelay.1 = doubled o.errorWait o.maxErrorWait k ↔
        k ≤ 16 ∨ o.maxErrorWait ≤ o.errorWait * 2 ^ min (k % 2 ^ 32) 16) := by
  intro o s k
  have hbase : 0 < o.errorWait := (waits_of_validate hvalid).1
  have hs : s = .doubling o.idleWait o.errorWait o.maxErrorWait (UInt32.ofNat k) := by
    show o.waitStrategy.after calls = _
    rw [waitStrategy_of_validate hvalid hcap, after_doubling hwidth]
  have hdelay : s.errorDelay.1 =
      min (o.errorWait * 2 ^ min (k % 2 ^ 32) 16) o.maxErrorWait := by
    rw [hs, errorDelay_doubling hwidth, UInt32.toNat_ofNat']
  refine ⟨hs, by rw [hs]; rfl, hdelay, ?_⟩
  rw [hdelay]
  exact min_mul_pow_mod_eq_doubled_iff hbase k

/-- One second that may grow to a minute. -/
def minuteAtMost : Config :=
  { orchestrator := { errorWait := 1000, maxErrorWait := 60000 } }

/-- After a success and seven failures the eighth waits for as long as the cap, and so does
every later one until the counter starts over. -/
theorem errorDelay_after_seven :
    let calls := [Call.failed, .succeeded] ++ List.replicate 7 .failed
    minuteAtMost.validate = .ok () ∧ minuteAtMost.orchestrator.maxErrorWait ≠ 0 ∧
      minuteAtMost.orchestrator.maxErrorWait < Width.bound64 ∧
      (minuteAtMost.orchestrator.waitStrategy.after calls).errorDelay.1 = 60000 ∧
      (minuteAtMost.orchestrator.waitStrategy.after calls).errorDelay.1 = doubled 1000 60000 7 := by
  intro calls
  have hvalid : minuteAtMost.validate = .ok () := rfl
  have hafter := errorDelay_after hvalid (by decide) (by decide) calls
  exact ⟨hvalid, by decide, by decide, hafter.2.2.1, hafter.2.2.2.mpr (.inl (by decide))⟩

/-- One millisecond that may grow to more than two minutes. -/
def twoMinutesAtMost : Config :=
  { orchestrator := { idleWait := 1, errorWait := 1, maxErrorWait := 131072 } }

/-- The eighteenth wait in a row is as long as the seventeenth, although the cap is twice
as long. -/
theorem errorDelay_stays :
    let calls := List.replicate 17 Call.failed
    let s := twoMinutesAtMost.orchestrator.waitStrategy.after calls
    twoMinutesAtMost.validate = .ok () ∧ twoMinutesAtMost.orchestrator.maxErrorWait ≠ 0 ∧
      s.errorDelay.1 = 65536 ∧ doubled 1 131072 (streak calls) = 131072 ∧
      s.errorDelay.1 ≠ doubled 1 131072 (streak calls) := by
  decide

end Ferry.Config
