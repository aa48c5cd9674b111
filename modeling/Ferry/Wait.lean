import Ferry.Width

/-!
# Waiting between cycles

How long the worker sleeps after a cycle that found nothing to do and after one
that failed. Delays are counted in milliseconds. With a cap, the delay after a
failure doubles with each further failure in a row, for at most sixteen
doublings, and starts over after a success. A delay that gets too long to be
written down is as long as the cap.
-/

namespace Ferry

/-- Sixteen doublings are the most. -/
def maxDoublings : Nat := 16

/-- Every duration has fewer milliseconds than this, for its seconds are a number of
64 bits. -/
def durationBound : Nat := Width.bound64 * 1000

/-- So many times the duration, if that is one. -/
def times? (duration factor : Nat) : Option Nat :=
  if duration * factor < durationBound then some (duration * factor) else none

inductive WaitStrategy where
  | fixed (idle failure : Nat)
  /-- `failures` counts the failures since the last success. -/
  | doubling (idle base cap : Nat) (failures : UInt32)
deriving DecidableEq, Repr

namespace WaitStrategy

/-- Five seconds in either case. -/
def standard : WaitStrategy := .fixed 5000 5000

/-- A doubling delay; the cap is never below the first delay. -/
def exponential (idle base cap : Nat) : WaitStrategy :=
  .doubling idle base (max cap base) 0

def idleDelay : WaitStrategy → Nat
  | fixed idle _ => idle
  | doubling idle .. => idle

/-- How many times the first delay the next one is, in 32 bits. -/
def growth (failures : UInt32) : Nat :=
  min (Width.twoTo (min failures.toNat maxDoublings)) (Width.bound32 - 1)

/-- The delay after a failure, and the strategy that has counted it. -/
def errorDelay : WaitStrategy → Nat × WaitStrategy
  | fixed idle failure => (failure, fixed idle failure)
  | doubling idle base cap failures =>
    (min ((times? base (growth failures)).getD cap) cap,
      doubling idle base cap (failures + 1))

/-- The strategy after a cycle without an error. -/
def succeeded : WaitStrategy → WaitStrategy
  | fixed idle failure => fixed idle failure
  | doubling idle base cap _ => doubling idle base cap 0

end WaitStrategy

end Ferry
