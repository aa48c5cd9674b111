import Ferry.Time.Calendar

/-!
# Instants

A point in time on the UTC scale: whole seconds since 1970-01-01T00:00:00Z and
a count of nanoseconds. A leap second is the second before it with a count of
at least one thousand million, so that 23:59:60 can be told from the midnight
that follows it; counted in milliseconds the two fall together.
-/

namespace Ferry.Time

structure Instant where
  seconds : Int
  nanos : Nat
deriving DecidableEq, Repr, Inhabited

namespace Instant

/-- 1970-01-01T00:00:00Z. -/
def epoch : Instant := ⟨0, 0⟩

/-- The first year that can be represented. -/
def minYear : Int := -262143

/-- The last year that can be represented. -/
def maxYear : Int := 262142

/-- The first second of `minYear`. -/
def minSeconds : Int := (Date.mk minYear 1 1).toDays * 86400

/-- The last second of `maxYear`. -/
def maxSeconds : Int := (Date.mk maxYear 12 31).toDays * 86400 + 86399

/-- The instant lies between the first and the last year. -/
def inRange (t : Instant) : Bool :=
  minSeconds ≤ t.seconds && t.seconds ≤ maxSeconds

/-- Whole milliseconds since the epoch, rounded down. -/
def millis (t : Instant) : Int :=
  t.seconds * 1000 + (t.nanos / 1000000 : Nat)

/-- The instant a number of milliseconds after the epoch, if it is in range. -/
def ofMillis? (ms : Int) : Option Instant :=
  let t : Instant := ⟨ms / 1000, (ms % 1000).toNat * 1000000⟩
  if t.inRange then some t else none

/-- The instant without what a millisecond does not show. -/
def truncated (t : Instant) : Instant :=
  ⟨t.millis / 1000, (t.millis % 1000).toNat * 1000000⟩

end Instant

end Ferry.Time
