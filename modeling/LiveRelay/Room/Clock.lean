import LiveRelay.Decimal.Binary64

/-! # The shared clock

Everyone in a room reads the same epoch, and anyone may start it again. Time is counted in
nanoseconds since the clock was made, and it moves only when it is told to.
-/

namespace LiveRelay

/-- A clock: the time now, and the time at which the epoch began, which is never in the future. -/
structure SharedClock where
  now : Nat
  epoch : Nat
  epoch_le_now : epoch ≤ now
deriving DecidableEq, Repr

/-- A clock cannot go beyond the seconds that a signed machine word counts. -/
inductive ClockError where
  | overflow
deriving DecidableEq, Repr

namespace ClockError

def message : ClockError → String
  | .overflow => "overflow when adding duration to instant"

end ClockError

namespace SharedClock

def nanosecondsPerSecond : Nat := 1000000000

/-- The first number of seconds that the clock cannot count. -/
def secondsLimit : Nat := 0x8000000000000000

def start : SharedClock := ⟨0, 0, Nat.le_refl 0⟩

def advance (c : SharedClock) (nanoseconds : Nat) : Except ClockError SharedClock :=
  if (c.now + nanoseconds) / nanosecondsPerSecond < secondsLimit then
    .ok ⟨c.now + nanoseconds, c.epoch, Nat.le_add_right_of_le c.epoch_le_now⟩
  else .error .overflow

def reset (c : SharedClock) : SharedClock := ⟨c.now, c.now, Nat.le_refl c.now⟩

/-- The time since the epoch began, in nanoseconds. -/
def elapsed (c : SharedClock) : Nat := c.now - c.epoch

theorem elapsed_reset (c : SharedClock) : c.reset.elapsed = 0 := Nat.sub_self c.now

/-- A time in seconds: whole seconds and the fraction of a second are rounded each for itself, and
then their sum. -/
def inSeconds (nanoseconds : Nat) : Binary64 :=
  let whole := nanoseconds / nanosecondsPerSecond
  let part := nanoseconds % nanosecondsPerSecond
  let seconds := Binary64.nearestUnits (whole * Binary64.unitsPerOne) 1
  let fraction := Binary64.nearestUnits (part * Binary64.unitsPerOne) nanosecondsPerSecond
  (Binary64.ofUnits? false (Binary64.nearestUnits (seconds + fraction) 1)).getD .zero

def elapsedSeconds (c : SharedClock) : Binary64 := inSeconds c.elapsed

end SharedClock

end LiveRelay
