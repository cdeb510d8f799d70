/-!
# Dialects

Interpreters disagree on two points.  A dialect settles them; the default is
the classic choice on both.
-/

namespace Chip8

structure Dialect where
  /--
  A left shift leaves `0` or `1` in `VF`.  Without it `VF` gets the shifted-out
  bit in its old place: `0x00` or `0x80`.
  -/
  normalizeShiftFlag : Bool := false
  /-- The timers keep counting down while the machine waits for a key. -/
  timersWhileWaiting : Bool := true
  deriving DecidableEq, Repr

end Chip8
