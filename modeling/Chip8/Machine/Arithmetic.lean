import Chip8.Dialect
import Chip8.Instruction.Basic

/-!
# Register arithmetic

What an `alu` instruction computes from the bytes of its two registers: a
value for the first one and, for sums, differences and shifts, a byte for the
flag register.  A difference sets the flag when nothing was borrowed; equal
operands count as a borrow when the second is taken from the first, and as
none the other way round.
-/

namespace Chip8

structure AluResult where
  value : UInt8
  flag : Option UInt8
  deriving DecidableEq, Repr

def flagByte (set : Bool) : UInt8 := if set then 1 else 0

theorem flagByte_beq_one (set : Bool) : (flagByte set == 1) = set := by
  cases set <;> rfl

theorem flagByte_eq_one_iff {set : Bool} : flagByte set = 1 ↔ set = true := by
  rw [← beq_iff_eq, flagByte_beq_one]

theorem flagByte_eq_zero_iff {set : Bool} : flagByte set = 0 ↔ set = false := by
  cases set <;> decide

theorem toNat_flagByte (set : Bool) :
    (flagByte set).toNat = if set then 1 else 0 := by
  cases set <;> rfl

/-- The highest bit of a byte, as a left shift leaves it in the flag register. -/
def Dialect.shiftFlag (dialect : Dialect) (value : UInt8) : UInt8 :=
  if dialect.normalizeShiftFlag then value >>> 7 else value &&& 0x80

def AluOp.apply (op : AluOp) (dialect : Dialect) (vx vy : UInt8) : AluResult :=
  match op with
  | .move => ⟨vy, none⟩
  | .or => ⟨vx ||| vy, none⟩
  | .and => ⟨vx &&& vy, none⟩
  | .xor => ⟨vx ^^^ vy, none⟩
  | .add => ⟨vx + vy, some (flagByte (255 < vx.toNat + vy.toNat))⟩
  | .sub => ⟨vx - vy, some (flagByte (vy < vx))⟩
  | .shiftRight => ⟨vx >>> 1, some (vx &&& 1)⟩
  | .subFrom => ⟨vy - vx, some (flagByte (vx ≤ vy))⟩
  | .shiftLeft => ⟨vx <<< 1, some (dialect.shiftFlag vx)⟩

def decimalDigits (value : UInt8) : List UInt8 :=
  [value / 100, value / 10 % 10, value % 10]

end Chip8
