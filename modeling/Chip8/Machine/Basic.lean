import Chip8.CallStack
import Chip8.Dialect
import Chip8.Display.Basic
import Chip8.Keypad
import Chip8.Memory
import Chip8.RandomSource

/-!
# The machine

The state of the whole machine as one value, its power-on state and the small
updates that instructions are made of.  A machine runs, waits for a key on
behalf of a register, or has halted after a fault.
-/

namespace Chip8

inductive Status where
  | running
  | awaitingKey (register : Register)
  | halted
  deriving DecidableEq, Repr

structure Machine where
  pc : UInt16
  memory : Memory
  registers : Vector UInt8 16
  index : UInt16
  calls : CallStack
  delay : UInt8
  sound : UInt8
  display : Display
  /-- Something was drawn that nobody has taken yet. -/
  redraw : Bool
  keypad : Keypad
  status : Status
  dialect : Dialect
  random : RandomSource
  deriving DecidableEq

namespace Machine

def powerOn (dialect : Dialect) (random : RandomSource) : Machine where
  pc := 0x200
  memory := .powerOn
  registers := Vector.replicate 16 0
  index := 0
  calls := .empty
  delay := 0
  sound := 0
  display := .blank
  redraw := false
  keypad := .released
  status := .running
  dialect := dialect
  random := random

/-- Back to power-on; only the dialect and the random source stay. -/
def reset (m : Machine) : Machine := powerOn m.dialect m.random

def reg (m : Machine) (x : Register) : UInt8 := m.registers[x]

def setReg (m : Machine) (x : Register) (value : UInt8) : Machine :=
  { m with registers := m.registers.set x value }

def advance (m : Machine) : Machine := { m with pc := m.pc + 2 }

def skipIf (m : Machine) (condition : Bool) : Machine :=
  { m with pc := m.pc + if condition then 4 else 2 }

def tick (m : Machine) : Machine :=
  { m with
    sound := if m.sound = 0 then 0 else m.sound - 1
    delay := if m.delay = 0 then 0 else m.delay - 1 }

def soundActive (m : Machine) : Bool := decide (0 < m.sound)

def isAwaitingKey (m : Machine) : Bool :=
  match m.status with
  | .awaitingKey _ => true
  | _ => false

def isHalted (m : Machine) : Bool := m.status = .halted

@[simp] theorem reg_setReg_self (m : Machine) (x : Register) (value : UInt8) :
    (m.setReg x value).reg x = value := by
  simp [reg, setReg]

theorem reg_setReg (m : Machine) (x : Register) (value : UInt8) (y : Register) :
    (m.setReg x value).reg y = if y = x then value else m.reg y := by
  by_cases h : y = x
  · subst h
    simp
  · have hne : x.val ≠ y.val := fun heq => h (Fin.ext heq.symm)
    simp [reg, setReg, h, hne]

end Machine

end Chip8
