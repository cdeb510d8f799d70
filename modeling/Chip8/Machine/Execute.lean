import Chip8.Fault
import Chip8.Machine.Arithmetic
import Chip8.Machine.Basic

/-!
# Executing one instruction

`execute` gives the machine after an instruction, or the fault that keeps the
instruction from being carried out.  Every check comes before every update, so
a fault leaves nothing half done.
-/

namespace Chip8

namespace Machine

def holds (m : Machine) : Condition → Bool
  | .byteEqual x value => m.reg x == value
  | .byteNotEqual x value => m.reg x != value
  | .registerEqual x y => m.reg x == m.reg y
  | .registerNotEqual x y => m.reg x != m.reg y
  | .keyPressed x => m.keypad.isPressed (.ofByte (m.reg x))
  | .keyReleased x => !m.keypad.isPressed (.ofByte (m.reg x))

/-- The flag is written first, so the value wins when both go to `VF`. -/
def setResult (m : Machine) (x : Register) (result : AluResult) : Machine :=
  match result.flag with
  | none => m.setReg x result.value
  | some flag => (m.setReg flagRegister flag).setReg x result.value

def firstRegisters (m : Machine) (count : Nat) : List UInt8 :=
  m.registers.toList.take count

def loadFirstRegisters (m : Machine) (count : Nat) : Machine :=
  { m with
    registers := Vector.ofFn fun x : Register =>
      if x.val < count then m.memory.read (m.index.toNat + x) else m.reg x }

def storeAtIndex (m : Machine) (bytes : List UInt8) : Machine :=
  { m with memory := m.memory.store m.index.toNat bytes }

def moveIndex (m : Machine) (distance : UInt16) : Machine :=
  { m with index := m.index + distance }

/--
Carry out a step that uses `count` cells from `I` on, if memory has them.  A
step that uses no cell does not care where `I` points.
-/
def withCells (m : Machine) (count : Nat) (next : Machine) : Except Fault Machine :=
  if count = 0 ∨ m.index.toNat + count ≤ 4096 then .ok next
  else .error (.memoryOutOfBounds (m.index.toNat + count - 1) m.pc)

/-- Toggle a sprite read at `I`; the flag register gets the collision. -/
def drawSprite (m : Machine) (x y : Register) (rows : Nat) : Machine :=
  let sprite := m.memory.slice m.index.toNat rows
  let drawing := m.display.draw (m.reg x).toNat (m.reg y).toNat sprite
  { m with display := drawing.display, redraw := true }.setReg flagRegister
    (flagByte drawing.collision)

def drawRandom (m : Machine) (x : Register) (mask : UInt8) : Machine :=
  let (byte, random) := m.random.next
  { m with random := random }.setReg x (byte &&& mask)

def takeKey (m : Machine) (x : Register) (key : Key) : Machine :=
  (m.setReg x (UInt8.ofNat key)).advance

def execute (m : Machine) : Instruction → Except Fault Machine
  | .clearScreen => .ok { m with display := .blank, redraw := true }.advance
  | .ret =>
      match m.calls.pop? with
      | none => .error (.stackUnderflow m.pc)
      | some (caller, calls) => .ok { m with pc := caller, calls := calls }.advance
  | .jump target => .ok { m with pc := UInt16.ofNat target }
  | .call target =>
      match m.calls.push? m.pc with
      | none => .error (.stackOverflow m.pc)
      | some calls => .ok { m with pc := UInt16.ofNat target, calls := calls }
  | .jumpOffset base =>
      .ok { m with pc := UInt16.ofNat base + (m.reg offsetRegister).toUInt16 }
  | .skip condition => .ok (m.skipIf (m.holds condition))
  | .setByte x value => .ok (m.setReg x value).advance
  | .addByte x value => .ok (m.setReg x (m.reg x + value)).advance
  | .alu op x y =>
      .ok (m.setResult x (op.apply m.dialect (m.reg x) (m.reg y))).advance
  | .setIndex target => .ok { m with index := UInt16.ofNat target }.advance
  | .random x mask => .ok (m.drawRandom x mask).advance
  | .draw x y rows => m.withCells rows (m.drawSprite x y rows).advance
  | .readDelay x => .ok (m.setReg x m.delay).advance
  | .waitKey x =>
      match m.keypad.firstPressed with
      | none => .ok { m with status := .awaitingKey x }
      | some key => .ok (m.takeKey x key)
  | .setDelay x => .ok { m with delay := m.reg x }.advance
  | .setSound x => .ok { m with sound := m.reg x }.advance
  | .addIndex x => .ok (m.moveIndex (m.reg x).toUInt16).advance
  | .pointGlyph x => .ok { m with index := 0x050 + 5 * (m.reg x).toUInt16 }.advance
  | .storeDecimal x =>
      m.withCells 3 (m.storeAtIndex (decimalDigits (m.reg x))).advance
  | .storeRegisters last =>
      let count := last.val + 1
      m.withCells count
        ((m.storeAtIndex (m.firstRegisters count)).moveIndex
          (UInt16.ofNat count)).advance
  | .loadRegisters last =>
      let count := last.val + 1
      m.withCells count
        ((m.loadFirstRegisters count).moveIndex (UInt16.ofNat count)).advance

end Machine

end Chip8
