import Chip8.Proofs.Machine.Effect

/-!
# The machine after an instruction, field by field

For each field, the instructions that can change it and its new value; all
other instructions leave the field alone.  `effect_eq` puts the fields together
again, so that a proof about one field need not look at the others.  The keypad
and the dialect are never changed.
-/

namespace Chip8.Machine

def nextPc (m : Machine) : Instruction → UInt16
  | .ret =>
      match m.calls.pop? with
      | none => m.pc
      | some (caller, _) => caller + 2
  | .jump target => UInt16.ofNat target
  | .call target => UInt16.ofNat target
  | .jumpOffset base => UInt16.ofNat base + (m.reg offsetRegister).toUInt16
  | .skip condition => m.pc + if m.holds condition then 4 else 2
  | .waitKey _ =>
      match m.keypad.firstPressed with
      | none => m.pc
      | some _ => m.pc + 2
  | _ => m.pc + 2

def nextMemory (m : Machine) : Instruction → Memory
  | .storeDecimal x => m.memory.store m.index.toNat (decimalDigits (m.reg x))
  | .storeRegisters last =>
      m.memory.store m.index.toNat (m.firstRegisters (last + 1))
  | _ => m.memory

def drawing (m : Machine) (x y : Register) (rows : Nat) : Display.Drawing :=
  m.display.draw (m.reg x).toNat (m.reg y).toNat (m.memory.slice m.index.toNat rows)

def nextRegisters (m : Machine) : Instruction → Vector UInt8 16
  | .setByte x value => (m.setReg x value).registers
  | .addByte x value => (m.setReg x (m.reg x + value)).registers
  | .alu op x y =>
      (m.setResult x (op.apply m.dialect (m.reg x) (m.reg y))).registers
  | .random x mask => (m.setReg x (m.random.next.1 &&& mask)).registers
  | .draw x y rows =>
      (m.setReg flagRegister (flagByte (m.drawing x y rows).collision)).registers
  | .readDelay x => (m.setReg x m.delay).registers
  | .waitKey x =>
      match m.keypad.firstPressed with
      | none => m.registers
      | some key => (m.setReg x (UInt8.ofNat key)).registers
  | .loadRegisters last => (m.loadFirstRegisters (last + 1)).registers
  | _ => m.registers

def nextIndex (m : Machine) : Instruction → UInt16
  | .setIndex target => UInt16.ofNat target
  | .addIndex x => m.index + (m.reg x).toUInt16
  | .pointGlyph x => 0x050 + 5 * (m.reg x).toUInt16
  | .storeRegisters last => m.index + UInt16.ofNat (last + 1)
  | .loadRegisters last => m.index + UInt16.ofNat (last + 1)
  | _ => m.index

def nextCalls (m : Machine) : Instruction → CallStack
  | .ret =>
      match m.calls.pop? with
      | none => m.calls
      | some (_, calls) => calls
  | .call _ => (m.calls.push? m.pc).getD m.calls
  | _ => m.calls

def nextDelay (m : Machine) : Instruction → UInt8
  | .setDelay x => m.reg x
  | _ => m.delay

def nextSound (m : Machine) : Instruction → UInt8
  | .setSound x => m.reg x
  | _ => m.sound

def nextDisplay (m : Machine) : Instruction → Display
  | .clearScreen => .blank
  | .draw x y rows => (m.drawing x y rows).display
  | _ => m.display

def nextRedraw (m : Machine) : Instruction → Bool
  | .clearScreen => true
  | .draw _ _ _ => true
  | _ => m.redraw

def nextStatus (m : Machine) : Instruction → Status
  | .waitKey x =>
      match m.keypad.firstPressed with
      | none => .awaitingKey x
      | some _ => m.status
  | _ => m.status

def nextRandom (m : Machine) : Instruction → RandomSource
  | .random _ _ => m.random.next.2
  | _ => m.random

theorem setResult_eq (m : Machine) (x : Register) (result : AluResult) :
    m.setResult x result =
      { m with registers := (m.setResult x result).registers } := by
  unfold setResult
  cases result.flag <;> rfl

theorem loadFirstRegisters_eq (m : Machine) (count : Nat) :
    m.loadFirstRegisters count =
      { m with registers := (m.loadFirstRegisters count).registers } := rfl

theorem effect_eq (m : Machine) (instruction : Instruction) :
    m.effect instruction =
      { pc := m.nextPc instruction
        memory := m.nextMemory instruction
        registers := m.nextRegisters instruction
        index := m.nextIndex instruction
        calls := m.nextCalls instruction
        delay := m.nextDelay instruction
        sound := m.nextSound instruction
        display := m.nextDisplay instruction
        redraw := m.nextRedraw instruction
        keypad := m.keypad
        status := m.nextStatus instruction
        dialect := m.dialect
        random := m.nextRandom instruction } := by
  cases instruction with
  | ret =>
      simp only [effect, nextPc, nextCalls]
      cases m.calls.pop? <;> rfl
  | waitKey x =>
      simp only [effect, nextPc, nextRegisters, nextStatus]
      cases m.keypad.firstPressed <;> rfl
  | alu op x y =>
      rw [effect, setResult_eq]
      rfl
  | loadRegisters last =>
      rw [effect, nextRegisters, loadFirstRegisters_eq]
      generalize (m.loadFirstRegisters (last + 1)).registers = loaded
      rfl
  | _ => rfl

end Chip8.Machine
