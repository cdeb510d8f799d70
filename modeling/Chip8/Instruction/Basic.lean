/-!
# The instruction set

Thirty-four instructions on sixteen byte registers `V0` to `VF`, an index
register `I`, two timers, a call stack, a screen and sixteen keys.  They are
grouped by what they do: every conditional skip is one `skip` with its
condition, and every operation that combines two registers is one `alu`.
-/

namespace Chip8

abbrev Register := Fin 16

abbrev Key := Fin 16

/-- An address that an instruction can name: twelve bits. -/
abbrev Address := Fin 4096

/-- `V0`, the register that an indexed jump adds to its target. -/
def offsetRegister : Register := ⟨0x0, by decide⟩

/-- `VF`, which receives carries, borrows, shifted-out bits and collisions. -/
def flagRegister : Register := ⟨0xF, by decide⟩

inductive Condition where
  | byteEqual (x : Register) (value : UInt8)
  | byteNotEqual (x : Register) (value : UInt8)
  | registerEqual (x y : Register)
  | registerNotEqual (x y : Register)
  | keyPressed (x : Register)
  | keyReleased (x : Register)
  deriving DecidableEq, Repr

inductive AluOp where
  | move
  | or
  | and
  | xor
  | add
  | sub
  | shiftRight
  | subFrom
  | shiftLeft
  deriving DecidableEq, Repr

inductive Instruction where
  | clearScreen
  | ret
  | jump (target : Address)
  | call (target : Address)
  | jumpOffset (base : Address)
  | skip (condition : Condition)
  | setByte (x : Register) (value : UInt8)
  | addByte (x : Register) (value : UInt8)
  | alu (op : AluOp) (x y : Register)
  | setIndex (target : Address)
  | random (x : Register) (mask : UInt8)
  | draw (x y : Register) (rows : Fin 16)
  | readDelay (x : Register)
  | waitKey (x : Register)
  | setDelay (x : Register)
  | setSound (x : Register)
  | addIndex (x : Register)
  | pointGlyph (x : Register)
  | storeDecimal (x : Register)
  | storeRegisters (last : Register)
  | loadRegisters (last : Register)
  deriving DecidableEq, Repr

end Chip8
