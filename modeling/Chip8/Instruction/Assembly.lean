import Chip8.Instruction.Basic
import Chip8.Text.Hex

/-!
# Assembly text

An instruction is written as a mnemonic and its operands, separated by commas.
Registers, bytes and addresses are hexadecimal with one, two and three digits;
only the row count of a sprite is decimal.  The two shifts name the register
that they change and leave out the other one, which they do not use.
-/

namespace Chip8

inductive Operand where
  | register (r : Register)
  | byte (value : UInt8)
  | address (target : Address)
  | rows (count : Fin 16)
  | index
  | atIndex
  | delayTimer
  | soundTimer
  | key
  | glyph
  | decimal
  deriving DecidableEq, Repr

def Operand.text : Operand → String
  | .register r => "V" ++ Hex.padded 1 r
  | .byte value => Hex.literal 2 value.toNat
  | .address target => Hex.literal 3 target
  | .rows count => Nat.repr count
  | .index => "I"
  | .atIndex => "[I]"
  | .delayTimer => "DT"
  | .soundTimer => "ST"
  | .key => "K"
  | .glyph => "F"
  | .decimal => "B"

structure Assembly where
  mnemonic : String
  operands : List Operand
  deriving DecidableEq, Repr

def Assembly.text (line : Assembly) : String :=
  match line.operands with
  | [] => line.mnemonic
  | operands => line.mnemonic ++ " " ++ ", ".intercalate (operands.map Operand.text)

def Condition.assembly : Condition → Assembly
  | .byteEqual x value => ⟨"SE", [.register x, .byte value]⟩
  | .byteNotEqual x value => ⟨"SNE", [.register x, .byte value]⟩
  | .registerEqual x y => ⟨"SE", [.register x, .register y]⟩
  | .registerNotEqual x y => ⟨"SNE", [.register x, .register y]⟩
  | .keyPressed x => ⟨"SKP", [.register x]⟩
  | .keyReleased x => ⟨"SKNP", [.register x]⟩

def AluOp.assembly (x y : Register) : AluOp → Assembly
  | .move => ⟨"LD", [.register x, .register y]⟩
  | .or => ⟨"OR", [.register x, .register y]⟩
  | .and => ⟨"AND", [.register x, .register y]⟩
  | .xor => ⟨"XOR", [.register x, .register y]⟩
  | .add => ⟨"ADD", [.register x, .register y]⟩
  | .sub => ⟨"SUB", [.register x, .register y]⟩
  | .shiftRight => ⟨"SHR", [.register x]⟩
  | .subFrom => ⟨"SUBN", [.register x, .register y]⟩
  | .shiftLeft => ⟨"SHL", [.register x]⟩

def Instruction.assembly : Instruction → Assembly
  | .clearScreen => ⟨"CLS", []⟩
  | .ret => ⟨"RET", []⟩
  | .jump target => ⟨"JP", [.address target]⟩
  | .call target => ⟨"CALL", [.address target]⟩
  | .jumpOffset base => ⟨"JP", [.register offsetRegister, .address base]⟩
  | .skip condition => condition.assembly
  | .setByte x value => ⟨"LD", [.register x, .byte value]⟩
  | .addByte x value => ⟨"ADD", [.register x, .byte value]⟩
  | .alu op x y => op.assembly x y
  | .setIndex target => ⟨"LD", [.index, .address target]⟩
  | .random x mask => ⟨"RND", [.register x, .byte mask]⟩
  | .draw x y rows => ⟨"DRW", [.register x, .register y, .rows rows]⟩
  | .readDelay x => ⟨"LD", [.register x, .delayTimer]⟩
  | .waitKey x => ⟨"LD", [.register x, .key]⟩
  | .setDelay x => ⟨"LD", [.delayTimer, .register x]⟩
  | .setSound x => ⟨"LD", [.soundTimer, .register x]⟩
  | .addIndex x => ⟨"ADD", [.index, .register x]⟩
  | .pointGlyph x => ⟨"LD", [.glyph, .register x]⟩
  | .storeDecimal x => ⟨"LD", [.decimal, .register x]⟩
  | .storeRegisters last => ⟨"LD", [.atIndex, .register last]⟩
  | .loadRegisters last => ⟨"LD", [.register last, .atIndex]⟩

def Instruction.text (instruction : Instruction) : String :=
  instruction.assembly.text

end Chip8
