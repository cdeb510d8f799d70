import Chip8.Instruction.Basic

/-!
# Opcodes

An instruction is stored as a sixteen-bit word.  Its highest nibble names the
family; the rest is an address (`NNN`), a register and a byte (`X`, `NN`), or
two registers and a nibble (`X`, `Y`, `N`).  `encode` writes this layout and
`decode` reads it.  Families 5 and 9 hold one instruction each, so their
lowest nibble is not looked at; all other unused words are refused.
-/

namespace Chip8

abbrev Opcode := UInt16

namespace Opcode

def family (op : Opcode) : Nat := op.toNat / 0x1000

def x (op : Opcode) : Register := ⟨op.toNat / 0x100 % 16, Nat.mod_lt _ (by decide)⟩

def y (op : Opcode) : Register := ⟨op.toNat / 0x10 % 16, Nat.mod_lt _ (by decide)⟩

def n (op : Opcode) : Fin 16 := ⟨op.toNat % 16, Nat.mod_lt _ (by decide)⟩

def nn (op : Opcode) : UInt8 := op.toUInt8

def nnn (op : Opcode) : Address := ⟨op.toNat % 0x1000, Nat.mod_lt _ (by decide)⟩

def ofAddress (family : Nat) (target : Address) : Opcode :=
  UInt16.ofNat (family * 0x1000 + target)

def ofByte (family : Nat) (x : Register) (nn : UInt8) : Opcode :=
  UInt16.ofNat (family * 0x1000 + x * 0x100 + nn.toNat)

def ofRegisters (family : Nat) (x y : Register) (n : Nat) : Opcode :=
  UInt16.ofNat (family * 0x1000 + x * 0x100 + y * 0x10 + n)

def ofBytes (high low : UInt8) : Opcode :=
  UInt16.ofNat (high.toNat * 0x100 + low.toNat)

end Opcode

def AluOp.code : AluOp → Nat
  | .move => 0x0
  | .or => 0x1
  | .and => 0x2
  | .xor => 0x3
  | .add => 0x4
  | .sub => 0x5
  | .shiftRight => 0x6
  | .subFrom => 0x7
  | .shiftLeft => 0xE

def AluOp.ofCode? (code : Nat) : Option AluOp :=
  match code with
  | 0x0 => some .move
  | 0x1 => some .or
  | 0x2 => some .and
  | 0x3 => some .xor
  | 0x4 => some .add
  | 0x5 => some .sub
  | 0x6 => some .shiftRight
  | 0x7 => some .subFrom
  | 0xE => some .shiftLeft
  | _ => none

namespace Instruction

def encode : Instruction → Opcode
  | .clearScreen => 0x00E0
  | .ret => 0x00EE
  | .jump target => .ofAddress 0x1 target
  | .call target => .ofAddress 0x2 target
  | .skip (.byteEqual x value) => .ofByte 0x3 x value
  | .skip (.byteNotEqual x value) => .ofByte 0x4 x value
  | .skip (.registerEqual x y) => .ofRegisters 0x5 x y 0x0
  | .setByte x value => .ofByte 0x6 x value
  | .addByte x value => .ofByte 0x7 x value
  | .alu op x y => .ofRegisters 0x8 x y op.code
  | .skip (.registerNotEqual x y) => .ofRegisters 0x9 x y 0x0
  | .setIndex target => .ofAddress 0xA target
  | .jumpOffset base => .ofAddress 0xB base
  | .random x mask => .ofByte 0xC x mask
  | .draw x y rows => .ofRegisters 0xD x y rows
  | .skip (.keyPressed x) => .ofByte 0xE x 0x9E
  | .skip (.keyReleased x) => .ofByte 0xE x 0xA1
  | .readDelay x => .ofByte 0xF x 0x07
  | .waitKey x => .ofByte 0xF x 0x0A
  | .setDelay x => .ofByte 0xF x 0x15
  | .setSound x => .ofByte 0xF x 0x18
  | .addIndex x => .ofByte 0xF x 0x1E
  | .pointGlyph x => .ofByte 0xF x 0x29
  | .storeDecimal x => .ofByte 0xF x 0x33
  | .storeRegisters last => .ofByte 0xF last 0x55
  | .loadRegisters last => .ofByte 0xF last 0x65

/-- The instructions of family 0, which has two words only. -/
def decodeSystem (op : Opcode) : Option Instruction :=
  if op = 0x00E0 then some .clearScreen
  else if op = 0x00EE then some .ret
  else none

def decodeKeySkip (x : Register) (nn : UInt8) : Option Instruction :=
  match nn.toNat with
  | 0x9E => some (.skip (.keyPressed x))
  | 0xA1 => some (.skip (.keyReleased x))
  | _ => none

def decodeDevice (x : Register) (nn : UInt8) : Option Instruction :=
  match nn.toNat with
  | 0x07 => some (.readDelay x)
  | 0x0A => some (.waitKey x)
  | 0x15 => some (.setDelay x)
  | 0x18 => some (.setSound x)
  | 0x1E => some (.addIndex x)
  | 0x29 => some (.pointGlyph x)
  | 0x33 => some (.storeDecimal x)
  | 0x55 => some (.storeRegisters x)
  | 0x65 => some (.loadRegisters x)
  | _ => none

def decode (op : Opcode) : Option Instruction :=
  match op.family with
  | 0x0 => decodeSystem op
  | 0x1 => some (.jump op.nnn)
  | 0x2 => some (.call op.nnn)
  | 0x3 => some (.skip (.byteEqual op.x op.nn))
  | 0x4 => some (.skip (.byteNotEqual op.x op.nn))
  | 0x5 => some (.skip (.registerEqual op.x op.y))
  | 0x6 => some (.setByte op.x op.nn)
  | 0x7 => some (.addByte op.x op.nn)
  | 0x8 => (AluOp.ofCode? op.n).map fun alu => .alu alu op.x op.y
  | 0x9 => some (.skip (.registerNotEqual op.x op.y))
  | 0xA => some (.setIndex op.nnn)
  | 0xB => some (.jumpOffset op.nnn)
  | 0xC => some (.random op.x op.nn)
  | 0xD => some (.draw op.x op.y op.n)
  | 0xE => decodeKeySkip op.x op.nn
  | 0xF => decodeDevice op.x op.nn
  | _ => none

end Instruction

@[simp] theorem AluOp.ofCode?_code (op : AluOp) :
    AluOp.ofCode? op.code = some op := by
  cases op <;> rfl

theorem AluOp.code_of_ofCode? {code : Nat} {op : AluOp}
    (h : AluOp.ofCode? code = some op) : op.code = code := by
  unfold AluOp.ofCode? at h
  split at h <;> cases h <;> rfl

end Chip8
