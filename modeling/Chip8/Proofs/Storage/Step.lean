import Chip8.Proofs.Storage.Basic

/-!
# Steps and commands on plain storage

The same instructions, steps and commands as those of the machine, with every
access and every sum checked.  The answer to a command is `none` when one of
these checks fails on the way.
-/

namespace Chip8

namespace Storage

def succeed (next : Option Storage) : Option (Except Fault Storage) := next.map .ok

def withCells? (s : Storage) (count : Nat) (use : Nat → Nat → Option Storage) :
    Option (Except Fault Storage) :=
  if count = 0 then succeed (use 0 0)
  else do
    let stop ← sum? s.index.toNat count
    if 4096 < stop then
      let address ← difference? stop 1
      return .error (.memoryOutOfBounds address s.pc)
    else
      succeed (use s.index.toNat stop)

def drawSprite? (s : Storage) (x y : Register) (start stop : Nat) :
    Option Storage := do
  let px ← s.registers[x.val]?
  let py ← s.registers[y.val]?
  let cleared ← s.setReg? 0xF 0
  let sprite ← slice? cleared.memory start stop
  let canvas ← Canvas.drawFrom? px.toNat py.toNat 0 ⟨cleared.pixels, false⟩ sprite
  let flagged ← cleared.setReg? 0xF (flagByte canvas.collision)
  { flagged with pixels := canvas.pixels, redraw := true }.advance?

def storeDecimal? (s : Storage) (x : Register) (start stop : Nat) :
    Option Storage := do
  let value ← s.registers[x.val]?
  let memory ← replace? s.memory start stop (decimalDigits value)
  { s with memory := memory }.advance?

def moveIndex? (s : Storage) (last : Register) : Option Storage := do
  let distance ← sum16? (UInt16.ofNat last) 1
  return { s with index := s.index + distance }

def storeRegisters? (s : Storage) (last : Register) (start stop : Nat) :
    Option Storage := do
  let values ← slice? s.registers 0 (last + 1)
  let memory ← replace? s.memory start stop values
  let moved ← { s with memory := memory }.moveIndex? last
  moved.advance?

def loadRegisters? (s : Storage) (last : Register) (start stop : Nat) :
    Option Storage := do
  let values ← slice? s.memory start stop
  let registers ← replace? s.registers 0 (last + 1) values
  let moved ← { s with registers := registers }.moveIndex? last
  moved.advance?

def ret? (s : Storage) : Option (Except Fault Storage) :=
  if s.top = 0 then some (.error (.stackUnderflow s.pc))
  else do
    let top ← difference? s.top 1
    let caller ← s.stack[top]?
    let next ← { s with top := top, pc := caller }.advance?
    return .ok next

def call? (s : Storage) (target : Address) : Option (Except Fault Storage) :=
  if s.top = 16 then some (.error (.stackOverflow s.pc))
  else do
    let stack ← set? s.stack s.top s.pc
    let top ← sum? s.top 1
    return .ok { s with stack := stack, top := top, pc := UInt16.ofNat target }

def setIndex? (s : Storage) (index : UInt16) : Option Storage :=
  { s with index := index }.advance?

def execute? (s : Storage) : Instruction → Option (Except Fault Storage)
  | .clearScreen =>
      succeed { s with pixels := Vector.replicate 2048 0, redraw := true }.advance?
  | .ret => s.ret?
  | .jump target => succeed (some { s with pc := UInt16.ofNat target })
  | .call target => s.call? target
  | .jumpOffset base => succeed do
      let pc ← sum16? (UInt16.ofNat base) (← s.registers[0]?).toUInt16
      return { s with pc := pc }
  | .skip condition => succeed do s.skipIf? (← s.holds? condition)
  | .setByte x value => succeed do (← s.setReg? x value).advance?
  | .addByte x value => succeed do
      let old ← s.registers[x.val]?
      (← s.setReg? x (old + value)).advance?
  | .alu op x y => succeed do
      let vx ← s.registers[x.val]?
      let vy ← s.registers[y.val]?
      (← s.setResult? x (op.apply s.dialect vx vy)).advance?
  | .setIndex target => succeed (s.setIndex? (UInt16.ofNat target))
  | .random x mask => succeed do
      let (byte, random) := s.random.next
      (← setReg? { s with random := random } x (byte &&& mask)).advance?
  | .draw x y rows => s.withCells? rows (s.drawSprite? x y)
  | .readDelay x => succeed do (← s.setReg? x s.delay).advance?
  | .waitKey x => succeed (s.pollKey? x)
  | .setDelay x => succeed do
      let value ← s.registers[x.val]?
      advance? { s with delay := value }
  | .setSound x => succeed do
      let value ← s.registers[x.val]?
      advance? { s with sound := value }
  | .addIndex x => succeed do
      let distance ← s.registers[x.val]?
      s.setIndex? (s.index + distance.toUInt16)
  | .pointGlyph x => succeed do
      let value ← s.registers[x.val]?
      let offset ← product16? value.toUInt16 5
      s.setIndex? (← sum16? 0x050 offset)
  | .storeDecimal x => s.withCells? 3 (s.storeDecimal? x)
  | .storeRegisters last => do s.withCells? (← sum? last 1) (s.storeRegisters? last)
  | .loadRegisters last => do s.withCells? (← sum? last 1) (s.loadRegisters? last)

def fetch? (s : Storage) : Option (Except Fault Opcode) := do
  let next ← sum? s.pc.toNat 1
  if 4096 ≤ next then
    return .error (.fetchOutOfBounds s.pc)
  else
    let high ← s.memory[s.pc.toNat]?
    let low ← s.memory[next]?
    return .ok (.ofBytes high low)

def runWord? (s : Storage) : Option (Except Fault Storage) := do
  match ← s.fetch? with
  | .error cause => return .error cause
  | .ok opcode =>
      match Instruction.decode opcode with
      | none => return .error (.unsupportedOpcode opcode s.pc)
      | some instruction => s.execute? instruction

def endStep (s : Storage) : Storage :=
  if s.status = .running ∨ s.dialect.timersWhileWaiting then s.tick else s

def step? (s : Storage) : Option (Except StepError Unit × Storage) :=
  match s.status with
  | .halted => some (.error .halted, s)
  | .awaitingKey register => do
      let next ← s.pollKey? register
      return (.ok (), next.endStep)
  | .running => do
      match ← s.runWord? with
      | .error cause => return (.error (.fault cause), { s with status := .halted })
      | .ok next => return (.ok (), next.endStep)

/-! ## Commands -/

def initialize? (s : Storage) : Option Storage := do
  let stop ← sum? Memory.fontStart Memory.font.length
  let memory ← replace? (Vector.replicate 4096 0) Memory.fontStart stop Memory.font
  return { s with
    pc := 0x200
    memory := memory
    registers := Vector.replicate 16 0
    index := 0
    stack := Vector.replicate 16 0
    top := 0
    delay := 0
    sound := 0
    pixels := Vector.replicate 2048 0
    redraw := false
    keys := Vector.replicate 16 false
    status := .running }

def load? (s : Storage) (program : List UInt8) :
    Option (Except LoadError Storage) :=
  if Memory.programLimit < program.length then
    some (.error (.tooLarge program.length))
  else do
    let stop ← sum? Memory.programStart program.length
    let memory ← replace? s.memory Memory.programStart stop program
    return .ok { s with memory := memory }

def perform? (s : Storage) : Command → Option Storage
  | .step => do return (← s.step?).2
  | .setKeys keypad => some { s with keys := keypad.keys }
  | .setKey code down =>
      do return { s with keys := ← set? s.keys (code &&& 0xF).toNat down }
  | .reset => s.initialize?
  | .load program => do
      match ← s.load? program with
      | .error _ => return s
      | .ok next => return next
  | .clearRedraw => some { s with redraw := false }
  | .takeFrame => some { s with redraw := false }
  | .setSeed seed => some { s with random := .ofSeed seed }
  | .setDialect dialect => some { s with dialect := dialect }

def powerOn? (dialect : Dialect) (random : RandomSource) : Option Storage :=
  initialize?
    { pc := 0x200
      memory := Vector.replicate 4096 0
      registers := Vector.replicate 16 0
      index := 0
      stack := Vector.replicate 16 0
      top := 0
      delay := 0
      sound := 0
      pixels := Vector.replicate 2048 0
      redraw := false
      keys := Vector.replicate 16 false
      status := .running
      dialect := dialect
      random := random }

def bootFrom? (source : ByteSource) (dialect : Dialect) (random : RandomSource) :
    Option (Except LoadError Storage) :=
  match source.readUpTo (Memory.programLimit + 1) with
  | .error reason => some (.error (.unreadable reason))
  | .ok program => do (← powerOn? dialect random).load? program

inductive Reachable : Storage → Prop
  | bare {dialect : Dialect} {seed : UInt64} {s : Storage}
      (hstart : powerOn? dialect (.ofSeed seed) = some s) : Reachable s
  | loaded {source : ByteSource} {dialect : Dialect} {seed : UInt64} {s : Storage}
      (hstart : bootFrom? source dialect (.ofSeed seed) = some (.ok s)) :
        Reachable s
  | perform {s next : Storage} {command : Command} (hs : Reachable s)
      (hnext : s.perform? command = some next) : Reachable next

end Storage

end Chip8
