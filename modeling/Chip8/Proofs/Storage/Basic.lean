import Chip8.Machine.Command

/-!
# The machine on plain storage

The machine once more, on bare arrays and numbers: memory and screen are arrays
of bytes, and the stack pointer and the register that a waiting machine fills
are numbers without a limit of their own.  Nothing is ruled out by a type, so
every access to an array and every sum and product is checked; `none` is the
trap that a failing check springs.  Sums that are meant to wrap stay unchecked.
-/

namespace Chip8

namespace Storage

/-! ## Checked operations -/

def sum16? (a b : UInt16) : Option UInt16 :=
  if a.toNat + b.toNat < UInt16.size then some (a + b) else none

def product16? (a b : UInt16) : Option UInt16 :=
  if a.toNat * b.toNat < UInt16.size then some (a * b) else none

/-- A sum of positions or lengths, which are 64-bit numbers. -/
def sum? (a b : Nat) : Option Nat :=
  if a + b < UInt64.size then some (a + b) else none

def product? (a b : Nat) : Option Nat :=
  if a * b < UInt64.size then some (a * b) else none

def difference? (a b : Nat) : Option Nat := if b ≤ a then some (a - b) else none

def shiftRight? (byte : UInt8) (distance : Nat) : Option UInt8 :=
  if distance < 8 then some (byte >>> UInt8.ofNat distance) else none

def set? {α : Type} {n : Nat} (cells : Vector α n) (position : Nat) (value : α) :
    Option (Vector α n) :=
  if h : position < n then some (cells.set position value) else none

def slice? {α : Type} {n : Nat} (cells : Vector α n) (start stop : Nat) :
    Option (List α) :=
  if start ≤ stop ∧ stop ≤ n then some ((cells.toList.take stop).drop start)
    else none

def replace? {α : Type} {n : Nat} (cells : Vector α n) (start stop : Nat)
    (values : List α) :
    Option (Vector α n) :=
  if start ≤ stop ∧ stop ≤ n ∧ values.length = stop - start then
    some (Vector.ofFn fun i : Fin n =>
      if h : start ≤ i.val ∧ i.val - start < values.length then
        values[i.val - start]
      else cells[i])
  else none

inductive Status where
  | running
  | awaitingKey (register : Nat)
  | halted
  deriving DecidableEq

/-! ## The screen -/

structure Canvas where
  pixels : Vector UInt8 2048
  collision : Bool

namespace Canvas

def hit? (canvas : Canvas) (x y : Nat) : Option Canvas := do
  let start ← product? (y % 32) 64
  let position ← sum? start (x % 64)
  let cell ← canvas.pixels[position]?
  let pixels ← set? canvas.pixels position (cell ^^^ 1)
  return ⟨pixels, canvas.collision || cell == 1⟩

def drawBit? (x y row : Nat) (line : UInt8) (canvas : Canvas) (column : Nat) :
    Option Canvas := do
  let bit ← shiftRight? 0x80 column
  if line &&& bit = 0 then
    return canvas
  else
    let px ← sum? x column
    let py ← sum? y row
    canvas.hit? px py

def drawLine? (x y row : Nat) (line : UInt8) (canvas : Canvas) : Option Canvas :=
  (List.range 8).foldlM (drawBit? x y row line) canvas

def drawFrom? (x y row : Nat) (canvas : Canvas) : Sprite → Option Canvas
  | [] => some canvas
  | line :: rest => do
      let next ← canvas.drawLine? x y row line
      next.drawFrom? x y (row + 1) rest

end Canvas

end Storage

structure Storage where
  pc : UInt16
  memory : Vector UInt8 4096
  registers : Vector UInt8 16
  index : UInt16
  stack : Vector UInt16 16
  top : Nat
  delay : UInt8
  sound : UInt8
  pixels : Vector UInt8 2048
  redraw : Bool
  keys : Vector Bool 16
  status : Storage.Status
  dialect : Dialect
  random : RandomSource

namespace Storage

/-! ## Small updates -/

def setReg? (s : Storage) (x : Nat) (value : UInt8) : Option Storage := do
  let registers ← set? s.registers x value
  return { s with registers := registers }

def advance? (s : Storage) : Option Storage := do
  let pc ← sum16? s.pc 2
  return { s with pc := pc }

def skipIf? (s : Storage) (condition : Bool) : Option Storage := do
  let pc ← sum16? s.pc (if condition then 4 else 2)
  return { s with pc := pc }

def keyDown? (s : Storage) (code : UInt8) : Option Bool :=
  s.keys[(code &&& 0xF).toNat]?

def firstKey? (s : Storage) : Option Nat := s.keys.toList.findIdx? id

def holds? (s : Storage) : Condition → Option Bool
  | .byteEqual x value => do return (← s.registers[x.val]?) == value
  | .byteNotEqual x value => do return (← s.registers[x.val]?) != value
  | .registerEqual x y =>
      do return (← s.registers[x.val]?) == (← s.registers[y.val]?)
  | .registerNotEqual x y =>
      do return (← s.registers[x.val]?) != (← s.registers[y.val]?)
  | .keyPressed x => do s.keyDown? (← s.registers[x.val]?)
  | .keyReleased x => do return !(← s.keyDown? (← s.registers[x.val]?))

def setResult? (s : Storage) (x : Nat) (result : AluResult) : Option Storage :=
  match result.flag with
  | none => s.setReg? x result.value
  | some flag => do (← s.setReg? 0xF flag).setReg? x result.value

def pollKey? (s : Storage) (register : Nat) : Option Storage :=
  match s.firstKey? with
  | none =>
      if s.status = .running then some { s with
        status := .awaitingKey register } else some s
  | some key => do
      let taken ← s.setReg? register (UInt8.ofNat key)
      let next ← taken.advance?
      return { next with status := .running }

def tick (s : Storage) : Storage :=
  { s with
    sound := if s.sound = 0 then 0 else s.sound - 1
    delay := if s.delay = 0 then 0 else s.delay - 1 }

end Storage

end Chip8
