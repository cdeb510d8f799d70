import Mathlib.Data.List.FinRange
import Chip8.Proofs.Storage.Step

/-!
# A machine laid out in storage

`ofMachine` lays a machine out in plain storage: the rows of the screen one
after another, a byte for each pixel.  Reading and writing the arrays then does
what the machine does with its memory, registers and keys, as long as the range
is inside.
-/

namespace Chip8.Storage

def statusOf : Chip8.Status → Status
  | .running => .running
  | .awaitingKey register => .awaitingKey register
  | .halted => .halted

def pixelAt (position : Fin 2048) : Pixel :=
  ⟨⟨position % 64, Nat.mod_lt _ (by decide)⟩,
    ⟨position / 64, Nat.div_lt_of_lt_mul position.isLt⟩⟩

def pixelsOf (d : Display) : Vector UInt8 2048 :=
  Vector.ofFn fun position => flagByte (d.isLit (pixelAt position))

def displayOf (pixels : Vector UInt8 2048) : Display :=
  ⟨.ofFn fun y => .ofFn fun x => pixels[y.val * 64 + x.val] == 1⟩

def ofMachine (m : Machine) : Storage where
  pc := m.pc
  memory := m.memory.cells
  registers := m.registers
  index := m.index
  stack := m.calls.slots
  top := m.calls.depth
  delay := m.delay
  sound := m.sound
  pixels := pixelsOf m.display
  redraw := m.redraw
  keys := m.keypad.keys
  status := statusOf m.status
  dialect := m.dialect
  random := m.random

@[simp] theorem statusOf_eq_running_iff {status : Chip8.Status} :
    statusOf status = .running ↔ status = .running := by
  cases status <;> simp [statusOf]

theorem pixelsOf_blank : pixelsOf .blank = Vector.replicate 2048 0 := by
  apply Vector.ext
  intro position hposition
  simp [pixelsOf, flagByte]

theorem pixelsOf_displayOf {pixels : Vector UInt8 2048}
    (h : ∀ cell ∈ pixels, cell = 0 ∨ cell = 1) :
    pixelsOf (displayOf pixels) = pixels := by
  apply Vector.ext
  intro position hposition
  have hplace : position / 64 * 64 + position % 64 = position := by omega
  have hread : (pixelsOf (displayOf pixels))[position] =
      flagByte (pixels[position] == 1) := by
    simp [pixelsOf, displayOf, pixelAt, Display.isLit, hplace]
  rw [hread]
  rcases h pixels[position] (Vector.getElem_mem hposition) with hdark | hlit
  · rw [hdark]
    rfl
  · rw [hlit]
    rfl

/-! ## Arrays -/

theorem set?_of_lt {α : Type} {n : Nat} {cells : Vector α n} {position : Nat}
    (h : position < n) (value : α) :
    set? cells position value = some (cells.set position value) := by
  simp [set?, h]

theorem sum?_of_lt {a b : Nat} (h : a + b < 0x10000000000000000) :
    sum? a b = some (a + b) := by
  have hsize : a + b < UInt64.size := h
  simp [sum?, hsize]

theorem product?_of_lt {a b : Nat} (h : a * b < 0x100000000) :
    product? a b = some (a * b) := by
  have hsize : a * b < UInt64.size := Nat.lt_trans h (by decide)
  simp [product?, hsize]

theorem sum16?_of_lt {a b : UInt16} (h : a.toNat + b.toNat < 0x10000) :
    sum16? a b = some (a + b) := by
  have hsize : a.toNat + b.toNat < UInt16.size := h
  simp [sum16?, hsize]

theorem product16?_of_lt {a b : UInt16} (h : a.toNat * b.toNat < 0x10000) :
    product16? a b = some (a * b) := by
  have hsize : a.toNat * b.toNat < UInt16.size := h
  simp [product16?, hsize]

theorem difference?_of_le {a b : Nat} (h : b ≤ a) :
    difference? a b = some (a - b) := by
  simp [difference?, h]

theorem slice?_memory (m : Memory) {start count : Nat} (h : start + count ≤ 4096) :
    slice? m.cells start (start + count) = some (m.slice start count) := by
  have hrange : start ≤ start + count ∧ start + count ≤ 4096 := by omega
  simp only [slice?, hrange, and_self, if_true, Option.some.injEq]
  apply List.ext_getElem
  · simp
    omega
  · intro k hk hk'
    have hcount : k < count := by simpa using hk'
    have hcell : start + k < 4096 := by omega
    simp [Memory.slice, Memory.read, hcell]

theorem replace?_memory (m : Memory) {start count : Nat} {bytes : List UInt8}
    (hlength : bytes.length = count) (h : start + count ≤ 4096) :
    replace? m.cells start (start + count) bytes =
      some (m.store start bytes).cells := by
  have hrange : start ≤ start + count ∧ start + count ≤ 4096 ∧
      bytes.length = start + count - start := by omega
  rw [replace?, if_pos hrange, Option.some.injEq]
  apply Vector.ext
  intro a ha
  have hread := m.read_store start bytes a
  by_cases hin : start ≤ a ∧ a - start < bytes.length
  · have hcovered : start ≤ a ∧ a < start + bytes.length ∧ a < 4096 := by omega
    rw [dif_pos hcovered] at hread
    simpa [Memory.read, ha, hin] using hread.symm
  · have hfree : ¬(start ≤ a ∧ a < start + bytes.length ∧ a < 4096) := by omega
    rw [dif_neg hfree] at hread
    simpa [Memory.read, ha, hin] using hread.symm

theorem slice?_registers (m : Machine) {count : Nat} (h : count ≤ 16) :
    slice? m.registers 0 count = some (m.firstRegisters count) := by
  simp [slice?, h, Machine.firstRegisters]

theorem replace?_registers (m : Machine) {count : Nat} (h : count ≤ 16) :
    replace? m.registers 0 count (m.memory.slice m.index.toNat count) =
      some (m.loadFirstRegisters count).registers := by
  have hrange : 0 ≤ count ∧ count ≤ 16 ∧
      (m.memory.slice m.index.toNat count).length = count - 0 := by simp [h]
  rw [replace?, if_pos hrange, Option.some.injEq]
  apply Vector.ext
  intro x hx
  rcases Nat.lt_or_ge x count with hin | hout
  · simp [Machine.loadFirstRegisters, Memory.slice, hin]
  · have hkept : ¬x < count := Nat.not_lt.mpr hout
    simp [Machine.loadFirstRegisters, Machine.reg, hkept]

/-! ## Keys -/

theorem firstKey?_ofMachine (m : Machine) :
    (ofMachine m).firstKey? = m.keypad.firstPressed.map Fin.val := by
  have hkeys : m.keypad.keys.toList =
      (List.finRange 16).map m.keypad.isPressed := by
    apply List.ext_getElem
    · simp
    · intro k hk hk'
      simp [Keypad.isPressed]
  change m.keypad.keys.toList.findIdx? id = _
  rw [hkeys, List.findIdx?_map, Function.id_comp, Keypad.firstPressed,
    List.find?_eq_bind_findIdx?_getElem?]
  cases hfind : (List.finRange 16).findIdx? m.keypad.isPressed with
  | none => rfl
  | some k =>
      rcases List.findIdx?_eq_some_iff_getElem.mp hfind with ⟨hk, -⟩
      have hlt : k < 16 := by simpa using hk
      simp [hlt]

theorem toNat_keyCode (code : UInt8) :
    (code &&& 0xF).toNat = (Key.ofByte code).val := by
  rw [UInt8.toNat_and]
  exact Nat.and_two_pow_sub_one_eq_mod code.toNat 4

theorem keyDown?_ofMachine (m : Machine) (code : UInt8) :
    (ofMachine m).keyDown? code = some (m.keypad.isPressed (.ofByte code)) := by
  rw [keyDown?, toNat_keyCode]
  simp [ofMachine, Keypad.isPressed]

end Chip8.Storage
