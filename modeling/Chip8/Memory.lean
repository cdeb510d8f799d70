/-!
# Memory

Memory has 4096 byte cells.  `read` is its view: every number has a byte,
which is zero past the last cell, and writes past the last cell do nothing.
The main lemma is `read_store`: storing a list of bytes changes the cells that
it covers and no others.
-/

namespace Chip8

structure Memory where
  cells : Vector UInt8 4096
  deriving DecidableEq

namespace Memory

abbrev programStart : Nat := 0x200

/-- The longest program that fits: the cells from `programStart` on. -/
abbrev programLimit : Nat := 3584

abbrev fontStart : Nat := 0x050

/-- The glyphs of `0` to `F`, each five sprite rows from top to bottom. -/
def font : List UInt8 :=
  [ 0xF0, 0x90, 0x90, 0x90, 0xF0,
    0x20, 0x60, 0x20, 0x20, 0x70,
    0xF0, 0x10, 0xF0, 0x80, 0xF0,
    0xF0, 0x10, 0xF0, 0x10, 0xF0,
    0x90, 0x90, 0xF0, 0x10, 0x10,
    0xF0, 0x80, 0xF0, 0x10, 0xF0,
    0xF0, 0x80, 0xF0, 0x90, 0xF0,
    0xF0, 0x10, 0x20, 0x40, 0x40,
    0xF0, 0x90, 0xF0, 0x90, 0xF0,
    0xF0, 0x90, 0xF0, 0x10, 0xF0,
    0xF0, 0x90, 0xF0, 0x90, 0x90,
    0xE0, 0x90, 0xE0, 0x90, 0xE0,
    0xF0, 0x80, 0x80, 0x80, 0xF0,
    0xE0, 0x90, 0x90, 0x90, 0xE0,
    0xF0, 0x80, 0xF0, 0x80, 0xF0,
    0xF0, 0x80, 0xF0, 0x80, 0x80 ]

def blank : Memory := ⟨Vector.replicate 4096 0⟩

def read (m : Memory) (address : Nat) : UInt8 :=
  if h : address < 4096 then m.cells[address] else 0

def write (m : Memory) (address : Nat) (value : UInt8) : Memory :=
  if h : address < 4096 then ⟨m.cells.set address value⟩ else m

def store (m : Memory) (start : Nat) : List UInt8 → Memory
  | [] => m
  | value :: rest => (m.write start value).store (start + 1) rest

def slice (m : Memory) (start count : Nat) : List UInt8 :=
  (List.range count).map fun offset => m.read (start + offset)

def powerOn : Memory := blank.store fontStart font

@[ext] theorem ext_read {m m' : Memory} (h : ∀ a, m.read a = m'.read a) :
    m = m' := by
  obtain ⟨cells⟩ := m
  obtain ⟨cells'⟩ := m'
  congr 1
  apply Vector.ext
  intro a ha
  have hread := h a
  simpa [read, ha] using hread

@[simp] theorem read_blank (a : Nat) : blank.read a = 0 := by
  simp [read, blank]

theorem read_of_le (m : Memory) {a : Nat} (h : 4096 ≤ a) : m.read a = 0 := by
  simp [read, Nat.not_lt.mpr h]

theorem read_write (m : Memory) (start : Nat) (value : UInt8) (a : Nat) :
    (m.write start value).read a =
      if a = start ∧ a < 4096 then value else m.read a := by
  by_cases ha : a < 4096
  · by_cases hs : a = start
    · subst hs
      simp [read, write, ha]
    · by_cases hstart : start < 4096
      · simp [read, write, ha, hs, Ne.symm hs, hstart]
      · simp [write, hs, hstart]
  · simp [read, ha]

theorem read_store (m : Memory) (start : Nat) (bytes : List UInt8) (a : Nat) :
    (m.store start bytes).read a =
      if h : start ≤ a ∧ a < start + bytes.length ∧ a < 4096
      then bytes[a - start] else m.read a := by
  induction bytes generalizing m start with
  | nil =>
      have h : ¬(start ≤ a ∧ a < start + ([] : List UInt8).length ∧ a < 4096) := by
        simp only [List.length_nil]
        omega
      rw [dif_neg h, store]
  | cons value rest ih =>
      rw [store, ih, read_write]
      by_cases hs : a = start
      · subst hs
        have hrest : ¬(a + 1 ≤ a ∧ a < a + 1 + rest.length ∧ a < 4096) := by omega
        rw [dif_neg hrest]
        by_cases ha : a < 4096
        · simp [ha]
        · simp [ha]
      · rw [if_neg fun h => hs h.1]
        by_cases hin : start + 1 ≤ a ∧ a < start + 1 + rest.length ∧ a < 4096
        · have hcons : start ≤ a ∧ a < start + (value :: rest).length ∧
              a < 4096 := by
            simp only [List.length_cons]
            omega
          have hindex : a - start = a - (start + 1) + 1 := by omega
          rw [dif_pos hin, dif_pos hcons]
          simp only [hindex, List.getElem_cons_succ]
        · have hcons : ¬(start ≤ a ∧ a < start + (value :: rest).length ∧
              a < 4096) := by
            simp only [List.length_cons]
            omega
          rw [dif_neg hin, dif_neg hcons]

@[simp] theorem length_slice (m : Memory) (start count : Nat) :
    (m.slice start count).length = count := by
  simp [slice]

end Memory

end Chip8
