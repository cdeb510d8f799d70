import Chip8.Proofs.Machine.Ensures
import Chip8.Proofs.Machine.Frame

/-!
# Copying registers to memory and back

Storing the first registers at the index and loading them from there undo each
other, once the index is set back.  Either leaves the index behind the last cell it
has used, so that stores one after another write one block.
-/

namespace Chip8

/-! ## Blocks of memory -/

namespace Memory

theorem store_append (m : Memory) (start : Nat) (bytes more : List UInt8) :
    m.store start (bytes ++ more) =
      (m.store start bytes).store (start + bytes.length) more := by
  induction bytes generalizing m start with
  | nil => rfl
  | cons value rest ih =>
      have hstart : start + 1 + rest.length = start + (rest.length + 1) := by omega
      rw [List.cons_append, store, ih, hstart, List.length_cons, store]

theorem read_store_add (m : Memory) {start k : Nat} {bytes : List UInt8}
    (hk : k < bytes.length) (h : start + k < 4096) :
    (m.store start bytes).read (start + k) = bytes[k] := by
  have hcovered : start ≤ start + k ∧ start + k < start + bytes.length ∧
      start + k < 4096 := by
    omega
  rw [read_store, dif_pos hcovered]
  simp only [Nat.add_sub_cancel_left]

theorem read_store_of_not_mem (m : Memory) {start a : Nat} {bytes : List UInt8}
    (h : a < start ∨ start + bytes.length ≤ a) :
    (m.store start bytes).read a = m.read a := by
  rw [read_store, dif_neg]
  omega

theorem store_slice (m : Memory) (start count : Nat) :
    m.store start (m.slice start count) = m := by
  apply ext_read
  intro a
  rw [read_store]
  split
  next hcovered =>
    have ha : start + (a - start) = a := by omega
    simp [slice, ha]
  next => rfl

end Memory

namespace Machine

/-! ## Blocks of registers -/

theorem length_firstRegisters (m : Machine) {count : Nat} (h : count ≤ 16) :
    (m.firstRegisters count).length = count := by
  simp [firstRegisters, h]

theorem getElem_firstRegisters (m : Machine) {count k : Nat} (h : k < 16)
    (hlength : k < (m.firstRegisters count).length) :
    (m.firstRegisters count)[k] = m.reg ⟨k, h⟩ := by
  simp [firstRegisters, reg]

theorem reg_loadFirstRegisters_of_lt (m : Machine) {count : Nat} {r : Register}
    (h : r.val < count) :
    (m.loadFirstRegisters count).reg r = m.memory.read (m.index.toNat + r) := by
  simp [loadFirstRegisters, reg, h]

/-! ## One transfer -/

/-- After the first registers up to `last` were stored at the index. -/
structure Stored (m : Machine) (last : Register) (after : Machine) : Prop where
  memory_eq : after.memory =
    m.memory.store m.index.toNat (m.firstRegisters (last + 1))
  registers_eq : after.registers = m.registers
  index_eq : after.index.toNat = m.index.toNat + last + 1

structure Loaded (m : Machine) (last : Register) (after : Machine) : Prop where
  low_eq : ∀ r, r ≤ last → after.reg r = m.memory.read (m.index.toNat + r)
  high_eq : ∀ r, last < r → after.reg r = m.reg r
  memory_eq : after.memory = m.memory
  index_eq : after.index.toNat = m.index.toNat + last + 1

section

variable {m : Machine} {last : Register} (hcells : m.index.toNat + last + 1 ≤ 4096)
include hcells

theorem toNat_index_add :
    (m.index + UInt16.ofNat (last + 1)).toNat = m.index.toNat + last + 1 := by
  rw [UInt16.toNat_add, UInt16.toNat_ofNat']
  omega

theorem ensures_storeRegisters :
    m.Ensures (.storeRegisters last) (m.Stored last) := by
  refine ensures_of_effect (if_pos (.inr hcells)) ?_
  intro delay sound
  exact ⟨rfl, rfl, toNat_index_add hcells⟩

theorem ensures_loadRegisters :
    m.Ensures (.loadRegisters last) (m.Loaded last) := by
  refine ensures_of_effect (if_pos (.inr hcells)) ?_
  intro delay sound
  rw [effect_eq]
  constructor
  · intro r hr
    exact m.reg_loadFirstRegisters_of_lt (Nat.lt_succ_of_le hr)
  · intro r hr
    exact m.reg_loadFirstRegisters_of_le hr
  · rfl
  · exact toNat_index_add hcells

/-! ## Two transfers -/

theorem Stored.then_loaded {stored n restored : Machine}
    (hstored : m.Stored last stored)
    (hmemory : n.memory = stored.memory) (hindex : n.index = m.index)
    (hloaded : n.Loaded last restored) {r : Register} (hr : r ≤ last) :
    restored.reg r = m.reg r := by
  have hlength : r.val < (m.firstRegisters (last + 1)).length := by
    rw [length_firstRegisters m last.isLt]
    exact Nat.lt_succ_of_le hr
  have hcell : m.index.toNat + r.val < 4096 := by
    have hle : r.val ≤ last.val := hr
    omega
  rw [hloaded.low_eq r hr, hmemory, hindex, hstored.memory_eq,
    Memory.read_store_add _ hlength hcell]
  exact m.getElem_firstRegisters r.isLt hlength

omit hcells

theorem Loaded.firstRegisters_eq {loaded : Machine} (h : m.Loaded last loaded) :
    loaded.firstRegisters (last + 1) = m.memory.slice m.index.toNat (last + 1) := by
  apply List.ext_getElem
  · rw [length_firstRegisters loaded last.isLt, Memory.length_slice]
  · intro k hk hk'
    have hlast : k < last + 1 := by simpa using hk'
    have hregister : k < 16 := Nat.lt_of_lt_of_le hlast last.isLt
    rw [getElem_firstRegisters loaded hregister,
      h.low_eq ⟨k, hregister⟩ (Nat.le_of_lt_succ hlast)]
    simp [Memory.slice]

theorem Loaded.then_stored {loaded n restored : Machine}
    (hloaded : m.Loaded last loaded) (hmemory : n.memory = loaded.memory)
    (hregisters : n.registers = loaded.registers)
    (hindex : n.index = m.index) (hstored : n.Stored last restored) :
    restored.memory = m.memory := by
  have hfirst : n.firstRegisters (last + 1) = loaded.firstRegisters (last + 1) := by
    rw [firstRegisters, hregisters, firstRegisters]
  rw [hstored.memory_eq, hmemory, hloaded.memory_eq, hindex, hfirst,
    hloaded.firstRegisters_eq, Memory.store_slice]

theorem Stored.then_stored {stored twice : Machine} {last' : Register}
    (hstored : m.Stored last stored) (hagain : stored.Stored last' twice) :
    twice.memory = m.memory.store m.index.toNat
      (m.firstRegisters (last + 1) ++ m.firstRegisters (last' + 1)) := by
  have hfirst : stored.firstRegisters (last' + 1) =
      m.firstRegisters (last' + 1) := by
    rw [firstRegisters, hstored.registers_eq, firstRegisters]
  rw [hagain.memory_eq, hstored.memory_eq, hstored.index_eq, hfirst,
    Memory.store_append, length_firstRegisters m last.isLt, Nat.add_assoc]

end

/--
If the cells from the index on are enough, registers that were stored come back when
they are loaded after the index was set back, whatever has become of them in
between; and storing what was loaded leaves memory as it was.  Both move the index
behind the last cell, at most to the end of memory, so that a second store goes on
where the first one stopped.
-/
theorem transfers_are_inverse (m : Machine) (last : Register)
    (hcells : m.index.toNat + last + 1 ≤ 4096) :
    m.Ensures (.storeRegisters last) (fun stored =>
      stored.registers = m.registers ∧
      stored.index.toNat = m.index.toNat + last + 1 ∧ stored.index.toNat ≤ 0x1000 ∧
      (∀ n : Machine, n.memory = stored.memory → n.index = m.index →
        n.Ensures (.loadRegisters last) fun restored =>
          (∀ r, r ≤ last → restored.reg r = m.reg r) ∧
          (∀ r, last < r → restored.reg r = n.reg r) ∧
          restored.memory = stored.memory) ∧
      ∀ last' : Register, stored.index.toNat + last' + 1 ≤ 4096 →
        stored.Ensures (.storeRegisters last') fun twice =>
          twice.memory = m.memory.store m.index.toNat
            (m.firstRegisters (last + 1) ++ m.firstRegisters (last' + 1))) ∧
    m.Ensures (.loadRegisters last) (fun loaded =>
      loaded.index.toNat = m.index.toNat + last + 1 ∧ loaded.index.toNat ≤ 0x1000 ∧
      ∀ n : Machine, n.memory = loaded.memory → n.registers = loaded.registers →
        n.index = m.index →
        n.Ensures (.storeRegisters last) fun restored =>
        restored.memory = m.memory) := by
  constructor
  · refine (ensures_storeRegisters hcells).mono fun stored hstored => ?_
    have hend := hstored.index_eq
    refine ⟨hstored.registers_eq, hend, Nat.le_trans (Nat.le_of_eq hend) hcells, ?_,
      ?_⟩
    · intro n hmemory hindex
      have hroom : n.index.toNat + last + 1 ≤ 4096 := by rwa [hindex]
      refine (ensures_loadRegisters hroom).mono fun restored hloaded => ?_
      exact ⟨fun r => hstored.then_loaded hcells hmemory hindex hloaded,
        hloaded.high_eq, hloaded.memory_eq.trans hmemory⟩
    · intro last' hmore
      exact (ensures_storeRegisters hmore).mono fun twice => hstored.then_stored
  · refine (ensures_loadRegisters hcells).mono fun loaded hloaded => ?_
    have hend := hloaded.index_eq
    refine ⟨hend, Nat.le_trans (Nat.le_of_eq hend) hcells, ?_⟩
    intro n hmemory hregisters hindex
    have hroom : n.index.toNat + last + 1 ≤ 4096 := by rwa [hindex]
    refine (ensures_storeRegisters hroom).mono fun restored => ?_
    exact hloaded.then_stored hmemory hregisters hindex

theorem transfers_are_inverse_edge :
    let m := (boot {} (.ofSeed 0)).machine.after
      [.step, .step, .step, .load [0x60, 0x07, 0x61, 0x09, 0xAF, 0xFE]]
    let last : Register := ⟨1, by decide⟩
    m.index.toNat + last + 1 ≤ 4096 ∧
    m.Ensures (.storeRegisters last) fun stored =>
      stored.index.toNat = 0x1000 ∧
      { stored with index := m.index, registers := Vector.replicate 16 0 }.Ensures
        (.loadRegisters last) fun restored =>
          restored.reg offsetRegister = 0x07 ∧ restored.reg last = 0x09 := by
  intro m last
  have hfacts : m.index.toNat = 0xFFE ∧ m.reg offsetRegister = 0x07 ∧
      m.reg last = 0x09 := by
    decide +kernel
  rcases hfacts with ⟨hindex, hfirst, hsecond⟩
  clear_value m
  have hcells : m.index.toNat + last + 1 ≤ 4096 := by
    rw [hindex]
    decide
  refine ⟨hcells, (transfers_are_inverse m last hcells).1.mono ?_⟩
  rintro stored ⟨-, hbehind, -, hback, -⟩
  refine ⟨?_, (hback { stored with index := m.index, registers := _ } rfl rfl).mono
    ?_⟩
  · rw [hbehind, hindex]
    decide
  · rintro restored ⟨hlow, -, -⟩
    constructor
    · rw [hlow offsetRegister (by decide), hfirst]
    · rw [hlow last (by decide), hsecond]

end Machine

end Chip8
