import Chip8.Proofs.Influence.Lockstep
import Mathlib.Data.Set.Lattice
import Mathlib.Order.CompletePartialOrder
import Mathlib.Order.Interval.Set.Basic

/-!
# What memory has influence on

A step reads few addresses: the two of the word that it fetches, and those of a
sprite that it draws or of registers that it loads.  What memory holds anywhere
else cannot be told from the step.  It stays where it is, except that a step may
overwrite it, and then with the same bytes whatever was there.
-/

namespace Chip8

theorem Memory.read_store_congr {m m' : Memory} {start : Nat} {bytes : List UInt8}
    {a : Nat} (h : start ≤ a ∧ a < start + bytes.length ∨ m.read a = m'.read a) :
    (m.store start bytes).read a = (m'.store start bytes).read a := by
  rw [read_store, read_store]
  split
  next => rfl
  next hnot =>
      rcases h with hcovered | hsame
      · have hpast : 4096 ≤ a := by
          by_contra hcell
          exact hnot ⟨hcovered.1, hcovered.2, by omega⟩
        rw [read_of_le m hpast, read_of_le m' hpast]
      · exact hsame

theorem Memory.slice_congr {m m' : Memory} {start count : Nat}
    (h : ∀ a ∈ Set.Ico start (start + count), m.read a = m'.read a) :
    m.slice start count = m'.slice start count := by
  unfold slice
  apply List.map_congr_left
  intro offset hoffset
  have hlt := List.mem_range.mp hoffset
  exact h _ ⟨by omega, by omega⟩

namespace Machine

/-! ## Footprints -/

def readCells (m : Machine) : Instruction → Set Nat
  | .draw _ _ rows => Set.Ico m.index.toNat (m.index.toNat + rows)
  | .loadRegisters last => Set.Icc m.index.toNat (m.index.toNat + last)
  | _ => ∅

def writtenCells (m : Machine) : Instruction → Set Nat
  | .storeDecimal _ => Set.Ico m.index.toNat (m.index.toNat + 3)
  | .storeRegisters last => Set.Icc m.index.toNat (m.index.toNat + last)
  | _ => ∅

/-- The addresses that a step reads.  Without a word to fetch there are none. -/
def footprint (m : Machine) : Set Nat :=
  {a | m.status = .running ∧ m.pc.toNat < 0xFFF ∧
    (a = m.pc.toNat ∨ a = m.pc.toNat + 1 ∨
      ∃ instruction, Instruction.decode m.word = some instruction ∧
      a ∈ m.readCells instruction)}

def written (m : Machine) : Set Nat :=
  {a | ∃ instruction, Transition.carriedOut ⟨m, .step⟩ = some instruction ∧
    a ∈ m.writtenCells instruction}

def withMemory (m : Machine) (memory : Memory) : Machine :=
  { m with memory := memory }

/-! ## One instruction -/

section

variable {m : Machine} {memory : Memory} {instruction : Instruction}

theorem unseen_withMemory (memory : Memory) :
    Unseen fun m => m.withMemory memory where
  keypad _ := rfl
  status _ := rfl
  dialect _ := rfl
  setReg _ _ _ := rfl
  tick _ := rfl
  resume _ := rfl

theorem drawing_withMemory {x y : Register} {rows : Fin 16}
    (h : ∀ a ∈ m.readCells (.draw x y rows), m.memory.read a = memory.read a) :
    (m.withMemory memory).drawing x y rows = m.drawing x y rows :=
  congrArg (m.display.draw (m.reg x).toNat (m.reg y).toNat)
    (Memory.slice_congr h).symm

theorem loadFirstRegisters_withMemory {last : Register}
    (h : ∀ a ∈ m.readCells (.loadRegisters last), m.memory.read a = memory.read a) :
    ((m.withMemory memory).loadFirstRegisters (last + 1)).registers =
      (m.loadFirstRegisters (last + 1)).registers := by
  apply congrArg Vector.ofFn
  funext x
  by_cases hx : x.val < last.val + 1
  · rw [if_pos hx, if_pos hx]
    exact (h _ ⟨Nat.le_add_right _ _, by omega⟩).symm
  · rw [if_neg hx, if_neg hx]
    rfl

theorem effect_withMemory
    (h : ∀ a ∈ m.readCells instruction, m.memory.read a = memory.read a) :
    (m.withMemory memory).effect instruction =
      (m.effect instruction).withMemory
        ((m.withMemory memory).nextMemory instruction) := by
  have hregisters : (m.withMemory memory).nextRegisters instruction =
      m.nextRegisters instruction := by
    cases instruction with
    | draw x y rows => rw [nextRegisters, drawing_withMemory h]; rfl
    | loadRegisters last => exact loadFirstRegisters_withMemory h
    | alu op x y => cases op <;> rfl
    | _ => rfl
  have hdisplay : (m.withMemory memory).nextDisplay instruction =
      m.nextDisplay instruction := by
    cases instruction with
    | draw x y rows => rw [nextDisplay, drawing_withMemory h]; rfl
    | _ => rfl
  rw [effect_eq, effect_eq, hregisters, hdisplay]
  cases instruction <;> rfl

theorem read_nextMemory_withMemory {a : Nat}
    (h : a ∈ m.writtenCells instruction ∨ m.memory.read a = memory.read a) :
    (m.nextMemory instruction).read a =
      ((m.withMemory memory).nextMemory instruction).read a := by
  cases instruction with
  | storeDecimal x => exact Memory.read_store_congr h
  | storeRegisters last =>
      apply Memory.read_store_congr
      apply h.imp_left
      rintro ⟨hstart, hend⟩
      have hlength : (m.firstRegisters (last + 1)).length = last + 1 := by
        simp only [firstRegisters, List.length_take, Vector.length_toList]
        omega
      exact ⟨hstart, by omega⟩
  | _ => exact h.resolve_left (Set.notMem_empty a)

end

/-! ## One step -/

theorem sameCourse_withMemory {m : Machine} {memory : Memory}
    (h : ∀ a ∈ m.footprint, m.memory.read a = memory.read a) :
    m.SameCourse (m.withMemory memory) where
  status := rfl
  pc := rfl
  index := rfl
  calls := rfl
  keypad := rfl
  next hrunning := by
    rcases Nat.lt_or_ge m.pc.toNat 0xFFF with hpc | hpc
    · have hword : (m.withMemory memory).word = m.word := by
        have hhigh := h m.pc.toNat ⟨hrunning, hpc, .inl rfl⟩
        have hlow := h (m.pc.toNat + 1) ⟨hrunning, hpc, .inr (.inl rfl)⟩
        rw [word, word, hhigh, hlow]
        rfl
      have hpc' : (m.withMemory memory).pc.toNat < 0xFFF := hpc
      rw [nextInstruction, nextInstruction, fetch_of_lt hpc,
        fetch_of_lt hpc', hword]
      rfl
    · have hpc' : 0xFFF ≤ (m.withMemory memory).pc.toNat := hpc
      rw [nextInstruction, nextInstruction, fetch_of_le hpc, fetch_of_le hpc']
      rfl

theorem readCells_subset_footprint {m : Machine} {instruction : Instruction}
    (h : Transition.carriedOut ⟨m, .step⟩ = some instruction) :
    m.readCells instruction ⊆ m.footprint := by
  rcases Transition.carriedOut_eq_some_iff.mp h with
    ⟨-, hstatus, ⟨opcode, hnext⟩, -⟩
  rcases nextInstruction_eq_ok hnext with ⟨hpc, rfl, hdecode⟩
  intro a ha
  exact ⟨hstatus, by omega, .inr (.inr ⟨instruction, hdecode, ha⟩)⟩

/--
A step reads only its footprint.  Of two machines that differ in memory only, and
there only at addresses outside the footprint of the next step, the step has the
same result and reports the same, and the machines still differ in memory only.
Memory differs then only where it did before and the step has not written.
-/
theorem step_reads_footprint {m n : Machine} {addresses : Set Nat}
    (hsame : { m with memory := n.memory } = n)
    (hagree : ∀ a, a ∉ addresses → m.memory.read a = n.memory.read a)
    (hdisjoint : Disjoint addresses m.footprint) :
    m.step.result = n.step.result ∧ m.step.events = n.step.events ∧
    { m.step.machine with memory := n.step.machine.memory } = n.step.machine ∧
    ∀ a, a ∉ addresses ∨ a ∈ m.written →
      m.step.machine.memory.read a = n.step.machine.memory.read a := by
  obtain ⟨memory, rfl⟩ : ∃ memory, n = m.withMemory memory := ⟨n.memory, hsame.symm⟩
  have hread : ∀ a ∈ m.footprint, m.memory.read a = memory.read a := by
    intro a ha
    exact hagree a fun hmem => Set.disjoint_left.mp hdisjoint hmem ha
  have hidle : Transition.carriedOut ⟨m, .step⟩ = none →
      ∀ a, a ∉ addresses ∨ a ∈ m.written → m.memory.read a = memory.read a := by
    rintro hnone a (hout | ⟨instruction, hcarried, -⟩)
    · exact hagree a hout
    · cases hnone.symm.trans hcarried
  cases (sameCourse_withMemory hread).abreast with
  | halted hnone hstatus hm hn =>
      rw [hm, hn]
      exact ⟨rfl, rfl, rfl, hidle hnone⟩
  | parked register hnone hstatus hm hn =>
      have hend := (unseen_withMemory memory).endStep m
      have hmemory : m.endStep.memory = m.memory := by rw [endStep_eq]
      rw [hm, hn, hend]
      refine ⟨rfl, rfl, rfl, ?_⟩
      rw [hmemory]
      exact hidle hnone
  | resumed register key hnone hm hn =>
      rw [hm, hn]
      exact ⟨rfl, rfl, rfl, hidle hnone⟩
  | failed cause events hnone hm hn =>
      rw [hm, hn]
      exact ⟨rfl, rfl, rfl, hidle hnone⟩
  | executed opcode instruction hstatus hcarried hm hn =>
      have heffect := effect_withMemory fun a ha =>
        hread a (readCells_subset_footprint hcarried ha)
      have hunseen :=
        unseen_withMemory ((m.withMemory memory).nextMemory instruction)
      have hend := hunseen.endStep (m.effect instruction)
      have hmemory : (m.effect instruction).endStep.memory =
          m.nextMemory instruction := by
        rw [endStep_eq, effect_eq]
      rw [hm, hn, heffect, hend]
      refine ⟨rfl, rfl, rfl, ?_⟩
      rw [hmemory]
      intro a ha
      apply read_nextMemory_withMemory
      rcases ha with hout | ⟨written, hwritten, hcells⟩
      · exact .inr (hagree a hout)
      · cases hcarried.symm.trans hwritten
        exact .inl hcells

theorem step_reads_footprint_overwritten :
    let m :=
      (boot {} (.ofSeed 0)).machine.after [.step, .load [0xA2, 0x04, 0xF0, 0x33]]
    let n := { m with memory := m.memory.store 0x204 [9, 9, 9, 9] }
    let addresses := Set.Ico 0x204 0x208
    { m with memory := n.memory } = n ∧
    (∀ a, a ∉ addresses → m.memory.read a = n.memory.read a) ∧
    Disjoint addresses m.footprint ∧
    m.step.result = n.step.result ∧
    m.step.machine.memory.read 0x206 = n.step.machine.memory.read 0x206 ∧
    m.step.machine.memory.read 0x207 ≠ n.step.machine.memory.read 0x207 := by
  intro m n addresses
  have hsame : { m with memory := n.memory } = n := rfl
  have hagree : ∀ a, a ∉ addresses → m.memory.read a = n.memory.read a := by
    intro a ha
    have hread := m.memory.read_store 0x204 [9, 9, 9, 9] a
    rw [dif_neg] at hread
    · exact hread.symm
    · rintro ⟨hstart, hend, -⟩
      exact ha ⟨hstart, hend⟩
  have hfacts : m.pc.toNat = 0x202 ∧
    Instruction.decode m.word = some (.storeDecimal 0) ∧
      m.index.toNat = 0x204 ∧
      Transition.carriedOut ⟨m, .step⟩ = some (.storeDecimal 0) ∧
      m.step.machine.memory.read 0x207 ≠ n.step.machine.memory.read 0x207 := by
    decide +kernel
  rcases hfacts with ⟨hpc, hdecode, hindex, hcarried, hdiffer⟩
  have hdisjoint : Disjoint addresses m.footprint := by
    rw [Set.disjoint_left]
    rintro a ⟨hstart, hend⟩ ⟨-, -, hhigh | hlow | ⟨instruction, hother, hcells⟩⟩
    · rw [hpc] at hhigh
      omega
    · rw [hpc] at hlow
      omega
    · cases hdecode.symm.trans hother
      exact hcells
  have hwritten : 0x206 ∈ m.written := by
    refine ⟨_, hcarried, ?_, ?_⟩
    · rw [hindex]
      decide
    · rw [hindex]
      decide
  rcases step_reads_footprint hsame hagree hdisjoint with ⟨hresult, -, -, hafter⟩
  exact ⟨hsame, hagree, hdisjoint, hresult, hafter 0x206 (.inr hwritten), hdiffer⟩

end Machine

end Chip8
