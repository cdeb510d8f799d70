import Chip8.Proofs.Instruction.Layout
import Chip8.Proofs.Machine.Effect

/-!
# When a step fails

The outcome of a step is settled by the status, the counter, the word at the
counter, the depth of the stack and `I`.  `wordFault?` reads the fault off the
word itself, without decoding it into an instruction; the main theorem gives
for every possible answer of a step exactly when it is the answer.
-/

namespace Chip8

namespace Opcode

/-- How many cells from `I` on a word asks for. -/
def cells (op : Opcode) : Nat :=
  if op.family = 0xD then op.n
  else if op.family = 0xF then
    match op.nn.toNat with
    | 0x33 => 3
    | 0x55 => op.x + 1
    | 0x65 => op.x + 1
    | _ => 0
  else 0

theorem cells_of_family {op : Opcode} (hdraw : op.family ≠ 0xD)
    (hdevice : op.family ≠ 0xF) :
    op.cells = 0 := by
  simp [cells, hdraw, hdevice]

end Opcode

namespace Instruction

private theorem cells_of_decodeDevice {op : Opcode} {instruction : Instruction}
    (hfamily : op.family = 0xF) (h : decodeDevice op.x op.nn = some instruction) :
    instruction.cells = op.cells := by
  unfold decodeDevice at h
  split at h <;> cases h <;> simp_all [Opcode.cells, Instruction.cells]

private theorem cells_of_decodeSystem {op : Opcode} {instruction : Instruction}
    (h : decodeSystem op = some instruction) : instruction.cells = 0 := by
  unfold decodeSystem at h
  split at h
  · cases h
    rfl
  · split at h <;> cases h
    rfl

theorem cells_of_decode {op : Opcode} {instruction : Instruction}
    (h : decode op = some instruction) : instruction.cells = op.cells := by
  unfold decode at h
  split at h
  case h_1 hfamily =>
    rw [Opcode.cells_of_family (by omega) (by omega)]
    exact cells_of_decodeSystem h
  case h_9 hfamily =>
    rw [Opcode.cells_of_family (by omega) (by omega)]
    obtain ⟨op, -, rfl⟩ := Option.map_eq_some_iff.mp h
    rfl
  case h_14 hfamily =>
    cases h
    simp [Opcode.cells, hfamily, Instruction.cells]
  case h_15 hfamily =>
    rw [Opcode.cells_of_family (by omega) (by omega)]
    unfold decodeKeySkip at h
    split at h <;> cases h <;> rfl
  case h_16 hfamily => exact cells_of_decodeDevice hfamily h
  case h_17 => cases h
  all_goals
    rename_i hfamily
    rw [Opcode.cells_of_family (by omega) (by omega)]
    cases h
    rfl

theorem decode_ne_none_of_cells {op : Opcode} (h : 1 ≤ op.cells) :
    decode op ≠ none := by
  unfold Opcode.cells at h
  split at h
  next hdraw => simp [decode, hdraw]
  next =>
    split at h
    next hdevice =>
      split at h
      next hnn => simp [decode, hdevice, decodeDevice, hnn]
      next hnn => simp [decode, hdevice, decodeDevice, hnn]
      next hnn => simp [decode, hdevice, decodeDevice, hnn]
      next => cases h
    next => cases h

end Instruction

namespace Machine

/-! ## The fault of a word -/

def wordFault? (m : Machine) (op : Opcode) : Option Fault :=
  if Instruction.decode op = none then some (.unsupportedOpcode op m.pc)
  else if op = 0x00EE ∧ m.calls.depth = 0 then some (.stackUnderflow m.pc)
  else if op.family = 0x2 ∧ m.calls.depth = 16 then some (.stackOverflow m.pc)
  else m.cellFault? op.cells

inductive WordFault (m : Machine) (op : Opcode) : Fault → Prop
  | unsupported (hdecode : Instruction.decode op = none) :
      WordFault m op (.unsupportedOpcode op m.pc)
  | underflow (hop : op = 0x00EE) (hdepth : m.calls.depth = 0) :
      WordFault m op (.stackUnderflow m.pc)
  | overflow (hfamily : op.family = 0x2) (hdepth : m.calls.depth = 16) :
      WordFault m op (.stackOverflow m.pc)
  | outside (hsome : 1 ≤ op.cells) (hpast : 4096 < m.index.toNat + op.cells) :
      WordFault m op (.memoryOutOfBounds (m.index.toNat + op.cells - 1) m.pc)

private theorem fault?_of_ret {m : Machine} {op : Opcode}
    (h : Instruction.decode op = some .ret) : m.fault? .ret = m.wordFault? op := by
  have hop : op = 0x00EE :=
    (Instruction.encode_eq_of_decode h (by decide) (by decide)).symm
  subst hop
  have hcells : Opcode.cells 0x00EE = 0 := rfl
  have hfamily : Opcode.family 0x00EE ≠ 0x2 := by decide
  simp [fault?, wordFault?, h, hcells, hfamily, cellFault?]

private theorem fault?_of_call {m : Machine} {op : Opcode} {target : Address}
    (h : Instruction.decode op = some (.call target)) :
    m.fault? (.call target) = m.wordFault? op := by
  have hencode := Opcode.family_ofAddress (f := 0x2) (by decide) target
  have hop :=
    Instruction.encode_eq_of_decode h (by rw [Instruction.encode, hencode]; decide)
    (by rw [Instruction.encode, hencode]; decide)
  have hfamily : op.family = 0x2 := hop ▸ hencode
  have hret : op ≠ 0x00EE := by
    intro hret
    subst hret
    cases hfamily
  have hcells : op.cells = 0 := (Instruction.cells_of_decode h).symm
  simp [fault?, wordFault?, h, hret, hfamily, hcells, cellFault?]

theorem fault?_of_decode {m : Machine} {op : Opcode} {instruction : Instruction}
    (h : Instruction.decode op = some instruction) :
    m.fault? instruction = m.wordFault? op := by
  cases instruction with
  | ret => exact fault?_of_ret h
  | call target => exact fault?_of_call h
  | _ =>
      have hret : op ≠ 0x00EE := by
        intro hret
        subst hret
        cases h
      have hfamily : op.family ≠ 0x2 := by
        intro hfamily
        simp [Instruction.decode, hfamily] at h
      have hcells := Instruction.cells_of_decode h
      simp [fault?, wordFault?, h, hret, hfamily, ← hcells]

theorem wordFault?_eq_some_iff {m : Machine} {op : Opcode} {cause : Fault} :
    m.wordFault? op = some cause ↔ m.WordFault op cause := by
  constructor
  · intro h
    unfold wordFault? at h
    split at h
    next hdecode =>
      cases h
      exact .unsupported hdecode
    next =>
      split at h
      next hret =>
        cases h
        exact .underflow hret.1 hret.2
      next =>
        split at h
        next hcall =>
          cases h
          exact .overflow hcall.1 hcall.2
        next =>
          unfold cellFault? at h
          split at h <;> cases h
          exact .outside (by omega) (by omega)
  · intro h
    cases h with
    | unsupported hdecode => simp [wordFault?, hdecode]
    | underflow hop hdepth =>
        have hdecode : Instruction.decode 0x00EE ≠ none := by decide
        simp [wordFault?, hop, hdepth, hdecode]
    | overflow hfamily hdepth =>
        have hdecode : Instruction.decode op ≠ none := by
          simp [Instruction.decode, hfamily]
        simp [wordFault?, hfamily, hdepth, hdecode]
    | outside hsome hpast =>
        have hdecode := Instruction.decode_ne_none_of_cells hsome
        have hret : op ≠ 0x00EE := by
          intro hret
          subst hret
          cases hsome
        have hcall : op.family ≠ 0x2 := by
          intro hcall
          rw [Opcode.cells_of_family (by omega) (by omega)] at hsome
          cases hsome
        have hcells : ¬(op.cells = 0 ∨ m.index.toNat + op.cells ≤ 4096) := by omega
        simp [wordFault?, cellFault?, hdecode, hret, hcall, hcells]

/-! ## The answer of a step -/

theorem step_result_unfetched {m : Machine} (hstatus : m.status = .running)
    (hpc : 0xFFF ≤ m.pc.toNat) :
    m.step.result = .error (.fault (.fetchOutOfBounds m.pc)) := by
  simp [step, hstatus, stepRunning, nextInstruction, fetch_of_le hpc, haltWith]

theorem step_result_fetched {m : Machine} (hstatus : m.status = .running)
    (hpc : m.pc.toNat < 0xFFF) :
    m.step.result =
      match m.wordFault? m.word with
      | some cause => .error (.fault cause)
      | none => .ok () := by
  cases hdecode : Instruction.decode m.word with
  | none =>
      simp [step, hstatus, stepRunning, nextInstruction, fetch_of_lt hpc, hdecode,
        haltWith, wordFault?]
  | some instruction =>
      simp only [step, hstatus, stepRunning, nextInstruction, fetch_of_lt hpc,
        hdecode, execute_eq, fault?_of_decode hdecode]
      cases m.wordFault? m.word <;> rfl

inductive Fails (m : Machine) : StepError → Prop
  | halted (hstatus : m.status = .halted) : Fails m .halted
  | unfetched (hstatus : m.status = .running) (hpc : 0xFFF ≤ m.pc.toNat) :
      Fails m (.fault (.fetchOutOfBounds m.pc))
  | word {cause : Fault} (hstatus : m.status = .running) (hpc : m.pc.toNat < 0xFFF)
      (hfault : m.WordFault m.word cause) : Fails m (.fault cause)

theorem step_result_awaiting {m : Machine} {register : Register}
    (hstatus : m.status = .awaitingKey register) : m.step.result = .ok () := by
  simp only [step, hstatus, stepWaiting]
  cases m.keypad.firstPressed <;> rfl

theorem step_result_eq_error_iff (m : Machine) (error : StepError) :
    m.step.result = .error error ↔ m.Fails error := by
  constructor
  · intro h
    cases hstatus : m.status with
    | halted =>
        simp only [step, hstatus] at h
        cases h
        exact .halted hstatus
    | awaitingKey register =>
        rw [step_result_awaiting hstatus] at h
        cases h
    | running =>
        rcases Nat.lt_or_ge m.pc.toNat 0xFFF with hpc | hpc
        · rw [step_result_fetched hstatus hpc] at h
          cases hfault : m.wordFault? m.word with
          | none => simp [hfault] at h
          | some cause =>
              simp only [hfault] at h
              cases h
              exact .word hstatus hpc (wordFault?_eq_some_iff.mp hfault)
        · rw [step_result_unfetched hstatus hpc] at h
          cases h
          exact .unfetched hstatus hpc
  · intro h
    cases h with
    | halted hstatus => simp [step, hstatus]
    | unfetched hstatus hpc => exact step_result_unfetched hstatus hpc
    | word hstatus hpc hfault =>
        rw [step_result_fetched hstatus hpc, wordFault?_eq_some_iff.mpr hfault]

theorem step_result_eq_ok_iff (m : Machine) :
    m.step.result = .ok () ↔ ∀ error, ¬ m.Fails error := by
  simp only [← step_result_eq_error_iff]
  cases m.step.result <;> simp

theorem not_wordFault_of_empty_sprite {m : Machine} {op : Opcode}
    (hfamily : op.family = 0xD)
    (hrows : op.n.val = 0) (cause : Fault) : ¬ m.WordFault op cause := by
  rintro (hdecode | hop | hcall | hsome)
  · simp [Instruction.decode, hfamily] at hdecode
  · subst hop
    cases hfamily
  · omega
  · simp [Opcode.cells, hfamily, hrows] at hsome

/--
A step fails exactly when, and exactly as, `Fails` says, and succeeds in all
other cases.  In particular a machine that awaits a key never fails, only
addresses past memory are reported, and a sprite without rows can be drawn
wherever `I` points.
-/
theorem step_fails_exactly (m : Machine) :
    (∀ error, m.step.result = .error error ↔ m.Fails error) ∧
    (m.step.result = .ok () ↔ ∀ error, ¬ m.Fails error) ∧
    (∀ register, m.status = .awaitingKey register → m.step.result = .ok ()) ∧
    (∀ address pc, m.step.result = .error (.fault (.memoryOutOfBounds address pc)) →
      0x1000 ≤ address) ∧
    (m.status = .running → m.pc.toNat < 0xFFF → m.word.family = 0xD →
      m.word.n.val = 0 →
      m.step.result = .ok ()) := by
  refine ⟨m.step_result_eq_error_iff, m.step_result_eq_ok_iff,
    fun register => step_result_awaiting, ?_, ?_⟩
  · intro address pc h
    rw [step_result_eq_error_iff] at h
    cases h with
    | word hstatus hpc hfault =>
        cases hfault with
        | outside hsome hpast => omega
  · intro hstatus hpc hfamily hrows
    rw [step_result_eq_ok_iff]
    intro error h
    cases h with
    | halted hhalted => cases hstatus.symm.trans hhalted
    | unfetched _ hpast => omega
    | word _ _ hfault => exact not_wordFault_of_empty_sprite hfamily hrows _ hfault

end Machine

end Chip8
