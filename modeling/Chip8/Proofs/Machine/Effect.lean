import Chip8.Machine.Step

/-!
# Faults and effects of instructions

`execute` answers with a fault or with a machine.  Here the two are told apart:
`fault?` is the fault that an instruction meets, and `effect` is the machine it
leaves when it meets none.  `Course` lists the ways in which a step can go, and
`Unseen` the changes of a machine that make no difference to the parts of a step
that do not depend on its instruction.
-/

namespace Chip8

/-- How many cells of memory, counted from `I`, an instruction uses. -/
def Instruction.cells : Instruction → Nat
  | .draw _ _ rows => rows
  | .storeDecimal _ => 3
  | .storeRegisters last => last + 1
  | .loadRegisters last => last + 1
  | _ => 0

namespace Machine

/-! ## One instruction -/

def cellFault? (m : Machine) (count : Nat) : Option Fault :=
  if count = 0 ∨ m.index.toNat + count ≤ 4096 then none
  else some (.memoryOutOfBounds (m.index.toNat + count - 1) m.pc)

def fault? (m : Machine) : Instruction → Option Fault
  | .ret => if m.calls.depth = 0 then some (.stackUnderflow m.pc) else none
  | .call _ => if m.calls.depth = 16 then some (.stackOverflow m.pc) else none
  | instruction => m.cellFault? instruction.cells

def effect (m : Machine) : Instruction → Machine
  | .clearScreen => { m with display := .blank, redraw := true }.advance
  | .ret =>
      match m.calls.pop? with
      | none => m
      | some (caller, calls) => { m with pc := caller, calls := calls }.advance
  | .jump target => { m with pc := UInt16.ofNat target }
  | .call target =>
      { m with
        pc := UInt16.ofNat target, calls := (m.calls.push? m.pc).getD m.calls }
  | .jumpOffset base =>
      { m with pc := UInt16.ofNat base + (m.reg offsetRegister).toUInt16 }
  | .skip condition => m.skipIf (m.holds condition)
  | .setByte x value => (m.setReg x value).advance
  | .addByte x value => (m.setReg x (m.reg x + value)).advance
  | .alu op x y => (m.setResult x (op.apply m.dialect (m.reg x) (m.reg y))).advance
  | .setIndex target => { m with index := UInt16.ofNat target }.advance
  | .random x mask => (m.drawRandom x mask).advance
  | .draw x y rows => (m.drawSprite x y rows).advance
  | .readDelay x => (m.setReg x m.delay).advance
  | .waitKey x =>
      match m.keypad.firstPressed with
      | none => { m with status := .awaitingKey x }
      | some key => m.takeKey x key
  | .setDelay x => { m with delay := m.reg x }.advance
  | .setSound x => { m with sound := m.reg x }.advance
  | .addIndex x => (m.moveIndex (m.reg x).toUInt16).advance
  | .pointGlyph x => { m with index := 0x050 + 5 * (m.reg x).toUInt16 }.advance
  | .storeDecimal x => (m.storeAtIndex (decimalDigits (m.reg x))).advance
  | .storeRegisters last =>
      ((m.storeAtIndex (m.firstRegisters (last + 1))).moveIndex
        (UInt16.ofNat (last + 1))).advance
  | .loadRegisters last =>
      ((m.loadFirstRegisters (last + 1)).moveIndex
        (UInt16.ofNat (last + 1))).advance

theorem withCells_eq (m : Machine) (count : Nat) (next : Machine) :
    m.withCells count next =
      match m.cellFault? count with
      | some cause => .error cause
      | none => .ok next := by
  unfold withCells cellFault?
  split <;> rfl

private theorem execute_ret (m : Machine) :
    m.execute .ret =
      match m.fault? .ret with
      | some cause => .error cause
      | none => .ok (m.effect .ret) := by
  simp only [execute, fault?, effect]
  cases hpop : m.calls.pop? with
  | none =>
      have hdepth : m.calls.depth = 0 := by
        have hsaved := (CallStack.pop?_eq_none_iff m.calls).mp hpop
        rw [← CallStack.length_saved, hsaved]
        rfl
      simp [hdepth]
  | some top =>
      have hdepth : m.calls.depth ≠ 0 := by
        intro hzero
        have hsaved : m.calls.saved = [] :=
          List.eq_nil_of_length_eq_zero (by rw [CallStack.length_saved, hzero])
        rw [(CallStack.pop?_eq_none_iff m.calls).mpr hsaved] at hpop
        cases hpop
      simp [hdepth]

private theorem execute_call (m : Machine) (target : Address) :
    m.execute (.call target) =
      match m.fault? (.call target) with
      | some cause => .error cause
      | none => .ok (m.effect (.call target)) := by
  simp only [execute, fault?, effect]
  have hfull := CallStack.push?_eq_none_iff m.calls m.pc
  rw [CallStack.length_saved] at hfull
  cases hpush : m.calls.push? m.pc with
  | none => simp [hfull.mp hpush]
  | some calls =>
      have hdepth : m.calls.depth ≠ 16 := by
        intro hdepth
        rw [hfull.mpr hdepth] at hpush
        cases hpush
      simp [hdepth]

theorem execute_eq (m : Machine) (instruction : Instruction) :
    m.execute instruction =
      match m.fault? instruction with
      | some cause => .error cause
      | none => .ok (m.effect instruction) := by
  cases instruction with
  | ret => exact execute_ret m
  | call target => exact execute_call m target
  | waitKey x =>
      simp only [execute, fault?, effect, cellFault?, Instruction.cells]
      cases m.keypad.firstPressed <;> simp
  | draw | storeDecimal | storeRegisters | loadRegisters => exact withCells_eq m _ _
  | _ => simp [execute, fault?, effect, cellFault?, Instruction.cells]

/-! ## The next instruction -/

def word (m : Machine) : Opcode :=
  .ofBytes (m.memory.read m.pc.toNat) (m.memory.read (m.pc.toNat + 1))

theorem fetch_of_lt {m : Machine} (h : m.pc.toNat < 0xFFF) :
    m.fetch = .ok m.word := by
  have hpc : m.pc.toNat + 1 < 4096 := by omega
  simp [fetch, word, hpc]

theorem fetch_of_le {m : Machine} (h : 0xFFF ≤ m.pc.toNat) :
    m.fetch = .error (.fetchOutOfBounds m.pc) := by
  have hpc : ¬ m.pc.toNat + 1 < 4096 := by omega
  simp [fetch, hpc]

theorem nextInstruction_eq_ok {m : Machine} {opcode : Opcode}
    {instruction : Instruction}
    (h : m.nextInstruction = .ok (opcode, instruction)) :
    m.pc.toNat ≤ 0xFFE ∧ opcode = m.word ∧
    Instruction.decode opcode = some instruction := by
  rcases Nat.lt_or_ge m.pc.toNat 0xFFF with hpc | hpc
  · simp only [nextInstruction, fetch_of_lt hpc] at h
    cases hdecode : Instruction.decode m.word with
    | none => simp [hdecode] at h
    | some decoded =>
        simp only [hdecode] at h
        cases h
        exact ⟨by omega, rfl, hdecode⟩
  · simp only [nextInstruction, fetch_of_le hpc] at h
    cases h

/-! ## One step -/

inductive Course (m : Machine) : Prop
  | halted (hstatus : m.status = .halted) (hstep : m.step = ⟨m, .error .halted, []⟩)
  | parked (register : Register) (hstatus : m.status = .awaitingKey register)
      (hkey : m.keypad.firstPressed = none)
      (hstep : m.step = ⟨m.endStep, .ok (), []⟩)
  | resumed (register : Register) (key : Key)
      (hstatus : m.status = .awaitingKey register)
      (hkey : m.keypad.firstPressed = some key)
      (hstep : m.step =
        ⟨{ m.takeKey register key with status := .running }.tick, .ok (),
          [.resumed key]⟩)
  | unreadable (cause : Fault) (hstatus : m.status = .running)
      (hnext : m.nextInstruction = .error cause)
      (hstep : m.step = m.haltWith cause [])
  | refused (opcode : Opcode) (instruction : Instruction) (cause : Fault)
      (hstatus : m.status = .running)
      (hnext : m.nextInstruction = .ok (opcode, instruction))
      (hfault : m.fault? instruction = some cause)
      (hstep : m.step = m.haltWith cause [.executing m.pc opcode instruction])
  | executed (opcode : Opcode) (instruction : Instruction)
      (hstatus : m.status = .running)
      (hnext : m.nextInstruction = .ok (opcode, instruction))
      (hfault : m.fault? instruction = none)
      (hstep : m.step =
        ⟨(m.effect instruction).endStep, .ok (),
          .executing m.pc opcode instruction ::
          (m.effect instruction).waitingEvents⟩)

private theorem course_awaiting (m : Machine) {register : Register}
    (hstatus : m.status = .awaitingKey register) : m.Course := by
  cases hkey : m.keypad.firstPressed with
  | none =>
      refine .parked register hstatus hkey ?_
      simp [step, hstatus, stepWaiting, hkey]
  | some key =>
      refine .resumed register key hstatus hkey ?_
      simp [step, hstatus, stepWaiting, hkey, endStep]

private theorem course_running (m : Machine) (hstatus : m.status = .running) :
    m.Course := by
  cases hnext : m.nextInstruction with
  | error cause =>
      refine .unreadable cause hstatus hnext ?_
      simp [step, hstatus, stepRunning, hnext]
  | ok word =>
      obtain ⟨opcode, instruction⟩ := word
      cases hfault : m.fault? instruction with
      | some cause =>
          refine .refused opcode instruction cause hstatus hnext hfault ?_
          simp [step, hstatus, stepRunning, hnext, execute_eq, hfault]
      | none =>
          refine .executed opcode instruction hstatus hnext hfault ?_
          simp [step, hstatus, stepRunning, hnext, execute_eq, hfault]

theorem course (m : Machine) : m.Course := by
  cases hstatus : m.status with
  | halted => exact .halted hstatus (by simp [step, hstatus])
  | awaitingKey register => exact m.course_awaiting hstatus
  | running => exact m.course_running hstatus

/-! ## Changes of other fields -/

/-- A change of fields that no register, timer or wait for a key depends on. -/
structure Unseen (change : Machine → Machine) : Prop where
  keypad : ∀ m, (change m).keypad = m.keypad
  status : ∀ m, (change m).status = m.status
  dialect : ∀ m, (change m).dialect = m.dialect
  setReg : ∀ m x value, (change m).setReg x value = change (m.setReg x value)
  tick : ∀ m, (change m).tick = change m.tick
  resume : ∀ m, { (change m).advance with status := .running } =
    change { m.advance with status := .running }

section

variable {change : Machine → Machine} (h : Unseen change) (m : Machine)
include h

theorem Unseen.setResult (x : Register) (result : AluResult) :
    (change m).setResult x result = change (m.setResult x result) := by
  unfold Machine.setResult
  cases result.flag with
  | none => exact h.setReg m x result.value
  | some flag => simp only [h.setReg]

theorem Unseen.endStep : (change m).endStep = change m.endStep := by
  unfold Machine.endStep
  rw [h.status, h.dialect]
  split
  · exact h.tick m
  · rfl

theorem Unseen.stepWaiting (register : Register) :
    (change m).stepWaiting register =
      { m.stepWaiting register with
        machine := change (m.stepWaiting register).machine } := by
  unfold Machine.stepWaiting
  rw [h.keypad]
  cases m.keypad.firstPressed with
  | none => simp only [h.endStep]
  | some key => simp only [takeKey, h.setReg, h.resume, h.endStep]

end

end Machine

end Chip8
