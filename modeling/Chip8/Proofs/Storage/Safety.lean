import Chip8.Proofs.Storage.Execution

/-!
# Nothing traps

From any reachable storage every command is answered without a trap.  The
reachable storages are the reachable machines laid out, and the bounds of the
machine are what keeps every access and every sum inside.
-/

namespace Chip8.Storage

/-! ## Steps -/

private theorem fetch?_ofMachine (m : Machine) :
    (ofMachine m).fetch? = some m.fetch := by
  have hpc := m.pc.toNat_lt
  have hnext : sum? (ofMachine m).pc.toNat 1 = some (m.pc.toNat + 1) :=
    sum?_of_lt (by simp only [ofMachine]; omega)
  simp only [fetch?, hnext, Option.bind_eq_bind, Option.bind_some, Machine.fetch]
  rcases Nat.lt_or_ge (m.pc.toNat + 1) 4096 with hinside | houtside
  · have hhigh : (ofMachine m).memory[(ofMachine m).pc.toNat]? =
        some (m.memory.read m.pc.toNat) := by
      have hlt : m.pc.toNat < 4096 := by omega
      simp [ofMachine, Memory.read, hlt]
    have hlow : (ofMachine m).memory[m.pc.toNat + 1]? =
        some (m.memory.read (m.pc.toNat + 1)) := by
      simp [ofMachine, Memory.read, hinside]
    rw [if_neg (by omega), if_pos hinside, hhigh, Option.bind_some, hlow,
      Option.bind_some]
    rfl
  · rw [if_pos houtside, if_neg (by omega)]
    rfl

private theorem endStep_ofMachine (m : Machine) :
    (ofMachine m).endStep = ofMachine m.endStep := by
  have hcondition :
      ((ofMachine m).status = .running ∨ (ofMachine m).dialect.timersWhileWaiting) ↔
        (m.status = .running ∨ m.dialect.timersWhileWaiting) :=
    or_congr statusOf_eq_running_iff Iff.rfl
  unfold endStep Machine.endStep
  by_cases hticks : m.status = .running ∨ m.dialect.timersWhileWaiting
  · rw [if_pos (hcondition.mpr hticks), if_pos hticks]
    rfl
  · rw [if_neg (mt hcondition.mp hticks), if_neg hticks]

theorem runWord?_ofMachine {m : Machine} (h : m.Bounded)
    (hstatus : m.status = .running) :
    (ofMachine m).runWord? =
      some (match m.nextInstruction with
        | .error cause => .error cause
        | .ok (_, instruction) => (m.execute instruction).map ofMachine) := by
  rw [runWord?, fetch?_ofMachine, Option.bind_eq_bind, Option.bind_some]
  cases hfetch : m.fetch with
  | error cause =>
      have hnext : m.nextInstruction = .error cause := by
        simp [Machine.nextInstruction, hfetch]
      simp only [hnext]
      rfl
  | ok opcode =>
      cases hdecode : Instruction.decode opcode with
      | none =>
          have hnext : m.nextInstruction =
              .error (.unsupportedOpcode opcode m.pc) := by
            simp [Machine.nextInstruction, hfetch, hdecode]
          simp only [hnext, hdecode]
          rfl
      | some instruction =>
          have hnext : m.nextInstruction = .ok (opcode, instruction) := by
            simp [Machine.nextInstruction, hfetch, hdecode]
          have hpc := (Machine.nextInstruction_eq_ok hnext).1
          simp only [hnext, hdecode]
          exact execute?_ofMachine hpc h.slots_le hstatus instruction

theorem step?_ofMachine {m : Machine} (h : m.Bounded) :
    (ofMachine m).step? = some (m.step.result, ofMachine m.step.machine) := by
  cases hstatus : m.status with
  | halted =>
      have hhalted : (ofMachine m).status = .halted := by
        simp [ofMachine, hstatus, statusOf]
      simp [step?, hhalted, Machine.step, hstatus]
  | awaitingKey register =>
      have hawaiting : (ofMachine m).status = .awaitingKey register := by
        simp [ofMachine, hstatus, statusOf]
      have hpoll := pollKey?_of_awaiting (h.parked_le register hstatus) hstatus
      simp only [step?, hawaiting, hpoll, Option.bind_eq_bind, Option.bind_some,
        endStep_ofMachine, Machine.step, hstatus, Machine.stepWaiting]
      cases m.keypad.firstPressed <;> rfl
  | running =>
      have hrunning : (ofMachine m).status = .running := by
        simp [ofMachine, hstatus, statusOf]
      simp only [step?, hrunning, runWord?_ofMachine h hstatus, Option.bind_eq_bind,
        Option.bind_some, Machine.step, hstatus, Machine.stepRunning]
      cases m.nextInstruction with
      | error cause => rfl
      | ok word =>
          cases hresult : m.execute word.2 with
          | error cause =>
              simp only [hresult]
              rfl
          | ok next =>
              simp only [hresult, Except.map, endStep_ofMachine]
              rfl

/-! ## Commands -/

theorem initialize?_eq (s : Storage) :
    s.initialize? = some (ofMachine (.powerOn s.dialect s.random)) := by
  have hfont : replace? Memory.blank.cells Memory.fontStart (Memory.fontStart + 80)
      Memory.font = some Memory.powerOn.cells :=
    replace?_memory Memory.blank rfl (by decide)
  have hstop : sum? Memory.fontStart Memory.font.length =
    some (Memory.fontStart + 80) := rfl
  simp only [initialize?, hstop, Option.bind_eq_bind, Option.bind_some]
  change (replace? Memory.blank.cells _ _ _).bind _ = _
  rw [hfont, Option.bind_some, ← pixelsOf_blank]
  rfl

theorem load?_ofMachine (m : Machine) (program : List UInt8) :
    (ofMachine m).load? program = some ((m.load program).map ofMachine) := by
  unfold load? Machine.load
  rcases Nat.lt_or_ge Memory.programLimit program.length with hlarge | hfits
  · rw [if_pos hlarge, if_neg (by omega)]
    rfl
  · have hstop : sum? Memory.programStart program.length =
        some (Memory.programStart + program.length) :=
      sum?_of_lt (Nat.lt_of_le_of_lt (Nat.add_le_add_left hfits _) (by decide))
    have hmemory : replace? m.memory.cells Memory.programStart
        (Memory.programStart + program.length) program =
          some (m.memory.store Memory.programStart program).cells :=
      replace?_memory m.memory rfl (Nat.add_le_add_left hfits _)
    rw [if_neg (by omega), if_pos hfits, hstop, Option.bind_eq_bind,
      Option.bind_some]
    change (replace? m.memory.cells _ _ _).bind _ = _
    rw [hmemory]
    rfl

theorem setKey?_ofMachine (m : Machine) (code : UInt8) (down : Bool) :
    (ofMachine m).perform? (.setKey code down) =
      some (ofMachine (m.setKey code down)) := by
  have hkeys : set? (ofMachine m).keys (code &&& 0xF).toNat down =
      some (m.setKey code down).keypad.keys := by
    rw [toNat_keyCode]
    exact set?_of_lt (Key.ofByte code).isLt down
  rw [perform?, hkeys]
  rfl

theorem perform?_ofMachine {m : Machine} (h : m.Bounded) (command : Command) :
    (ofMachine m).perform? command =
      some (ofMachine (m.perform command).machine) := by
  cases command with
  | step =>
      simp only [perform?, step?_ofMachine h, Option.bind_eq_bind, Option.bind_some]
      rfl
  | setKey code down => exact setKey?_ofMachine m code down
  | reset => exact initialize?_eq (ofMachine m)
  | load program =>
      simp only [perform?, load?_ofMachine, Option.bind_eq_bind, Option.bind_some,
        Machine.perform]
      cases m.load program <;> rfl
  | _ => rfl

/-! ## Switching on -/

theorem powerOn?_eq (dialect : Dialect) (random : RandomSource) :
    powerOn? dialect random = some (ofMachine (.powerOn dialect random)) :=
  initialize?_eq _

theorem bootFrom?_eq (source : ByteSource) (dialect : Dialect)
    (random : RandomSource) :
    bootFrom? source dialect random =
      some ((Machine.bootFrom source dialect random).map fun started =>
        ofMachine started.machine) := by
  unfold bootFrom? Machine.bootFrom
  cases source.readUpTo (Memory.programLimit + 1) with
  | error reason => rfl
  | ok program =>
      simp only [powerOn?_eq, load?_ofMachine, Option.bind_eq_bind,
        Option.bind_some]
      cases (Machine.powerOn dialect random).load program <;> rfl

theorem reachable_ofMachine {m : Machine} (h : m.Reachable) :
    Reachable (ofMachine m) := by
  induction h with
  | start hstart =>
      cases hstart with
      | bare dialect seed => exact .bare (powerOn?_eq dialect (.ofSeed seed))
      | @loaded source dialect seed started hboot =>
          have hloaded : bootFrom? source dialect (.ofSeed seed) =
              some (.ok (ofMachine started.machine)) := by
            rw [bootFrom?_eq, hboot]
            rfl
          exact .loaded hloaded
  | perform command hm ih =>
      exact .perform ih (perform?_ofMachine hm.bounded command)

theorem reachable_iff {s : Storage} :
    s.Reachable ↔ ∃ m : Machine, m.Reachable ∧ s = ofMachine m := by
  constructor
  · intro h
    induction h with
    | @bare dialect seed s hstart =>
        rw [powerOn?_eq] at hstart
        cases hstart
        exact ⟨_, .start (.bare dialect seed), rfl⟩
    | @loaded source dialect seed s hstart =>
        rw [bootFrom?_eq] at hstart
        cases hboot : Machine.bootFrom source dialect (.ofSeed seed) with
        | error reason =>
            rw [hboot] at hstart
            cases hstart
        | ok started =>
            rw [hboot] at hstart
            cases hstart
            exact ⟨started.machine, .start (.loaded hboot), rfl⟩
    | @perform s next command _ hnext ih =>
        rcases ih with ⟨m, hm, rfl⟩
        rw [perform?_ofMachine hm.bounded] at hnext
        cases hnext
        exact ⟨_, .perform command hm, rfl⟩
  · rintro ⟨m, hm, rfl⟩
    exact reachable_ofMachine hm

/-- The limits that the types of a machine and its runs put on its storage. -/
structure WithinBounds (s : Storage) : Prop where
  pc_le : s.pc.toNat ≤ 0x10FE
  top_le : s.top ≤ 16
  saved_le : ∀ slot : Fin 16, s.stack[slot].toNat ≤ 0xFFE
  pixel_eq : ∀ position : Fin 2048, s.pixels[position] = 0 ∨ s.pixels[position] = 1
  waiting : ∀ register, s.status = .awaitingKey register →
    register < 16 ∧ s.pc.toNat ≤ 0xFFE

theorem withinBounds_ofMachine {m : Machine} (h : m.Bounded) :
    (ofMachine m).WithinBounds where
  pc_le := h.pc_le
  top_le := m.calls.depth_le
  saved_le := h.slots_le
  pixel_eq := by
    intro position
    simp only [ofMachine, pixelsOf, Fin.getElem_fin, Vector.getElem_ofFn]
    cases m.display.isLit _
    · exact .inl rfl
    · exact .inr rfl
  waiting := by
    intro register hwaiting
    cases hstatus : m.status with
    | awaitingKey parked =>
        simp only [ofMachine, hstatus, statusOf,
          Status.awaitingKey.injEq] at hwaiting
        subst hwaiting
        exact ⟨parked.isLt, h.parked_le parked hstatus⟩
    | running | halted => simp [ofMachine, hstatus, statusOf] at hwaiting

/--
Switching on never traps, and no command does in a storage that a run can come
to; such a storage is within bounds.  This is said of the machine: its runs,
laid out, are runs on storage, and every command does the same on both sides.
-/
theorem reachable_safe :
    (∀ dialect random, powerOn? dialect random ≠ none) ∧
    (∀ source dialect random, bootFrom? source dialect random ≠ none) ∧
    (∀ s : Storage, s.Reachable →
      s.WithinBounds ∧ ∀ command, s.perform? command ≠ none) ∧
    (∀ m : Machine, m.Reachable →
      (ofMachine m).Reachable ∧ ∀ command,
        (ofMachine m).perform? command =
          some (ofMachine (m.perform command).machine)) := by
  refine ⟨?_, ?_, ?_, ?_⟩
  · intro dialect random
    simp [powerOn?_eq]
  · intro source dialect random
    simp [bootFrom?_eq]
  · intro s h
    rcases reachable_iff.mp h with ⟨m, hm, rfl⟩
    refine ⟨withinBounds_ofMachine hm.bounded, ?_⟩
    intro command
    simp [perform?_ofMachine hm.bounded command]
  · intro m hm
    exact ⟨reachable_ofMachine hm, perform?_ofMachine hm.bounded⟩

end Chip8.Storage
