import Chip8.Proofs.Machine.CarriedOut

/-!
# What an instruction may change

Each instruction owns some places of the machine: registers, cells of memory,
pixels, timers and so on.  A step that carries it out leaves all other places as
they were; only the timers go on counting.  The keypad and the dialect belong to
no instruction, and the redraw flag is never taken back.
-/

namespace Chip8

/-- Where a machine keeps something; the counter and the status are left out. -/
inductive Place where
  | cell (address : Nat)
  | pixel (p : Pixel)
  | redraw
  | depth
  | slot (k : Fin 16)
  | index
  | delay
  | sound
  | random
  | keypad
  | dialect
  | register (r : Register)

def AluOp.setsFlag : AluOp → Bool
  | .add => true
  | .sub => true
  | .shiftRight => true
  | .subFrom => true
  | .shiftLeft => true
  | _ => false

namespace Instruction

/-- The places that an instruction may change when it is carried out on `m`. -/
inductive Owns (m : Machine) : Instruction → Place → Prop
  | decimal (x : Register) {a : Nat} (hstart : m.index.toNat ≤ a)
      (hend : a ≤ m.index.toNat + 2) : Owns m (.storeDecimal x) (.cell a)
  | stored (last : Register) {a : Nat} (hstart : m.index.toNat ≤ a)
      (hend : a ≤ m.index.toNat + last) : Owns m (.storeRegisters last) (.cell a)
  | blanked (p : Pixel) : Owns m .clearScreen (.pixel p)
  | drawn (x y : Register) (rows : Fin 16) (p : Pixel) :
      Owns m (.draw x y rows) (.pixel p)
  | blankedFlag : Owns m .clearScreen .redraw
  | drawnFlag (x y : Register) (rows : Fin 16) : Owns m (.draw x y rows) .redraw
  | popped : Owns m .ret .depth
  | pushed (target : Address) : Owns m (.call target) .depth
  | saved (target : Address) {k : Fin 16} (htop : k.val = m.calls.depth) :
      Owns m (.call target) (.slot k)
  | setIndex (target : Address) : Owns m (.setIndex target) .index
  | addIndex (x : Register) : Owns m (.addIndex x) .index
  | pointGlyph (x : Register) : Owns m (.pointGlyph x) .index
  | behindStored (last : Register) : Owns m (.storeRegisters last) .index
  | behindLoaded (last : Register) : Owns m (.loadRegisters last) .index
  | setDelay (x : Register) : Owns m (.setDelay x) .delay
  | setSound (x : Register) : Owns m (.setSound x) .sound
  | drawnByte (x : Register) (mask : UInt8) : Owns m (.random x mask) .random
  | setByte (x : Register) (value : UInt8) : Owns m (.setByte x value) (.register x)
  | addByte (x : Register) (value : UInt8) : Owns m (.addByte x value) (.register x)
  | result (op : AluOp) (x y : Register) : Owns m (.alu op x y) (.register x)
  | flag {op : AluOp} (x y : Register) (hflag : op.setsFlag = true) :
      Owns m (.alu op x y) (.register flagRegister)
  | random (x : Register) (mask : UInt8) : Owns m (.random x mask) (.register x)
  | readDelay (x : Register) : Owns m (.readDelay x) (.register x)
  | key (x : Register) : Owns m (.waitKey x) (.register x)
  | collision (x y : Register) (rows : Fin 16) :
      Owns m (.draw x y rows) (.register flagRegister)
  | loaded {last r : Register} (hlast : r ≤ last) :
      Owns m (.loadRegisters last) (.register r)

theorem Owns.register_ne {m : Machine} {instruction : Instruction} {x r : Register}
    (hx : instruction.Owns m (.register x))
    (hr : ¬instruction.Owns m (.register r)) :
    r ≠ x := by
  rintro rfl
  exact hr hx

end Instruction

namespace CallStack

theorem slots_of_pop {s s' : CallStack} {address : UInt16}
    (h : s.pop? = some (address, s')) :
    s'.slots = s.slots := by
  unfold pop? at h
  split at h <;> cases h
  rfl

theorem slot_of_push {s s' : CallStack} {address : UInt16}
    (h : s.push? address = some s')
    {k : Fin 16} (hk : s.depth ≠ k.val) : s'.slots.get k = s.slots.get k := by
  unfold push? at h
  split at h
  next hroom =>
    cases h
    exact Vector.getElem_set_ne hroom k.isLt hk
  next => cases h

end CallStack

namespace Machine

def SameAt (m n : Machine) : Place → Prop
  | .cell a => m.memory.read a = n.memory.read a
  | .pixel p => m.display.isLit p = n.display.isLit p
  | .redraw => m.redraw = n.redraw
  | .depth => m.calls.depth = n.calls.depth
  | .slot k => m.calls.slots.get k = n.calls.slots.get k
  | .index => m.index = n.index
  | .delay => m.delay = n.delay
  | .sound => m.sound = n.sound
  | .random => m.random = n.random
  | .keypad => m.keypad = n.keypad
  | .dialect => m.dialect = n.dialect
  | .register r => m.reg r = n.reg r

/-! ## Registers -/

theorem reg_setReg_of_ne (m : Machine) {x r : Register} (h : r ≠ x)
    (value : UInt8) :
    (m.setReg x value).reg r = m.reg r := by
  rw [reg_setReg, if_neg h]

theorem flag_apply_of_not_setsFlag {op : AluOp} (h : op.setsFlag = false)
    (dialect : Dialect) (vx vy : UInt8) : (op.apply dialect vx vy).flag = none := by
  cases op with
  | move | or | and | xor => rfl
  | _ => cases h

theorem reg_setResult_of_ne (m : Machine) {x r : Register} (hx : r ≠ x)
    {result : AluResult} (hflag : result.flag = none ∨ r ≠ flagRegister) :
    (m.setResult x result).reg r = m.reg r := by
  unfold setResult
  cases hresult : result.flag with
  | none => exact m.reg_setReg_of_ne hx result.value
  | some flag =>
      have hr : r ≠ flagRegister := hflag.resolve_left (by simp [hresult])
      rw [reg_setReg_of_ne _ hx, reg_setReg_of_ne _ hr]

theorem reg_loadFirstRegisters_of_le (m : Machine) {count : Nat} {r : Register}
    (h : count ≤ r.val) : (m.loadFirstRegisters count).reg r = m.reg r := by
  simp [loadFirstRegisters, reg, Nat.not_lt.mpr h]

theorem reg_effect_of_not_owns (m : Machine) {instruction : Instruction}
    {r : Register} (h : ¬instruction.Owns m (.register r)) :
    (m.effect instruction).reg r = m.reg r := by
  cases instruction with
  | setByte x value =>
      have hr : r ≠ x := Instruction.Owns.register_ne (.setByte x value) h
      exact m.reg_setReg_of_ne hr value
  | addByte x value =>
      have hr : r ≠ x := Instruction.Owns.register_ne (.addByte x value) h
      exact m.reg_setReg_of_ne hr _
  | alu op x y =>
      have hr : r ≠ x := Instruction.Owns.register_ne (.result op x y) h
      refine m.reg_setResult_of_ne hr ?_
      cases hflag : op.setsFlag with
      | true => exact .inr (Instruction.Owns.register_ne (.flag x y hflag) h)
      | false => exact .inl (flag_apply_of_not_setsFlag hflag _ _ _)
  | random x mask =>
      have hr : r ≠ x := Instruction.Owns.register_ne (.random x mask) h
      exact reg_setReg_of_ne _ hr _
  | draw x y rows =>
      have hr : r ≠ flagRegister :=
        Instruction.Owns.register_ne (.collision x y rows) h
      exact reg_setReg_of_ne _ hr _
  | readDelay x =>
      have hr : r ≠ x := Instruction.Owns.register_ne (.readDelay x) h
      exact m.reg_setReg_of_ne hr _
  | waitKey x =>
      have hr : r ≠ x := Instruction.Owns.register_ne (.key x) h
      simp only [effect]
      cases m.keypad.firstPressed with
      | none => rfl
      | some key => exact m.reg_setReg_of_ne hr _
  | loadRegisters last =>
      have hr : last.val + 1 ≤ r.val := by
        exact Nat.lt_of_not_le fun hle => h (.loaded (Fin.le_def.mpr hle))
      exact m.reg_loadFirstRegisters_of_le hr
  | ret =>
      simp only [effect]
      cases m.calls.pop? <;> rfl
  | _ => rfl

/-! ## Memory and the stack -/

theorem read_nextMemory_of_not_owns (m : Machine) {instruction : Instruction}
    {a : Nat} (h : ¬instruction.Owns m (.cell a)) :
    (m.nextMemory instruction).read a = m.memory.read a := by
  cases instruction with
  | storeDecimal x =>
      rw [nextMemory, Memory.read_store, dif_neg]
      rintro ⟨hstart, hend, -⟩
      have hlength : (decimalDigits (m.reg x)).length = 3 := rfl
      exact h (.decimal x hstart (by omega))
  | storeRegisters last =>
      rw [nextMemory, Memory.read_store, dif_neg]
      rintro ⟨hstart, hend, -⟩
      have hlength : (m.firstRegisters (last + 1)).length ≤ last + 1 :=
        List.length_take_le _ _
      exact h (.stored last hstart (by omega))
  | _ => rfl

theorem slot_nextCalls_of_not_owns (m : Machine) {instruction : Instruction}
    {k : Fin 16} (h : ¬instruction.Owns m (.slot k)) :
    (m.nextCalls instruction).slots.get k = m.calls.slots.get k := by
  cases instruction with
  | ret =>
      have hslots : (m.nextCalls .ret).slots = m.calls.slots := by
        simp only [nextCalls]
        cases hpop : m.calls.pop? with
        | none => rfl
        | some top => exact CallStack.slots_of_pop hpop
      rw [hslots]
  | call target =>
      have hk : m.calls.depth ≠ k.val := fun heq => h (.saved target heq.symm)
      cases hpush : m.calls.push? m.pc with
      | none => simp only [nextCalls, hpush, Option.getD_none]
      | some calls =>
          simp only [nextCalls, hpush, Option.getD_some]
          exact CallStack.slot_of_push hpush hk
  | _ => rfl

/-! ## The whole machine -/

theorem sameAt_effect (m : Machine) {instruction : Instruction} {place : Place}
    (h : ¬instruction.Owns m place) : m.SameAt (m.effect instruction) place := by
  cases place with
  | register r => exact (m.reg_effect_of_not_owns h).symm
  | cell a =>
      rw [effect_eq]
      exact (m.read_nextMemory_of_not_owns h).symm
  | slot k =>
      rw [effect_eq]
      exact (m.slot_nextCalls_of_not_owns h).symm
  | depth =>
      rw [effect_eq]
      cases instruction with
      | ret => exact absurd .popped h
      | call target => exact absurd (.pushed target) h
      | _ => rfl
  | pixel p =>
      rw [effect_eq]
      cases instruction with
      | clearScreen => exact absurd (.blanked p) h
      | draw x y rows => exact absurd (.drawn x y rows p) h
      | _ => rfl
  | redraw =>
      rw [effect_eq]
      cases instruction with
      | clearScreen => exact absurd .blankedFlag h
      | draw x y rows => exact absurd (.drawnFlag x y rows) h
      | _ => rfl
  | index =>
      rw [effect_eq]
      cases instruction with
      | setIndex target => exact absurd (.setIndex target) h
      | addIndex x => exact absurd (.addIndex x) h
      | pointGlyph x => exact absurd (.pointGlyph x) h
      | storeRegisters last => exact absurd (.behindStored last) h
      | loadRegisters last => exact absurd (.behindLoaded last) h
      | _ => rfl
  | delay =>
      rw [effect_eq]
      cases instruction with
      | setDelay x => exact absurd (.setDelay x) h
      | _ => rfl
  | sound =>
      rw [effect_eq]
      cases instruction with
      | setSound x => exact absurd (.setSound x) h
      | _ => rfl
  | random =>
      rw [effect_eq]
      cases instruction with
      | random x mask => exact absurd (.drawnByte x mask) h
      | _ => rfl
  | keypad | dialect =>
      rw [effect_eq]
      rfl

theorem SameAt.endStep {m n : Machine} {place : Place} (h : m.SameAt n place)
    (hstatus : m.status = n.status) (hdialect : m.dialect = n.dialect) :
    m.endStep.SameAt n.endStep place := by
  unfold Machine.endStep
  rw [hstatus, hdialect]
  split
  next =>
    cases place with
    | delay | sound =>
        simp only [SameAt] at h
        simp only [SameAt, tick, h]
    | _ => exact h
  next => exact h

theorem redraw_effect (m : Machine) (instruction : Instruction)
    (h : m.redraw = true) :
    (m.effect instruction).redraw = true := by
  rw [effect_eq]
  cases instruction with
  | clearScreen | draw => rfl
  | _ => exact h

/--
A step that carries an instruction out changes only what the instruction owns.  All
other places hold what they would hold if the step had done nothing but count the
timers down at its end, which it leaves out under some dialects if the machine
waits.  A frame that is pending stays so.
-/
theorem step_changes_what_it_owns {m : Machine} (hrunning : m.status = .running)
    (hok : m.step.result = .ok ()) :
    ∃ instruction, Instruction.decode m.word = some instruction ∧
      (∀ place, ¬instruction.Owns m place →
        { m with status := m.step.machine.status }.endStep.SameAt
        m.step.machine place) ∧
      (m.redraw = true → m.step.machine.redraw = true) := by
  rcases Transition.step_of_running hrunning with
    ⟨instruction, hcarried, -, hmachine⟩ | ⟨-, ⟨cause, hfails⟩, -⟩
  · rcases Transition.carriedOut_eq_some_iff.mp hcarried with
      ⟨-, -, ⟨opcode, hnext⟩, -⟩
    rcases nextInstruction_eq_ok hnext with ⟨-, rfl, hdecode⟩
    have hstatus : m.step.machine.status = (m.effect instruction).status := by
      rw [hmachine, endStep_eq]
    have hdialect : (m.effect instruction).dialect = m.dialect := by rw [effect_eq]
    refine ⟨instruction, hdecode, ?_, ?_⟩
    · intro place howns
      have hsame : { m with status := m.step.machine.status }.SameAt
        (m.effect instruction)
          place := by
        cases place <;> exact m.sameAt_effect howns
      rw [hmachine] at hstatus ⊢
      rw [hmachine] at hsame
      exact hsame.endStep hstatus hdialect.symm
    · intro hredraw
      rw [hmachine, endStep_eq]
      exact m.redraw_effect instruction hredraw
  · cases hok.symm.trans hfails

theorem step_changes_what_it_owns_index :
    let m := (boot {} (.ofSeed 0)).machine.after
      [.step, .step, .step, .load [0x6F, 0x07, 0xAF, 0xFF, 0x60, 0xFF, 0xF0, 0x1E]]
    m.status = .running ∧ m.step.result = .ok () ∧ m.step.machine.index = 0x10FE ∧
    m.step.machine.reg flagRegister = 0x07 := by
  intro m
  have hfacts : Transition.carriedOut ⟨m, .step⟩ = some (.addIndex 0) ∧
      Instruction.decode m.word = some (.addIndex 0) ∧
        m.step.machine.index = 0x10FE ∧
      { m with status := m.step.machine.status }.endStep.reg flagRegister =
          0x07 := by
    decide +kernel
  rcases hfacts with ⟨hcarried, hdecode, hindex, hflag⟩
  have hrunning : m.status = .running :=
    (Transition.carriedOut_eq_some_iff.mp hcarried).2.1
  have hok := Transition.result_of_carriedOut hcarried
  rcases step_changes_what_it_owns hrunning hok with
    ⟨instruction, hdecoded, hsame, -⟩
  cases hdecode.symm.trans hdecoded
  have hkept : _ = m.step.machine.reg flagRegister :=
    hsame (.register flagRegister) nofun
  exact ⟨hrunning, hok, hindex, hkept.symm.trans hflag⟩

end Machine

end Chip8
