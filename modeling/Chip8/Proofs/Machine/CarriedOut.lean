import Chip8.Proofs.Machine.Fields
import Chip8.Proofs.Machine.Past

/-!
# What a command carries out

A command carries out one instruction or none.  If it carries one out, the
machine afterwards is the effect of the instruction with the timers ticked.  If
it carries none out and is no reset, then index, stack and screen stay as they
are; an idle step leaves memory, keypad and random source alone as well.
-/

namespace Chip8

namespace Machine

theorem endStep_eq (m : Machine) :
    m.endStep = { m with sound := m.endStep.sound, delay := m.endStep.delay } := by
  unfold endStep
  split <;> rfl

end Machine

namespace Transition

theorem carriedOut_of_ne_step {t : Transition} (h : t.command ≠ .step) :
    t.carriedOut = none := by
  obtain ⟨before, command⟩ := t
  cases command with
  | step => exact absurd rfl h
  | _ => rfl

theorem carriedOut_eq_some_iff {m : Machine} {command : Command}
    {instruction : Instruction} :
    carriedOut ⟨m, command⟩ = some instruction ↔
      command = .step ∧ m.status = .running ∧
      (∃ opcode, m.nextInstruction = .ok (opcode, instruction)) ∧
      m.fault? instruction = none := by
  by_cases hcommand : command = .step
  · subst hcommand
    cases m.course with
    | halted hstatus _ => simp [carriedOut, hstatus]
    | parked register hstatus _ _ => simp [carriedOut, hstatus]
    | resumed register key hstatus _ _ => simp [carriedOut, hstatus]
    | unreadable cause hstatus hnext _ => simp [carriedOut, hstatus, hnext]
    | refused opcode refused cause hstatus hnext hfault hstep =>
        have hnone : carriedOut ⟨m, .step⟩ = none := by
          simp [carriedOut, hstatus, hnext, hstep, Machine.haltWith]
        simp only [hnone, hstatus, hnext, true_and, reduceCtorEq, false_iff]
        rintro ⟨⟨_, hsame⟩, hfree⟩
        cases hsame
        cases hfault.symm.trans hfree
    | executed opcode executed hstatus hnext hfault hstep =>
        have hsome : carriedOut ⟨m, .step⟩ = some executed := by
          simp [carriedOut, hstatus, hnext, hstep]
        simp only [hsome, hstatus, hnext, true_and]
        constructor
        · intro h
          cases h
          exact ⟨⟨opcode, rfl⟩, hfault⟩
        · rintro ⟨⟨_, hsame⟩, -⟩
          cases hsame
          rfl
  · simp [carriedOut_of_ne_step (t := ⟨m, command⟩) hcommand, hcommand]

theorem after_of_carriedOut {t : Transition} {instruction : Instruction}
    (h : t.carriedOut = some instruction) :
    t.after = (t.before.effect instruction).endStep := by
  obtain ⟨m, command⟩ := t
  rcases carriedOut_eq_some_iff.mp h with ⟨rfl, hstatus, ⟨opcode, hnext⟩, hfault⟩
  change m.step.machine = _
  simp [Machine.step, hstatus, Machine.stepRunning, hnext, Machine.execute_eq,
    hfault]

theorem calls_of_carriedOut {t : Transition} {instruction : Instruction}
    (h : t.carriedOut = some instruction) :
    t.after.calls = t.before.nextCalls instruction := by
  rw [after_of_carriedOut h, Machine.endStep_eq, Machine.effect_eq]

theorem pc_of_carriedOut {t : Transition} {instruction : Instruction}
    (h : t.carriedOut = some instruction) :
    t.after.pc = t.before.nextPc instruction := by
  rw [after_of_carriedOut h, Machine.endStep_eq, Machine.effect_eq]

theorem carriedOut_of_not_running {m : Machine} (h : m.status ≠ .running)
    (command : Command) :
    carriedOut ⟨m, command⟩ = none := by
  rw [Option.eq_none_iff_forall_ne_some]
  intro instruction hcarried
  exact h (carriedOut_eq_some_iff.mp hcarried).2.1

/-- A step of a running machine carries an instruction out, or halts for a fault. -/
theorem step_of_running {m : Machine} (h : m.status = .running) :
    (∃ instruction, carriedOut ⟨m, .step⟩ = some instruction ∧
      m.step.result = .ok () ∧ m.step.machine = (m.effect instruction).endStep) ∨
    (carriedOut ⟨m, .step⟩ = none ∧
      (∃ cause, m.step.result = .error (.fault cause)) ∧
      m.step.machine = { m with status := .halted }) := by
  cases m.course with
  | halted hstatus _ => cases h.symm.trans hstatus
  | parked register hstatus _ _ => cases h.symm.trans hstatus
  | resumed register key hstatus _ _ => cases h.symm.trans hstatus
  | unreadable cause hstatus hnext hstep =>
      right
      refine ⟨by simp [carriedOut, hstatus, hnext], ⟨cause, ?_⟩, ?_⟩
      · rw [hstep]
        rfl
      · rw [hstep]
        rfl
  | refused opcode instruction cause hstatus hnext hfault hstep =>
      right
      refine ⟨by simp [carriedOut, hstatus, hnext, hstep, Machine.haltWith],
        ⟨cause, ?_⟩, ?_⟩
      · rw [hstep]
        rfl
      · rw [hstep]
        rfl
  | executed opcode instruction hstatus hnext hfault hstep =>
      left
      refine ⟨instruction, by simp [carriedOut, hstatus, hnext, hstep], ?_, ?_⟩
      · rw [hstep]
      · rw [hstep]

theorem result_of_carriedOut {m : Machine} {instruction : Instruction}
    (h : carriedOut ⟨m, .step⟩ = some instruction) : m.step.result = .ok () := by
  rcases step_of_running (carriedOut_eq_some_iff.mp h).2.1 with
    ⟨_, -, hresult, -⟩ | ⟨hidle, -⟩
  · exact hresult
  · cases hidle.symm.trans h

theorem step_of_failure {m : Machine} {error : StepError}
    (h : m.step.result = .error error) :
    m.step.machine = { m with status := .halted } := by
  cases m.course with
  | halted hstatus hstep =>
      rw [hstep, ← hstatus]
  | parked _ _ _ hstep =>
      rw [hstep] at h
      cases h
  | resumed _ _ _ _ hstep =>
      rw [hstep] at h
      cases h
  | unreadable _ _ _ hstep =>
      rw [hstep]
      rfl
  | refused _ _ _ _ _ _ hstep =>
      rw [hstep]
      rfl
  | executed _ _ _ _ _ hstep =>
      rw [hstep] at h
      cases h

theorem idle_step {m : Machine} (h : carriedOut ⟨m, .step⟩ = none) :
    ∃ pc registers delay sound status, m.step.machine =
      { m with
        pc := pc
        registers := registers
        delay := delay
        sound := sound
        status := status } := by
  cases m.course with
  | halted _ hstep =>
      rw [hstep]
      exact ⟨_, _, _, _, _, rfl⟩
  | parked _ _ _ hstep =>
      rw [hstep, Machine.endStep_eq]
      exact ⟨_, _, _, _, _, rfl⟩
  | resumed _ _ _ _ hstep =>
      rw [hstep]
      exact ⟨_, _, _, _, _, rfl⟩
  | unreadable _ _ _ hstep =>
      rw [hstep]
      exact ⟨_, _, _, _, _, rfl⟩
  | refused _ _ _ _ _ _ hstep =>
      rw [hstep]
      exact ⟨_, _, _, _, _, rfl⟩
  | executed opcode instruction hstatus hnext hfault _ =>
      rw [carriedOut_eq_some_iff.mpr ⟨rfl, hstatus, ⟨opcode, hnext⟩, hfault⟩] at h
      cases h

theorem calls_of_idle {t : Transition} (hidle : t.carriedOut = none)
    (hreset : t.command ≠ .reset) : t.after.calls = t.before.calls := by
  obtain ⟨m, command⟩ := t
  by_cases hstep : command = .step
  · subst hstep
    rcases idle_step hidle with ⟨pc, registers, delay, sound, status, hstep⟩
    change m.step.machine.calls = m.calls
    rw [hstep]
  · rcases m.perform_of_other hstep hreset with
      ⟨memory, redraw, keypad, dialect, random, hother⟩
    rw [after, response, hother]

end Transition

end Chip8
