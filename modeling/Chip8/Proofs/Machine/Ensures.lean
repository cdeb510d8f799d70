import Chip8.Proofs.Instruction.Layout
import Chip8.Proofs.Machine.CarriedOut

/-!
# What carrying out an instruction ensures

An instruction is carried out on its own, by executing it, or by a step of a running
machine that comes to its word.  The two ways differ in the timers only, which a
step counts down at its end.  So an instruction that meets no fault ensures what its
effect has, whatever the timers show.
-/

namespace Chip8.Machine

/-- Carrying out the instruction succeeds either way, with a machine as in `P`. -/
structure Ensures (m : Machine) (instruction : Instruction) (P : Machine → Prop) :
    Prop where
  execute : ∃ after, m.execute instruction = .ok after ∧ P after
  step : m.status = .running → m.fetch = .ok instruction.encode →
    m.step.result = .ok () ∧ P m.step.machine

theorem Ensures.mono {m : Machine} {instruction : Instruction}
    {P Q : Machine → Prop}
    (h : m.Ensures instruction P) (hPQ : ∀ after, P after → Q after) :
    m.Ensures instruction Q := by
  constructor
  · rcases h.execute with ⟨after, hexecute, hP⟩
    exact ⟨after, hexecute, hPQ after hP⟩
  · intro hstatus hfetch
    rcases h.step hstatus hfetch with ⟨hresult, hP⟩
    exact ⟨hresult, hPQ _ hP⟩

theorem carriedOut_of_encode {m : Machine} {instruction : Instruction}
    (hstatus : m.status = .running) (hfetch : m.fetch = .ok instruction.encode)
    (hfault : m.fault? instruction = none) :
    Transition.carriedOut ⟨m, .step⟩ = some instruction := by
  rw [Transition.carriedOut_eq_some_iff]
  refine ⟨rfl, hstatus, ⟨instruction.encode, ?_⟩, hfault⟩
  simp [nextInstruction, hfetch, Instruction.decode_encode]

theorem ensures_of_effect {m : Machine} {instruction : Instruction}
    {P : Machine → Prop} (hfault : m.fault? instruction = none)
    (hP : ∀ delay sound, P { m.effect instruction with
      delay := delay, sound := sound }) :
    m.Ensures instruction P := by
  constructor
  · refine ⟨m.effect instruction, ?_, hP _ _⟩
    rw [execute_eq, hfault]
  · intro hstatus hfetch
    have hcarried := carriedOut_of_encode hstatus hfetch hfault
    have hafter : m.step.machine = _ := Transition.after_of_carriedOut hcarried
    refine ⟨Transition.result_of_carriedOut hcarried, ?_⟩
    rw [hafter, endStep_eq]
    exact hP _ _

end Chip8.Machine
