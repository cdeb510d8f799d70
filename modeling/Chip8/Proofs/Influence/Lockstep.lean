import Chip8.Proofs.Machine.CarriedOut
import Mathlib.Data.List.Forall2

/-!
# Two runs side by side

Two machines are given commands in step with each other, each its own.  What
relates them at the start, and is kept by every pair of commands, relates them
throughout; and if the replies to each pair are the same, nobody who sees the
replies alone can tell the two runs apart.

A step of one machine goes the same way as a step of another if the two agree on
what decides it: status, counter, index, stack and keypad, and the instruction
that comes next.
-/

namespace Chip8.Machine

/-- The transitions of two runs, in pairs, the latest first. -/
def sideBySide (m n : Machine) (past past' : List Command) :
    List (Transition × Transition) :=
  (m.history past).zip (n.history past')

theorem sideBySide_cons (m n : Machine) (command command' : Command)
    (earlier earlier' : List Command) :
    m.sideBySide n (command :: earlier) (command' :: earlier') =
      (⟨m.after earlier, command⟩, ⟨n.after earlier', command'⟩) ::
        m.sideBySide n earlier earlier' := rfl

/-- What lasts from one pair of commands to the next lasts for two runs. -/
theorem lockstep {R : Machine → Machine → Prop} {Alike : Command → Command → Prop}
    {m n : Machine} {past past' : List Command}
    (hpast : List.Forall₂ Alike past past') (hstart : R m n)
    (hkeep : ∀ pair ∈ m.sideBySide n past past',
      Alike pair.1.command pair.2.command →
      R pair.1.before pair.2.before →
      R pair.1.after pair.2.after ∧ pair.1.response.reply = pair.2.response.reply) :
    R (m.after past) (n.after past') ∧
      ∀ pair ∈ m.sideBySide n past past',
        R pair.1.after pair.2.after ∧
        pair.1.response.reply = pair.2.response.reply := by
  induction hpast with
  | nil => exact ⟨hstart, by rintro pair ⟨⟩⟩
  | @cons command command' earlier earlier' halike _ ih =>
      rw [sideBySide_cons] at hkeep ⊢
      have hearlier := ih fun pair hmem => hkeep pair (List.mem_cons_of_mem _ hmem)
      have hlast := hkeep _ List.mem_cons_self halike hearlier.1
      refine ⟨hlast.1, ?_⟩
      intro pair hmem
      rcases List.mem_cons.mp hmem with rfl | hbefore
      · exact hlast
      · exact hearlier.2 pair hbefore

/-! ## Two steps -/

inductive Abreast (m n : Machine) : Prop
  | halted (hidle : Transition.carriedOut ⟨m, .step⟩ = none)
  (hstatus : m.status = .halted)
      (hm : m.step = ⟨m, .error .halted, []⟩)
      (hn : n.step = ⟨n, .error .halted, []⟩)
  | parked (register : Register) (hidle : Transition.carriedOut ⟨m, .step⟩ = none)
      (hstatus : m.status = .awaitingKey register)
      (hm : m.step = ⟨m.endStep, .ok (), []⟩)
      (hn : n.step = ⟨n.endStep, .ok (), []⟩)
  | resumed (register : Register) (key : Key)
      (hidle : Transition.carriedOut ⟨m, .step⟩ = none)
      (hm : m.step =
        ⟨{ m.takeKey register key with status := .running }.tick, .ok (),
          [.resumed key]⟩)
      (hn : n.step =
        ⟨{ n.takeKey register key with status := .running }.tick, .ok (),
          [.resumed key]⟩)
  | failed (cause : Fault) (events : List Event)
      (hidle : Transition.carriedOut ⟨m, .step⟩ = none)
      (hm : m.step = m.haltWith cause events)
      (hn : n.step = n.haltWith cause events)
  | executed (opcode : Opcode) (instruction : Instruction)
      (hstatus : m.status = .running)
      (hcarried : Transition.carriedOut ⟨m, .step⟩ = some instruction)
      (hm : m.step =
        ⟨(m.effect instruction).endStep, .ok (),
          .executing m.pc opcode instruction ::
          (m.effect instruction).waitingEvents⟩)
      (hn : n.step =
        ⟨(n.effect instruction).endStep, .ok (),
          .executing m.pc opcode instruction ::
          (n.effect instruction).waitingEvents⟩)

/-- Two machines that agree on what decides a step. -/
structure SameCourse (m n : Machine) : Prop where
  status : n.status = m.status
  pc : n.pc = m.pc
  index : n.index = m.index
  calls : n.calls = m.calls
  keypad : n.keypad = m.keypad
  next : m.status = .running → n.nextInstruction = m.nextInstruction

theorem SameCourse.fault? {m n : Machine} (h : m.SameCourse n)
    (instruction : Instruction) :
    n.fault? instruction = m.fault? instruction := by
  cases instruction <;> simp only [Machine.fault?, cellFault?, h.calls,
    h.index, h.pc]

theorem SameCourse.abreast {m n : Machine} (h : m.SameCourse n) : m.Abreast n := by
  cases m.course with
  | halted hstatus hstep =>
      refine .halted ?_ hstatus hstep ?_
      · exact Transition.carriedOut_of_not_running (by simp [hstatus]) .step
      · simp only [step, h.status, hstatus]
  | parked register hstatus hkey hstep =>
      refine .parked register ?_ hstatus hstep ?_
      · exact Transition.carriedOut_of_not_running (by simp [hstatus]) .step
      · simp only [step, h.status, hstatus, stepWaiting, h.keypad, hkey]
  | resumed register key hstatus hkey hstep =>
      refine .resumed register key ?_ hstep ?_
      · exact Transition.carriedOut_of_not_running (by simp [hstatus]) .step
      · simp [step, h.status, hstatus, stepWaiting, h.keypad, hkey, endStep]
  | unreadable cause hstatus hnext hstep =>
      refine .failed cause [] ?_ hstep ?_
      · simp [Transition.carriedOut, hstatus, hnext]
      · simp only [step, h.status, hstatus, stepRunning, h.next hstatus, hnext]
  | refused opcode instruction cause hstatus hnext hfault hstep =>
      refine .failed cause [.executing m.pc opcode instruction] ?_ hstep ?_
      · simp [Transition.carriedOut, hstatus, hnext, hstep, haltWith]
      · simp only [step, h.status, hstatus, stepRunning, h.next hstatus, hnext,
          execute_eq, h.fault?, hfault, h.pc]
  | executed opcode instruction hstatus hnext hfault hstep =>
      refine .executed opcode instruction hstatus ?_ hstep ?_
      · exact Transition.carriedOut_eq_some_iff.mpr ⟨rfl, hstatus,
          ⟨opcode, hnext⟩, hfault⟩
      · simp only [step, h.status, hstatus, stepRunning, h.next hstatus, hnext,
          execute_eq, h.fault?, hfault, h.pc]

theorem perform_load_alike {m n : Machine} (h : n.memory = m.memory)
    (program : List UInt8) :
    (m.perform (.load program)).reply = (n.perform (.load program)).reply ∧
      ∃ memory, (m.perform (.load program)).machine = { m with memory := memory } ∧
        (n.perform (.load program)).machine = { n with memory := memory } := by
  simp only [perform, load, h]
  by_cases hfits : program.length ≤ Memory.programLimit
  · simp only [if_pos hfits]
    exact ⟨trivial, _, rfl, rfl⟩
  · simp only [if_neg hfits]
    refine ⟨trivial, m.memory, rfl, ?_⟩
    rw [← h]

end Chip8.Machine
