import Chip8.Proofs.Instruction.Layout
import Chip8.Proofs.Machine.Fields
import Chip8.Proofs.Machine.Past

/-!
# Waiting for a key as polling

An engine that never parks: the instruction that waits for a key is fetched and
decoded on every step, and without a key it leaves the machine where it is.  A
machine that parks does the same, step for step, as long as nobody overwrites
the instruction that it is parked on.
-/

namespace Chip8

/-! ## The polling engine -/

namespace Polling

def waitKey (m : Machine) (x : Register) : Machine :=
  match m.keypad.firstPressed with
  | none => if m.dialect.timersWhileWaiting then m.tick else m
  | some key => (m.takeKey x key).tick

def execute (m : Machine) : Instruction → Except Fault Machine
  | .waitKey x => .ok (waitKey m x)
  | instruction => (m.execute instruction).map Machine.tick

def step (m : Machine) : Except StepError Unit × Machine :=
  match m.status with
  | .halted => (.error .halted, m)
  | _ =>
      match m.nextInstruction with
      | .error cause => (.error (.fault cause), { m with status := .halted })
      | .ok (_, instruction) =>
          match execute m instruction with
          | .error cause => (.error (.fault cause), { m with status := .halted })
          | .ok next => (.ok (), next)

def perform (m : Machine) : Command → Machine × Reply
  | .step => ((step m).2, .stepped (step m).1)
  | command => ((m.perform command).machine, (m.perform command).reply)

def after (m : Machine) : List Command → Machine
  | [] => m
  | command :: earlier => (perform (after m earlier) command).1

def replies (m : Machine) : List Command → List Reply
  | [] => []
  | command :: earlier => (perform (after m earlier) command).2 :: replies m earlier

end Polling

theorem Instruction.wait_or_not (instruction : Instruction) :
    (∃ x, instruction = .waitKey x) ∨ ∀ x, instruction ≠ .waitKey x := by
  cases instruction with
  | waitKey x => exact .inl ⟨x, rfl⟩
  | _ => exact .inr (by rintro x ⟨⟩)

def Status.unparked : Status → Status
  | .awaitingKey _ => .running
  | status => status

namespace Machine

/-- The machine as the polling engine has it. -/
def unparked (m : Machine) : Machine := { m with status := m.status.unparked }

/-- A machine that waits would fetch the instruction that it waits on again. -/
def OnWait (m : Machine) : Prop :=
  ∀ register, m.status = .awaitingKey register →
    ∃ opcode, m.nextInstruction = .ok (opcode, .waitKey register)

end Machine

/-- A load into a waiting machine keeps the word that it waits on. -/
def Transition.KeepsWaitWord (t : Transition) : Prop :=
  ∀ program register, t.command = .load program →
    t.before.status = .awaitingKey register →
    t.after.memory.read t.before.pc.toNat = t.before.memory.read t.before.pc.toNat ∧
    t.after.memory.read (t.before.pc.toNat + 1) =
      t.before.memory.read (t.before.pc.toNat + 1)

namespace Machine

theorem unparked_of_awaiting {m : Machine} {register : Register}
    (hstatus : m.status = .awaitingKey register) :
    m.unparked = { m with status := .running } := by
  rw [unparked, hstatus]
  rfl

theorem unparked_of_running {m : Machine} (hstatus : m.status = .running) :
    m.unparked = m := by
  have hsame : m.status.unparked = m.status := by rw [hstatus]; rfl
  rw [unparked, hsame]

theorem unparked_of_halted {m : Machine} (hstatus : m.status = .halted) :
    m.unparked = m := by
  have hsame : m.status.unparked = m.status := by rw [hstatus]; rfl
  rw [unparked, hsame]

theorem unparked_status (m : Machine) :
    m.unparked.status = .running ∨ m.unparked.status = .halted := by
  change m.status.unparked = .running ∨ m.status.unparked = .halted
  cases m.status with
  | running | awaitingKey register => exact .inl rfl
  | halted => exact .inr rfl

theorem nextInstruction_congr {m m' : Machine} (hpc : m'.pc = m.pc)
    (hhigh : m'.memory.read m.pc.toNat = m.memory.read m.pc.toNat)
    (hlow : m'.memory.read (m.pc.toNat + 1) = m.memory.read (m.pc.toNat + 1)) :
    m'.nextInstruction = m.nextInstruction := by
  simp only [nextInstruction, fetch, hpc, hhigh, hlow]

theorem OnWait.of_not_awaiting {m : Machine}
    (h : ∀ register, m.status ≠ .awaitingKey register) : m.OnWait := by
  intro register hstatus
  exact absurd hstatus (h register)

theorem OnWait.of_eq {m m' : Machine} (h : m.OnWait) (hpc : m'.pc = m.pc)
    (hmemory : m'.memory = m.memory) (hstatus : m'.status = m.status) :
    m'.OnWait := by
  intro register hawaiting
  rcases h register (hstatus ▸ hawaiting) with ⟨opcode, hnext⟩
  refine ⟨opcode, ?_⟩
  rw [nextInstruction_congr hpc (by rw [hmemory]) (by rw [hmemory]), hnext]

theorem OnWait.endStep {m : Machine} (h : m.OnWait) : m.endStep.OnWait := by
  unfold Machine.endStep
  split
  · exact h.of_eq rfl rfl rfl
  · exact h

theorem nextStatus_of_not_wait {m : Machine} {instruction : Instruction}
    (h : ∀ x, instruction ≠ .waitKey x) : m.nextStatus instruction = m.status := by
  cases instruction with
  | waitKey x => exact absurd rfl (h x)
  | _ => rfl

theorem effect_status_of_not_wait {m : Machine} {instruction : Instruction}
    (h : ∀ x, instruction ≠ .waitKey x) :
    (m.effect instruction).status = m.status := by
  rw [effect_eq]
  exact nextStatus_of_not_wait h

/-! ## One step -/

theorem polling_step_of_running {m : Machine} (hstatus : m.status = .running) :
    Polling.step m =
      match m.nextInstruction with
      | .error cause => (.error (.fault cause), { m with status := .halted })
      | .ok (_, instruction) =>
          match Polling.execute m instruction with
          | .error cause => (.error (.fault cause), { m with status := .halted })
          | .ok next => (.ok (), next) := by
  simp only [Polling.step, hstatus]

theorem polling_execute_of_not_wait {m : Machine} {instruction : Instruction}
    (h : ∀ x, instruction ≠ .waitKey x) :
    Polling.execute m instruction = (m.execute instruction).map tick := by
  cases instruction with
  | waitKey x => exact absurd rfl (h x)
  | _ => rfl

theorem polling_step_of_awaiting {m : Machine} (h : m.OnWait) {register : Register}
    (hstatus : m.status = .awaitingKey register) :
    Polling.step m.unparked = (.ok (), Polling.waitKey m.unparked register) := by
  obtain ⟨opcode, hnext⟩ := h register hstatus
  have hrunning : m.unparked.status = .running := by
    rw [unparked_of_awaiting hstatus]
  have hsame : m.unparked.nextInstruction = .ok (opcode, .waitKey register) := by
    rw [unparked_of_awaiting hstatus]
    exact hnext
  rw [polling_step_of_running hrunning, hsame]
  rfl

theorem unparked_endStep_of_running {m : Machine} (hstatus : m.status = .running) :
    m.endStep.unparked = m.tick := by
  have htick : m.endStep = m.tick := by simp [endStep, hstatus]
  have hrunning : m.tick.status = .running := hstatus
  rw [htick, unparked_of_running hrunning]

theorem unparked_endStep_of_awaiting {m : Machine} {register : Register}
    (hstatus : m.status = .awaitingKey register) :
    m.endStep.unparked =
      if m.dialect.timersWhileWaiting then m.unparked.tick else m.unparked := by
  have hnot : m.status ≠ .running := by simp [hstatus]
  by_cases hticks : m.dialect.timersWhileWaiting
  · have htick : m.endStep = m.tick := by simp [endStep, hticks]
    have hawaiting : m.tick.status = .awaitingKey register := hstatus
    rw [htick, if_pos hticks, unparked_of_awaiting hstatus,
      unparked_of_awaiting hawaiting]
    rfl
  · have hstay : m.endStep = m := by simp [endStep, hnot, hticks]
    rw [hstay, if_neg hticks]

theorem unparked_endStep_effect_wait {m : Machine} (hstatus : m.status = .running)
    (x : Register) :
    (m.effect (.waitKey x)).endStep.unparked = Polling.waitKey m x := by
  unfold effect Polling.waitKey
  cases m.keypad.firstPressed with
  | none =>
      have hawaiting : { m with status := .awaitingKey x }.status =
        .awaitingKey x := rfl
      have hback : { m with status := .running } = m := by rw [← hstatus]
      simp only
      rw [unparked_endStep_of_awaiting hawaiting, unparked_of_awaiting hawaiting]
      simp only [hback]
  | some key =>
      have hrunning : (m.takeKey x key).status = .running := hstatus
      exact unparked_endStep_of_running hrunning

theorem polling_step_unparked {m : Machine} (h : m.OnWait) :
    Polling.step m.unparked = (m.step.result, m.step.machine.unparked) := by
  cases m.course with
  | halted hstatus hstep =>
      rw [hstep, unparked_of_halted hstatus]
      simp only [Polling.step, hstatus]
  | parked register hstatus hkey hstep =>
      have hsame : m.unparked.keypad = m.keypad ∧
          m.unparked.dialect = m.dialect := by
        rw [unparked_of_awaiting hstatus]
        exact ⟨rfl, rfl⟩
      rw [polling_step_of_awaiting h hstatus, hstep,
        unparked_endStep_of_awaiting hstatus]
      simp only [Polling.waitKey, hsame, hkey]
  | resumed register key hstatus hkey hstep =>
      rw [polling_step_of_awaiting h hstatus, hstep, unparked_of_awaiting hstatus]
      simp only [Polling.waitKey, hkey]
      rfl
  | unreadable cause hstatus hnext hstep =>
      rw [hstep, unparked_of_running hstatus, polling_step_of_running hstatus,
        hnext]
      rfl
  | refused opcode instruction cause hstatus hnext hfault hstep =>
      have hnot : ∀ x, instruction ≠ .waitKey x := by
        rintro x rfl
        cases hfault
      rw [hstep, unparked_of_running hstatus, polling_step_of_running hstatus,
        hnext]
      simp only [polling_execute_of_not_wait hnot, execute_eq, hfault]
      rfl
  | executed opcode instruction hstatus hnext hfault hstep =>
      rw [hstep, unparked_of_running hstatus, polling_step_of_running hstatus,
        hnext]
      rcases instruction.wait_or_not with ⟨x, rfl⟩ | hnot
      · simp only [Polling.execute, unparked_endStep_effect_wait hstatus]
      · have hrunning : (m.effect instruction).status = .running :=
          (effect_status_of_not_wait hnot).trans hstatus
        simp only [polling_execute_of_not_wait hnot, execute_eq, hfault]
        rw [unparked_endStep_of_running hrunning]
        rfl

theorem OnWait.effect {m : Machine} {opcode : Opcode} {instruction : Instruction}
    (hstatus : m.status = .running)
    (hnext : m.nextInstruction = .ok (opcode, instruction)) :
    (m.effect instruction).OnWait := by
  rcases instruction.wait_or_not with ⟨x, rfl⟩ | hnot
  · unfold Machine.effect
    cases m.keypad.firstPressed with
    | none =>
        intro register hawaiting
        cases hawaiting
        exact ⟨opcode, hnext⟩
    | some key =>
        refine .of_not_awaiting fun register hawaiting => ?_
        cases hstatus.symm.trans hawaiting
  · refine .of_not_awaiting fun register hawaiting => ?_
    rw [effect_status_of_not_wait hnot, hstatus] at hawaiting
    cases hawaiting

theorem OnWait.step {m : Machine} (h : m.OnWait) : m.step.machine.OnWait := by
  cases m.course with
  | halted _ hstep =>
      rw [hstep]
      exact h
  | parked _ _ _ hstep =>
      rw [hstep]
      exact h.endStep
  | resumed _ _ _ _ hstep =>
      rw [hstep]
      exact .of_not_awaiting fun _ hawaiting => by cases hawaiting
  | unreadable _ _ _ hstep =>
      rw [hstep]
      exact .of_not_awaiting fun _ hawaiting => by cases hawaiting
  | refused _ _ _ _ _ _ hstep =>
      rw [hstep]
      exact .of_not_awaiting fun _ hawaiting => by cases hawaiting
  | executed _ _ hstatus hnext _ hstep =>
      rw [hstep]
      exact (OnWait.effect hstatus hnext).endStep

/-! ## Commands and runs -/

theorem polling_perform_unparked {m : Machine} (h : m.OnWait) (command : Command) :
    Polling.perform m.unparked command =
      ((m.perform command).machine.unparked, (m.perform command).reply) := by
  cases command with
  | step =>
      simp only [Polling.perform, polling_step_unparked h]
      rfl
  | load program =>
      simp only [Polling.perform, Machine.perform, load]
      rcases Nat.lt_or_ge Memory.programLimit program.length with hlarge | hfits
      · rw [if_neg (Nat.not_le.mpr hlarge), if_neg (Nat.not_le.mpr hlarge)]
      · rw [if_pos hfits, if_pos hfits]
        rfl
  | _ => rfl

theorem OnWait.perform {m : Machine} (h : m.OnWait) {command : Command}
    (hkeeps : Transition.KeepsWaitWord ⟨m, command⟩) :
    (m.perform command).machine.OnWait := by
  cases command with
  | step => exact h.step
  | reset => exact .of_not_awaiting fun _ hawaiting => by cases hawaiting
  | load program =>
      intro register hawaiting
      rcases m.perform_load_eq program with ⟨memory, hload⟩
      have hstatus : m.status = .awaitingKey register := by rwa [hload] at hawaiting
      rcases hkeeps program register rfl hstatus with ⟨hhigh, hlow⟩
      rcases h register hstatus with ⟨opcode, hnext⟩
      have hpc : (m.perform (.load program)).machine.pc = m.pc := by rw [hload]
      exact ⟨opcode, (nextInstruction_congr hpc hhigh hlow).trans hnext⟩
  | _ => exact h.of_eq rfl rfl rfl

theorem SwitchedOn.status_eq {m : Machine} (h : m.SwitchedOn) :
    m.status = .running := by
  rcases h.eq_powerOn with ⟨dialect, seed, memory, rfl⟩
  rfl

theorem onWait_after {start : Machine} (hstart : start.SwitchedOn)
    {past : List Command} (hkeeps : ∀ t ∈ start.history past, t.KeepsWaitWord) :
    (start.after past).OnWait := by
  induction past with
  | nil =>
      refine .of_not_awaiting fun register hawaiting => ?_
      cases hstart.status_eq.symm.trans hawaiting
  | cons command earlier ih =>
      have hearlier := ih fun t ht => hkeeps t (.tail _ ht)
      exact hearlier.perform (hkeeps _ (.head _))

theorem polling_after {start : Machine} (hstart : start.SwitchedOn)
    {past : List Command} (hkeeps : ∀ t ∈ start.history past, t.KeepsWaitWord) :
    Polling.after start past = (start.after past).unparked ∧
      Polling.replies start past = start.replies past := by
  induction past with
  | nil => exact ⟨(unparked_of_running hstart.status_eq).symm, rfl⟩
  | cons command earlier ih =>
      have hearlier : ∀ t ∈ start.history earlier, t.KeepsWaitWord :=
        fun t ht => hkeeps t (.tail _ ht)
      rcases ih hearlier with ⟨hafter, hreplies⟩
      have hperform :=
        polling_perform_unparked (onWait_after hstart hearlier) command
      constructor
      · rw [Polling.after, hafter, hperform]
        rfl
      · rw [Polling.replies, hafter, hperform, hreplies]
        rfl

theorem word_of_wait {m : Machine} {opcode : Opcode} {register : Register}
    (h : m.nextInstruction = .ok (opcode, .waitKey register)) :
    m.word = (Instruction.waitKey register).encode := by
  rcases nextInstruction_eq_ok h with ⟨-, rfl, hdecode⟩
  refine (Instruction.encode_eq_of_decode hdecode ?_ ?_).symm
  · simp [Instruction.encode, Opcode.family_ofByte]
  · simp [Instruction.encode, Opcode.family_ofByte]

/--
Parking is polling.  After every command of a run, a machine that parks on its
key waits and one that polls for the key are the same, but for the parking, and
have given the same replies; and what a waiting machine has at its counter is
still the wait for a key, on behalf of the same register.
-/
theorem parking_is_polling {start : Machine} (hstart : start.SwitchedOn)
    (past : List Command) (hkeeps : ∀ t ∈ start.history past, t.KeepsWaitWord) :
    Polling.after start past = (start.after past).unparked ∧
    Polling.replies start past = start.replies past ∧
    ((Polling.after start past).status = .running ∨
      (Polling.after start past).status = .halted) ∧
    ∀ register, (start.after past).status = .awaitingKey register →
      (start.after past).word = (Instruction.waitKey register).encode := by
  rcases polling_after hstart hkeeps with ⟨hafter, hreplies⟩
  refine ⟨hafter, hreplies, ?_, ?_⟩
  · rw [hafter]
    exact unparked_status _
  · intro register hawaiting
    rcases onWait_after hstart hkeeps register hawaiting with ⟨opcode, hnext⟩
    exact word_of_wait hnext

theorem parking_is_polling_reloaded :
    let start := (boot {} (.ofSeed 0)).machine
    let past : List Command :=
      [.step, .setKey 0x7 true, .load [0xF3, 0x0A, 0x00, 0xE0], .step,
        .load [0xF3, 0x0A]]
    (∀ t ∈ start.history past, t.KeepsWaitWord) ∧
    Polling.after start past = (start.after past).unparked ∧
    Polling.replies start past = start.replies past := by
  intro start past
  have hkeeps : ∀ t ∈ start.history past, t.KeepsWaitWord := by
    intro t ht
    simp only [past, history, List.mem_cons, List.not_mem_nil, or_false] at ht
    rcases ht with rfl | rfl | rfl | rfl | rfl
    · rintro program register hload
      cases hload
    · rintro program register hload
      cases hload
    · rintro program register hload -
      cases hload
      exact ⟨by decide +kernel, by decide +kernel⟩
    · rintro program register hload
      cases hload
    · rintro program register - hawaiting
      cases hawaiting
  have hpolling := parking_is_polling (.bare {} 0) past hkeeps
  exact ⟨hkeeps, hpolling.1, hpolling.2.1⟩

end Machine

end Chip8
