import Chip8.Proofs.Machine.CarriedOut

/-!
# How the status moves

Only a step and a reset move the status.  A running machine halts when its step
fails, parks when it carries out a wait for a key and none is down, and runs on
otherwise.  A parked machine stays parked without a key and runs on with one.
A halted machine stays halted until it is reset.
-/

namespace Chip8

def RandomSource.reseeded (source : RandomSource) : List Command → RandomSource
  | [] => source
  | .setSeed seed :: _ => .ofSeed seed
  | _ :: earlier => source.reseeded earlier

namespace Machine

def NoKey (m : Machine) : Prop := ∀ k, m.keypad.isPressed k = false

def Parks (m : Machine) (x : Register) : Prop :=
  Transition.carriedOut ⟨m, .step⟩ = some (.waitKey x) ∧ m.NoKey

structure RunningMoves (m : Machine) : Prop where
  halted_iff : m.step.machine.status = .halted ↔
    ∃ error, m.step.result = .error error
  awaiting_iff : ∀ x, m.step.machine.status = .awaitingKey x ↔ m.Parks x
  running_iff : m.step.machine.status = .running ↔
    m.step.result = .ok () ∧ ∀ x, ¬m.Parks x
  pc_of_parks : ∀ x, m.Parks x → m.step.machine.pc = m.pc

structure AwaitingMoves (m : Machine) (register : Register) : Prop where
  succeeds : m.step.result = .ok ()
  not_halted : m.step.machine.status ≠ .halted
  stays : m.NoKey →
    m.step.machine.status = .awaitingKey register ∧
    m.step.machine.pc = m.pc ∧ m.step.machine.registers = m.registers
  resumes : ¬m.NoKey → ∃ key,
    (m.keypad.isPressed key = true ∧ ∀ k, k < key → m.keypad.isPressed k = false) ∧
    m.step.machine.status = .running ∧ m.step.machine.pc = m.pc + 2 ∧
    m.step.machine.registers = (m.setReg register (UInt8.ofNat key)).registers

structure HaltedMoves (m : Machine) (past : List Command) : Prop where
  halted : (m.after past).status = .halted
  refuses : ∀ t ∈ m.history past, t.command = .step →
    t.response.reply = .stepped (.error .halted)
  frozen : ∃ memory redraw keypad dialect,
    m.after past =
      { m with
        memory := memory
        redraw := redraw
        keypad := keypad
        dialect := dialect
        random := m.random.reseeded past }

/-! ## Running -/

theorem nextStatus_eq {m : Machine} (hrunning : m.status = .running)
    (instruction : Instruction) :
    (∃ x, instruction = .waitKey x ∧ m.NoKey ∧
      m.nextStatus instruction = .awaitingKey x ∧ m.nextPc instruction = m.pc) ∨
    ((∀ x, ¬(instruction = .waitKey x ∧ m.NoKey)) ∧
      m.nextStatus instruction = .running) := by
  cases instruction with
  | waitKey x =>
      simp only [nextStatus, nextPc]
      cases hkey : m.keypad.firstPressed with
      | none =>
          left
          exact ⟨x, rfl, (Keypad.firstPressed_eq_none_iff _).mp hkey, rfl, rfl⟩
      | some key =>
          right
          refine ⟨?_, hrunning⟩
          rintro _ ⟨-, hnone⟩
          cases ((Keypad.firstPressed_eq_some_iff _ _).mp hkey).1.symm.trans
            (hnone key)
  | _ =>
      right
      exact ⟨by rintro x ⟨⟨⟩, -⟩, hrunning⟩

theorem runningMoves {m : Machine} (hrunning : m.status = .running) :
    m.RunningMoves := by
  rcases Transition.step_of_running hrunning with
    ⟨instruction, hcarried, hresult, hmachine⟩ | ⟨hidle, ⟨cause, hresult⟩, hmachine⟩
  · have hstatus : m.step.machine.status = m.nextStatus instruction := by
      rw [hmachine, endStep_eq, effect_eq]
    have hpc : m.step.machine.pc = m.nextPc instruction :=
      Transition.pc_of_carriedOut hcarried
    have hparks : ∀ x, m.Parks x ↔ instruction = .waitKey x ∧ m.NoKey := by
      intro x
      simp only [Parks, hcarried, Option.some.injEq]
    rcases nextStatus_eq hrunning instruction with
      ⟨x, rfl, hnone, hnext, hstay⟩ | ⟨hnot, hnext⟩
    · constructor
      · simp [hstatus, hnext, hresult]
      · intro y
        simp [hstatus, hnext, hparks, hnone]
      · simp [hstatus, hnext, hparks, hnone]
      · intro y _
        rw [hpc, hstay]
    · constructor
      · simp [hstatus, hnext, hresult]
      · intro y
        simp [hstatus, hnext, hparks, hnot]
      · simp [hstatus, hnext, hparks, hnot, hresult]
      · intro y hy
        exact absurd ((hparks y).mp hy) (hnot y)
  · have hparks : ∀ x, ¬m.Parks x := by
      rintro x ⟨hwait, -⟩
      cases hidle.symm.trans hwait
    constructor
    · simp [hmachine, hresult]
    · intro y
      simp [hmachine, hparks]
    · simp [hmachine, hresult]
    · intro y hy
      exact absurd hy (hparks y)

/-! ## Waiting -/

theorem step_of_parked {m : Machine} {register : Register}
    (hawaiting : m.status = .awaitingKey register)
    (hkey : m.keypad.firstPressed = none) :
    m.step = ⟨m.endStep, .ok (), []⟩ := by
  simp only [step, hawaiting, stepWaiting, hkey]

theorem step_of_resumed {m : Machine} {register : Register} {key : Key}
    (hawaiting : m.status = .awaitingKey register)
    (hkey : m.keypad.firstPressed = some key) :
    m.step =
      ⟨{ m.takeKey register key with status := .running }.endStep, .ok (),
        [.resumed key]⟩ := by
  simp only [step, hawaiting, stepWaiting, hkey]

theorem awaitingMoves {m : Machine} {register : Register}
    (hawaiting : m.status = .awaitingKey register) : m.AwaitingMoves register := by
  cases hkey : m.keypad.firstPressed with
  | none =>
      have hstep := step_of_parked hawaiting hkey
      have hstatus : m.endStep.status = .awaitingKey register := by
        rw [endStep_eq, hawaiting]
      constructor
      · rw [hstep]
      · rw [hstep, hstatus]
        simp
      · intro _
        rw [hstep]
        refine ⟨hstatus, ?_, ?_⟩
        · rw [endStep_eq]
        · rw [endStep_eq]
      · intro hsome
        exact absurd ((Keypad.firstPressed_eq_none_iff _).mp hkey) hsome
  | some key =>
      have hstep := step_of_resumed hawaiting hkey
      have hlowest := (Keypad.firstPressed_eq_some_iff _ _).mp hkey
      constructor
      · rw [hstep]
      · rw [hstep, endStep_eq]
        simp
      · intro hnone
        cases hlowest.1.symm.trans (hnone key)
      · intro _
        rw [hstep, endStep_eq]
        exact ⟨key, hlowest, rfl, rfl, rfl⟩

/-! ## Halted -/

theorem step_of_halted {m : Machine} (h : m.status = .halted) :
    m.step = ⟨m, .error .halted, []⟩ := by
  simp only [step, h]

theorem perform_of_halted {m : Machine} (h : m.status = .halted) {command : Command}
    (hreset : command ≠ .reset) :
    ∃ memory redraw keypad dialect,
      (m.perform command).machine =
        { m with
          memory := memory
          redraw := redraw
          keypad := keypad
          dialect := dialect
          random := m.random.reseeded [command] } := by
  cases command with
  | step =>
      have hstep : (m.perform .step).machine = m := by
        simp only [perform, step_of_halted h]
      rw [hstep]
      exact ⟨_, _, _, _, rfl⟩
  | reset => exact absurd rfl hreset
  | load program =>
      rcases m.perform_load_eq program with ⟨memory, hload⟩
      rw [hload]
      exact ⟨_, _, _, _, rfl⟩
  | _ => exact ⟨_, _, _, _, rfl⟩

theorem reseeded_cons (source : RandomSource) (command : Command)
    (earlier : List Command) :
    source.reseeded (command :: earlier) =
      (source.reseeded earlier).reseeded [command] := by
  cases command <;> rfl

theorem haltedMoves {m : Machine} (h : m.status = .halted) {past : List Command}
    (hreset : .reset ∉ past) : m.HaltedMoves past := by
  induction past with
  | nil =>
      refine ⟨h, ?_, _, _, _, _, rfl⟩
      intro t ht
      cases ht
  | cons command earlier ih =>
      have hother : command ≠ .reset := fun heq => hreset (heq ▸ List.mem_cons_self)
      rcases ih fun hmem => hreset (List.mem_cons_of_mem _ hmem) with
        ⟨hhalted, hrefuses, memory, redraw, keypad, dialect, hfrozen⟩
      rcases perform_of_halted hhalted hother with
        ⟨memory', redraw', keypad', dialect', hperform⟩
      have hafter : m.after (command :: earlier) = _ := hperform
      constructor
      · rw [hafter]
        exact hhalted
      · intro t ht hstep
        rcases List.mem_cons.mp ht with rfl | hearlier
        · cases hstep
          simp only [Transition.response, perform, step_of_halted hhalted]
        · exact hrefuses t hearlier hstep
      · refine ⟨memory', redraw', keypad', dialect', ?_⟩
        have hrandom := reseeded_cons m.random command earlier
        rw [hafter, hfrozen, hrandom]

/-! ## Every command -/

theorem status_of_other (m : Machine) {command : Command} (hstep : command ≠ .step)
    (hreset : command ≠ .reset) :
    (m.perform command).machine.status = m.status := by
  rcases m.perform_of_other hstep hreset with
    ⟨memory, redraw, keypad, dialect, random, hother⟩
  rw [hother]

/--
The moves of the status: those of a reset and of a step from each status, and
none by any other command.  Once a machine has halted, every command but a reset
leaves it halted, and a step does nothing at all.
-/
theorem status_moves (m : Machine) :
    (∀ command, command ≠ .step → command ≠ .reset →
      (m.perform command).machine.status = m.status) ∧
    (m.perform .reset).machine.status = .running ∧
    (m.status = .running → m.RunningMoves) ∧
    (∀ register, m.status = .awaitingKey register → m.AwaitingMoves register) ∧
    (m.status = .halted → ∀ past, .reset ∉ past → m.HaltedMoves past) := by
  refine ⟨?_, rfl, ?_, ?_, ?_⟩
  · intro command
    exact m.status_of_other
  · exact runningMoves
  · intro register
    exact awaitingMoves
  · intro hhalted past
    exact haltedMoves hhalted

theorem status_moves_first_word :
    let bare := (boot {} (.ofSeed 0)).machine
    let waiting := bare.after [.load [0xF5, 0x0A]]
    bare.step.machine.status = .halted ∧
    (∀ past, .reset ∉ past → (bare.step.machine.after past).status = .halted) ∧
    waiting.Parks 5 ∧ waiting.step.machine.status = .awaitingKey 5 := by
  intro bare waiting
  have hhalted : bare.step.machine.status = .halted := by decide +kernel
  have hwaiting : waiting.status = .running ∧
      Transition.carriedOut ⟨waiting, .step⟩ = some (.waitKey 5) ∧
      ∀ k, waiting.keypad.isPressed k = false := by
    decide +kernel
  rcases hwaiting with ⟨hrunning, hparks⟩
  rcases status_moves bare.step.machine with ⟨-, -, -, -, habsorbed⟩
  rcases status_moves waiting with ⟨-, -, hmoves, -⟩
  exact ⟨hhalted, fun past hreset => (habsorbed hhalted past hreset).halted, hparks,
    ((hmoves hrunning).awaiting_iff 5).mpr hparks⟩

end Machine

end Chip8
