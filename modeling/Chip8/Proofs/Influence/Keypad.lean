import Chip8.Proofs.Influence.Lockstep
import Chip8.Proofs.Machine.CarriedOut

/-!
# What the keys have influence on

The machine looks at its keypad in three ways: two skips ask about one key, and
a wait asks for the lowest key that is down, when it is carried out and in every
step after that until there is one.  As long as two keypads give the same answer
to every question that is asked, nothing but the keypad itself differs between
the machines that have them.
-/

namespace Chip8

namespace Command

inductive SameButKeys : Command → Command → Prop
  | same (command : Command) : SameButKeys command command
  | setKeys (keypad keypad' : Keypad) :
      SameButKeys (.setKeys keypad) (.setKeys keypad')
  | setKey (code code' : UInt8) (down down' : Bool) :
      SameButKeys (.setKey code down) (.setKey code' down')

end Command

namespace Transition

/-- The other keypad gives the same answers to what the command asks about keys. -/
structure AnsweredBy (t : Transition) (pad : Keypad) : Prop where
  skips : ∀ x, t.carriedOut = some (.skip (.keyPressed x)) ∨
      t.carriedOut = some (.skip (.keyReleased x)) →
    t.before.keypad.isPressed (.ofByte (t.before.reg x)) =
      pad.isPressed (.ofByte (t.before.reg x))
  waits : (∃ x, t.carriedOut = some (.waitKey x)) ∨
      (t.command = .step ∧ ∃ register, t.before.status = .awaitingKey register) →
    t.before.keypad.firstPressed = pad.firstPressed

instance (t : Transition) (pad : Keypad) : Decidable (t.AnsweredBy pad) :=
  decidable_of_iff
    ((∀ x, t.carriedOut = some (.skip (.keyPressed x)) ∨
        t.carriedOut = some (.skip (.keyReleased x)) →
      t.before.keypad.isPressed (.ofByte (t.before.reg x)) =
        pad.isPressed (.ofByte (t.before.reg x))) ∧
    ((∃ x, t.carriedOut = some (.waitKey x)) ∨
        (t.command = .step ∧ ∃ register, t.before.status = .awaitingKey register) →
      t.before.keypad.firstPressed = pad.firstPressed))
    ⟨fun h => ⟨h.1, h.2⟩, fun h => ⟨h.skips, h.waits⟩⟩

end Transition

namespace Machine

def SameButKeys (m n : Machine) : Prop := { m with keypad := n.keypad } = n

/-! ## One instruction -/

theorem setResult_setKeys (m : Machine) (pad : Keypad) (x : Register)
    (result : AluResult) :
    (m.setKeys pad).setResult x result = (m.setResult x result).setKeys pad := by
  unfold setResult
  cases result.flag <;> rfl

theorem endStep_setKeys (m : Machine) (pad : Keypad) :
    (m.setKeys pad).endStep = m.endStep.setKeys pad := by
  have hcondition : (m.setKeys pad).status = m.status ∧
      (m.setKeys pad).dialect = m.dialect :=
    ⟨rfl, rfl⟩
  unfold endStep
  rw [hcondition.1, hcondition.2]
  split <;> rfl

theorem fault?_setKeys (m : Machine) (pad : Keypad) (instruction : Instruction) :
    (m.setKeys pad).fault? instruction = m.fault? instruction := by
  cases instruction <;> rfl

theorem holds_setKeys {m : Machine} {pad : Keypad} {condition : Condition}
    (h : ∀ x, condition = .keyPressed x ∨ condition = .keyReleased x →
      m.keypad.isPressed (.ofByte (m.reg x)) = pad.isPressed (.ofByte (m.reg x))) :
    (m.setKeys pad).holds condition = m.holds condition := by
  cases condition with
  | keyPressed x => exact (h x (.inl rfl)).symm
  | keyReleased x => exact congrArg not (h x (.inr rfl)).symm
  | _ => rfl

theorem effect_setKeys {m : Machine} {pad : Keypad} {instruction : Instruction}
    (hskips : ∀ x, instruction = .skip (.keyPressed x) ∨
      instruction = .skip (.keyReleased x) →
      m.keypad.isPressed (.ofByte (m.reg x)) = pad.isPressed (.ofByte (m.reg x)))
    (hwaits : ∀ x, instruction = .waitKey x →
      m.keypad.firstPressed = pad.firstPressed) :
    (m.setKeys pad).effect instruction = (m.effect instruction).setKeys pad := by
  cases instruction with
  | ret =>
      have hcalls : (m.setKeys pad).calls = m.calls := rfl
      simp only [effect, hcalls]
      cases m.calls.pop? <;> rfl
  | skip condition =>
      have hholds : (m.setKeys pad).holds condition = m.holds condition := by
        apply holds_setKeys
        rintro x (rfl | rfl)
        · exact hskips x (.inl rfl)
        · exact hskips x (.inr rfl)
      simp only [effect, hholds]
      rfl
  | alu op x y => exact congrArg advance (m.setResult_setKeys pad x _)
  | waitKey x =>
      have hlowest : (m.setKeys pad).keypad.firstPressed = m.keypad.firstPressed :=
        (hwaits x rfl).symm
      simp only [effect, hlowest]
      cases m.keypad.firstPressed <;> rfl
  | _ => rfl

/-! ## One step -/

theorem stepRunning_setKeys {m : Machine} {pad : Keypad}
    (hrunning : m.status = .running) (h : Transition.AnsweredBy ⟨m, .step⟩ pad) :
    (m.setKeys pad).stepRunning =
      { m.stepRunning with machine := m.stepRunning.machine.setKeys pad } := by
  have hnext : (m.setKeys pad).nextInstruction = m.nextInstruction := rfl
  unfold stepRunning
  rw [hnext]
  cases hword : m.nextInstruction with
  | error cause => rfl
  | ok word =>
      obtain ⟨opcode, instruction⟩ := word
      simp only [execute_eq, fault?_setKeys]
      cases hfault : m.fault? instruction with
      | some cause => rfl
      | none =>
          have hcarried : Transition.carriedOut ⟨m, .step⟩ = some instruction :=
            Transition.carriedOut_eq_some_iff.mpr ⟨rfl, hrunning,
              ⟨opcode, hword⟩, hfault⟩
          have heffect : (m.setKeys pad).effect instruction =
              (m.effect instruction).setKeys pad := by
            apply effect_setKeys
            · rintro x hskip
              exact h.skips x
                (by simpa only [hcarried, Option.some.injEq] using hskip)
            · rintro x rfl
              exact h.waits (.inl ⟨x, hcarried⟩)
          simp only [heffect, endStep_setKeys]
          rfl

theorem stepWaiting_setKeys {m : Machine} {pad : Keypad}
    (h : m.keypad.firstPressed = pad.firstPressed) (register : Register) :
    (m.setKeys pad).stepWaiting register =
      { m.stepWaiting register with
        machine := (m.stepWaiting register).machine.setKeys pad } := by
  have hlowest : (m.setKeys pad).keypad.firstPressed = m.keypad.firstPressed :=
    h.symm
  have hresume : ∀ key, { (m.setKeys pad).takeKey register key with
    status := .running } =
      setKeys { m.takeKey register key with status := .running } pad := fun _ => rfl
  unfold stepWaiting
  rw [hlowest]
  cases m.keypad.firstPressed with
  | none => simp only [endStep_setKeys]
  | some key => simp only [hresume, endStep_setKeys]

theorem step_setKeys {m : Machine} {pad : Keypad}
    (h : Transition.AnsweredBy ⟨m, .step⟩ pad) :
    (m.setKeys pad).step =
      { m.step with machine := m.step.machine.setKeys pad } := by
  have hsame : (m.setKeys pad).status = m.status := rfl
  unfold step
  rw [hsame]
  cases hstatus : m.status with
  | halted => rfl
  | awaitingKey register =>
      exact stepWaiting_setKeys (h.waits (.inr ⟨rfl, register, hstatus⟩)) register
  | running => exact stepRunning_setKeys hstatus h

/-! ## Commands and runs -/

theorem perform_load_setKeys (m : Machine) (pad : Keypad) (program : List UInt8) :
    (m.setKeys pad).perform (.load program) =
      { m.perform (.load program) with
        machine := (m.perform (.load program)).machine.setKeys pad } := by
  simp only [perform, load]
  by_cases hfits : program.length ≤ Memory.programLimit
  · simp only [if_pos hfits]
    rfl
  · simp only [if_neg hfits]

theorem perform_step_setKeys {m : Machine} {pad : Keypad}
    (h : Transition.AnsweredBy ⟨m, .step⟩ pad) :
    (m.setKeys pad).perform .step =
      { m.perform .step with
        machine := (m.perform .step).machine.setKeys pad } := by
  simp only [perform, step_setKeys h]

theorem perform_sameButKeys {m n : Machine} {command command' : Command}
    (hcommand : command.SameButKeys command') (hsame : m.SameButKeys n)
    (h : Transition.AnsweredBy ⟨m, command⟩ n.keypad) :
    (m.perform command).machine.SameButKeys (n.perform command').machine ∧
      (m.perform command).reply = (n.perform command').reply := by
  obtain ⟨pad, rfl⟩ : ∃ pad, n = m.setKeys pad := ⟨n.keypad, hsame.symm⟩
  change Transition.AnsweredBy ⟨m, command⟩ pad at h
  cases hcommand with
  | setKeys keypad keypad' => exact ⟨rfl, rfl⟩
  | setKey code code' down down' => exact ⟨rfl, rfl⟩
  | same =>
      cases command with
      | step =>
          rw [perform_step_setKeys h]
          exact ⟨rfl, rfl⟩
      | load program =>
          rw [perform_load_setKeys]
          exact ⟨rfl, rfl⟩
      | _ => exact ⟨rfl, rfl⟩

/--
Keys matter only when they are asked about.  Two machines that differ in nothing
but their keypads are given the same commands, but for what these say about keys.
If both keypads answer alike whenever a skip asks about a key or a wait asks for
the lowest, the machines still differ in nothing but their keypads after every
command, and have replied the same.
-/
theorem keys_matter_when_asked {m n : Machine} {past past' : List Command}
    (hsame : { m with keypad := n.keypad } = n)
    (hpast : List.Forall₂ Command.SameButKeys past past')
    (hanswers : ∀ pair ∈ m.sideBySide n past past',
      pair.1.AnsweredBy pair.2.before.keypad) :
    { m.after past with keypad := (n.after past').keypad } = n.after past' ∧
    ∀ pair ∈ m.sideBySide n past past',
      { pair.1.after with keypad := pair.2.after.keypad } = pair.2.after ∧
      pair.1.response.reply = pair.2.response.reply := by
  have hkeep : ∀ pair ∈ m.sideBySide n past past',
    pair.1.command.SameButKeys pair.2.command →
      pair.1.before.SameButKeys pair.2.before →
      pair.1.after.SameButKeys pair.2.after ∧
          pair.1.response.reply = pair.2.response.reply := by
    intro pair hmem hcommand hbefore
    exact perform_sameButKeys hcommand hbefore (hanswers pair hmem)
  exact lockstep (R := SameButKeys) hpast hsame hkeep

theorem keys_matter_when_asked_lowest :
    let m := (boot {} (.ofSeed 0)).machine.after [.load [0xF3, 0x0A, 0xE3, 0x9E]]
    let n := m.setKeys (.ofFn fun k => k.val = 1)
    let past : List Command :=
      [.step, .setKey 0x9 false, .step,
        .setKeys (.ofFn fun k => k.val = 5 ∨ k.val = 9), .step, .setKeys .released]
    let past' : List Command :=
      [.step, .setKey 0xB true, .step,
        .setKeys (.ofFn fun k => k.val = 5 ∨ k.val = 0xC), .step,
        .setKeys .released]
    { m with keypad := n.keypad } = n ∧
    List.Forall₂ Command.SameButKeys past past' ∧
    (∀ pair ∈ m.sideBySide n past past', pair.1.AnsweredBy pair.2.before.keypad) ∧
    (m.after past).keypad ≠ (n.after past').keypad ∧
    { m.after past with keypad := (n.after past').keypad } = n.after past' := by
  intro m n past past'
  have hsame : { m with keypad := n.keypad } = n := rfl
  have hpast : List.Forall₂ Command.SameButKeys past past' :=
    .cons (.same _) (.cons (.setKey _ _ _ _) (.cons (.same _)
      (.cons (.setKeys _ _) (.cons (.same _) (.cons (.same _) .nil)))))
  have hanswers : (∀ pair ∈ m.sideBySide n past past',
        pair.1.AnsweredBy pair.2.before.keypad) ∧
      (m.after past).keypad ≠ (n.after past').keypad := by
    decide +kernel
  rcases hanswers with ⟨hanswers, hdiffer⟩
  exact ⟨hsame, hpast, hanswers, hdiffer,
    (keys_matter_when_asked hsame hpast hanswers).1⟩

end Machine

end Chip8
