import Chip8.Proofs.Influence.Lockstep
import Chip8.Proofs.Machine.Statuses
import Chip8.Proofs.Registers.Bytes

/-!
# What the dialect has influence on

A dialect settles two points, and a step can tell two dialects apart at these
points only: a left shift that moves a set bit into the flag register, and a step
that ends with the machine waiting for a key.  The first leaves another value in
the flag register, the second other timers.  Everything else is the same under
every dialect, and so is a whole run in which neither of the two comes up.
-/

namespace Chip8

namespace Command

inductive SameButDialects : Command → Command → Prop
  | same (command : Command) : SameButDialects command command
  | setDialect (dialect dialect' : Dialect) :
      SameButDialects (.setDialect dialect) (.setDialect dialect')

end Command

namespace Transition

/-- A left shift that moves a set bit into the flag register and leaves it there. -/
def shiftsOut (t : Transition) : Bool :=
  match t.carriedOut with
  | some (.alu .shiftLeft x _) => x ≠ flagRegister ∧ 0x80 ≤ t.before.reg x
  | _ => false

def endsWaiting (t : Transition) : Bool := t.command = .step ∧ t.after.isAwaitingKey

/-- The two dialects have different flags for what the transition shifts out. -/
def FlagsPart (t u : Transition) : Prop :=
  t.shiftsOut = true ∧
    t.before.dialect.normalizeShiftFlag ≠ u.before.dialect.normalizeShiftFlag

/-- The step ends with waiting, and only one of the dialects lets the timers run. -/
def TimersPart (t u : Transition) : Prop :=
  t.endsWaiting = true ∧
    t.before.dialect.timersWhileWaiting ≠ u.before.dialect.timersWhileWaiting

instance (t u : Transition) : Decidable (t.FlagsPart u) :=
  inferInstanceAs (Decidable (_ ∧ _))

instance (t u : Transition) : Decidable (t.TimersPart u) :=
  inferInstanceAs (Decidable (_ ∧ _))

theorem shiftsOut_eq_false {t : Transition}
    (h : ∀ x y, t.carriedOut ≠ some (.alu .shiftLeft x y)) :
    t.shiftsOut = false := by
  unfold shiftsOut
  split
  next x y hcarried => exact absurd hcarried (h x y)
  next => rfl

theorem endsWaiting_step (m : Machine) :
    endsWaiting ⟨m, .step⟩ = m.step.machine.isAwaitingKey := by
  have hafter : after ⟨m, .step⟩ = m.step.machine := rfl
  simp [endsWaiting, hafter]

end Transition

namespace Machine

def timers (m : Machine) : UInt8 × UInt8 := (m.delay, m.sound)

/-- How far two steps come apart if only the dialects of the machines differ. -/
structure StepsApart (m n : Machine) : Prop where
  result : m.step.result = n.step.result
  events : m.step.events = n.step.events
  others : { m.step.machine with
    registers := n.step.machine.registers
    delay := n.step.machine.delay
    sound := n.step.machine.sound
    dialect := n.dialect } = n.step.machine
  registers : ∀ r, m.step.machine.reg r ≠ n.step.machine.reg r →
    r = flagRegister ∧ Transition.FlagsPart ⟨m, .step⟩ ⟨n, .step⟩
  flag : Transition.FlagsPart ⟨m, .step⟩ ⟨n, .step⟩ →
    m.step.machine.reg flagRegister = m.dialect.shiftedBit ∧
    n.step.machine.reg flagRegister = n.dialect.shiftedBit
  timers : m.step.machine.timers ≠ n.step.machine.timers →
    Transition.TimersPart ⟨m, .step⟩ ⟨n, .step⟩
  ticked : Transition.TimersPart ⟨m, .step⟩ ⟨n, .step⟩ →
    m.step.machine.timers =
      (if m.dialect.timersWhileWaiting then m.tick.timers else m.timers) ∧
    n.step.machine.timers =
      (if n.dialect.timersWhileWaiting then m.tick.timers else m.timers)

/-! ## One instruction -/

theorem effect_setDialect (m : Machine) (d : Dialect) {instruction : Instruction}
    (h : ∀ x y, instruction ≠ .alu .shiftLeft x y) :
    (m.setDialect d).effect instruction = (m.effect instruction).setDialect d := by
  have hregisters : (m.setDialect d).nextRegisters instruction =
      m.nextRegisters instruction := by
    cases instruction with
    | alu op x y =>
        cases op with
        | shiftLeft => exact absurd rfl (h x y)
        | _ => rfl
    | _ => rfl
  rw [effect_eq, effect_eq, hregisters]
  cases instruction <;> rfl

theorem reg_effect_shiftLeft (m : Machine) (x y r : Register) :
    (m.effect (.alu .shiftLeft x y)).reg r =
      if r = x then m.reg x <<< 1
      else if r = flagRegister then m.dialect.shiftFlag (m.reg x)
      else m.reg r := by
  have hset : (m.effect (.alu .shiftLeft x y)).reg r =
      ((m.setReg flagRegister (m.dialect.shiftFlag (m.reg x))).setReg x
          (m.reg x <<< 1)).reg r :=
    rfl
  rw [hset, reg_setReg, reg_setReg]

theorem reg_of_shift {m : Machine} {x y : Register}
    (h : m.step.machine = (m.effect (.alu .shiftLeft x y)).tick) (r : Register) :
    m.step.machine.reg r =
      if r = x then m.reg x <<< 1
      else if r = flagRegister then m.dialect.shiftFlag (m.reg x)
      else m.reg r := by
  rw [h, ← reg_effect_shiftLeft m x y r]
  rfl

theorem registers_ext {m n : Machine} (h : ∀ r, m.reg r = n.reg r) :
    m.registers = n.registers := by
  apply Vector.ext
  intro r hr
  exact h ⟨r, hr⟩

/-! ## One step -/

section

variable {m : Machine} {d : Dialect}

theorem StepsApart.of_same
    (hn : (m.setDialect d).step = { m.step with
      machine := m.step.machine.setDialect d })
    (hshift : ∀ x y, Transition.carriedOut ⟨m, .step⟩ ≠ some (.alu .shiftLeft x y))
    (hawake : m.step.machine.isAwaitingKey = false) :
    m.StepsApart (m.setDialect d) where
  result := by rw [hn]
  events := by rw [hn]
  others := by
    rw [hn]
    rfl
  registers r hr := by
    rw [hn] at hr
    exact absurd rfl hr
  flag hparts := by
    cases hparts.1.symm.trans (Transition.shiftsOut_eq_false hshift)
  timers hdiffer := by
    rw [hn] at hdiffer
    exact absurd rfl hdiffer
  ticked hparts := by
    cases hparts.1.symm.trans ((Transition.endsWaiting_step m).trans hawake)

theorem endStep_setDialect (m : Machine) (d : Dialect) :
    (m.setDialect d).endStep =
      { m.endStep with
        delay := (m.setDialect d).endStep.delay
        sound := (m.setDialect d).endStep.sound
        dialect := d } := by
  unfold endStep
  split <;> split <;> rfl

theorem timers_endStep_waiting (m : Machine) (register : Register) :
    { m with status := .awaitingKey register }.endStep.timers =
      if m.dialect.timersWhileWaiting then m.tick.timers else m.timers := by
  by_cases h : m.dialect.timersWhileWaiting
  · simp [endStep, h, tick, timers]
  · simp [endStep, h, timers]

theorem StepsApart.of_waiting {register : Register} {events : List Event}
    (hm : m.step = ⟨{ m with status := .awaitingKey register }.endStep,
      .ok (), events⟩)
    (hn : (m.setDialect d).step =
      ⟨{ m.setDialect d with status := .awaitingKey register }.endStep,
        .ok (), events⟩)
    (hshift : ∀ x y, Transition.carriedOut ⟨m, .step⟩ ≠
      some (.alu .shiftLeft x y)) :
    m.StepsApart (m.setDialect d) := by
  let waiting : Machine := { m with status := .awaitingKey register }
  have hafter : m.step.machine = waiting.endStep := by rw [hm]
  have hafter' : (m.setDialect d).step.machine =
      (waiting.setDialect d).endStep := by
    rw [hn]
    rfl
  have hapart := waiting.endStep_setDialect d
  rw [← hafter, ← hafter'] at hapart
  have htimers : m.step.machine.timers =
      if m.dialect.timersWhileWaiting then m.tick.timers else m.timers := by
    rw [hafter, timers_endStep_waiting]
  have htimers' : (m.setDialect d).step.machine.timers =
      if d.timersWhileWaiting then m.tick.timers else m.timers := by
    rw [hn]
    exact (m.setDialect d).timers_endStep_waiting register
  have hends : Transition.endsWaiting ⟨m, .step⟩ = true := by
    have hstatus : m.step.machine.status = .awaitingKey register := by
      rw [hafter, endStep_eq]
    rw [Transition.endsWaiting_step, isAwaitingKey, hstatus]
  have hregisters : m.step.machine.registers =
      (m.setDialect d).step.machine.registers := by
    rw [hapart]
  constructor
  · rw [hm, hn]
  · rw [hm, hn]
  · rw [← hregisters]
    exact hapart.symm
  · intro r hr
    simp only [reg, hregisters, ne_eq, not_true_eq_false] at hr
  · rintro ⟨hshifts, -⟩
    cases hshifts.symm.trans (Transition.shiftsOut_eq_false hshift)
  · intro hdiffer
    refine ⟨hends, ?_⟩
    rintro (hsame : m.dialect.timersWhileWaiting = d.timersWhileWaiting)
    rw [htimers, htimers', hsame] at hdiffer
    exact hdiffer rfl
  · intro _
    exact ⟨htimers, htimers'⟩

theorem StepsApart.of_shift {x y : Register} {events : List Event}
    (hrunning : m.status = .running)
    (hcarried : Transition.carriedOut ⟨m, .step⟩ = some (.alu .shiftLeft x y))
    (hm : m.step = ⟨(m.effect (.alu .shiftLeft x y)).endStep, .ok (), events⟩)
    (hn : (m.setDialect d).step =
      ⟨((m.setDialect d).effect (.alu .shiftLeft x y)).endStep, .ok (), events⟩) :
    m.StepsApart (m.setDialect d) := by
  have htick : m.step.machine = (m.effect (.alu .shiftLeft x y)).tick := by
    rw [hm]
    exact if_pos (.inl hrunning)
  have htick' : (m.setDialect d).step.machine =
      ((m.setDialect d).effect (.alu .shiftLeft x y)).tick := by
    rw [hn]
    exact if_pos (.inl hrunning)
  have hreg := reg_of_shift htick
  have hreg' : ∀ r, (m.setDialect d).step.machine.reg r =
      if r = x then m.reg x <<< 1
      else if r = flagRegister then d.shiftFlag (m.reg x) else m.reg r :=
    reg_of_shift htick'
  have htimers : ¬Transition.TimersPart ⟨m, .step⟩ ⟨m.setDialect d, .step⟩ := by
    rintro ⟨hends, -⟩
    have hstatus : m.step.machine.status = .running := by
      rw [htick]
      exact hrunning
    rw [Transition.endsWaiting_step, isAwaitingKey, hstatus] at hends
    cases hends
  have hshifts : Transition.shiftsOut ⟨m, .step⟩ = true ↔
      x ≠ flagRegister ∧ 0x80 ≤ m.reg x := by
    simp [Transition.shiftsOut, hcarried]
  constructor
  · rw [hm, hn]
  · rw [hm, hn]
  · rw [htick, htick']
    rfl
  · intro r hr
    rw [hreg, hreg'] at hr
    by_cases hx : r = x
    · simp only [if_pos hx, ne_eq, not_true_eq_false] at hr
    · by_cases hflag : r = flagRegister
      · simp only [if_neg hx, if_pos hflag] at hr
        rcases Dialect.shiftFlag_ne hr with ⟨hset, hdialects⟩
        refine ⟨hflag, hshifts.mpr ⟨?_, hset⟩, hdialects⟩
        rintro rfl
        exact hx hflag
      · simp only [if_neg hx, if_neg hflag, ne_eq, not_true_eq_false] at hr
  · rintro ⟨hout, -⟩
    rcases hshifts.mp hout with ⟨hx, hset⟩
    rw [hreg, hreg', if_neg (Ne.symm hx), if_neg (Ne.symm hx), if_pos rfl,
      if_pos rfl, Dialect.shiftFlag_eq, Dialect.shiftFlag_eq, if_pos hset,
      if_pos hset]
    exact ⟨rfl, rfl⟩
  · intro hdiffer
    rw [htick, htick'] at hdiffer
    exact absurd rfl hdiffer
  · intro hparts
    exact absurd hparts htimers

theorem stepsApart_executed {opcode : Opcode} {instruction : Instruction}
    (hrunning : m.status = .running)
    (hcarried : Transition.carriedOut ⟨m, .step⟩ = some instruction)
    (hm : m.step =
      ⟨(m.effect instruction).endStep, .ok (),
        .executing m.pc opcode instruction :: (m.effect instruction).waitingEvents⟩)
    (hn : (m.setDialect d).step =
      ⟨((m.setDialect d).effect instruction).endStep, .ok (),
        .executing m.pc opcode instruction ::
          ((m.setDialect d).effect instruction).waitingEvents⟩) :
    m.StepsApart (m.setDialect d) := by
  by_cases hshift : ∃ x y, instruction = .alu .shiftLeft x y
  · rcases hshift with ⟨x, y, rfl⟩
    exact .of_shift hrunning hcarried hm hn
  · have hother : ∀ x y, instruction ≠ .alu .shiftLeft x y :=
      fun x y h => hshift ⟨x, y, h⟩
    have hnot : ∀ x y, Transition.carriedOut ⟨m, .step⟩ ≠
        some (.alu .shiftLeft x y) := by
      intro x y h
      exact hother x y (Option.some.inj (hcarried.symm.trans h))
    rw [effect_setDialect m d hother] at hn
    rcases nextStatus_eq hrunning instruction with
      ⟨x, rfl, hnone, -, -⟩ | ⟨-, hnext⟩
    · have hkey : m.keypad.firstPressed = none :=
        (Keypad.firstPressed_eq_none_iff _).mpr hnone
      have hwait : m.effect (.waitKey x) = { m with status := .awaitingKey x } := by
        simp only [effect, hkey]
      rw [hwait] at hm hn
      exact .of_waiting hm hn hnot
    · have hstatus : (m.effect instruction).status = .running := by
        rw [effect_eq, hnext]
      refine .of_same ?_ hnot ?_
      · rw [hm, hn]
        have hend : ((m.effect instruction).setDialect d).endStep =
            (m.effect instruction).endStep.setDialect d := by
          unfold endStep
          rw [if_pos (.inl hstatus), if_pos (.inl hstatus)]
          rfl
        rw [hend]
        rfl
      · have hafter : m.step.machine.status = .running := by
          rw [hm, endStep_eq, hstatus]
        rw [isAwaitingKey, hafter]

theorem stepsApart_setDialect (m : Machine) (d : Dialect) :
    m.StepsApart (m.setDialect d) := by
  have hsame : m.SameCourse (m.setDialect d) :=
    ⟨rfl, rfl, rfl, rfl, rfl, fun _ => rfl⟩
  have hnot : Transition.carriedOut ⟨m, .step⟩ = none →
      ∀ x y, Transition.carriedOut ⟨m, .step⟩ ≠ some (.alu .shiftLeft x y) := by
    intro hidle x y hcarried
    cases hidle.symm.trans hcarried
  cases hsame.abreast with
  | halted hidle hstatus hm hn =>
      refine .of_same ?_ (hnot hidle) ?_
      · rw [hm, hn]
      · rw [hm, isAwaitingKey, hstatus]
  | parked register hidle hstatus hm hn =>
      have hwaiting : { m with status := .awaitingKey register } = m := by
        rw [← hstatus]
      have hwaiting' : { m.setDialect d with status := .awaitingKey register } =
          m.setDialect d := congrArg (fun w => setDialect w d) hwaiting
      have hm' : m.step =
          ⟨{ m with status := .awaitingKey register }.endStep, .ok (), []⟩ := by
        rw [hwaiting, hm]
      have hn' : (m.setDialect d).step =
          ⟨{ m.setDialect d with status := .awaitingKey register }.endStep,
              .ok (), []⟩ := by
        rw [hwaiting', hn]
      exact .of_waiting hm' hn' (hnot hidle)
  | resumed register key hidle hm hn =>
      refine .of_same ?_ (hnot hidle) ?_
      · rw [hm, hn]
        rfl
      · rw [hm]
        rfl
  | failed cause events hidle hm hn =>
      refine .of_same ?_ (hnot hidle) ?_
      · rw [hm, hn]
        rfl
      · rw [hm]
        rfl
  | executed opcode instruction hstatus hcarried hm hn =>
      exact stepsApart_executed hstatus hcarried hm hn

end

/-! ## Commands and runs -/

def SameButDialects (m n : Machine) : Prop := { m with dialect := n.dialect } = n

theorem StepsApart.sameButDialects {m n : Machine} (h : m.StepsApart n)
    (hflags : ¬Transition.FlagsPart ⟨m, .step⟩ ⟨n, .step⟩)
    (htimers : ¬Transition.TimersPart ⟨m, .step⟩ ⟨n, .step⟩) :
    m.step.machine.SameButDialects n.step.machine := by
  have hregisters : m.step.machine.registers = n.step.machine.registers := by
    apply registers_ext
    intro r
    by_contra hne
    exact hflags (h.registers r hne).2
  have hsame : m.step.machine.timers = n.step.machine.timers := by
    by_contra hne
    exact htimers (h.timers hne)
  have hdelay : m.step.machine.delay = n.step.machine.delay :=
    congrArg Prod.fst hsame
  have hsound : m.step.machine.sound = n.step.machine.sound :=
    congrArg Prod.snd hsame
  have hdialect : n.step.machine.dialect = n.dialect := by rw [← h.others]
  have hothers := h.others
  rw [← hregisters, ← hdelay, ← hsound, ← hdialect] at hothers
  exact hothers

theorem perform_sameButDialects {m n : Machine} {command command' : Command}
    (hcommand : command.SameButDialects command') (hsame : m.SameButDialects n)
    (hflags : ¬Transition.FlagsPart ⟨m, command⟩ ⟨n, command'⟩)
    (htimers : ¬Transition.TimersPart ⟨m, command⟩ ⟨n, command'⟩) :
    (m.perform command).machine.SameButDialects (n.perform command').machine ∧
      (m.perform command).reply = (n.perform command').reply := by
  obtain ⟨d, rfl⟩ : ∃ d, n = m.setDialect d := ⟨n.dialect, hsame.symm⟩
  cases hcommand with
  | setDialect dialect dialect' => exact ⟨rfl, rfl⟩
  | same =>
      cases command with
      | step =>
          have hapart := m.stepsApart_setDialect d
          exact ⟨hapart.sameButDialects hflags htimers,
            congrArg Reply.stepped hapart.result⟩
      | load program =>
          have hmemory : (m.setDialect d).memory = m.memory := rfl
          rcases perform_load_alike hmemory program with ⟨hreply, memory, hm, hn⟩
          rw [hm, hn]
          exact ⟨rfl, hreply⟩
      | _ => exact ⟨rfl, rfl⟩

/--
Dialects are isolated.  Of two machines that differ in nothing but their dialects
a step has the same result, and leaves them equal but for the flag register after
a left shift that moves a set bit there, and the timers when it ends with waiting.
There, each machine has what its own dialect says.  In two runs with the same
commands, but for the dialects that are set, the machines stay equal and reply the
same as long as neither of the two comes up.
-/
theorem dialects_are_isolated {m n : Machine}
    (hsame : { m with dialect := n.dialect } = n) :
    m.StepsApart n ∧
    ∀ past past', List.Forall₂ Command.SameButDialects past past' →
      (∀ pair ∈ m.sideBySide n past past',
        ¬pair.1.FlagsPart pair.2 ∧ ¬pair.1.TimersPart pair.2) →
      { m.after past with dialect := (n.after past').dialect } = n.after past' ∧
      ∀ pair ∈ m.sideBySide n past past',
        { pair.1.after with dialect := pair.2.after.dialect } = pair.2.after ∧
        pair.1.response.reply = pair.2.response.reply := by
  constructor
  · have hn : n = m.setDialect n.dialect := hsame.symm
    rw [hn]
    exact m.stepsApart_setDialect n.dialect
  · intro past past' hpast hnever
    have hkeep : ∀ pair ∈ m.sideBySide n past past',
        pair.1.command.SameButDialects pair.2.command →
        pair.1.before.SameButDialects pair.2.before →
        pair.1.after.SameButDialects pair.2.after ∧
          pair.1.response.reply = pair.2.response.reply := by
      intro pair hmem hcommand hbefore
      rcases hnever pair hmem with ⟨hflags, htimers⟩
      exact perform_sameButDialects hcommand hbefore hflags htimers
    exact lockstep (R := SameButDialects) hpast hsame hkeep

/-- One shift tells the dialects apart; another one, of `VF` itself, does not. -/
theorem dialects_are_isolated_overwritten :
    let m :=
      (boot {} (.ofSeed 0)).machine.after [.step, .load [0x60, 0x80, 0x80, 0x0E]]
    let n := m.setDialect ⟨true, false⟩
    let program : List UInt8 := [0x6F, 0x80, 0x8F, 0x0E, 0xF1, 0x0A]
    let past : List Command :=
      [.step, .setKey 0x3 true, .setDialect {}, .step, .step, .load program, .reset]
    let past' : List Command :=
      [.step, .setKey 0x3 true, .setDialect ⟨true, true⟩, .step, .step,
        .load program, .reset]
    { m with dialect := n.dialect } = n ∧
    Transition.FlagsPart ⟨m, .step⟩ ⟨n, .step⟩ ∧
    m.step.machine.reg flagRegister = 0x80 ∧ n.step.machine.reg flagRegister = 1 ∧
    List.Forall₂ Command.SameButDialects past past' ∧
    (∀ pair ∈ m.sideBySide n past past',
      ¬pair.1.FlagsPart pair.2 ∧ ¬pair.1.TimersPart pair.2) ∧
    { m.after past with dialect := (n.after past').dialect } = n.after past' := by
  intro m n program past past'
  have hsame : { m with dialect := n.dialect } = n := rfl
  have hpast : List.Forall₂ Command.SameButDialects past past' :=
    .cons (.same _) (.cons (.same _) (.cons (.setDialect _ _) (.cons (.same _)
      (.cons (.same _) (.cons (.same _) (.cons (.same _) .nil))))))
  have hfacts : Transition.FlagsPart ⟨m, .step⟩ ⟨n, .step⟩ ∧
      (m.dialect.shiftedBit = 0x80 ∧ n.dialect.shiftedBit = 1) ∧
      ∀ pair ∈ m.sideBySide n past past',
        ¬pair.1.FlagsPart pair.2 ∧ ¬pair.1.TimersPart pair.2 := by
    decide +kernel
  rcases hfacts with ⟨hflags, ⟨hbit, hbit'⟩, hnever⟩
  rcases dialects_are_isolated hsame with ⟨hapart, hruns⟩
  rcases hapart.flag hflags with ⟨hflag, hflag'⟩
  rw [hbit] at hflag
  rw [hbit'] at hflag'
  exact ⟨hsame, hflags, hflag, hflag', hpast, hnever,
    (hruns past past' hpast hnever).1⟩

end Machine

end Chip8
