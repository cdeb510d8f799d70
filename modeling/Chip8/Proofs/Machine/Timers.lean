import Chip8.Proofs.Machine.CarriedOut

/-!
# The timers

The two timers work alike: a successful step counts each of them down by one,
and one instruction for each loads it from a register.  A step that leaves the
machine waiting for a key counts down only if the dialect says so.  Apart from
that and a reset nothing moves a timer, so over a run it falls by the number of
steps that count, and stops at zero.
-/

namespace Chip8

inductive Timer where
  | delay
  | sound
  deriving DecidableEq, Repr

namespace Timer

def value (timer : Timer) (m : Machine) : UInt8 :=
  match timer with
  | .delay => m.delay
  | .sound => m.sound

def load (timer : Timer) (x : Register) : Instruction :=
  match timer with
  | .delay => .setDelay x
  | .sound => .setSound x

/-- What an instruction leaves in the timer, before it is counted down. -/
def next (timer : Timer) (m : Machine) (instruction : Instruction) : UInt8 :=
  match timer with
  | .delay => m.nextDelay instruction
  | .sound => m.nextSound instruction

theorem next_load (timer : Timer) (m : Machine) (x : Register) :
    timer.next m (timer.load x) = m.reg x := by
  cases timer <;> rfl

theorem next_of_other (timer : Timer) (m : Machine) {instruction : Instruction}
    (h : ∀ x, instruction ≠ timer.load x) :
    timer.next m instruction = timer.value m := by
  cases timer with
  | delay =>
      cases instruction with
      | setDelay x => exact absurd rfl (h x)
      | _ => rfl
  | sound =>
      cases instruction with
      | setSound x => exact absurd rfl (h x)
      | _ => rfl

theorem value_effect (timer : Timer) (m : Machine) (instruction : Instruction) :
    timer.value (m.effect instruction) = timer.next m instruction := by
  rw [Machine.effect_eq]
  cases timer <;> rfl

end Timer

namespace Transition

def succeeds (t : Transition) : Bool :=
  decide (t.command = .step) && t.before.step.result.isOk

def ticks (t : Transition) : Bool :=
  t.succeeds &&
    (decide (t.after.status = .running) || t.before.dialect.timersWhileWaiting)

end Transition

/-- Neither a reset nor an instruction gives the timer a new value. -/
def Machine.Unloaded (m : Machine) (timer : Timer) (past : List Command) : Prop :=
  .reset ∉ past ∧ ∀ t ∈ m.history past, ∀ x, t.carriedOut ≠ some (timer.load x)

/-! ## One step -/

namespace Timer

theorem toNat_countedDown (byte : UInt8) :
    (if byte = 0 then 0 else byte - 1).toNat = byte.toNat - 1 := by
  split
  next hzero => simp [hzero]
  next hnonzero =>
    have hpos : byte.toNat ≠ 0 := fun h => hnonzero (UInt8.toNat_inj.mp h)
    rw [UInt8.toNat_sub_of_le]
    · rfl
    · rw [UInt8.le_iff_toNat_le]
      exact Nat.one_le_iff_ne_zero.mpr hpos

theorem toNat_value_endStep (timer : Timer) (m : Machine) :
    (timer.value m.endStep).toNat =
      (timer.value m).toNat -
        if m.endStep.status = .running ∨ m.dialect.timersWhileWaiting = true then 1
        else 0 := by
  have hstatus : m.endStep.status = m.status := by rw [Machine.endStep_eq]
  rw [hstatus]
  unfold Machine.endStep
  split
  next =>
    cases timer with
    | delay => exact toNat_countedDown m.delay
    | sound => exact toNat_countedDown m.sound
  next => rfl

end Timer

namespace Transition

theorem step_of_success {m : Machine} (h : m.step.result = .ok ()) :
    ∃ next : Machine, m.step.machine = next.endStep ∧ next.dialect = m.dialect ∧
      ∀ timer : Timer, timer.value next = match carriedOut ⟨m, .step⟩ with
        | some instruction => timer.next m instruction
        | none => timer.value m := by
  cases hcarried : carriedOut ⟨m, .step⟩ with
  | some instruction =>
      have hafter : m.step.machine = _ := after_of_carriedOut hcarried
      refine ⟨m.effect instruction, hafter, ?_, ?_⟩
      · rw [Machine.effect_eq]
      · intro timer
        exact timer.value_effect m instruction
  | none =>
      -- Without an instruction, a step succeeds only while the machine waits.
      cases m.course with
      | halted _ hstep =>
          rw [hstep] at h
          cases h
      | parked _ _ _ hstep =>
          rw [hstep]
          exact ⟨m, rfl, rfl, fun timer => rfl⟩
      | resumed register key _ _ hstep =>
          rw [hstep]
          refine ⟨{ m.takeKey register key with status := .running }, ?_, rfl, ?_⟩
          · simp [Machine.endStep]
          · rintro (_ | _) <;> rfl
      | unreadable _ _ _ hstep =>
          rw [hstep] at h
          cases h
      | refused _ _ _ _ _ _ hstep =>
          rw [hstep] at h
          cases h
      | executed opcode instruction hstatus hnext hfault _ =>
          rw [carriedOut_eq_some_iff.mpr ⟨rfl, hstatus, ⟨opcode, hnext⟩, hfault⟩]
            at hcarried
          cases hcarried

theorem succeeds_iff {t : Transition} :
    t.succeeds = true ↔ t.command = .step ∧ t.before.step.result = .ok () := by
  simp only [succeeds, Bool.and_eq_true, decide_eq_true_eq]
  cases t.before.step.result <;> simp [Except.isOk, Except.toBool]

theorem toNat_value_of_succeeds {t : Transition} (h : t.succeeds = true)
    (timer : Timer) :
    (timer.value t.after).toNat =
      (match t.carriedOut with
        | some instruction => timer.next t.before instruction
        | none => timer.value t.before).toNat - if t.ticks then 1 else 0 := by
  rcases succeeds_iff.mp h with ⟨hcommand, hresult⟩
  obtain ⟨m, command⟩ := t
  cases hcommand
  rcases step_of_success hresult with ⟨next, hmachine, hdialect, hvalue⟩
  have hafter : after ⟨m, .step⟩ = next.endStep := hmachine
  simp only [ticks, h, hafter, Timer.toNat_value_endStep, hvalue, hdialect,
    Bool.true_and, Bool.or_eq_true, decide_eq_true_eq]

theorem value_of_not_succeeds {t : Transition} (hreset : t.command ≠ .reset)
    (h : t.succeeds = false) (timer : Timer) :
    timer.value t.after = timer.value t.before := by
  obtain ⟨m, command⟩ := t
  by_cases hstep : command = .step
  · subst hstep
    cases hresult : m.step.result with
    | ok done =>
        rw [succeeds_iff.mpr ⟨rfl, hresult⟩] at h
        cases h
    | error error =>
        change timer.value m.step.machine = timer.value m
        rw [step_of_failure hresult]
        cases timer <;> rfl
  · rcases m.perform_of_other hstep hreset with
      ⟨memory, redraw, keypad, dialect, random, hother⟩
    rw [after, response, hother]
    cases timer <;> rfl

theorem succeeds_of_carriedOut {t : Transition} {instruction : Instruction}
    (h : t.carriedOut = some instruction) : t.succeeds = true := by
  obtain ⟨m, command⟩ := t
  obtain rfl := (carriedOut_eq_some_iff.mp h).1
  exact succeeds_iff.mpr ⟨rfl, result_of_carriedOut h⟩

theorem ticks_of_load {t : Transition} {timer : Timer} {x : Register}
    (h : t.carriedOut = some (timer.load x)) : t.ticks = true := by
  have hstatus : t.after.status = .running := by
    rw [after_of_carriedOut h, Machine.endStep_eq, Machine.effect_eq]
    have hrunning := (carriedOut_eq_some_iff.mp h).2.1
    cases timer <;> exact hrunning
  simp [ticks, succeeds_of_carriedOut h, hstatus]

theorem toNat_value_of_load {t : Transition} {timer : Timer} {x : Register}
    (h : t.carriedOut = some (timer.load x)) :
    (timer.value t.after).toNat = (t.before.reg x).toNat - 1 := by
  rw [toNat_value_of_succeeds (succeeds_of_carriedOut h), ticks_of_load h, h]
  simp only [Timer.next_load, if_true]

theorem toNat_value_of_unloaded {t : Transition} {timer : Timer}
    (hreset : t.command ≠ .reset)
    (hload : ∀ x, t.carriedOut ≠ some (timer.load x)) :
    (timer.value t.after).toNat =
      (timer.value t.before).toNat - if t.ticks then 1 else 0 := by
  cases hsucceeds : t.succeeds with
  | false => simp [value_of_not_succeeds hreset hsucceeds, ticks, hsucceeds]
  | true =>
      rw [toNat_value_of_succeeds hsucceeds]
      cases hcarried : t.carriedOut with
      | none => rfl
      | some instruction =>
          have hother : ∀ x, instruction ≠ timer.load x := by
            rintro x rfl
            exact hload x hcarried
          simp only [Timer.next_of_other timer t.before hother]

end Transition

/-! ## Runs -/

namespace Machine

theorem toNat_value_after {m : Machine} {timer : Timer} {past : List Command}
    (h : m.Unloaded timer past) :
    (timer.value (m.after past)).toNat =
      (timer.value m).toNat - (m.history past).countP Transition.ticks := by
  induction past with
  | nil => rfl
  | cons command earlier ih =>
      let t : Transition := ⟨m.after earlier, command⟩
      rcases h with ⟨hreset, hload⟩
      have hother : command ≠ .reset := fun heq => hreset (heq ▸ List.mem_cons_self)
      have hearlier := ih ⟨fun hmem => hreset (List.mem_cons_of_mem _ hmem),
        fun t ht => hload t (.tail _ ht)⟩
      have hstep : (timer.value (m.after (command :: earlier))).toNat = _ :=
        t.toNat_value_of_unloaded hother (hload t (.head _))
      rw [hstep, hearlier, history, List.countP_cons, Nat.sub_sub]

theorem countP_ticks {transitions : List Transition}
    (h : ∀ t ∈ transitions, t.command = .step →
      t.before.dialect.timersWhileWaiting = true) :
    transitions.countP Transition.ticks =
      transitions.countP Transition.succeeds := by
  apply List.countP_congr
  intro t ht
  simp only [Transition.ticks, Bool.and_eq_true, Bool.or_eq_true,
    and_iff_left_iff_imp]
  intro hsucceeds
  exact .inr (h t ht (Transition.succeeds_iff.mp hsucceeds).1)

theorem reg_of_readDelay {m : Machine} {y : Register}
    (h : Transition.carriedOut ⟨m, .step⟩ = some (.readDelay y)) :
    m.step.machine.reg y = m.delay := by
  have hafter : m.step.machine = _ := Transition.after_of_carriedOut h
  rw [hafter, endStep_eq, effect_eq]
  exact reg_setReg_self m y m.delay

theorem soundActive_iff (m : Machine) :
    m.soundActive = true ↔ 0 < m.sound.toNat := by
  simp [soundActive, UInt8.lt_iff_toNat_lt]

/--
A timer is counted down once in every successful step, unless the step leaves the
machine waiting under a dialect that stops the timers, and by nothing else.  The
step that loads it counts it down as well.  Over a run that does not load it, it
falls by the number of steps that count; if the timers never stop, this is the
number of successful steps, and an instruction that reads the delay timer finds
there what was loaded less the number of steps since.  A tone sounds as long as
the sound timer has not run out.
-/
theorem timers_count_steps (timer : Timer) :
    (∀ t : Transition, t.command ≠ .reset → t.succeeds = false →
      timer.value t.after = timer.value t.before) ∧
    (∀ t : Transition, t.succeeds = true →
      (∀ x, t.carriedOut ≠ some (timer.load x)) →
      (timer.value t.after).toNat =
        if t.after.status = .running ∨ t.before.dialect.timersWhileWaiting = true
        then (timer.value t.before).toNat - 1 else (timer.value t.before).toNat) ∧
    (∀ (t : Transition) (x : Register), t.carriedOut = some (timer.load x) →
      (timer.value t.after).toNat = (t.before.reg x).toNat - 1) ∧
    (∀ (m : Machine) (past : List Command), m.Unloaded timer past →
      (timer.value (m.after past)).toNat =
        (timer.value m).toNat - (m.history past).countP Transition.ticks) ∧
    (∀ (m : Machine) (x : Register) (past : List Command),
      Transition.carriedOut ⟨m, .step⟩ = some (timer.load x) →
      m.step.machine.Unloaded timer past →
      (∀ t ∈ m.step.machine.history past, t.command = .step →
        t.before.dialect.timersWhileWaiting = true) →
      let here := m.step.machine.after past
      let steps := (m.step.machine.history past).countP Transition.succeeds + 1
      (timer.value here).toNat = (m.reg x).toNat - steps ∧
      ∀ y, timer = .delay →
        Transition.carriedOut ⟨here, .step⟩ = some (.readDelay y) →
        (here.step.machine.reg y).toNat = (m.reg x).toNat - steps) ∧
    ∀ m : Machine, m.soundActive = true ↔ 0 < m.sound.toNat := by
  refine ⟨?_, ?_, ?_, ?_, ?_, soundActive_iff⟩
  · intro t hreset hfails
    exact t.value_of_not_succeeds hreset hfails timer
  · intro t hsucceeds hload
    have hreset : t.command ≠ .reset := by
      rw [(Transition.succeeds_iff.mp hsucceeds).1]
      simp
    rw [t.toNat_value_of_unloaded hreset hload, Transition.ticks, hsucceeds]
    simp only [Bool.true_and, Bool.or_eq_true, decide_eq_true_eq]
    split <;> rfl
  · intro t x
    exact Transition.toNat_value_of_load
  · intro m past
    exact toNat_value_after
  · intro m x past hload hunloaded hticks here steps
    have hloaded : (timer.value m.step.machine).toNat = (m.reg x).toNat - 1 :=
      Transition.toNat_value_of_load hload
    have hvalue : (timer.value here).toNat = (m.reg x).toNat - steps := by
      rw [toNat_value_after hunloaded, hloaded, countP_ticks hticks, Nat.sub_sub,
        Nat.add_comm 1]
    refine ⟨hvalue, ?_⟩
    rintro y rfl hread
    rw [reg_of_readDelay hread]
    exact hvalue

theorem timers_count_steps_read :
    let m := (boot {} (.ofSeed 0)).machine.after
      [.step, .load [0x60, 0x07, 0xF0, 0x15, 0x12, 0x08, 0x00, 0x00, 0xF1, 0x0A,
        0xF2, 0x07]]
    let past : List Command := [.step, .setKey 0x3 true, .step]
    let here := m.step.machine.after past
    Transition.carriedOut ⟨m, .step⟩ = some (.setDelay 0) ∧
    m.step.machine.Unloaded .delay past ∧
    Transition.carriedOut ⟨here, .step⟩ = some (.readDelay 2) ∧
    (here.step.machine.reg 2).toNat = 4 := by
  intro m past here
  have hfacts : (Transition.carriedOut ⟨m, .step⟩ = some (.setDelay 0) ∧
    (m.reg 0).toNat = 7) ∧
      (.reset ∉ past ∧ ∀ t ∈ m.step.machine.history past, ∀ x,
        t.carriedOut ≠ some (Timer.delay.load x)) ∧
      (∀ t ∈ m.step.machine.history past, t.command = .step →
        t.before.dialect.timersWhileWaiting = true) ∧
      (m.step.machine.history past).countP Transition.succeeds = 2 ∧
      Transition.carriedOut ⟨here, .step⟩ = some (.readDelay 2) := by
    decide +kernel
  rcases hfacts with ⟨⟨hload, hreg⟩, hunloaded, hticks, hsteps, hread⟩
  rcases timers_count_steps .delay with ⟨-, -, -, -, hcount, -⟩
  have hvalue := (hcount m 0 past hload hunloaded hticks).2 2 rfl hread
  rw [hsteps, hreg] at hvalue
  exact ⟨hload, hunloaded, hread, hvalue⟩

end Machine

end Chip8
