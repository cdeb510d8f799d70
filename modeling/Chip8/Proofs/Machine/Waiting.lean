import Chip8.Proofs.Machine.Bounds
import Chip8.Proofs.Machine.Statuses
import Chip8.Proofs.Machine.Timers

/-!
# Waiting for a key

A machine that waits for a key may be stepped any number of times while keys go down
and up between the steps.  As long as no key is down at a step it only counts its
timers down, if the dialect lets it, so what it is like depends on the number of
steps alone.  The first step that finds keys down takes the lowest of them.
-/

namespace Chip8

def Command.attends : Command → Bool
  | .step => true
  | .setKeys _ => true
  | .setKey _ _ => true
  | .clearRedraw => true
  | .takeFrame => true
  | _ => false

namespace Machine

/-- Nothing but steps, keys and frames, and at none of the steps a key is down. -/
structure LeftWaiting (m : Machine) (past : List Command) : Prop where
  attends : ∀ command ∈ past, command.attends = true
  no_key : ∀ t ∈ m.history past, t.command = .step → t.before.NoKey

structure StillWaiting (m : Machine) (register : Register) (past : List Command) :
    Prop where
  succeeds : ∀ t ∈ m.history past, t.command = .step →
    t.response.reply = .stepped (.ok ())
  awaiting : (m.after past).status = .awaitingKey register
  kept : ∃ keypad redraw delay sound, m.after past =
    { m with keypad := keypad, redraw := redraw, delay := delay, sound := sound }
  timers : ∀ timer : Timer, (timer.value (m.after past)).toNat =
    (timer.value m).toNat - if m.dialect.timersWhileWaiting then past.count .step
      else 0

structure TakesKey (m : Machine) (register : Register) (key : Key) : Prop where
  pressed : m.keypad.isPressed key = true
  lowest : ∀ k, m.keypad.isPressed k = true → key ≤ k
  succeeds : m.step.result = .ok ()
  changes : ∃ delay sound, m.step.machine =
    { m with
      pc := m.pc + 2
      registers := (m.setReg register (UInt8.ofNat key)).registers
      status := .running
      delay := delay
      sound := sound }
  pc : m.step.machine.pc.toNat = m.pc.toNat + 2
  timers : ∀ timer : Timer,
    (timer.value m.step.machine).toNat = (timer.value m).toNat - 1

/-! ## One command -/

theorem perform_of_waiting {m : Machine} {register : Register}
    (hawaiting : m.status = .awaitingKey register) {command : Command}
    (hattends : command.attends = true) (hkey : command = .step → m.NoKey) :
    ∃ keypad redraw delay sound, (m.perform command).machine =
      { m with
        keypad := keypad, redraw := redraw, delay := delay, sound := sound } := by
  cases command with
  | step =>
      have hnone := (Keypad.firstPressed_eq_none_iff _).mpr (hkey rfl)
      have hstep : (m.perform .step).machine = m.endStep := by
        simp only [perform, step_of_parked hawaiting hnone]
      rw [hstep, endStep_eq]
      exact ⟨_, _, _, _, rfl⟩
  | setKeys | setKey | clearRedraw | takeFrame => exact ⟨_, _, _, _, rfl⟩
  | reset | load | setSeed | setDialect => cases hattends

/-! ## A wait -/

theorem countP_step (m : Machine) (past : List Command) :
    (m.history past).countP (fun t => decide (t.command = .step)) =
      past.count .step := by
  induction past with
  | nil => rfl
  | cons command earlier ih => simp [history, List.countP_cons, List.count_cons, ih]

theorem LeftWaiting.of_cons {m : Machine} {command : Command}
    {earlier : List Command}
    (h : m.LeftWaiting (command :: earlier)) : m.LeftWaiting earlier :=
  ⟨fun _ hmem => h.attends _ (.tail _ hmem), fun t ht => h.no_key t (.tail _ ht)⟩

section

variable {m : Machine} {register : Register}
  (hawaiting : m.status = .awaitingKey register)
include hawaiting

theorem kept_of_leftWaiting {past : List Command} (h : m.LeftWaiting past) :
    ∃ keypad redraw delay sound, m.after past =
      { m with
        keypad := keypad, redraw := redraw, delay := delay, sound := sound } := by
  induction past with
  | nil => exact ⟨_, _, _, _, rfl⟩
  | cons command earlier ih =>
      rcases ih h.of_cons with ⟨keypad, redraw, delay, sound, hearlier⟩
      have hstill : (m.after earlier).status = .awaitingKey register := by
        rw [hearlier]
        exact hawaiting
      rcases perform_of_waiting hstill (h.attends _ (.head _))
        (h.no_key _ (.head _)) with
        ⟨keypad', redraw', delay', sound', hperform⟩
      refine ⟨keypad', redraw', delay', sound', ?_⟩
      rw [after, hperform, hearlier]

theorem awaiting_of_leftWaiting {past : List Command} (h : m.LeftWaiting past) :
    (m.after past).status = .awaitingKey register := by
  rcases kept_of_leftWaiting hawaiting h with ⟨keypad, redraw, delay, sound, hkept⟩
  rw [hkept]
  exact hawaiting

theorem before_of_leftWaiting {past : List Command} (h : m.LeftWaiting past) :
    ∀ t ∈ m.history past, t.before.status = .awaitingKey register ∧
      t.before.dialect = m.dialect := by
  induction past with
  | nil =>
      intro t ht
      cases ht
  | cons command earlier ih =>
      intro t ht
      rcases List.mem_cons.mp ht with rfl | hearlier
      · rcases kept_of_leftWaiting hawaiting h.of_cons with ⟨_, _, _, _, hkept⟩
        refine ⟨awaiting_of_leftWaiting hawaiting h.of_cons, ?_⟩
        change (m.after earlier).dialect = _
        rw [hkept]
      · exact ih h.of_cons t hearlier

theorem unloaded_of_leftWaiting {past : List Command} (h : m.LeftWaiting past)
    (timer : Timer) :
    m.Unloaded timer past := by
  constructor
  · intro hreset
    cases h.attends _ hreset
  · intro t ht x hcarried
    have hrunning : t.before.status ≠ .running := by
      rw [(before_of_leftWaiting hawaiting h t ht).1]
      simp
    cases (Transition.carriedOut_of_not_running hrunning t.command).symm.trans
      hcarried

theorem step_of_leftWaiting {past : List Command} (h : m.LeftWaiting past) :
    ∀ t ∈ m.history past, t.command = .step →
    t.before.step = ⟨t.before.endStep, .ok (), []⟩ := by
  intro t ht hstep
  have hnone := (Keypad.firstPressed_eq_none_iff _).mpr (h.no_key t ht hstep)
  exact step_of_parked (before_of_leftWaiting hawaiting h t ht).1 hnone

theorem ticks_of_leftWaiting {past : List Command} (h : m.LeftWaiting past) :
    (m.history past).countP Transition.ticks =
      if m.dialect.timersWhileWaiting then past.count .step else 0 := by
  have hbefore := before_of_leftWaiting hawaiting h
  have hstep := step_of_leftWaiting hawaiting h
  split
  next hcounts =>
    have hticks : ∀ t ∈ m.history past, t.command = .step →
        t.before.dialect.timersWhileWaiting = true := by
      intro t ht _
      rw [(hbefore t ht).2]
      exact hcounts
    rw [countP_ticks hticks, ← countP_step]
    apply List.countP_congr
    intro t ht
    rw [Transition.succeeds_iff, decide_eq_true_eq, and_iff_left_iff_imp]
    intro hcommand
    rw [hstep t ht hcommand]
  next hfrozen =>
    rw [List.countP_eq_zero]
    intro t ht hticks
    obtain ⟨n, command⟩ := t
    simp only [Transition.ticks, Bool.and_eq_true, Bool.or_eq_true,
      decide_eq_true_eq] at hticks
    obtain ⟨rfl, -⟩ := Transition.succeeds_iff.mp hticks.1
    rcases hbefore _ ht with ⟨hstill, hdialect⟩
    have hafter : Transition.after ⟨n, .step⟩ = n.endStep := by
      change n.step.machine = _
      rw [hstep _ ht rfl]
    rw [hafter, endStep_eq, hstill, hdialect] at hticks
    simp [hfrozen] at hticks

theorem stillWaiting {past : List Command} (h : m.LeftWaiting past) :
    m.StillWaiting register past where
  succeeds := by
    intro t ht hcommand
    obtain ⟨n, command⟩ := t
    cases hcommand
    change Reply.stepped n.step.result = _
    rw [step_of_leftWaiting hawaiting h _ ht rfl]
  awaiting := awaiting_of_leftWaiting hawaiting h
  kept := kept_of_leftWaiting hawaiting h
  timers := by
    intro timer
    rw [toNat_value_after (unloaded_of_leftWaiting hawaiting h timer),
      ticks_of_leftWaiting hawaiting h]

theorem after_of_equal_waits {past other : List Command} (h : m.LeftWaiting past)
    (hother : m.LeftWaiting other) (hcount : other.count .step = past.count .step) :
    ∃ keypad redraw, m.after other =
      { m.after past with keypad := keypad, redraw := redraw } := by
  have htimer : ∀ timer : Timer, timer.value (m.after other) =
      timer.value (m.after past) := by
    intro timer
    apply UInt8.toNat_inj.mp
    rw [(stillWaiting hawaiting hother).timers, (stillWaiting hawaiting h).timers,
      hcount]
  have hdelay := htimer .delay
  have hsound := htimer .sound
  rcases kept_of_leftWaiting hawaiting h with ⟨_, _, delay, sound, hkept⟩
  rcases kept_of_leftWaiting hawaiting hother with ⟨keypad, redraw, _, _, hkept'⟩
  rw [hkept, hkept'] at hdelay hsound
  refine ⟨keypad, redraw, ?_⟩
  rw [hkept, hkept']
  simp only [Timer.value] at hdelay hsound
  rw [hdelay, hsound]

theorem takesKey (hpc : m.pc.toNat ≤ 0xFFE) (hkey : ¬m.NoKey) :
    ∃ key, m.TakesKey register key := by
  cases hfirst : m.keypad.firstPressed with
  | none => exact absurd ((Keypad.firstPressed_eq_none_iff _).mp hfirst) hkey
  | some key =>
      have hstep := step_of_resumed hawaiting hfirst
      rcases (Keypad.firstPressed_eq_some_iff _ _).mp hfirst with ⟨hpressed, hlower⟩
      refine ⟨key, hpressed, ?_, ?_, ?_, ?_, ?_⟩
      · intro k hk
        refine Fin.not_lt.mp fun hlt => ?_
        cases (hlower k hlt).symm.trans hk
      · rw [hstep]
      · rw [hstep, endStep_eq]
        exact ⟨_, _, rfl⟩
      · rw [hstep, endStep_eq]
        change (m.pc + 2).toNat = _
        rw [UInt16.toNat_add]
        have htwo : (2 : UInt16).toNat = 2 := rfl
        omega
      · intro timer
        rw [hstep, Timer.toNat_value_endStep, endStep_eq]
        cases timer <;> rfl

end

/--
A wait loses nothing and ends with the lowest key.  While a machine is only stepped,
with no key down at the steps, every step succeeds and the machine goes on waiting
for the same register, as it was but for keys, frame and timers; a timer falls by
the number of steps, or stays under a dialect that stops the timers.  What keys did
between the steps makes no difference.  The first step with a key down takes the
lowest, goes on behind the wait and counts the timers down once under every dialect.
-/
theorem wait_ends_with_lowest_key {m : Machine} (hm : m.Reachable)
    {register : Register}
    (hawaiting : m.status = .awaitingKey register) {past : List Command}
    (h : m.LeftWaiting past) :
    m.StillWaiting register past ∧
    (∀ other, m.LeftWaiting other → other.count .step = past.count .step →
      ∃ keypad redraw, m.after other =
        { m.after past with keypad := keypad, redraw := redraw }) ∧
    (¬(m.after past).NoKey → ∃ key, (m.after past).TakesKey register key) := by
  refine ⟨stillWaiting hawaiting h, ?_, ?_⟩
  · intro other
    exact after_of_equal_waits hawaiting h
  · intro hkey
    have hstill := awaiting_of_leftWaiting hawaiting h
    exact takesKey hstill
      ((reachable_after hm past).bounded.parked_le register hstill) hkey

/-- Keys come and go unseen; the last step finds two down and takes the lower. -/
theorem wait_ends_with_lowest_key_unseen :
    let m := (boot {} (.ofSeed 0)).machine.after [.step, .load [0xF4, 0x0A]]
    let past : List Command :=
      [.setKey 0x6 true, .setKey 0xB true, .step, .setKey 0x2 false,
        .setKey 0x2 true, .step]
    m.status = .awaitingKey 0x4 ∧ m.LeftWaiting past ∧
    ∃ key, (m.after past).TakesKey 0x4 key ∧ key = 0x6 := by
  intro m past
  have hm : m.Reachable := reachable_after (.start (.bare {} 0)) _
  have hawaiting : m.status = .awaitingKey 0x4 := by decide +kernel
  have hfacts : (∀ command ∈ past, command.attends = true) ∧
      (∀ t ∈ m.history past, t.command = .step →
        ∀ k, t.before.keypad.isPressed k = false) ∧
      (m.after past).keypad.isPressed 0x6 = true ∧
      ∀ k, (m.after past).keypad.isPressed k = true → 0x6 ≤ k := by
    decide +kernel
  rcases hfacts with ⟨hattends, hnone, hpressed, hlowest⟩
  have hleft : m.LeftWaiting past := ⟨hattends, hnone⟩
  rcases wait_ends_with_lowest_key hm hawaiting hleft with ⟨-, -, htakes⟩
  have hkey : ¬(m.after past).NoKey := fun h => by cases (h 0x6).symm.trans hpressed
  rcases htakes hkey with ⟨key, hkeyTaken⟩
  refine ⟨hawaiting, hleft, key, hkeyTaken, ?_⟩
  exact Fin.le_antisymm (hkeyTaken.lowest _ hpressed) (hlowest _ hkeyTaken.pressed)

end Machine

end Chip8
