import Chip8.Proofs.Machine.CarriedOut
import Chip8.Proofs.Storage.Layout

/-!
# The keypad as a record of its past

Whoever drives a machine presses and releases its keys, one at a time or all at
once, and a reset releases them.  Nothing else touches a key: a machine only looks
at them.  So a key is as the latest command left it that touched it, whatever the
machine did in between.
-/

namespace Chip8

/-! ## Keys and their codes -/

theorem Key.ofByte_eq_iff (code other : UInt8) :
    Key.ofByte code = Key.ofByte other ↔ code &&& 0xF = other &&& 0xF := by
  rw [Fin.ext_iff, ← Storage.toNat_keyCode, ← Storage.toNat_keyCode,
    UInt8.toNat_inj]

theorem Key.ofByte_surjective (k : Key) : ∃ code, Key.ofByte code = k := by
  refine ⟨UInt8.ofNat k, ?_⟩
  ext
  simp [ofByte]

theorem Keypad.ext_code {pad pad' : Keypad}
    (h : ∀ code, pad.isPressed (.ofByte code) = pad'.isPressed (.ofByte code)) :
    pad = pad' := by
  ext k
  obtain ⟨code, rfl⟩ := Key.ofByte_surjective k
  exact h code

theorem Keypad.set_comm (pad : Keypad) {i j : Key} (h : i ≠ j) (a b : Bool) :
    (pad.set i a).set j b = (pad.set j b).set i a := by
  ext k
  simp only [isPressed_set]
  by_cases hi : k = i
  · simp [hi, h]
  · simp [hi]

theorem Keypad.firstPressed_eq_none_iff_code (pad : Keypad) :
    pad.firstPressed = none ↔ ∀ code, pad.isPressed (.ofByte code) = false := by
  rw [firstPressed_eq_none_iff]
  constructor
  · intro h code
    exact h (.ofByte code)
  · intro h k
    obtain ⟨code, rfl⟩ := Key.ofByte_surjective k
    exact h code

/-! ## One command -/

/-- What a command makes of the key of a code, if it touches that key. -/
def Command.touch? (code : UInt8) : Command → Option Bool
  | .setKey other down => if other &&& 0xF = code &&& 0xF then some down else none
  | .setKeys keypad => some (keypad.isPressed (.ofByte code))
  | .reset => some false
  | .step => none
  | .load _ => none
  | .clearRedraw => none
  | .takeFrame => none
  | .setSeed _ => none
  | .setDialect _ => none

def Command.setsKeys : Command → Bool
  | .setKey _ _ => true
  | .setKeys _ => true
  | _ => false

namespace Machine

theorem keypad_step (m : Machine) : m.step.machine.keypad = m.keypad := by
  let t : Transition := ⟨m, .step⟩
  cases hcarried : t.carriedOut with
  | none =>
      rcases Transition.idle_step hcarried with
        ⟨pc, registers, delay, sound, status, hstep⟩
      rw [hstep]
  | some instruction =>
      have hafter : m.step.machine = (m.effect instruction).endStep :=
        Transition.after_of_carriedOut hcarried
      rw [hafter, endStep_eq, effect_eq]

theorem keypad_load (m : Machine) (program : List UInt8) :
    (m.perform (.load program)).machine.keypad = m.keypad := by
  rcases m.perform_load_eq program with ⟨memory, hload⟩
  rw [hload]

theorem isPressed_perform (m : Machine) (command : Command) (code : UInt8) :
    (m.perform command).machine.keypad.isPressed (.ofByte code) =
      (command.touch? code).getD (m.keypad.isPressed (.ofByte code)) := by
  cases command with
  | step =>
      change m.step.machine.keypad.isPressed _ = _
      rw [keypad_step]
      rfl
  | load program =>
      rw [keypad_load]
      rfl
  | setKey other down =>
      change (m.keypad.set (.ofByte other) down).isPressed (.ofByte code) = _
      simp only [Keypad.isPressed_set, Key.ofByte_eq_iff, Command.touch?, eq_comm]
      split <;> rfl
  | reset => exact Keypad.isPressed_released _
  | _ => rfl

theorem keypad_perform_of_untouched (m : Machine) {command : Command}
    (h : ∀ code, command.touch? code = none) :
    (m.perform command).machine.keypad = m.keypad := by
  apply Keypad.ext_code
  intro code
  rw [isPressed_perform, h code, Option.getD_none]

/-! ## Runs -/

theorem isPressed_after (m : Machine) (past : List Command) (code : UInt8) :
    (m.after past).keypad.isPressed (.ofByte code) =
      (past.findSome? (Command.touch? code)).getD
        (m.keypad.isPressed (.ofByte code)) := by
  induction past with
  | nil => rfl
  | cons command earlier ih =>
      rw [after, isPressed_perform, ih, List.findSome?_cons]
      cases command.touch? code <;> rfl

theorem SwitchedOn.keypad_eq {m : Machine} (h : m.SwitchedOn) :
    m.keypad = .released := by
  rcases h.eq_powerOn with ⟨dialect, seed, memory, rfl⟩
  rfl

theorem after_setKey_comm (m : Machine) {i j : UInt8} (h : i &&& 0xF ≠ j &&& 0xF)
    (a b : Bool) :
    m.after [.setKey i a, .setKey j b] = m.after [.setKey j b, .setKey i a] := by
  have hkeys : Key.ofByte j ≠ Key.ofByte i := mt (Key.ofByte_eq_iff j i).mp h.symm
  simp only [after, perform, setKey]
  rw [m.keypad.set_comm hkeys b a]

theorem after_of_setsKeys (m : Machine) {past : List Command}
    (h : ∀ command ∈ past, command.setsKeys = true) :
    m.after past = { m with keypad := (m.after past).keypad } := by
  induction past with
  | nil => rfl
  | cons command earlier ih =>
      obtain ⟨hcommand, hearlier⟩ := List.forall_mem_cons.mp h
      rw [after, ih hearlier]
      cases command with
      | setKey code down => rfl
      | setKeys keypad => rfl
      | _ => cases hcommand

theorem after_setKeys_of_setsKeys (m : Machine) {past : List Command}
    (h : ∀ command ∈ past, command.setsKeys = true) (keypad : Keypad) :
    m.after (.setKeys keypad :: past) = m.after [.setKeys keypad] := by
  rw [after, m.after_of_setsKeys h]
  rfl

theorem keypad_after_setKeys (m other : Machine) (later : List Command)
    (keypad : Keypad) :
    (m.after (later ++ [.setKeys keypad])).keypad =
      (other.after (later ++ [.setKeys keypad])).keypad := by
  apply Keypad.ext_code
  intro code
  rw [after_append, after_append, isPressed_after (m.after _),
    isPressed_after (other.after _)]
  rfl

/--
The last command that touches a key decides whether it is down.  After every run, a
code names a key that is down exactly if the latest command that touched the key of
its lowest nibble left it so; a key that no command touched is up, as it is after a
reset.  No command but a reset and those that set keys has any effect on the keypad.
The first key that is down is the lowest one.  Setting two keys can be done in
either order, if their codes differ in the lowest nibble.  Setting all keys undoes
the commands that set keys just before it, and makes the keypad forget all that came
earlier.
-/
theorem keys_are_as_last_set {start : Machine} (hstart : start.SwitchedOn)
    (past : List Command) :
    let m := start.after past
    (∀ code, m.keypad.isPressed (.ofByte code) =
      (past.findSome? (Command.touch? code)).getD false) ∧
    (∀ command, command.setsKeys = false → command ≠ .reset →
      (m.perform command).machine.keypad = m.keypad) ∧
    (m.keypad.firstPressed = none ↔
      ∀ code, m.keypad.isPressed (.ofByte code) = false) ∧
    (∀ key, m.keypad.firstPressed = some key ↔
      m.keypad.isPressed key = true ∧ ∀ k, k < key → m.keypad.isPressed k = false) ∧
    (∀ i j a b, i &&& 0xF ≠ j &&& 0xF →
      m.after [.setKey i a, .setKey j b] = m.after [.setKey j b, .setKey i a]) ∧
    (∀ keypad keys, (∀ command ∈ keys, command.setsKeys = true) →
      m.after (.setKeys keypad :: keys) = m.after [.setKeys keypad]) ∧
    ∀ keypad later, ∀ other : Machine,
      (m.after (later ++ [.setKeys keypad])).keypad =
      (other.after (later ++ [.setKeys keypad])).keypad := by
  intro m
  refine ⟨?_, ?_, m.keypad.firstPressed_eq_none_iff_code,
    m.keypad.firstPressed_eq_some_iff, ?_, ?_, ?_⟩
  · intro code
    rw [isPressed_after, hstart.keypad_eq, Keypad.isPressed_released]
  · intro command hsets hreset
    apply keypad_perform_of_untouched
    intro code
    cases command with
    | setKey other down => cases hsets
    | setKeys keypad => cases hsets
    | reset => exact absurd rfl hreset
    | _ => rfl
  · intro i j a b h
    exact m.after_setKey_comm h a b
  · intro keypad keys hkeys
    exact m.after_setKeys_of_setsKeys hkeys keypad
  · intro keypad later other
    exact m.keypad_after_setKeys other later keypad

theorem keys_are_as_last_set_aliased :
    let start := (boot {} (.ofSeed 0)).machine
    let past : List Command :=
      [.setKey 0x35 true, .step, .setKey 0xF7 false, .load [0x12, 0x00],
        .setKey 0xC true, .setKey 0x27 true, .setKeys (.ofFn fun k => k = 0x3)]
    start.SwitchedOn ∧
    (start.after past).keypad.isPressed (.ofByte 0x87) = false ∧
    (start.after past).keypad.isPressed (.ofByte 0x95) = true ∧
    (start.after past).keypad.firstPressed = some 0x3 ∧
    start.after (.setKey 0x11 true :: .setKey 0x20 false :: past) =
      start.after (.setKey 0x20 false :: .setKey 0x11 true :: past) := by
  intro start past
  have hstart : start.SwitchedOn := .bare {} 0
  rcases keys_are_as_last_set hstart past with
    ⟨hlatest, -, -, hlowest, hcommute, -, -⟩
  refine ⟨hstart, ?_, ?_, (hlowest 0x3).mpr ?_,
    hcommute 0x11 0x20 true false (by decide)⟩
  · rw [hlatest]
    decide
  · rw [hlatest]
    decide
  · decide +kernel

end Machine

end Chip8
