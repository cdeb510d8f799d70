import Chip8.Proofs.Machine.CarriedOut
import Chip8.Proofs.Screen.Parity

/-!
# The screen as a record of its past

A reset and a clearing of the screen make it blank; after that only sprites
change it.  So a pixel is lit exactly when an odd number of bits have been aimed
at it since.
-/

namespace Chip8

namespace Transition

def clears (t : Transition) : Bool :=
  decide (t.command = .reset) || decide (t.carriedOut = some .clearScreen)

/-- How many bits a successful drawing aimed at `p`. -/
def hitCount (t : Transition) (p : Pixel) : Nat :=
  match t.carriedOut with
  | some (.draw x y rows) =>
      Sprite.hitCount t.before.memory t.before.index.toNat rows
        (t.before.reg x).toNat (t.before.reg y).toNat p
  | _ => 0

end Transition

namespace Machine

/-- The commands since the screen was last cleared, if it was, latest first. -/
def sinceClear (start : Machine) (past : List Command) : List Transition :=
  (start.history past).takeWhile fun t => !t.clears

def hitCount (start : Machine) (past : List Command) (p : Pixel) : Nat :=
  ((start.sinceClear past).map fun t => t.hitCount p).sum

/-! ## One command -/

theorem isLit_nextDisplay {m : Machine} {instruction : Instruction}
    (h : instruction ≠ .clearScreen) (p : Pixel) :
    (m.nextDisplay instruction).isLit p =
      (m.display.isLit p ^^ decide (Odd (match instruction with
        | .draw x y rows =>
            Sprite.hitCount m.memory m.index.toNat rows (m.reg x).toNat
            (m.reg y).toNat p
        | _ => 0))) := by
  cases instruction with
  | clearScreen => exact absurd rfl h
  | draw x y rows => exact m.display.isLit_draw m.memory m.index.toNat rows _ _ p
  | _ => simp [nextDisplay]

end Machine

namespace Transition

theorem hitCount_of_not_carriedOut {t : Transition} (h : t.carriedOut = none)
    (p : Pixel) :
    t.hitCount p = 0 := by
  simp [hitCount, h]

theorem carriedOut_step (m : Machine) :
    (∃ instruction, carriedOut ⟨m, .step⟩ = some instruction ∧
      m.step.machine.display = m.nextDisplay instruction) ∨
    (carriedOut ⟨m, .step⟩ = none ∧ m.step.machine.display = m.display) := by
  cases hcarried : carriedOut ⟨m, .step⟩ with
  | some instruction =>
      left
      have hafter : m.step.machine = _ := after_of_carriedOut hcarried
      refine ⟨instruction, rfl, ?_⟩
      rw [hafter, Machine.endStep_eq, Machine.effect_eq]
  | none =>
      right
      rcases idle_step hcarried with ⟨pc, registers, delay, sound, status, hstep⟩
      refine ⟨rfl, ?_⟩
      rw [hstep]

theorem display_of_other {t : Transition} (hstep : t.command ≠ .step)
    (hreset : t.command ≠ .reset) : t.after.display = t.before.display := by
  rcases t.before.perform_of_other hstep hreset with
    ⟨memory, redraw, keypad, dialect, random, hother⟩
  rw [after, response, hother]

theorem display_of_clears {t : Transition} (h : t.clears = true) :
    t.after.display = .blank := by
  obtain ⟨before, command⟩ := t
  simp only [clears, Bool.or_eq_true, decide_eq_true_eq] at h
  rcases h with rfl | hclear
  · rfl
  · by_cases hcommand : command = .step
    · subst hcommand
      rcases carriedOut_step before with
        ⟨instruction, hcarried, hdisplay⟩ | ⟨hnone, -⟩
      · rw [hcarried] at hclear
        cases hclear
        exact hdisplay
      · rw [hnone] at hclear
        cases hclear
    · rw [carriedOut_of_ne_step hcommand] at hclear
      cases hclear

theorem isLit_after {t : Transition} (h : t.clears = false) (p : Pixel) :
    t.after.display.isLit p =
      (t.before.display.isLit p ^^ decide (Odd (t.hitCount p))) := by
  obtain ⟨before, command⟩ := t
  simp only [clears, Bool.or_eq_false_iff, decide_eq_false_iff_not] at h
  rcases h with ⟨hreset, hclear⟩
  by_cases hcommand : command = .step
  · subst hcommand
    change before.step.machine.display.isLit p = _
    rcases carriedOut_step before with
      ⟨instruction, hcarried, hdisplay⟩ | ⟨hnone, hdisplay⟩
    · have hnot : instruction ≠ .clearScreen := by
        rintro rfl
        exact hclear hcarried
      rw [hdisplay, Machine.isLit_nextDisplay hnot, hitCount, hcarried]
      cases instruction <;> rfl
    · rw [hdisplay, hitCount_of_not_carriedOut hnone]
      simp
  · have hnone := carriedOut_of_ne_step (t := ⟨before, command⟩) hcommand
    rw [display_of_other hcommand hreset, hitCount_of_not_carriedOut hnone]
    simp

theorem display_of_idle {t : Transition} (hclears : t.clears = false)
    (hdraws : ∀ x y rows, t.carriedOut ≠ some (.draw x y rows)) :
    t.after.display = t.before.display := by
  apply Display.ext_isLit
  intro p
  have hcount : t.hitCount p = 0 := by
    unfold hitCount
    split
    next x y rows hdraw => exact absurd hdraw (hdraws x y rows)
    next => rfl
  rw [isLit_after hclears, hcount]
  simp

end Transition

/-! ## Runs -/

namespace Machine

theorem isLit_after_eq {start : Machine} (hblank : start.display = .blank)
    (past : List Command) (p : Pixel) :
    (start.after past).display.isLit p =
      decide (Odd (start.hitCount past p)) := by
  induction past with
  | nil => simp [after, hblank, hitCount, sinceClear, history]
  | cons command earlier ih =>
      let t : Transition := ⟨start.after earlier, command⟩
      have hafter : start.after (command :: earlier) = t.after := rfl
      cases hclears : t.clears with
      | true =>
          have hcount : start.hitCount (command :: earlier) p = 0 := by
            simp [hitCount, sinceClear, history, t, hclears]
          rw [hafter, Transition.display_of_clears hclears, hcount]
          simp
      | false =>
          have hcount : start.hitCount (command :: earlier) p =
              t.hitCount p + start.hitCount earlier p := by
            simp [hitCount, sinceClear, history, t, hclears]
          rw [hafter, Transition.isLit_after hclears, hcount, decide_odd_add, ← ih,
            Bool.xor_comm]

/--
A pixel is lit exactly when, since the screen was last blank, successful drawings
have aimed an odd number of bits at it.  Everything else, failed steps included,
leaves the screen alone.
-/
theorem lit_iff_odd_hitCount {start : Machine} (hstart : start.SwitchedOn)
    (past : List Command) :
    (∀ p, (start.after past).display.isLit p = true ↔ Odd (start.hitCount past p)) ∧
    ∀ t ∈ start.history past, t.clears = false →
      (∀ x y rows, t.carriedOut ≠ some (.draw x y rows)) →
      t.after.display = t.before.display := by
  constructor
  · intro p
    rcases hstart.eq_powerOn with ⟨dialect, seed, memory, rfl⟩
    rw [isLit_after_eq rfl, decide_eq_true_iff]
  · intro t _
    exact Transition.display_of_idle

theorem lit_iff_odd_hitCount_wrapped :
    let start := (boot {} (.ofSeed 0)).machine
    let past : List Command :=
      [.step, .step, .step, .load [0x60, 0x3E, 0xA0, 0x50, 0xD0, 0x05]]
    start.SwitchedOn ∧ start.hitCount past ⟨1, 0⟩ = 1 ∧
    (start.after past).display.isLit ⟨1, 0⟩ = true := by
  intro start past
  have hcount : start.hitCount past ⟨1, 0⟩ = 1 := by decide +kernel
  refine ⟨.bare {} 0, hcount, ?_⟩
  rw [(lit_iff_odd_hitCount (.bare {} 0) past).1, hcount]
  decide

end Machine

end Chip8
