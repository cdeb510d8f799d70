import Chip8.Proofs.Machine.CarriedOut
import Chip8.Proofs.Screen.Targets

/-!
# Drawing a sprite, from the word to the screen

The drawing instruction takes its rows from memory at `I` and its corner from two
registers, as they are before the flag register is written.  A sprite in memory
has at most fifteen rows, so each pixel is flipped once or not at all, and the
flag register tells whether the drawing has darkened a pixel.
-/

namespace Chip8

namespace Sprite

theorem aimsAt_slice {memory : Memory} {start rows x y : Nat} {p : Pixel} :
    AimsAt (memory.slice start rows) x y p ↔
      ∃ row column, row < rows ∧ column < 8 ∧
        (memory.read (start + row)).toNat.testBit (7 - column) = true ∧
        Pixel.wrap (x + column) (y + row) = p := by
  have hline : ∀ row bits, (memory.slice start rows)[row]? = some bits ↔
      row < rows ∧ memory.read (start + row) = bits := by
    intro row bits
    simp [Memory.slice, List.getElem?_eq_some_iff]
  simp only [AimsAt, hline]
  constructor
  · rintro ⟨row, column, bits, ⟨hrow, rfl⟩, hcolumn, hbit, hp⟩
    exact ⟨row, column, hrow, hcolumn, hbit, hp⟩
  · rintro ⟨row, column, hrow, hcolumn, hbit, hp⟩
    exact ⟨row, column, _, ⟨hrow, rfl⟩, hcolumn, hbit, hp⟩

end Sprite

namespace Machine

/-- Drawn by the word `op`, a set bit of the sprite at `I` lands on `p`. -/
def Targets (m : Machine) (op : Opcode) (p : Pixel) : Prop :=
  ∃ row column, row < op.n.val ∧ column < 8 ∧
    (m.memory.read (m.index.toNat + row)).toNat.testBit (7 - column) = true ∧
    Pixel.wrap ((m.reg op.x).toNat + column) ((m.reg op.y).toNat + row) = p

structure Draws (m : Machine) (op : Opcode) (after : Machine) : Prop where
  hit_once : ∀ p, m.Targets op p →
    Sprite.hitCount m.memory m.index.toNat op.n (m.reg op.x).toNat
      (m.reg op.y).toNat p = 1
  flipped : ∀ p, m.Targets op p → after.display.isLit p = !m.display.isLit p
  kept : ∀ p, ¬m.Targets op p → after.display.isLit p = m.display.isLit p
  flag_eq_one_iff : after.reg flagRegister = 1 ↔
    ∃ p, m.Targets op p ∧ m.display.isLit p = true
  flag_eq_zero_iff : after.reg flagRegister = 0 ↔
    ¬∃ p, m.Targets op p ∧ m.display.isLit p = true
  darkened_iff : (∃ p, m.Targets op p ∧ m.display.isLit p = true) ↔
    ∃ p, m.display.isLit p = true ∧ after.display.isLit p = false
  registers : ∀ r, r ≠ flagRegister → after.reg r = m.reg r
  index : after.index = m.index
  memory : after.memory = m.memory
  pc : after.pc = m.pc + 2
  redraw : after.redraw = true

theorem targets_iff {m : Machine} {op : Opcode} {p : Pixel} :
    m.Targets op p ↔
      Sprite.AimsAt (m.memory.slice m.index.toNat op.n) (m.reg op.x).toNat
        (m.reg op.y).toNat p :=
  Sprite.aimsAt_slice.symm

theorem carriedOut_of_draw {m : Machine} {op : Opcode}
    (hstatus : m.status = .running)
    (hfetch : m.fetch = .ok op) (hfamily : op.family = 0xD)
    (hcells : op.n.val = 0 ∨ m.index.toNat + op.n.val ≤ 4096) :
    Transition.carriedOut ⟨m, .step⟩ = some (.draw op.x op.y op.n) := by
  rw [Transition.carriedOut_eq_some_iff]
  refine ⟨rfl, hstatus, ⟨op, ?_⟩, ?_⟩
  · simp [nextInstruction, hfetch, Instruction.decode, hfamily]
  · exact if_pos hcells

variable {m : Machine} {x y : Register} {rows : Fin 16}
  (h : Transition.carriedOut ⟨m, .step⟩ = some (.draw x y rows))
include h

theorem step_of_draw :
    m.step.machine =
      { m with
        pc := m.pc + 2
        registers := (m.setReg flagRegister
          (flagByte (m.drawing x y rows).collision)).registers
        delay := m.step.machine.delay
        sound := m.step.machine.sound
        display := (m.drawing x y rows).display
        redraw := true } := by
  have hafter : m.step.machine = _ := Transition.after_of_carriedOut h
  rw [hafter, endStep_eq, effect_eq]
  rfl

theorem reg_of_draw (r : Register) :
    m.step.machine.reg r =
      if r = flagRegister then flagByte (m.drawing x y rows).collision
      else m.reg r := by
  rw [step_of_draw h, ← reg_setReg]
  rfl

omit h

theorem length_sprite_le (m : Machine) (op : Opcode) :
    (m.memory.slice m.index.toNat op.n).length ≤ 32 := by
  rw [Memory.length_slice]
  omega

theorem collision_drawing_iff (m : Machine) (op : Opcode) :
    (m.drawing op.x op.y op.n).collision = true ↔
      ∃ p, m.Targets op p ∧ m.display.isLit p = true := by
  simp only [targets_iff]
  exact Display.collision_draw_iff (m.length_sprite_le op) m.display _ _

/--
A drawing succeeds if its sprite is empty or lies in memory.  It flips the pixels
that a set bit lands on, each of them once, and no others; the flag register tells
whether one of them was lit, which is whether the drawing has darkened a pixel.  The
corner is taken from the registers as they were, the flag register included.
-/
theorem sprite_flips_its_targets {m : Machine} {op : Opcode}
    (hstatus : m.status = .running)
    (hfetch : m.fetch = .ok op) (hfamily : op.family = 0xD)
    (hcells : op.n.val = 0 ∨ m.index.toNat + op.n.val ≤ 4096) :
    m.step.result = .ok () ∧ m.Draws op m.step.machine := by
  have hdraw := carriedOut_of_draw hstatus hfetch hfamily hcells
  have hheight := m.length_sprite_le op
  have hdisplay : m.step.machine.display = (m.drawing op.x op.y op.n).display := by
    rw [step_of_draw hdraw]
  have hflipped : ∀ p, m.Targets op p →
      m.step.machine.display.isLit p = !m.display.isLit p := by
    intro p hp
    rw [hdisplay]
    exact Display.isLit_draw_of_aimsAt hheight m.display _ _ (targets_iff.mp hp)
  have hkept : ∀ p, ¬m.Targets op p →
      m.step.machine.display.isLit p = m.display.isLit p := by
    intro p hp
    rw [hdisplay]
    exact Display.isLit_draw_of_not_aimsAt m.display _ _ fun haim =>
      hp (targets_iff.mpr haim)
  have hflag : m.step.machine.reg flagRegister =
      flagByte (m.drawing op.x op.y op.n).collision := by
    rw [reg_of_draw hdraw, if_pos rfl]
  refine ⟨Transition.result_of_carriedOut hdraw, ?_⟩
  constructor
  case hit_once =>
    intro p hp
    rw [← Sprite.count_targets]
    exact List.count_eq_one_of_mem (Sprite.nodup_targets hheight _ _)
      (Sprite.mem_targets.mpr (targets_iff.mp hp))
  case flipped => exact hflipped
  case kept => exact hkept
  case flag_eq_one_iff => rw [hflag, ← collision_drawing_iff, flagByte_eq_one_iff]
  case flag_eq_zero_iff =>
    rw [hflag, ← collision_drawing_iff, flagByte_eq_zero_iff, Bool.not_eq_true]
  case darkened_iff =>
    constructor
    · rintro ⟨p, hp, hlit⟩
      refine ⟨p, hlit, ?_⟩
      rw [hflipped p hp, hlit]
      rfl
    · rintro ⟨p, hlit, hdark⟩
      refine ⟨p, ?_, hlit⟩
      by_contra hp
      cases hdark.symm.trans ((hkept p hp).trans hlit)
  case registers =>
    intro r hr
    rw [reg_of_draw hdraw, if_neg hr]
  case index => rw [step_of_draw hdraw]
  case memory => rw [step_of_draw hdraw]
  case pc => rw [step_of_draw hdraw]
  case redraw => rw [step_of_draw hdraw]

theorem sprite_flips_its_targets_corner :
    let m := (boot {} (.ofSeed 0)).machine.after
      [.step, .step, .step, .load [0x6F, 0x3F, 0x60, 0x1F, 0xA0, 0x82, 0xDF, 0x05]]
    m.status = .running ∧ m.fetch = .ok 0xDF05 ∧ Opcode.family 0xDF05 = 0xD ∧
    ((Opcode.n 0xDF05).val = 0 ∨ m.index.toNat + (Opcode.n 0xDF05).val ≤ 4096) ∧
    m.Targets 0xDF05 ⟨0, 31⟩ ∧ m.step.machine.display.isLit ⟨0, 31⟩ = true ∧
    m.step.machine.redraw = true := by
  intro m
  have hfacts : m.status = .running ∧ m.fetch = .ok 0xDF05 ∧ m.index.toNat = 0x082 ∧
      m.display.isLit ⟨0, 31⟩ = false ∧
      (m.memory.read 0x082).toNat.testBit 6 = true ∧
      (m.reg (Opcode.x 0xDF05)).toNat = 63 ∧
      (m.reg (Opcode.y 0xDF05)).toNat = 31 := by
    decide +kernel
  rcases hfacts with ⟨hstatus, hfetch, hindex, hdark, hbit, hx, hy⟩
  have hcells : (Opcode.n 0xDF05).val = 0 ∨
      m.index.toNat + (Opcode.n 0xDF05).val ≤ 4096 := by
    rw [hindex]
    decide
  have htarget : m.Targets 0xDF05 ⟨0, 31⟩ := by
    refine ⟨0, 1, by decide, by decide, ?_, ?_⟩
    · rw [hindex]
      exact hbit
    · rw [hx, hy]
      rfl
  rcases sprite_flips_its_targets hstatus hfetch (by decide) hcells with ⟨-, hdraws⟩
  have hlit := hdraws.flipped _ htarget
  rw [hdark] at hlit
  exact ⟨hstatus, hfetch, by decide, hcells, htarget, hlit, hdraws.redraw⟩

end Machine

end Chip8
