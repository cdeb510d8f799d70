import Mathlib.Data.List.Basic
import Chip8.Proofs.Screen.Targets

/-!
# Drawing as toggling

A drawing toggles pixels and does nothing else to the screen.  So a sprite that is
drawn twice is gone again, sprites can be drawn in any order, and only the
remainders of their coordinates count.  Drawn twice in one place, a sprite
collides at least once, unless it is empty: at first if one of its pixels was
lit, and then if one of them was dark.
-/

namespace Chip8

structure Placement where
  x : Nat
  y : Nat
  sprite : Sprite

namespace Display

def place (d : Display) (s : Placement) : Display :=
  (d.draw s.x s.y s.sprite).display

theorem isLit_place (d : Display) (s : Placement) (p : Pixel) :
    (d.place s).isLit p =
      (d.isLit p ^^ decide (Odd ((s.sprite.targets s.x s.y).count p))) :=
  d.isLit_draw_odd s.x s.y s.sprite p

theorem place_place_self (d : Display) (s : Placement) :
    (d.place s).place s = d := by
  apply ext_isLit
  intro p
  rw [isLit_place, isLit_place, Bool.xor_assoc, Bool.xor_self, Bool.xor_false]

theorem place_right_comm (d : Display) (s t : Placement) :
    (d.place s).place t = (d.place t).place s := by
  apply ext_isLit
  intro p
  simp only [isLit_place]
  rw [Bool.xor_assoc, Bool.xor_assoc, Bool.xor_comm (decide _)]

theorem foldl_place_perm {placements placements' : List Placement}
    (h : placements.Perm placements') (d : Display) :
    placements.foldl place d = placements'.foldl place d :=
  h.foldl_eq' (fun s _ t _ d => d.place_right_comm s t) d

theorem draw_mod (d : Display) (x y : Nat) (sprite : Sprite) :
    d.draw x y sprite = d.draw (x % 64) (y % 32) sprite := by
  rw [draw, draw,
    Sprite.targets_congr (Nat.mod_mod x 64).symm (Nat.mod_mod y 32).symm]

/-! ## Collisions of two drawings -/

section

variable {sprite : Sprite} (h : sprite.length ≤ 32) (d : Display) (x y : Nat)
include h

theorem collision_draw_again_iff :
    ((d.draw x y sprite).display.draw x y sprite).collision = true ↔
      ∃ p, sprite.AimsAt x y p ∧ d.isLit p = false := by
  rw [collision_draw_iff h]
  refine exists_congr fun p => and_congr_right fun hp => ?_
  rw [isLit_draw_of_aimsAt h d x y hp, Bool.not_eq_true']

theorem collision_draw_or_again_iff :
    (d.draw x y sprite).collision = true ∨
        ((d.draw x y sprite).display.draw x y sprite).collision = true ↔
      ∃ bits ∈ sprite, bits ≠ 0 := by
  rw [collision_draw_iff h, collision_draw_again_iff h,
    ← Sprite.exists_aimsAt_iff sprite x y, ← exists_or]
  refine exists_congr fun p => ?_
  rw [← and_or_left, and_iff_left]
  cases d.isLit p <;> simp

end

/--
A sprite that is drawn twice in one place leaves the screen as it was.  If it is no
taller than the screen, the first drawing collides exactly when one of its targets
was lit and the second exactly when one was dark; so one of the two collides exactly
when the sprite has a set bit, and the second does not when all targets were lit.
Sprites can be drawn in any order, and only the remainders of the coordinates
matter.
-/
theorem sprites_cancel_and_commute (d : Display) :
    (∀ (x y : Nat) (sprite : Sprite),
      ((d.draw x y sprite).display.draw x y sprite).display = d) ∧
    (∀ (x y : Nat) (sprite : Sprite), sprite.length ≤ 32 →
      let first := d.draw x y sprite
      let second := first.display.draw x y sprite
      (first.collision = true ↔ ∃ p, sprite.AimsAt x y p ∧ d.isLit p = true) ∧
      (second.collision = true ↔ ∃ p, sprite.AimsAt x y p ∧ d.isLit p = false) ∧
      (first.collision = true ∨ second.collision = true ↔
        ∃ bits ∈ sprite, bits ≠ 0) ∧
      ((∀ p, sprite.AimsAt x y p → d.isLit p = true) → second.collision = false)) ∧
    (∀ (x y x' y' : Nat) (sprite sprite' : Sprite),
      ((d.draw x y sprite).display.draw x' y' sprite').display =
        ((d.draw x' y' sprite').display.draw x y sprite).display) ∧
    (∀ placements placements' : List Placement, placements.Perm placements' →
      placements.foldl place d = placements'.foldl place d) ∧
    ∀ (x y : Nat) (sprite : Sprite), d.draw x y sprite =
        d.draw (x % 64) (y % 32) sprite := by
  refine ⟨?_, ?_, ?_, ?_, d.draw_mod⟩
  · intro x y sprite
    exact d.place_place_self ⟨x, y, sprite⟩
  · intro x y sprite hheight first second
    refine ⟨collision_draw_iff hheight d x y,
      collision_draw_again_iff hheight d x y,
      collision_draw_or_again_iff hheight d x y, ?_⟩
    intro hlit
    rw [← Bool.not_eq_true, collision_draw_again_iff hheight]
    rintro ⟨p, haim, hdark⟩
    cases hdark.symm.trans (hlit p haim)
  · intro x y x' y' sprite sprite'
    exact d.place_right_comm ⟨x, y, sprite⟩ ⟨x', y', sprite'⟩
  · intro placements placements' hperm
    exact foldl_place_perm hperm d

theorem sprites_cancel_and_commute_half_lit :
    let d := (blank.draw 63 0 [0x80]).display
    let first := d.draw 63 0 [0xC0]
    let second := first.display.draw 63 0 [0xC0]
    ([0xC0] : Sprite).length ≤ 32 ∧ first.collision = true ∧
      second.collision = true ∧
      second.display = d := by
  intro d first second
  have hheight : ([0xC0] : Sprite).length ≤ 32 := by decide
  have hfacts : d.isLit ⟨63, 0⟩ = true ∧ d.isLit ⟨0, 0⟩ = false := by decide +kernel
  rcases sprites_cancel_and_commute d with ⟨hrestored, hcollisions, -⟩
  rcases hcollisions 63 0 [0xC0] hheight with ⟨hfirst, hsecond, -⟩
  have hleft : Sprite.AimsAt [0xC0] 63 0 ⟨63, 0⟩ :=
    ⟨0, 0, 0xC0, rfl, by decide, rfl, rfl⟩
  have hright : Sprite.AimsAt [0xC0] 63 0 ⟨0, 0⟩ :=
    ⟨0, 1, 0xC0, rfl, by decide, rfl, rfl⟩
  exact ⟨hheight, hfirst.mpr ⟨_, hleft, hfacts.1⟩,
    hsecond.mpr ⟨_, hright, hfacts.2⟩, hrestored 63 0 [0xC0]⟩

end Display

end Chip8
