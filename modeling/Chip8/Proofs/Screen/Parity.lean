import Mathlib.Algebra.Ring.Parity
import Mathlib.Data.List.ProdSigma
import Chip8.Display.Basic
import Chip8.Memory

/-!
# Drawing by parity

Drawing toggles pixels one after another, so a pixel changes exactly when an odd
number of the sprite's bits aim at it.  The bits that aim at a pixel are counted
over all places of the sprite, each of which is a row and a column.
-/

namespace Chip8

theorem decide_odd_add (a b : Nat) :
    decide (Odd (a + b)) = (decide (Odd a) ^^ decide (Odd b)) := by
  simp only [Nat.odd_add, ← Nat.not_odd_iff_even]
  by_cases ha : Odd a <;> by_cases hb : Odd b <;> simp [ha, hb]

namespace Sprite

def hits (m : Memory) (start x y : Nat) (p : Pixel) (place : Nat × Nat) : Bool :=
  (m.read (start + place.1)).toNat.testBit (7 - place.2) &&
    decide (Pixel.wrap (x + place.2) (y + place.1) = p)

/-- How many bits of a sprite of `rows` rows are set and aim at `p`. -/
def hitCount (m : Memory) (start rows x y : Nat) (p : Pixel) : Nat :=
  (List.range rows ×ˢ List.range 8).countP (hits m start x y p)

theorem count_targets_row (m : Memory) (start row x y : Nat) (p : Pixel) :
    (targets x (y + row) [m.read (start + row)]).count p =
      ([row] ×ˢ List.range 8).countP (hits m start x y p) := by
  have hplaces : [row] ×ˢ List.range 8 = (List.range 8).map (Prod.mk row) := by
    simp [SProd.sprod, List.product]
  rw [hplaces, List.countP_map, targets, targets, List.append_nil, columns,
    List.count, List.countP_map, List.countP_filter]
  apply List.countP_congr
  intro column _
  simp [hits, and_comm]

theorem count_targets (m : Memory) (start rows x y : Nat) (p : Pixel) :
    (targets x y (m.slice start rows)).count p = hitCount m start rows x y p := by
  induction rows with
  | zero => rfl
  | succ rows ih =>
      have hslice : m.slice start (rows + 1) =
          m.slice start rows ++ [m.read (start + rows)] := by
        simp [Memory.slice, List.range_succ]
      have hplaces : List.range (rows + 1) ×ˢ List.range 8 =
          (List.range rows ×ˢ List.range 8) ++ ([rows] ×ˢ List.range 8) := by
        simp [SProd.sprod, List.product, List.range_succ]
      rw [hslice, targets_append, List.count_append, ih, Memory.length_slice,
        count_targets_row, hitCount, hitCount, hplaces, List.countP_append]

end Sprite

namespace Display

def toggleAll (d : Display) (pixels : List Pixel) : Display := pixels.foldl toggle d

theorem isLit_toggleAll (d : Display) (pixels : List Pixel) (p : Pixel) :
    (d.toggleAll pixels).isLit p =
      (d.isLit p ^^ decide (Odd (pixels.count p))) := by
  induction pixels generalizing d with
  | nil => simp [toggleAll]
  | cons q rest ih =>
      change ((d.toggle q).toggleAll rest).isLit p = _
      rw [ih, List.count_cons, decide_odd_add, isLit_toggle]
      by_cases hq : q = p
      · subst hq
        cases d.isLit q <;> cases decide (Odd (rest.count q)) <;> simp
      · simp [hq, Ne.symm hq]

theorem display_foldl_hit (targets : List Pixel) (drawing : Drawing) :
    (targets.foldl Drawing.hit drawing).display =
      drawing.display.toggleAll targets := by
  induction targets generalizing drawing with
  | nil => rfl
  | cons q rest ih => exact ih (drawing.hit q)

theorem isLit_foldl_hit (targets : List Pixel) (drawing : Drawing) (p : Pixel) :
    (targets.foldl Drawing.hit drawing).display.isLit p =
      (drawing.display.isLit p ^^ decide (Odd (targets.count p))) := by
  rw [display_foldl_hit, isLit_toggleAll]

theorem isLit_draw (d : Display) (m : Memory) (start rows x y : Nat) (p : Pixel) :
    (d.draw x y (m.slice start rows)).display.isLit p =
      (d.isLit p ^^ decide (Odd (Sprite.hitCount m start rows x y p))) := by
  rw [draw, isLit_foldl_hit, Sprite.count_targets]

end Display

end Chip8
