import Mathlib.Data.List.Nodup
import Chip8.Proofs.Screen.Parity

/-!
# Where the bits of a sprite land

A sprite no taller than the screen aims at every pixel at most once: its columns
are fewer than the screen's, and so are its rows, so wrapping around an edge
never brings two bits to one pixel.  Drawing then flips the targeted pixels and
no others, and it collides exactly when one of them was lit.
-/

namespace Chip8

namespace Sprite

/-- A set bit of the sprite, drawn with its corner at `(x, y)`, lands on `p`. -/
def AimsAt (sprite : Sprite) (x y : Nat) (p : Pixel) : Prop :=
  ∃ row column bits, sprite[row]? = some bits ∧ column < 8 ∧
    bits.toNat.testBit (7 - column) = true ∧ Pixel.wrap (x + column) (y + row) = p

theorem mem_columns {bits : UInt8} {column : Nat} :
    column ∈ columns bits ↔
      column < 8 ∧ bits.toNat.testBit (7 - column) = true := by
  simp [columns]

theorem aimsAt_cons (bits : UInt8) (rest : Sprite) (x y : Nat) (p : Pixel) :
    AimsAt (bits :: rest) x y p ↔
      (∃ column ∈ columns bits, Pixel.wrap (x + column) y = p) ∨
      AimsAt rest x (y + 1) p := by
  constructor
  · rintro ⟨row, column, line, hline, hcolumn, hbit, hp⟩
    cases row with
    | zero =>
        left
        cases hline
        exact ⟨column, mem_columns.mpr ⟨hcolumn, hbit⟩, hp⟩
    | succ row =>
        right
        refine ⟨row, column, line, hline, hcolumn, hbit, ?_⟩
        rw [Nat.add_assoc, Nat.add_comm 1 row]
        exact hp
  · rintro (⟨column, hmem, hp⟩ | ⟨row, column, line, hline, hcolumn, hbit, hp⟩)
    · rcases mem_columns.mp hmem with ⟨hcolumn, hbit⟩
      exact ⟨0, column, bits, rfl, hcolumn, hbit, hp⟩
    · refine ⟨row + 1, column, line, hline, hcolumn, hbit, ?_⟩
      rw [Nat.add_comm row 1, ← Nat.add_assoc]
      exact hp

theorem mem_targets {sprite : Sprite} {x y : Nat} {p : Pixel} :
    p ∈ targets x y sprite ↔ AimsAt sprite x y p := by
  induction sprite generalizing y with
  | nil => simp [targets, AimsAt]
  | cons bits rest ih =>
      rw [targets, List.mem_append, List.mem_map, ih, aimsAt_cons]

/-! ## One bit to a pixel -/

theorem nodup_row (bits : UInt8) (x y : Nat) :
    ((columns bits).map fun column => Pixel.wrap (x + column) y).Nodup := by
  have hcolumns : (columns bits).Nodup := List.nodup_range.filter _
  refine hcolumns.map_on ?_
  intro i hi j hj hsame
  have hi8 := (mem_columns.mp hi).1
  have hj8 := (mem_columns.mp hj).1
  have hx : (x + i) % 64 = (x + j) % 64 := congrArg (fun p : Pixel => p.x.val) hsame
  omega

theorem nodup_targets {sprite : Sprite} (h : sprite.length ≤ 32) (x y : Nat) :
    (targets x y sprite).Nodup := by
  induction sprite generalizing y with
  | nil => exact List.nodup_nil
  | cons bits rest ih =>
      rw [List.length_cons] at h
      have hrest := ih (by omega) (y + 1)
      rw [targets, List.nodup_append]
      refine ⟨nodup_row bits x y, hrest, ?_⟩
      -- The rows below are fewer than 32, so none of them wraps around to this one.
      rintro p hp q hq rfl
      rcases List.mem_map.mp hp with ⟨column, -, htop⟩
      rcases mem_targets.mp hq with ⟨row, column', line, hline, -, -, hbelow⟩
      have hrow : row < rest.length := (List.getElem?_eq_some_iff.mp hline).1
      have hy : y % 32 = (y + 1 + row) % 32 :=
        congrArg (fun p : Pixel => p.y.val) (htop.trans hbelow.symm)
      omega

theorem targets_congr {x y x' y' : Nat} (hx : x % 64 = x' % 64)
    (hy : y % 32 = y' % 32)
    (sprite : Sprite) : targets x y sprite = targets x' y' sprite := by
  induction sprite generalizing y y' with
  | nil => rfl
  | cons bits rest ih =>
      have hbelow : (y + 1) % 32 = (y' + 1) % 32 := by omega
      have hrest := ih hbelow
      have hwrap : ∀ column, Pixel.wrap (x + column) y =
          Pixel.wrap (x' + column) y' := by
        intro column
        have hcolumn : (x + column) % 64 = (x' + column) % 64 := by omega
        simp only [Pixel.wrap, hcolumn, hy]
      simp only [targets, hrest, hwrap]

theorem exists_column_iff {bits : UInt8} :
    (∃ column, column ∈ columns bits) ↔ bits ≠ 0 := by
  constructor
  · rintro ⟨column, hmem⟩ rfl
    simp [mem_columns] at hmem
  · intro hbits
    have hnat : bits.toNat ≠ 0 := fun h => hbits (UInt8.toNat_inj.mp h)
    rcases Nat.exists_testBit_of_ne_zero hnat with ⟨k, hk⟩
    have hk8 : k < 8 := by
      by_contra hge
      have hsmall : bits.toNat < 2 ^ k :=
        Nat.lt_of_lt_of_le bits.toNat_lt
          (Nat.pow_le_pow_right (by decide) (by omega))
      rw [Nat.testBit_lt_two_pow hsmall] at hk
      cases hk
    refine ⟨7 - k, mem_columns.mpr ⟨by omega, ?_⟩⟩
    have hback : 7 - (7 - k) = k := by omega
    rw [hback]
    exact hk

theorem exists_aimsAt_iff (sprite : Sprite) (x y : Nat) :
    (∃ p, AimsAt sprite x y p) ↔ ∃ bits ∈ sprite, bits ≠ 0 := by
  induction sprite generalizing y with
  | nil => simp [AimsAt]
  | cons bits rest ih =>
      simp only [aimsAt_cons, exists_or, ih, List.exists_mem_cons_iff,
        ← exists_column_iff]
      simp

end Sprite

/-! ## Drawing -/

namespace Display

theorem isLit_draw_odd (d : Display) (x y : Nat) (sprite : Sprite) (p : Pixel) :
    (d.draw x y sprite).display.isLit p =
      (d.isLit p ^^ decide (Odd ((sprite.targets x y).count p))) := by
  rw [draw, isLit_foldl_hit]

/-- A drawing collides if some hit finds its pixel lit after the earlier ones. -/
theorem collision_foldl_hit_iff (targets : List Pixel) (drawing : Drawing) :
    (targets.foldl Drawing.hit drawing).collision = true ↔
      drawing.collision = true ∨ ∃ earlier p later,
      targets = earlier ++ p :: later ∧
        (drawing.display.toggleAll earlier).isLit p = true := by
  induction targets generalizing drawing with
  | nil => simp
  | cons q rest ih =>
      have hfirst : (drawing.hit q).collision = true ↔
          drawing.collision = true ∨ drawing.display.isLit q = true :=
        Bool.or_eq_true_iff
      rw [List.foldl_cons, ih, hfirst, or_assoc]
      refine or_congr_right ⟨?_, ?_⟩
      · rintro (hlit | ⟨earlier, p, later, rfl, hlit⟩)
        · exact ⟨[], q, rest, rfl, hlit⟩
        · exact ⟨q :: earlier, p, later, rfl, hlit⟩
      · rintro ⟨earlier, p, later, hsplit, hlit⟩
        cases earlier with
        | nil =>
            cases hsplit
            exact .inl hlit
        | cons first earlier =>
            cases hsplit
            exact .inr ⟨earlier, p, later, rfl, hlit⟩

theorem collision_foldl_hit {targets : List Pixel} (h : targets.Nodup)
    (drawing : Drawing) :
    (targets.foldl Drawing.hit drawing).collision = true ↔
      drawing.collision = true ∨ ∃ p ∈ targets, drawing.display.isLit p = true := by
  -- No earlier hit was on the pixel, so each meets it as it was at the start.
  have hmoment : ∀ earlier p later, targets = earlier ++ p :: later →
      (drawing.display.toggleAll earlier).isLit p = drawing.display.isLit p := by
    rintro earlier p later rfl
    have hcount : earlier.count p = 0 :=
      List.count_eq_zero.mpr fun hmem =>
        (List.nodup_append.mp h).2.2 p hmem p (by simp) rfl
    rw [isLit_toggleAll, hcount]
    simp
  rw [collision_foldl_hit_iff]
  refine or_congr_right ⟨?_, ?_⟩
  · rintro ⟨earlier, p, later, hsplit, hlit⟩
    rw [hmoment earlier p later hsplit] at hlit
    exact ⟨p, by simp [hsplit], hlit⟩
  · rintro ⟨p, hp, hlit⟩
    rcases List.append_of_mem hp with ⟨earlier, later, hsplit⟩
    exact ⟨earlier, p, later, hsplit, (hmoment earlier p later hsplit).trans hlit⟩

variable {sprite : Sprite} (h : sprite.length ≤ 32) (d : Display) (x y : Nat)
include h

theorem isLit_draw_of_aimsAt {p : Pixel} (hp : sprite.AimsAt x y p) :
    (d.draw x y sprite).display.isLit p = !d.isLit p := by
  have hcount : (sprite.targets x y).count p = 1 :=
    List.count_eq_one_of_mem (Sprite.nodup_targets h x y)
      (Sprite.mem_targets.mpr hp)
  rw [isLit_draw_odd, hcount]
  simp

theorem collision_draw_iff :
    (d.draw x y sprite).collision = true ↔
      ∃ p, sprite.AimsAt x y p ∧ d.isLit p = true := by
  rw [draw, collision_foldl_hit (Sprite.nodup_targets h x y)]
  simp [Sprite.mem_targets]

omit h

theorem isLit_draw_of_not_aimsAt {p : Pixel} (hp : ¬sprite.AimsAt x y p) :
    (d.draw x y sprite).display.isLit p = d.isLit p := by
  have hcount : (sprite.targets x y).count p = 0 :=
    List.count_eq_zero.mpr fun hmem => hp (Sprite.mem_targets.mp hmem)
  rw [isLit_draw_odd, hcount]
  simp

end Display

end Chip8
