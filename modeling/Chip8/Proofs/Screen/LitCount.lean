import Mathlib.Data.Finset.SymmDiff
import Mathlib.Data.Fintype.Card
import Chip8.Display.Picture
import Chip8.Proofs.Screen.Targets
import Chip8.Proofs.Storage.Drawing
import Chip8.Proofs.Storage.Safety

/-!
# Accounting for lit pixels

As a set, the lit pixels after a drawing are the symmetric difference of those
before and the targets of the sprite.  A sprite no taller than the screen has as
many targets as set bits, so the number of lit pixels grows by the set bits, less
two for each target that was lit.  The description of a screen shows this number,
and counting the ones in the screen's array gives it as well.
-/

namespace Chip8

open scoped symmDiff

namespace Pixel

theorem nodup_all : all.Nodup := by
  rw [all, List.nodup_flatMap]
  constructor
  · intro y _
    exact (List.nodup_finRange 64).map fun x x' hsame => congrArg Pixel.x hsame
  · refine (List.nodup_finRange 32).imp fun {y y'} hne => ?_
    intro p hp hp'
    rcases List.mem_map.mp hp with ⟨x, -, rfl⟩
    rcases List.mem_map.mp hp' with ⟨x', -, hsame⟩
    exact hne (congrArg Pixel.y hsame).symm

instance : Fintype Pixel := ⟨⟨all, nodup_all⟩, mem_all⟩

end Pixel

namespace Sprite

def bitCount (sprite : Sprite) : Nat :=
  (sprite.map fun bits => (List.range 8).countP bits.toNat.testBit).sum

theorem length_columns (bits : UInt8) :
    (columns bits).length = (List.range 8).countP bits.toNat.testBit := by
  have hreverse : (List.range 8).map (fun column => 7 - column) =
      (List.range 8).reverse := rfl
  calc (columns bits).length
      = ((List.range 8).map fun column => 7 - column).countP
          bits.toNat.testBit := by
        rw [columns, ← List.countP_eq_length_filter, List.countP_map]
        rfl
    _ = (List.range 8).countP bits.toNat.testBit := by
        rw [hreverse, List.countP_reverse]

theorem length_targets (sprite : Sprite) (x y : Nat) :
    (targets x y sprite).length = sprite.bitCount := by
  induction sprite generalizing y with
  | nil => rfl
  | cons bits rest ih =>
      rw [targets, List.length_append, List.length_map, length_columns, ih,
        bitCount, bitCount, List.map_cons, List.sum_cons]

instance (sprite : Sprite) (x y : Nat) : DecidablePred (sprite.AimsAt x y) :=
  fun _ => decidable_of_iff _ mem_targets

def targetSet (sprite : Sprite) (x y : Nat) : Finset Pixel :=
  {p | sprite.AimsAt x y p}

theorem card_targetSet {sprite : Sprite} (h : sprite.length ≤ 32) (x y : Nat) :
    (sprite.targetSet x y).card = sprite.bitCount := by
  have htargets : sprite.targetSet x y = (targets x y sprite).toFinset := by
    ext p
    simp [targetSet, mem_targets]
  rw [htargets, List.toFinset_card_of_nodup (nodup_targets h x y), length_targets]

end Sprite

theorem card_symmDiff_add {α : Type} [DecidableEq α] (s t : Finset α) :
    (s ∆ t).card + 2 * (s ∩ t).card = s.card + t.card := by
  have hsymmDiff : (s ∆ t).card = (s \ t).card + (t \ s).card :=
    Finset.card_union_of_disjoint disjoint_sdiff_sdiff
  have hs := Finset.card_sdiff_add_card_inter s t
  have ht := Finset.card_sdiff_add_card_inter t s
  rw [Finset.inter_comm] at ht
  omega

namespace Display

def litPixels (d : Display) : Finset Pixel := {p | d.isLit p = true}

theorem mem_litPixels {d : Display} {p : Pixel} :
    p ∈ d.litPixels ↔ d.isLit p = true := by
  simp [litPixels]

theorem litCount_eq_card (d : Display) : d.litCount = d.litPixels.card := by
  have hlit : d.litPixels = (Pixel.all.filter d.isLit).toFinset := by
    ext p
    simp [mem_litPixels, Pixel.mem_all]
  rw [hlit, List.toFinset_card_of_nodup (Pixel.nodup_all.filter _), litCount,
    List.countP_eq_length_filter]

section

variable {sprite : Sprite} (h : sprite.length ≤ 32) (d : Display) (x y : Nat)
include h

theorem litPixels_draw :
    (d.draw x y sprite).display.litPixels = d.litPixels ∆ sprite.targetSet x y := by
  ext p
  have htarget : p ∈ sprite.targetSet x y ↔ sprite.AimsAt x y p := by
    simp [Sprite.targetSet]
  rw [Finset.mem_symmDiff, mem_litPixels, mem_litPixels, htarget]
  by_cases hp : sprite.AimsAt x y p
  · rw [isLit_draw_of_aimsAt h d x y hp]
    simp [hp]
  · rw [isLit_draw_of_not_aimsAt d x y hp]
    simp [hp]

theorem card_litPixels_draw :
    (d.draw x y sprite).display.litPixels.card +
      2 * (d.litPixels ∩ sprite.targetSet x y).card =
      d.litPixels.card + sprite.bitCount := by
  rw [litPixels_draw h, card_symmDiff_add, Sprite.card_targetSet h]

theorem collision_eq_false_iff_card :
    (d.draw x y sprite).collision = false ↔
      (d.litPixels ∩ sprite.targetSet x y).card = 0 := by
  rw [← Bool.not_eq_true, collision_draw_iff h, Finset.card_eq_zero,
    Finset.eq_empty_iff_forall_notMem, not_exists]
  refine forall_congr' fun p => ?_
  rw [Finset.mem_inter, mem_litPixels, Sprite.targetSet, Finset.mem_filter]
  simp [and_comm]

end

/-! ## The number shown -/

theorem describe_eq_iff (d : Display) (n : Nat) :
    d.describe = "Display \x7b " ++ Nat.repr n ++ " pixels on \x7d" ↔
      n = d.litCount := by
  have hread : ∀ k, Nat.ofDigitChars 10 (Nat.repr k).toList 0 = k := by
    intro k
    rw [Nat.toList_repr, Nat.ofDigitChars_ten_toDigits]
  rw [describe, String.append_left_inj, String.append_right_inj]
  constructor
  · intro hsame
    rw [← hread n, ← hsame, hread]
  · rintro rfl
    rfl

end Display

namespace Storage

theorem pixelAt_perm : ((List.finRange 2048).map pixelAt).Perm Pixel.all := by
  have hinjective : Function.Injective pixelAt := by
    intro a b hsame
    have hx : a.val % 64 = b.val % 64 := congrArg (fun p : Pixel => p.x.val) hsame
    have hy : a.val / 64 = b.val / 64 := congrArg (fun p : Pixel => p.y.val) hsame
    omega
  rw [List.perm_ext_iff_of_nodup ((List.nodup_finRange 2048).map hinjective)
    Pixel.nodup_all]
  intro p
  have hposition : p.y.val * 64 + p.x.val < 2048 := by omega
  have hpixel : pixelAt ⟨_, hposition⟩ = p := by
    apply Eq.trans ((Canvas.pixelAt_eq_wrap_iff ⟨_, hposition⟩ p.x p.y).mpr _)
    · simp [Pixel.wrap, Nat.mod_eq_of_lt]
    · simp [Nat.mod_eq_of_lt]
  exact iff_of_true (List.mem_map.mpr ⟨_, List.mem_finRange _, hpixel⟩)
    (Pixel.mem_all p)

theorem count_one_pixelsOf (d : Display) :
    (pixelsOf d).toList.count 1 = d.litCount := by
  have hlist : (pixelsOf d).toList =
      ((List.finRange 2048).map pixelAt).map fun p => flagByte (d.isLit p) := by
    apply List.ext_getElem <;> simp [pixelsOf]
  have hone : ((· == 1) ∘ fun p => flagByte (d.isLit p)) = d.isLit := by
    funext p
    exact flagByte_beq_one (d.isLit p)
  rw [hlist, List.count, List.countP_map, hone, pixelAt_perm.countP_eq,
    Display.litCount]

end Storage

namespace Display

/--
Drawing a sprite no taller than the screen adds its set bits to the number of lit
pixels and takes away two for each target that was lit; so the number grows by all
set bits exactly if there is no collision, and it changes its parity exactly if they
are odd in number.  The number that describes the screen of a reachable machine is
the number of its lit pixels, and of the ones in the array when the machine is laid
out in storage.
-/
theorem drawing_accounts_for_lit_pixels :
    (∀ (d : Display) (x y : Nat) (sprite : Sprite), sprite.length ≤ 32 →
      let drawing := d.draw x y sprite
      let before := d.litPixels.card
      let after := drawing.display.litPixels.card
      after + 2 * (d.litPixels ∩ sprite.targetSet x y).card =
        before + sprite.bitCount ∧
      (drawing.collision = false ↔ after = before + sprite.bitCount) ∧
      (after % 2 ≠ before % 2 ↔ sprite.bitCount % 2 = 1)) ∧
    ∀ m : Machine, m.Reachable →
      (∀ n,
        m.display.describe = "Display \x7b " ++ Nat.repr n ++ " pixels on \x7d" ↔
          n = m.display.litPixels.card) ∧
      (Storage.ofMachine m).Reachable ∧
      (Storage.ofMachine m).pixels.toList.count 1 = m.display.litPixels.card := by
  constructor
  · intro d x y sprite h drawing before after
    have hcount : after + 2 * (d.litPixels ∩ sprite.targetSet x y).card =
        before + sprite.bitCount := card_litPixels_draw h d x y
    refine ⟨hcount, ?_, by omega⟩
    rw [collision_eq_false_iff_card h]
    omega
  · intro m hm
    rw [← litCount_eq_card]
    exact ⟨m.display.describe_eq_iff, Storage.reachable_ofMachine hm,
      Storage.count_one_pixelsOf m.display⟩

theorem drawing_accounts_for_lit_pixels_half_lit :
    let d := (blank.draw 63 0 [0x80]).display
    let drawing := d.draw 63 0 [0xC0]
    let m := (Machine.boot {} (.ofSeed 0)).machine
    ([0xC0] : Sprite).length ≤ 32 ∧ d.litPixels.card = 1 ∧
    drawing.collision = true ∧ drawing.display.litPixels.card = 1 ∧
    m.Reachable ∧ m.display.describe = "Display \x7b " ++ Nat.repr 0 ++
        " pixels on \x7d" := by
  intro d drawing m
  rcases drawing_accounts_for_lit_pixels with ⟨hdrawing, hshown⟩
  have hheight : ([0xC0] : Sprite).length ≤ 32 := by decide
  have hblank : blank.litPixels.card = 0 := by simp [litPixels]
  have hfirst : d.litPixels.card = 1 := by
    have hfree : (blank.draw 63 0 [0x80]).collision = false := by decide +kernel
    have hgrows := (hdrawing blank 63 0 [0x80] (by decide)).2.1.mp hfree
    rwa [hblank] at hgrows
  have hcollides : drawing.collision = true := by decide +kernel
  have hbits : Sprite.bitCount [0xC0] = 2 := by decide
  rcases hdrawing d 63 0 [0xC0] hheight with ⟨hcount, hfree, hparity⟩
  have hless := mt hfree.mpr (by simp [drawing, hcollides])
  rw [hbits, hfirst] at hcount hparity hless
  have hsecond : drawing.display.litPixels.card = 1 := by
    change (d.draw 63 0 [0xC0]).display.litPixels.card = 1
    omega
  have hm : m.Reachable := .start (.bare {} 0)
  exact ⟨hheight, hfirst, hcollides, hsecond, hm,
    ((hshown m hm).1 0).mpr hblank.symm⟩

end Display

end Chip8
