import Chip8.Proofs.Screen.Targets
import Chip8.Proofs.Storage.Drawing

/-!
# Splitting a sprite

A sprite can be drawn in two parts: its upper rows, and then the others below them
on the screen that the upper rows have left.  The whole drawing collides exactly
when one of the parts does.  This holds of sprites of any height, also when the
lower rows wrap onto the upper ones, and on the array of pixels as well as on the
screen.
-/

namespace Chip8

namespace Sprite

/--
The places of the set bits, each with its row and its column, in the order in which
they are drawn.  The rows are counted from `start`.
-/
def placesFrom (start : Nat) (sprite : Sprite) : List (Nat × Nat) :=
  (sprite.zipIdx start).flatMap fun (bits, row) =>
    ((List.range 8).filter fun column => bits.toNat.testBit (7 - column)).map
      (Prod.mk row)

def places (sprite : Sprite) : List (Nat × Nat) := sprite.placesFrom 0

def landing (x y : Nat) (place : Nat × Nat) : Pixel :=
  Pixel.wrap (x + place.2) (y + place.1)

theorem map_landing_placesFrom (x y start : Nat) (sprite : Sprite) :
    (sprite.placesFrom start).map (landing x y) = targets x (y + start) sprite := by
  induction sprite generalizing start with
  | nil => rfl
  | cons bits rest ih =>
      have hcons : placesFrom start (bits :: rest) =
          (columns bits).map (Prod.mk start) ++ placesFrom (start + 1) rest := by
        rw [placesFrom, List.zipIdx_cons, List.flatMap_cons]
        rfl
      rw [hcons, List.map_append, List.map_map, ih, targets]
      rfl

theorem map_landing_places (x y : Nat) (sprite : Sprite) :
    sprite.places.map (landing x y) = targets x y sprite :=
  map_landing_placesFrom x y 0 sprite

end Sprite

namespace Display

/-! ## Two parts -/

/-- A collision before a drawing stays, and otherwise has no part in it. -/
theorem foldl_hit_eq (targets : List Pixel) (drawing : Drawing) :
    let fresh := targets.foldl Drawing.hit ⟨drawing.display, false⟩
    targets.foldl Drawing.hit drawing =
      ⟨fresh.display, drawing.collision || fresh.collision⟩ := by
  induction targets generalizing drawing with
  | nil => simp
  | cons p rest ih =>
      simp only [List.foldl_cons]
      rw [ih (drawing.hit p), ih (Drawing.hit ⟨drawing.display, false⟩ p)]
      simp [Drawing.hit, Bool.or_assoc]

theorem draw_append (d : Display) (x y : Nat) (s t : Sprite) :
    let first := d.draw x y s
    let second := first.display.draw x (y + s.length) t
    d.draw x y (s ++ t) =
      ⟨second.display, first.collision || second.collision⟩ := by
  intro first second
  rw [draw, Sprite.targets_append, List.foldl_append]
  exact foldl_hit_eq (Sprite.targets x (y + s.length) t) first

/-! ## Bit by bit -/

def drawPlaces (d : Display) (x y : Nat) (places : List (Nat × Nat)) : Display :=
  d.toggleAll (places.map (Sprite.landing x y))

/-- Some set bit lands on a pixel that is lit after the bits drawn before it. -/
def MeetsLit (d : Display) (x y : Nat) (sprite : Sprite) : Prop :=
  ∃ earlier place later, sprite.places = earlier ++ place :: later ∧
    (d.drawPlaces x y earlier).isLit (Sprite.landing x y place) = true

theorem isLit_drawPlaces (d : Display) (x y : Nat) (places : List (Nat × Nat))
    (p : Pixel) :
    (d.drawPlaces x y places).isLit p =
      (d.isLit p ^^ decide
        (Odd (places.countP fun place => Sprite.landing x y place = p))) := by
  rw [drawPlaces, isLit_toggleAll, List.count, List.countP_map]
  rfl

theorem display_draw (d : Display) (x y : Nat) (sprite : Sprite) :
    (d.draw x y sprite).display = d.drawPlaces x y sprite.places := by
  rw [draw, display_foldl_hit, drawPlaces, Sprite.map_landing_places]

theorem flipped_iff_odd (d : Display) (x y : Nat) (sprite : Sprite) (p : Pixel) :
    (d.draw x y sprite).display.isLit p = !d.isLit p ↔
      Odd (sprite.places.countP fun place => Sprite.landing x y place = p) := by
  rw [display_draw, isLit_drawPlaces]
  cases d.isLit p <;> simp

theorem collision_iff_meetsLit (d : Display) (x y : Nat) (sprite : Sprite) :
    (d.draw x y sprite).collision = true ↔ d.MeetsLit x y sprite := by
  rw [draw, collision_foldl_hit_iff, ← Sprite.map_landing_places]
  constructor
  · rintro (hbefore | ⟨earlier, p, later, hsplit, hlit⟩)
    · cases hbefore
    · rcases List.map_eq_append_iff.mp hsplit with
        ⟨before, rest, hplaces, rfl, hrest⟩
      rcases List.map_eq_cons_iff.mp hrest with ⟨place, after, rfl, rfl, -⟩
      exact ⟨before, place, after, hplaces, hlit⟩
  · rintro ⟨earlier, place, later, hplaces, hlit⟩
    refine .inr ⟨_, Sprite.landing x y place, later.map (Sprite.landing x y), ?_,
      hlit⟩
    rw [hplaces, List.map_append, List.map_cons]

end Display

namespace Storage

theorem drawFrom?_append (d : Display) {x y : Nat} {s t : Sprite}
    (h : Canvas.Fits x y (s ++ t)) :
    ∃ first second, Canvas.drawFrom? x y 0 ⟨pixelsOf d, false⟩ s = some first ∧
      Canvas.drawFrom? x (y + s.length) 0 ⟨first.pixels, false⟩ t = some second ∧
      Canvas.drawFrom? x y 0 ⟨pixelsOf d, false⟩ (s ++ t) =
        some ⟨second.pixels, first.collision || second.collision⟩ ∧
      first = Canvas.ofDrawing (d.draw x y s) := by
  rcases Canvas.fits_append.mp h with ⟨hfirst, hsecond⟩
  refine ⟨_, _, Canvas.drawFrom?_draw_of_fits d hfirst,
    Canvas.drawFrom?_draw_of_fits (d.draw x y s).display hsecond, ?_, rfl⟩
  rw [Canvas.drawFrom?_draw_of_fits d h, Display.draw_append]
  rfl

/--
Drawing a sprite is drawing its upper rows and then the others below them; it
collides exactly if one of the two drawings does.  A pixel ends flipped exactly if
the set bits that land on it are odd in number, and there is a collision exactly if
some bit finds its pixel lit after the bits before it, however tall the sprite is.
The same is so on an array of zeros and ones, which is the display it shows laid
out: as long as the coordinates of the set bits are 64-bit numbers, no part of the
drawing traps.
-/
theorem drawing_splits_by_rows :
    (∀ (d : Display) (x y : Nat) (s t : Sprite),
      let first := d.draw x y s
      let second := first.display.draw x (y + s.length) t
      d.draw x y (s ++ t) = ⟨second.display, first.collision || second.collision⟩) ∧
    (∀ (d : Display) (x y : Nat) (sprite : Sprite),
      (∀ p, (d.draw x y sprite).display.isLit p = !d.isLit p ↔
        Odd (sprite.places.countP fun place => Sprite.landing x y place = p)) ∧
      ((d.draw x y sprite).collision = true ↔ d.MeetsLit x y sprite)) ∧
    ∀ pixels : Vector UInt8 2048, (∀ cell ∈ pixels, cell = 0 ∨ cell = 1) →
      pixelsOf (displayOf pixels) = pixels ∧
      ∀ (x y : Nat) (s t : Sprite), Canvas.Fits x y (s ++ t) → ∃ first second,
        Canvas.drawFrom? x y 0 ⟨pixels, false⟩ s = some first ∧
        Canvas.drawFrom? x (y + s.length) 0 ⟨first.pixels, false⟩ t = some second ∧
        Canvas.drawFrom? x y 0 ⟨pixels, false⟩ (s ++ t) =
          some ⟨second.pixels, first.collision || second.collision⟩ ∧
        first = Canvas.ofDrawing ((displayOf pixels).draw x y s) := by
  refine ⟨Display.draw_append, ?_, ?_⟩
  · intro d x y sprite
    exact ⟨d.flipped_iff_odd x y sprite, d.collision_iff_meetsLit x y sprite⟩
  · intro pixels hpixels
    have hshown := pixelsOf_displayOf hpixels
    refine ⟨hshown, ?_⟩
    intro x y s t h
    have hparts := drawFrom?_append (displayOf pixels) h
    rwa [hshown] at hparts

/--
A sprite of 33 rows across the right edge of a dark screen, drawn in two parts: its
last row lands on its first, darkens it and collides, which the upper part did not.
-/
theorem drawing_splits_by_rows_overlapping :
    let pixels : Vector UInt8 2048 := Vector.replicate 2048 0
    let s : Sprite := List.replicate 20 0xC0
    let t : Sprite := List.replicate 13 0xC0
    let drawing := Display.blank.draw 63 30 (s ++ t)
    (∀ cell ∈ pixels, cell = 0 ∨ cell = 1) ∧ Canvas.Fits 63 30 (s ++ t) ∧
    drawing.display.isLit ⟨63, 30⟩ = false ∧ drawing.collision = true ∧
    ∃ first second,
      Canvas.drawFrom? 63 30 0 ⟨pixels, false⟩ s = some first ∧
      Canvas.drawFrom? 63 50 0 ⟨first.pixels, false⟩ t = some second ∧
      Canvas.drawFrom? 63 30 0 ⟨pixels, false⟩ (s ++ t) =
        some ⟨second.pixels, second.collision⟩ := by
  intro pixels s t drawing
  rcases drawing_splits_by_rows with ⟨-, hbits, harray⟩
  have hpixels : ∀ cell ∈ pixels, cell = 0 ∨ cell = 1 := by simp [pixels]
  have hfits : Canvas.Fits 63 30 (s ++ t) :=
    Canvas.fits_of_length_le (by decide) (by decide)
  have htwice : (s ++ t).places.countP
      (fun place => Sprite.landing 63 30 place = ⟨63, 30⟩) = 2 := by decide +kernel
  have hmeets : Display.blank.MeetsLit 63 30 (s ++ t) :=
    ⟨(s ++ t).places.take 64, (32, 0), [(32, 1)], by decide +kernel, by
      decide +kernel⟩
  rcases hbits .blank 63 30 (s ++ t) with ⟨hflipped, hcollision⟩
  have hdark : drawing.display.isLit ⟨63, 30⟩ = false := by
    have hkept := mt (hflipped ⟨63, 30⟩).mp (by rw [htwice]; decide)
    rwa [Display.isLit_blank, Bool.not_false, Bool.not_eq_true] at hkept
  have hupper : (Display.blank.draw 63 30 s).collision = false := by decide +kernel
  have hblank : displayOf pixels = .blank := by
    apply Display.ext_isLit
    intro p
    simp [pixels, displayOf, Display.isLit, Display.blank]
  have hparts := (harray pixels hpixels).2 63 30 s t hfits
  rw [hblank] at hparts
  obtain ⟨first, second, hfirst, hsecond, hboth, hdrawn⟩ := hparts
  have hfresh : first.collision = false := by rw [hdrawn, Canvas.ofDrawing, hupper]
  rw [hfresh, Bool.false_or] at hboth
  exact ⟨hpixels, hfits, hdark, hcollision.mpr hmeets, first, second, hfirst,
    hsecond, hboth⟩

end Storage

end Chip8
