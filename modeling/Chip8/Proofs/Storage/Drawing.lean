import Mathlib.Data.Nat.Bitwise
import Mathlib.Tactic.IntervalCases
import Chip8.Proofs.Storage.Layout

/-!
# Drawing on an array of pixels

The three nested loops of a drawing, over lines, columns and the pixel that a
set bit aims at, toggle on the array what `Display.draw` toggles on the screen,
in the same order.  No position leaves the array, wherever the sprite is drawn,
as long as the coordinates of its set bits are 64-bit numbers.
-/

namespace Chip8.Storage

namespace Canvas

def ofDrawing (drawing : Display.Drawing) : Canvas :=
  ⟨pixelsOf drawing.display, drawing.collision⟩

theorem pixelAt_eq_wrap_iff (position : Fin 2048) (x y : Nat) :
    pixelAt position = Pixel.wrap x y ↔ position.val = y % 32 * 64 + x % 64 := by
  have hposition := position.isLt
  simp only [pixelAt, Pixel.wrap, Pixel.mk.injEq, Fin.mk.injEq]
  omega

theorem pixelsOf_toggle (d : Display) (x y : Nat)
    (h : y % 32 * 64 + x % 64 < 2048) :
    (pixelsOf d).set (y % 32 * 64 + x % 64) (flagByte (d.pixel x y) ^^^ 1) =
      pixelsOf (d.toggle (Pixel.wrap x y)) := by
  apply Vector.ext
  intro position hposition
  have hhit := pixelAt_eq_wrap_iff ⟨position, hposition⟩ x y
  simp only [pixelsOf, Vector.getElem_ofFn, Vector.getElem_set,
    Display.isLit_toggle, hhit, Display.pixel]
  by_cases heq : y % 32 * 64 + x % 64 = position
  · have hpixel := hhit.mpr heq.symm
    simp only [heq, if_true, decide_true, hpixel]
    cases d.isLit (Pixel.wrap x y) <;> rfl
  · simp [heq, Ne.symm heq]

theorem product?_row (y : Nat) : product? (y % 32) 64 = some (y % 32 * 64) :=
  product?_of_lt (by omega)

theorem sum?_position (x y : Nat) :
    sum? (y % 32 * 64) (x % 64) = some (y % 32 * 64 + x % 64) :=
  sum?_of_lt (by omega)

theorem getElem?_pixelsOf (d : Display) (x y : Nat) :
    (pixelsOf d)[y % 32 * 64 + x % 64]? = some (flagByte (d.pixel x y)) := by
  have hposition : y % 32 * 64 + x % 64 < 2048 := by omega
  have hpixel := (pixelAt_eq_wrap_iff ⟨_, hposition⟩ x y).mpr rfl
  simp [pixelsOf, hposition, hpixel, Display.pixel]

theorem hit?_ofDrawing (drawing : Display.Drawing) (x y : Nat) :
    (ofDrawing drawing).hit? x y =
      some (ofDrawing (drawing.hit (Pixel.wrap x y))) := by
  have hposition : y % 32 * 64 + x % 64 < 2048 := by omega
  have hcell : (ofDrawing drawing).pixels[y % 32 * 64 + x % 64]? =
      some (flagByte (drawing.display.pixel x y)) :=
    getElem?_pixelsOf drawing.display x y
  simp only [hit?, product?_row, sum?_position, hcell, Option.bind_eq_bind,
    Option.bind_some, set?_of_lt hposition, flagByte_beq_one, Option.pure_def]
  rw [ofDrawing, pixelsOf_toggle _ _ _ hposition]
  rfl

/-! ## Lines and columns -/

theorem toNat_shifted {column : Nat} (h : column < 8) :
    shiftRight? 0x80 column = some (UInt8.ofNat (2 ^ (7 - column))) := by
  interval_cases column <;> rfl

theorem and_bit_eq_zero_iff (line : UInt8) {column : Nat} (h : column < 8) :
    line &&& UInt8.ofNat (2 ^ (7 - column)) = 0 ↔
      line.toNat.testBit (7 - column) = false := by
  have hbit : (UInt8.ofNat (2 ^ (7 - column))).toNat = 2 ^ (7 - column) := by
    interval_cases column <;> rfl
  rw [← UInt8.toNat_inj, UInt8.toNat_and, hbit, Nat.and_two_pow]
  cases line.toNat.testBit (7 - column) <;> simp

def lineTargets (x y : Nat) (line : UInt8) (columns : List Nat) : List Pixel :=
  (columns.filter fun column => line.toNat.testBit (7 - column)).map fun column =>
    Pixel.wrap (x + column) y

theorem drawBits?_ofDrawing {x y row : Nat} (line : UInt8) (columns : List Nat)
    (hcolumns : ∀ column ∈ columns, column < 8)
    (hfits : ∀ column ∈ columns, line.toNat.testBit (7 - column) = true →
      x + column < 0x10000000000000000 ∧ y + row < 0x10000000000000000)
    (drawing : Display.Drawing) :
    columns.foldlM (drawBit? x y row line) (ofDrawing drawing) =
      some (ofDrawing
        ((lineTargets x (y + row) line columns).foldl Display.Drawing.hit
          drawing)) := by
  induction columns generalizing drawing with
  | nil => rfl
  | cons column rest ih =>
      rw [List.forall_mem_cons] at hcolumns hfits
      obtain ⟨hcolumn, hrest⟩ := hcolumns
      obtain ⟨hsums, hfitsRest⟩ := hfits
      have hbit := and_bit_eq_zero_iff line hcolumn
      rw [List.foldlM_cons]
      cases hset : line.toNat.testBit (7 - column) with
      | false =>
          have hskip : drawBit? x y row line (ofDrawing drawing) column =
              some (ofDrawing drawing) := by
            simp [drawBit?, toNat_shifted hcolumn, hbit.mpr hset]
          rw [hskip]
          simpa [lineTargets, hset] using ih hrest hfitsRest drawing
      | true =>
          have hdraw : drawBit? x y row line (ofDrawing drawing) column =
              some
                  (ofDrawing
                      (drawing.hit (Pixel.wrap (x + column) (y + row)))) := by
            have hne : ¬ line &&& UInt8.ofNat (2 ^ (7 - column)) = 0 := by
              simp [hbit, hset]
            simp only [drawBit?, toNat_shifted hcolumn, Option.bind_eq_bind,
              Option.bind_some, hne, if_false]
            rw [sum?_of_lt (hsums hset).1, Option.bind_some,
              sum?_of_lt (hsums hset).2, Option.bind_some, hit?_ofDrawing]
          rw [hdraw]
          simpa [lineTargets, hset] using ih hrest hfitsRest _

theorem drawLine?_ofDrawing {x y row : Nat} {line : UInt8}
    (hfits : ∀ column ∈ Sprite.columns line,
      x + column < 0x10000000000000000 ∧ y + row < 0x10000000000000000)
    (drawing : Display.Drawing) :
    (ofDrawing drawing).drawLine? x y row line =
      some (ofDrawing (((Sprite.columns line).map fun column =>
        Pixel.wrap (x + column) (y + row)).foldl Display.Drawing.hit drawing)) :=
  drawBits?_ofDrawing line (List.range 8) (fun _ => List.mem_range.mp)
    (fun column hcolumn hset => hfits column (List.mem_filter.mpr ⟨hcolumn, hset⟩))
      drawing

/-! ## Sprites -/

/-- Drawn at `(x, y)`, all set bits have coordinates among the 64-bit numbers. -/
def Fits (x y : Nat) (sprite : Sprite) : Prop :=
  ∀ row line, sprite[row]? = some line → ∀ column ∈ Sprite.columns line,
    x + column < 0x10000000000000000 ∧ y + row < 0x10000000000000000

theorem fits_cons {x y : Nat} {line : UInt8} {rest : Sprite} :
    Fits x y (line :: rest) ↔
      (∀ column ∈ Sprite.columns line,
        x + column < 0x10000000000000000 ∧ y < 0x10000000000000000) ∧
      Fits x (y + 1) rest := by
  constructor
  · intro h
    refine ⟨h 0 line rfl, ?_⟩
    intro row below hbelow
    have hnext := h (row + 1) below hbelow
    rwa [Nat.add_comm row 1, ← Nat.add_assoc] at hnext
  · rintro ⟨hline, hrest⟩ row below hbelow
    cases row with
    | zero =>
        cases hbelow
        exact hline
    | succ row =>
        rw [Nat.add_comm row 1, ← Nat.add_assoc]
        exact hrest row below hbelow

theorem fits_append {x y : Nat} {s t : Sprite} :
    Fits x y (s ++ t) ↔ Fits x y s ∧ Fits x (y + s.length) t := by
  induction s generalizing y with
  | nil => simp [Fits]
  | cons line rest ih =>
      have hbelow : y + 1 + rest.length = y + (rest.length + 1) := by omega
      rw [List.cons_append, fits_cons, fits_cons, ih, List.length_cons,
        hbelow, and_assoc]

theorem fits_of_length_le {x y : Nat} {sprite : Sprite}
    (hx : x + 8 ≤ 0x10000000000000000)
    (hy : y + sprite.length ≤ 0x10000000000000000) : Fits x y sprite := by
  intro row line hline column hcolumn
  have hrow := (List.getElem?_eq_some_iff.mp hline).1
  have hcolumn8 := List.mem_range.mp (List.mem_filter.mp hcolumn).1
  omega

theorem drawFrom?_ofDrawing {x y row : Nat} {sprite : Sprite}
    (hfits : Fits x (y + row) sprite) (drawing : Display.Drawing) :
    (ofDrawing drawing).drawFrom? x y row sprite =
      some (ofDrawing
        ((Sprite.targets x (y + row) sprite).foldl Display.Drawing.hit
          drawing)) := by
  induction sprite generalizing row drawing with
  | nil => rfl
  | cons line rest ih =>
      obtain ⟨hline, hrest⟩ := fits_cons.mp hfits
      rw [Nat.add_assoc] at hrest
      simp only [drawFrom?, drawLine?_ofDrawing hline, Option.bind_eq_bind,
        Option.bind_some, ih hrest]
      rw [Sprite.targets, List.foldl_append, Nat.add_assoc]

theorem drawFrom?_draw_of_fits (d : Display) {x y : Nat} {sprite : Sprite}
    (h : Fits x y sprite) :
    drawFrom? x y 0 ⟨pixelsOf d, false⟩ sprite =
      some (ofDrawing (d.draw x y sprite)) :=
  drawFrom?_ofDrawing h ⟨d, false⟩

theorem drawFrom?_draw (d : Display) {x y : Nat} (hx : x < 256) (hy : y < 256)
    {sprite : Sprite} (hrows : sprite.length < 16) :
    drawFrom? x y 0 ⟨pixelsOf d, false⟩ sprite =
      some (ofDrawing (d.draw x y sprite)) :=
  drawFrom?_draw_of_fits d (fits_of_length_le (by omega) (by omega))

end Canvas

end Chip8.Storage
