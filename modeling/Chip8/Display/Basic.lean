/-!
# The display

A screen of 64 by 32 pixels, each lit or dark.  Sprites are eight pixels wide,
one byte to a row, and are drawn by toggling: every set bit aims at one pixel,
and coordinates wrap around at both edges.  `targets` lists the pixels that a
sprite aims at, in drawing order, and `draw` toggles them one after another;
it reports a collision when a toggle darkens a lit pixel.
-/

namespace Chip8

structure Pixel where
  x : Fin 64
  y : Fin 32
  deriving DecidableEq, Repr

namespace Pixel

def wrap (x y : Nat) : Pixel :=
  ⟨⟨x % 64, Nat.mod_lt _ (by decide)⟩, ⟨y % 32, Nat.mod_lt _ (by decide)⟩⟩

def all : List Pixel :=
  (List.finRange 32).flatMap fun y => (List.finRange 64).map fun x => ⟨x, y⟩

theorem mem_all (p : Pixel) : p ∈ all := by
  simp only [all, List.mem_flatMap, List.mem_map]
  exact ⟨p.y, List.mem_finRange _, p.x, List.mem_finRange _, rfl⟩

end Pixel

/-- The rows of a sprite from top to bottom; the highest bit is leftmost. -/
abbrev Sprite := List UInt8

namespace Sprite

def columns (row : UInt8) : List Nat :=
  (List.range 8).filter fun column => row.toNat.testBit (7 - column)

/-- The pixels that a sprite with its top left corner at `(x, y)` aims at. -/
def targets (x y : Nat) : Sprite → List Pixel
  | [] => []
  | row :: rest =>
      (columns row).map (fun column => Pixel.wrap (x + column) y) ++
        targets x (y + 1) rest

theorem targets_append (x y : Nat) (s t : Sprite) :
    targets x y (s ++ t) = targets x y s ++ targets x (y + s.length) t := by
  induction s generalizing y with
  | nil => rfl
  | cons row rest ih =>
      have hrow : y + 1 + rest.length = y + (rest.length + 1) := by omega
      simp [targets, ih, hrow]

end Sprite

structure Display where
  rows : Vector (Vector Bool 64) 32
  deriving DecidableEq

namespace Display

def blank : Display := ⟨Vector.replicate 32 (Vector.replicate 64 false)⟩

def isLit (d : Display) (p : Pixel) : Bool := d.rows[p.y][p.x]

def pixel (d : Display) (x y : Nat) : Bool := d.isLit (Pixel.wrap x y)

def toggle (d : Display) (p : Pixel) : Display :=
  ⟨d.rows.set p.y (d.rows[p.y].set p.x (!d.isLit p))⟩

def litCount (d : Display) : Nat := Pixel.all.countP d.isLit

structure Drawing where
  display : Display
  collision : Bool
  deriving DecidableEq

def Drawing.hit (drawing : Drawing) (p : Pixel) : Drawing :=
  ⟨drawing.display.toggle p, drawing.collision || drawing.display.isLit p⟩

def draw (d : Display) (x y : Nat) (sprite : Sprite) : Drawing :=
  (sprite.targets x y).foldl Drawing.hit ⟨d, false⟩

@[ext] theorem ext_isLit {d d' : Display} (h : ∀ p, d.isLit p = d'.isLit p) :
    d = d' := by
  obtain ⟨rows⟩ := d
  obtain ⟨rows'⟩ := d'
  congr 1
  apply Vector.ext
  intro y hy
  apply Vector.ext
  intro x hx
  exact h ⟨⟨x, hx⟩, ⟨y, hy⟩⟩

@[simp] theorem isLit_blank (p : Pixel) : blank.isLit p = false := by
  simp [isLit, blank]

theorem isLit_toggle (d : Display) (p q : Pixel) :
    (d.toggle p).isLit q = (d.isLit q ^^ decide (q = p)) := by
  obtain ⟨px, py⟩ := p
  obtain ⟨qx, qy⟩ := q
  by_cases hy : py = qy
  · subst hy
    by_cases hx : px = qx
    · subst hx
      simp [isLit, toggle]
    · have hne : px.val ≠ qx.val := fun heq => hx (Fin.ext heq)
      simp [isLit, toggle, hne, Ne.symm hx]
  · have hne : py.val ≠ qy.val := fun heq => hy (Fin.ext heq)
    simp [isLit, toggle, hne, Ne.symm hy]

end Display

end Chip8
