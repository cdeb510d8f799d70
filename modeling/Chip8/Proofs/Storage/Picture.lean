import Chip8.Proofs.Screen.Picture
import Chip8.Proofs.Storage.Drawing
import Chip8.Proofs.Storage.Safety

/-!
# Three views of the screen

The array of pixels can be looked at one by one, row by row or as a picture.  All
cells of a reachable storage hold zero or one, and so the three views show the same
screen, and a picture of it can be read back.
-/

namespace Chip8

namespace Storage

/-! ## The views -/

def pixel? (s : Storage) (x y : Nat) : Option Bool := do
  let start ← product? (y % 32) 64
  let position ← sum? start (x % 64)
  let cell ← s.pixels[position]?
  return cell == 1

/-- A list cut into pieces of a size; what is left over is the last piece. -/
def chunks {α : Type} (size : Nat) (values : List α) : List (List α) :=
  if size = 0 ∨ values = [] then []
  else values.take size :: chunks size (values.drop size)
termination_by values.length
decreasing_by
  rename_i h
  obtain ⟨hsize, hvalues⟩ := not_or.mp h
  have hlength := List.length_pos_iff.mpr hvalues
  rw [List.length_drop]
  omega

def rows (s : Storage) : List (List UInt8) := chunks 64 s.pixels.toList

def picture (s : Storage) : String :=
  String.ofList (s.rows.flatMap fun row =>
    row.map (fun cell => if cell = 1 then '#' else '.') ++ ['\n'])

/-! ## Rows -/

theorem getElem?_chunks {α : Type} {size : Nat} (hsize : 0 < size) (values : List α)
    (k : Nat) :
    (chunks size values)[k]? =
      if k * size < values.length then some ((values.drop (k * size)).take size)
      else none := by
  induction k generalizing values with
  | zero =>
      rw [chunks]
      cases values <;> simp [hsize.ne']
  | succ k ih =>
      have hnext : (k + 1) * size = size + k * size := by
        rw [Nat.succ_mul, Nat.add_comm]
      rw [chunks, hnext]
      split
      next h =>
        have hnil : values = [] := h.resolve_left hsize.ne'
        simp [hnil]
      next =>
        rw [List.getElem?_cons_succ, ih, List.length_drop, List.drop_drop]
        simp only [Nat.lt_sub_iff_add_lt']

theorem rows_ofMachine (m : Machine) :
    (ofMachine m).rows = m.display.rows.toList.map fun row =>
    row.toList.map flagByte := by
  apply List.ext_getElem?
  intro y
  rw [rows, getElem?_chunks (by decide)]
  rcases Nat.lt_or_ge y 32 with hy | hy
  · have hstart : y * 64 < 2048 := by omega
    simp only [Vector.length_toList, hstart, if_true, List.getElem?_map,
      Vector.getElem?_toList, Vector.getElem?_eq_getElem hy, Option.map_some,
      Option.some.injEq]
    apply List.ext_getElem
    · simp
      omega
    · intro x hx hx'
      have hcolumn : x < 64 := by simpa using hx'
      have hpixel : (y * 64 + x) / 64 = y ∧ (y * 64 + x) % 64 = x := by omega
      simp [ofMachine, pixelsOf, pixelAt, Display.isLit, hpixel]
  · have hend : ¬ y * 64 < 2048 := by omega
    simp [hend, hy]

theorem picture_ofMachine (m : Machine) :
    (ofMachine m).picture = m.display.picture := by
  have hmark : ((fun cell => if cell = 1 then '#' else '.') ∘ flagByte) =
      Display.mark := by
    funext lit
    cases lit <;> rfl
  simp only [picture, rows_ofMachine, List.flatMap_map, List.map_map, hmark]
  rfl

theorem cell_ofMachine (m : Machine) (x y : Nat) :
    ∃ row, (ofMachine m).rows[y % 32]? = some row ∧
      row[x % 64]? = some (flagByte (m.display.pixel x y)) := by
  have hy : y % 32 < 32 := Nat.mod_lt y (by decide)
  have hx : x % 64 < 64 := Nat.mod_lt x (by decide)
  refine ⟨(m.display.rows[y % 32]).toList.map flagByte, ?_, ?_⟩
  · simp [rows_ofMachine, hy]
  · simp [hx, Display.pixel, Display.isLit, Pixel.wrap]

/-! ## Single pixels -/

theorem pixel?_ofMachine (m : Machine) (x y : Nat) :
    (ofMachine m).pixel? x y = some (m.display.pixel x y) := by
  have hcell : (ofMachine m).pixels[y % 32 * 64 + x % 64]? =
      some (flagByte (m.display.pixel x y)) :=
    Canvas.getElem?_pixelsOf m.display x y
  simp [pixel?, Canvas.product?_row, Canvas.sum?_position, hcell, flagByte_beq_one]

theorem pixel?_mod (s : Storage) (x y : Nat) :
    s.pixel? (x % 64) (y % 32) = s.pixel? x y := by
  simp [pixel?]

/-! ## Reachable screens -/

theorem picture_eq_picture_iff {s s' : Storage} (h : s.Reachable)
    (h' : s'.Reachable) :
    s.picture = s'.picture ↔ s.pixels = s'.pixels := by
  constructor
  · intro hpicture
    rcases reachable_iff.mp h with ⟨m, -, rfl⟩
    rcases reachable_iff.mp h' with ⟨m', -, rfl⟩
    rw [picture_ofMachine, picture_ofMachine, Display.picture_inj] at hpicture
    simp [ofMachine, hpicture]
  · intro hpixels
    simp [picture, rows, hpixels]

/--
Pictures are lossless.  The picture of a display is the text of lines that show it,
each ended by a line break; it is the only text that is read as this display, and
two displays with one picture are equal.  The pixels of a reachable storage are
those of a reachable machine, and its picture is the picture of their display;
pictures tell two such storages apart if any cell of their screens does.  A pixel is
the same at coordinates that wrap around, however large they are, and lit exactly if
the cell at its place in its row is one.
-/
theorem picture_is_lossless :
    (∀ d : Display,
      (∃ lines, d.ShownBy lines ∧ d.picture.toList = ended lines) ∧
      ∀ text, Display.ofPicture? text = some d ↔ text = d.picture) ∧
    (∀ d d' : Display, d.picture = d'.picture ↔ d = d') ∧
    (∀ s s' : Storage, s.Reachable → s'.Reachable →
      (s.picture = s'.picture ↔ s.pixels = s'.pixels)) ∧
    ∀ s : Storage, s.Reachable →
      ∃ m : Machine, m.Reachable ∧ s = ofMachine m ∧ s.picture = m.display.picture ∧
        ∀ x y, s.pixel? x y = some (m.display.pixel x y) ∧
          s.pixel? x y = s.pixel? (x % 64) (y % 32) ∧
          ∃ row cell, s.rows[y % 32]? = some row ∧ row[x % 64]? = some cell ∧
            (cell = 1 ↔ m.display.pixel x y = true) := by
  refine ⟨?_, fun d d' => Display.picture_inj, fun s s' =>
    picture_eq_picture_iff, ?_⟩
  · intro d
    refine ⟨⟨d.lines, d.shownBy_lines, d.toList_picture⟩, ?_⟩
    intro text
    exact Display.ofPicture?_eq_some_iff text d
  · intro s h
    rcases reachable_iff.mp h with ⟨m, hm, rfl⟩
    refine ⟨m, hm, rfl, picture_ofMachine m, ?_⟩
    intro x y
    refine ⟨pixel?_ofMachine m x y, (pixel?_mod _ x y).symm, ?_⟩
    obtain ⟨row, hrow, hcell⟩ := cell_ofMachine m x y
    exact ⟨row, _, hrow, hcell, flagByte_eq_one_iff⟩

theorem picture_is_lossless_corner :
    let m := (Machine.boot {} (.ofSeed 0)).machine.after
      [.step, .step, .step, .step, .load [0x60, 0x3F, 0x61, 0x1F, 0xA0, 0x50,
        0xD0, 0x15]]
    let s := ofMachine m
    s.Reachable ∧ s.pixel? (2 ^ 64 - 1) (2 ^ 64 - 1) = some true ∧
      s.picture = m.display.picture ∧
          Display.ofPicture? s.picture = some m.display := by
  intro m s
  have hs : s.Reachable :=
    reachable_ofMachine (Machine.reachable_after (.start (.bare {} 0)) _)
  have hlit : m.display.pixel (2 ^ 64 - 1) (2 ^ 64 - 1) = true := by decide +kernel
  have hmachine : s.picture = m.display.picture := picture_ofMachine m
  rcases picture_is_lossless with ⟨hform, hinj, -, hviews⟩
  obtain ⟨shown, -, -, hshown, hpixels⟩ := hviews s hs
  have hdisplay : shown.display = m.display :=
    (hinj _ _).mp (hshown.symm.trans hmachine)
  refine ⟨hs, ?_, hmachine, ((hform m.display).2 s.picture).mpr hmachine⟩
  rw [(hpixels _ _).1, hdisplay, hlit]

end Storage

end Chip8
