import Chip8.Display.Picture

/-!
# Reading pictures of the display

A picture has a line for each row of the display and a mark for each pixel.  It can
be read back: its text is cut at the line breaks, and every line is read mark by
mark.  The reader accepts the pictures of displays and no other text, so a picture
tells everything about the display that it shows.
-/

namespace Chip8

/-! ## Reading -/

def sized? {α : Type} (size : Nat) (values : List α) : Option (Vector α size) :=
  if h : values.length = size then some ⟨values.toArray, by simpa using h⟩ else none

theorem sized?_eq_some_iff {α : Type} {size : Nat} {values : List α}
    {v : Vector α size} :
    sized? size values = some v ↔ values = v.toList := by
  constructor
  · intro h
    unfold sized? at h
    split at h
    next =>
      cases h
      rfl
    next => cases h
  · rintro rfl
    simp [sized?, Vector.toList]

theorem mapM_eq_some_iff {α β : Type} {read? : α → Option β} {write : β → α}
    (h : ∀ a b, read? a = some b ↔ a = write b) (written : List α)
    (values : List β) :
    written.mapM read? = some values ↔ written = values.map write := by
  induction written generalizing values with
  | nil => cases values <;> simp
  | cons a written ih =>
      simp only [List.mapM_cons, Option.bind_eq_bind, Option.bind_eq_some_iff,
        Option.pure_def, Option.some.injEq, h, ih]
      constructor
      · rintro ⟨b, rfl, later, rfl, rfl⟩
        rfl
      · intro hmap
        obtain ⟨b, later, rfl, rfl, rfl⟩ := List.map_eq_cons_iff.mp hmap.symm
        exact ⟨b, rfl, later, rfl, rfl⟩

def lines? : List Char → Option (List (List Char))
  | [] => some []
  | c :: rest =>
      if c = '\n' then (lines? rest).map ([] :: ·)
      else
        match lines? rest with
        | some (line :: lines) => some ((c :: line) :: lines)
        | _ => none

def ended (lines : List (List Char)) : List Char :=
  lines.flatMap fun line => line ++ ['\n']

theorem lines?_append {line : List Char} (h : '\n' ∉ line) {rest : List Char}
    {lines : List (List Char)} (hrest : lines? rest = some lines) :
    lines? (line ++ '\n' :: rest) = some (line :: lines) := by
  induction line with
  | nil => simp [lines?, hrest]
  | cons c line ih =>
      have hc : c ≠ '\n' := by
        rintro rfl
        exact h List.mem_cons_self
      have hline : '\n' ∉ line := fun hmem => h (List.mem_cons_of_mem c hmem)
      simp [lines?, hc, ih hline]

theorem lines?_ended {lines : List (List Char)} (h : ∀ line ∈ lines, '\n' ∉ line) :
    lines? (ended lines) = some lines := by
  induction lines with
  | nil => rfl
  | cons line lines ih =>
      obtain ⟨hline, hlines⟩ := List.forall_mem_cons.mp h
      simpa [ended] using lines?_append hline (ih hlines)

theorem eq_ended_of_lines? {text : List Char} {lines : List (List Char)}
    (h : lines? text = some lines) : text = ended lines := by
  induction text generalizing lines with
  | nil =>
      cases h
      rfl
  | cons c text ih =>
      rw [lines?] at h
      split at h
      next hbreak =>
        obtain ⟨later, hlater, rfl⟩ := Option.map_eq_some_iff.mp h
        simp [ended, hbreak, ih hlater]
      next =>
        cases hrest : lines? text with
        | none => simp [hrest] at h
        | some later =>
            cases later with
            | nil => simp [hrest] at h
            | cons line later =>
                simp only [hrest, Option.some.injEq] at h
                subst h
                simp [ended, ih hrest]

namespace Display

def readMark? : Char → Option Bool
  | '#' => some true
  | '.' => some false
  | _ => none

def readRow? (line : List Char) : Option (Vector Bool 64) :=
  (line.mapM readMark?).bind (sized? 64)

def ofPicture? (text : String) : Option Display := do
  let lines ← lines? text.toList
  let rows ← lines.mapM readRow?
  return ⟨← sized? 32 rows⟩

theorem readMark?_eq_some_iff (c : Char) (lit : Bool) :
    readMark? c = some lit ↔ c = mark lit := by
  constructor
  · intro h
    unfold readMark? at h
    split at h <;> cases h <;> rfl
  · rintro rfl
    cases lit <;> rfl

def rowLine (row : Vector Bool 64) : List Char := row.toList.map mark

def lines (d : Display) : List (List Char) := d.rows.toList.map rowLine

theorem readRow?_eq_some_iff (line : List Char) (row : Vector Bool 64) :
    readRow? line = some row ↔ line = rowLine row := by
  simp [readRow?, rowLine, Option.bind_eq_some_iff, sized?_eq_some_iff,
    mapM_eq_some_iff readMark?_eq_some_iff]

theorem toList_picture (d : Display) : d.picture.toList = ended d.lines := by
  simp only [picture, String.toList_ofList, ended, lines, List.flatMap_map]
  rfl

theorem mem_rowLine {row : Vector Bool 64} {c : Char} (h : c ∈ rowLine row) :
    c = '#' ∨ c = '.' := by
  obtain ⟨lit, -, rfl⟩ := List.mem_map.mp h
  cases lit <;> simp [mark]

theorem lines?_picture (d : Display) : lines? d.picture.toList = some d.lines := by
  rw [toList_picture]
  apply lines?_ended
  intro line hline hbreak
  obtain ⟨row, -, rfl⟩ := List.mem_map.mp hline
  rcases mem_rowLine hbreak with h | h <;> cases h

theorem ofPicture?_eq_some_iff (text : String) (d : Display) :
    ofPicture? text = some d ↔ text = d.picture := by
  constructor
  · intro h
    simp only [ofPicture?, Option.bind_eq_bind, Option.bind_eq_some_iff,
      mapM_eq_some_iff readRow?_eq_some_iff, sized?_eq_some_iff] at h
    obtain ⟨lines, hlines, rows, rfl, rows', rfl, hd⟩ := h
    cases hd
    rw [← String.toList_inj, toList_picture, eq_ended_of_lines? hlines]
    rfl
  · rintro rfl
    have hrows : d.lines.mapM readRow? = some d.rows.toList :=
      (mapM_eq_some_iff readRow?_eq_some_iff _ _).mpr rfl
    have hsized : sized? 32 d.rows.toList = some d.rows :=
      sized?_eq_some_iff.mpr rfl
    simp [ofPicture?, lines?_picture, hrows, hsized]

theorem picture_inj {d d' : Display} : d.picture = d'.picture ↔ d = d' := by
  constructor
  · intro h
    have hread : ofPicture? d.picture = some d :=
      (ofPicture?_eq_some_iff _ d).mpr rfl
    rw [h, (ofPicture?_eq_some_iff _ d').mpr rfl] at hread
    exact (Option.some.inj hread).symm
  · rintro rfl
    rfl

/-! ## The form of a picture -/

/-- The lines show a display: a mark for each pixel at its place, and no more. -/
structure ShownBy (d : Display) (lines : List (List Char)) : Prop where
  height : lines.length = 32
  width : ∀ line ∈ lines, line.length = 64
  marks : ∀ line ∈ lines, ∀ c ∈ line, c = '#' ∨ c = '.'
  lit_iff : ∀ x y, x < 64 → y < 32 →
    ((lines[y]?.bind fun shown => shown[x]?) = some '#' ↔ d.pixel x y = true)

theorem mark_eq_iff (lit : Bool) : mark lit = '#' ↔ lit = true := by
  cases lit <;> simp [mark]

theorem shownBy_lines (d : Display) : d.ShownBy d.lines where
  height := by simp [lines]
  width := by
    intro line hline
    obtain ⟨row, -, rfl⟩ := List.mem_map.mp hline
    simp [rowLine]
  marks := by
    intro line hline c hc
    obtain ⟨row, -, rfl⟩ := List.mem_map.mp hline
    exact mem_rowLine hc
  lit_iff := by
    intro x y hx hy
    simp [lines, rowLine, hx, hy, mark_eq_iff, pixel, isLit, Pixel.wrap,
      Nat.mod_eq_of_lt]

end Display

end Chip8
