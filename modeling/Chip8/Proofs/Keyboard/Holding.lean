import Chip8.Keyboard

/-!
# Which texts hold keys

The keys of a text are pressed from left to right.  All of them go down if every
character is bound to a key; otherwise the first character that is not bound is
reported, whatever comes after it.
-/

namespace Chip8.Keyboard

def FirstUnbound (text : List Char) (c : Char) : Prop :=
  ∃ before after, text = before ++ c :: after ∧
    (∀ b ∈ before, keyFor b ≠ none) ∧ keyFor c = none

theorem firstUnbound_cons_of_unbound {c : Char} (h : keyFor c = none)
    (rest : List Char) (d : Char) : FirstUnbound (c :: rest) d ↔ d = c := by
  constructor
  · rintro ⟨before, after, htext, hbefore, -⟩
    cases before with
    | nil => exact (List.cons.inj htext).1.symm
    | cons b before =>
        cases (List.cons.inj htext).1
        exact absurd h (hbefore _ List.mem_cons_self)
  · rintro rfl
    exact ⟨[], rest, rfl, by simp, h⟩

theorem firstUnbound_cons_of_bound {c : Char} (h : keyFor c ≠ none)
    (rest : List Char)
    (d : Char) : FirstUnbound (c :: rest) d ↔ FirstUnbound rest d := by
  constructor
  · rintro ⟨before, after, htext, hbefore, hunbound⟩
    cases before with
    | nil =>
        cases (List.cons.inj htext).1
        exact absurd hunbound h
    | cons b before =>
        refine ⟨before, after, (List.cons.inj htext).2, ?_, hunbound⟩
        exact fun d hd => hbefore d (List.mem_cons_of_mem b hd)
  · rintro ⟨before, after, rfl, hbefore, hunbound⟩
    exact ⟨c :: before, after, rfl, List.forall_mem_cons.mpr ⟨h, hbefore⟩, hunbound⟩

theorem press_eq_error_iff (pad : Keypad) (text : List Char) (error : Unbound) :
    press pad text = .error error ↔ FirstUnbound text error.character := by
  induction text generalizing pad with
  | nil => simp [press, FirstUnbound]
  | cons c rest ih =>
      cases hkey : keyFor c with
      | none =>
          rw [firstUnbound_cons_of_unbound hkey]
          obtain ⟨d⟩ := error
          simp [press, hkey, eq_comm]
      | some key =>
          rw [firstUnbound_cons_of_bound (by simp [hkey])]
          simp only [press, hkey, ih]

theorem exists_press_iff (pad : Keypad) (text : List Char) :
    (∃ held, press pad text = .ok held) ↔ ∀ c ∈ text, keyFor c ≠ none := by
  induction text generalizing pad with
  | nil => simp [press]
  | cons c rest ih =>
      rw [List.forall_mem_cons]
      cases hkey : keyFor c with
      | none => simp [press, hkey]
      | some key => simp [press, hkey, ih]

theorem heldKeys_eq_error_iff (text : String) (error : Unbound) :
    heldKeys text = .error error ↔ FirstUnbound text.toList error.character :=
  press_eq_error_iff .released text.toList error

theorem exists_heldKeys_iff (text : String) :
    (∃ held, heldKeys text = .ok held) ↔ ∀ c ∈ text.toList, keyFor c ≠ none :=
  exists_press_iff .released text.toList

end Chip8.Keyboard
