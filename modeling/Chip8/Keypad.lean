import Chip8.Instruction.Basic

/-!
# The keypad

Which of the sixteen keys are down.  The machine only looks at it; whoever
drives the machine sets it.  A key code wider than a nibble means the key of
its lowest nibble.
-/

namespace Chip8

def Key.ofByte (code : UInt8) : Key := ⟨code.toNat % 16, Nat.mod_lt _ (by decide)⟩

def Key.ofCode? (code : Nat) : Option Key :=
  if h : code < 16 then some ⟨code, h⟩ else none

structure Keypad where
  keys : Vector Bool 16
  deriving DecidableEq

namespace Keypad

def released : Keypad := ⟨Vector.replicate 16 false⟩

def isPressed (pad : Keypad) (k : Key) : Bool := pad.keys[k]

def set (pad : Keypad) (k : Key) (down : Bool) : Keypad := ⟨pad.keys.set k down⟩

def ofFn (down : Key → Bool) : Keypad := ⟨Vector.ofFn down⟩

def firstPressed (pad : Keypad) : Option Key :=
  (List.finRange 16).find? pad.isPressed

@[ext] theorem ext_isPressed {pad pad' : Keypad}
    (h : ∀ k, pad.isPressed k = pad'.isPressed k) : pad = pad' := by
  obtain ⟨keys⟩ := pad
  obtain ⟨keys'⟩ := pad'
  congr 1
  apply Vector.ext
  intro k hk
  exact h ⟨k, hk⟩

@[simp] theorem isPressed_released (k : Key) : released.isPressed k = false := by
  simp [isPressed, released]

@[simp] theorem isPressed_ofFn (down : Key → Bool) (k : Key) :
    (ofFn down).isPressed k = down k := by
  simp [isPressed, ofFn]

theorem isPressed_set (pad : Keypad) (j : Key) (down : Bool) (k : Key) :
    (pad.set j down).isPressed k = if k = j then down else pad.isPressed k := by
  by_cases h : k = j
  · subst h
    simp [isPressed, set]
  · have hne : j.val ≠ k.val := fun heq => h (Fin.ext heq.symm)
    simp [isPressed, set, h, hne]

theorem firstPressed_eq_none_iff (pad : Keypad) :
    pad.firstPressed = none ↔ ∀ k, pad.isPressed k = false := by
  simp [firstPressed]

theorem firstPressed_eq_some_iff (pad : Keypad) (key : Key) :
    pad.firstPressed = some key ↔
      pad.isPressed key = true ∧ ∀ k, k < key → pad.isPressed k = false := by
  rw [firstPressed, List.find?_eq_some_iff_getElem]
  constructor
  · rintro ⟨hdown, i, hi, hkey, hlower⟩
    have hval : i = key.val := by simpa using congrArg Fin.val hkey
    refine ⟨hdown, fun k hk => ?_⟩
    have hlt : k.val < i := hval ▸ hk
    simpa using hlower k hlt
  · rintro ⟨hdown, hlower⟩
    refine ⟨hdown, key, by simp, by simp, fun j hj => ?_⟩
    simpa using hlower ⟨j, Nat.lt_trans hj key.isLt⟩ hj

end Keypad

end Chip8
