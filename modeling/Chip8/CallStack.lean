/-!
# The call stack

Sixteen slots for saved addresses and the number of slots in use.  `saved` is
the view: the saved addresses, newest first.  What a slot outside it holds,
left there by an earlier call, does not show.
-/

namespace Chip8

structure CallStack where
  slots : Vector UInt16 16
  depth : Nat
  depth_le : depth ≤ 16 := by omega
  deriving DecidableEq

namespace CallStack

def empty : CallStack := ⟨Vector.replicate 16 0, 0, by omega⟩

def saved (s : CallStack) : List UInt16 := (s.slots.toList.take s.depth).reverse

def push? (s : CallStack) (address : UInt16) : Option CallStack :=
  if h : s.depth < 16 then
    some ⟨s.slots.set s.depth address, s.depth + 1, h⟩
  else
    none

def pop? (s : CallStack) : Option (UInt16 × CallStack) :=
  if h : 0 < s.depth then
    have hslot : s.depth - 1 < 16 := by have := s.depth_le; omega
    some (s.slots[s.depth - 1], ⟨s.slots, s.depth - 1, by omega⟩)
  else
    none

@[simp] theorem saved_empty : empty.saved = [] := rfl

@[simp] theorem length_saved (s : CallStack) : s.saved.length = s.depth := by
  simp [saved, s.depth_le]

theorem getElem?_saved (s : CallStack) {k : Nat} (h : k < s.depth) :
    s.saved[k]? = s.slots[s.depth - 1 - k]? := by
  have hdepth := s.depth_le
  have hlength : (s.slots.toList.take s.depth).length = s.depth := by simp [hdepth]
  have hslot : s.depth - 1 - k < s.depth := by omega
  rw [saved, List.getElem?_reverse (by rwa [hlength]), hlength,
    List.getElem?_take_of_lt hslot]
  simp

theorem push?_eq_none_iff (s : CallStack) (address : UInt16) :
    s.push? address = none ↔ s.saved.length = 16 := by
  have := s.depth_le
  simp only [push?, length_saved]
  split <;> simp <;> omega

theorem pop?_eq_none_iff (s : CallStack) : s.pop? = none ↔ s.saved = [] := by
  rw [← List.length_eq_zero_iff, length_saved]
  simp only [pop?]
  split <;> simp <;> omega

theorem saved_push {s s' : CallStack} {address : UInt16}
    (h : s.push? address = some s') :
    s'.saved = address :: s.saved := by
  simp only [push?] at h
  split at h
  next hroom =>
    cases h
    simp [saved, Vector.toList_set, List.take_add_one, List.take_set_of_le, hroom]
  next => cases h

theorem saved_pop {s s' : CallStack} {address : UInt16}
    (h : s.pop? = some (address, s')) :
    s.saved = address :: s'.saved := by
  obtain ⟨slots, depth, hdepth⟩ := s
  cases depth with
  | zero => cases h
  | succ depth =>
      have hslot : depth < 16 := hdepth
      simp only [pop?, Nat.zero_lt_succ, dif_pos, Option.some.injEq,
        Prod.mk.injEq] at h
      obtain ⟨rfl, rfl⟩ := h
      simp [saved, List.take_add_one, hslot]

end CallStack

end Chip8
