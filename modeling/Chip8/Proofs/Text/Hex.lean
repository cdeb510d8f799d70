import Chip8.Text.Hex
import Mathlib.Algebra.Order.Ring.Nat

/-!
# Reading hexadecimal text

A written number can be read back, whatever width it was written with.  Its
digits are no punctuation, so a number that stands before a colon or a space
ends there.
-/

namespace Chip8.Hex

def digitValue (c : Char) : Nat :=
  if c.toNat < 58 then c.toNat - 48 else c.toNat - 55

def value (text : List Char) : Nat :=
  text.foldl (fun n c => n * 16 + digitValue c) 0

theorem digitValue_digit {d : Nat} (h : d < 16) : digitValue (digit d) = d := by
  have hall : ∀ d, d < 16 → digitValue (digit d) = d := by decide
  exact hall d h

theorem value_digits (width n : Nat) : value (digits width n) = n % 16 ^ width := by
  induction width generalizing n with
  | zero =>
      rw [pow_zero, Nat.mod_one]
      rfl
  | succ width ih =>
      have hhigh : value (digits width (n / 16)) = n / 16 % 16 ^ width :=
        ih (n / 16)
      have hlow : digitValue (digit (n % 16)) = n % 16 :=
        digitValue_digit (Nat.mod_lt n (by decide))
      rw [value] at hhigh
      rw [digits, value, List.foldl_append, hhigh, List.foldl_cons, List.foldl_nil,
        hlow, pow_succ', Nat.mod_mul]
      omega

theorem lt_pow_width (n : Nat) : n < 16 ^ width n := by
  have hlog : n < 2 ^ (n.log2 + 1) := Nat.lt_log2_self
  have hle : n.log2 + 1 ≤ 4 * width n := by
    unfold width
    omega
  calc n < 2 ^ (n.log2 + 1) := hlog
    _ ≤ 2 ^ (4 * width n) := Nat.pow_le_pow_right (by decide) hle
    _ = 16 ^ width n := by rw [pow_mul]; rfl

theorem width_le {least n : Nat} (hleast : 0 < least) (h : n < 16 ^ least) :
    width n ≤ least := by
  unfold width
  by_cases hn : n = 0
  · subst hn
    exact hleast
  · have hpow : 16 ^ least = 2 ^ (4 * least) := by rw [pow_mul]; rfl
    have hlog : n.log2 < 4 * least := (Nat.log2_lt hn).mpr (hpow ▸ h)
    omega

theorem toList_padded (least n : Nat) :
    (padded least n).toList = digits (max least (width n)) n := by
  simp [padded]

theorem length_padded {least n : Nat} (hleast : 0 < least) (h : n < 16 ^ least) :
    (padded least n).toList.length = least := by
  rw [toList_padded, length_digits, Nat.max_eq_left (width_le hleast h)]

theorem value_padded (least n : Nat) : value (padded least n).toList = n := by
  have hlt : n < 16 ^ max least (width n) := by
    calc n < 16 ^ width n := lt_pow_width n
      _ ≤ 16 ^ max least (width n) :=
        Nat.pow_le_pow_right (by decide) (Nat.le_max_right _ _)
  rw [toList_padded, value_digits, Nat.mod_eq_of_lt hlt]

theorem mem_digits {width n : Nat} {c : Char} (h : c ∈ digits width n) :
    ∃ d, d < 16 ∧ c = digit d := by
  induction width generalizing n with
  | zero => cases h
  | succ width ih =>
      rw [digits, List.mem_append, List.mem_singleton] at h
      rcases h with hhigh | rfl
      · exact ih hhigh
      · exact ⟨n % 16, Nat.mod_lt n (by decide), rfl⟩

theorem not_mem_padded {c : Char} (h : ∀ d, d < 16 → digit d ≠ c) (least n : Nat) :
    c ∉ (padded least n).toList := by
  rw [toList_padded]
  intro hmem
  rcases mem_digits hmem with ⟨d, hd, rfl⟩
  exact h d hd rfl

/-- The number in front of the first `stop` of a text, and the text after it. -/
def readBefore (stop : Char) (text : List Char) : Nat × List Char :=
  (value (text.takeWhile (· != stop)), (text.dropWhile (· != stop)).tail)

theorem readBefore_padded {stop : Char} (h : ∀ d, d < 16 → digit d ≠ stop)
    (least n : Nat) (rest : List Char) :
    readBefore stop ((padded least n).toList ++ stop :: rest) = (n, rest) := by
  have hdigits : ∀ c ∈ (padded least n).toList, (c != stop) = true := by
    intro c hc
    exact bne_iff_ne.mpr (ne_of_mem_of_not_mem hc (not_mem_padded h least n))
  have hfront : ((padded least n).toList ++ stop :: rest).takeWhile (· != stop) =
      (padded least n).toList := by
    rw [List.takeWhile_append_of_pos hdigits, List.takeWhile_cons_of_neg (by simp),
      List.append_nil]
  have hback : ((padded least n).toList ++ stop :: rest).dropWhile (· != stop) =
      stop :: rest := by
    rw [List.dropWhile_append_of_pos hdigits, List.dropWhile_cons_of_neg (by simp)]
  rw [readBefore, hfront, hback, value_padded, List.tail_cons]

end Chip8.Hex
