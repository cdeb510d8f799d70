import Chip8.Proofs.Instruction.Layout
import Mathlib.Data.Nat.Bitwise

/-!
# Which words decode

A word decodes to an instruction exactly if it is the word that the instruction is
encoded as, up to the lowest nibble in the two families that do not look at it.  So
words stand for the same instruction only if they differ in such a nibble at most,
and the refused words are those that no instruction is encoded as.
-/

namespace Chip8

namespace Opcode

/-- The family has one instruction only, which makes no use of the lowest nibble. -/
abbrev HasFreeNibble (op : Opcode) : Prop := op.family = 0x5 ∨ op.family = 0x9

def clearNibble (op : Opcode) : Opcode := op &&& 0xFFF0

theorem toNat_clearNibble (op : Opcode) :
    op.clearNibble.toNat = op.toNat / 0x10 * 0x10 := by
  have hmask : (0xFFF0 : Nat) = (2 ^ 12 - 1) <<< 4 := rfl
  have hcleared : op.toNat / 0x10 * 0x10 = op.toNat >>> 4 <<< 4 := by
    rw [Nat.shiftRight_eq_div_pow, Nat.shiftLeft_eq]
  have hand : op.clearNibble.toNat = op.toNat &&& 0xFFF0 :=
    UInt16.toNat_and op 0xFFF0
  rw [hand, hmask, hcleared]
  apply Nat.eq_of_testBit_eq
  intro k
  simp only [Nat.testBit_and, Nat.testBit_shiftLeft, Nat.testBit_shiftRight,
    Nat.testBit_two_pow_sub_one]
  by_cases hlow : k < 4
  · simp [Nat.not_le.mpr hlow]
  · by_cases hhigh : k < 16
    · have hkept : k - 4 < 12 := by omega
      have hback : 4 + (k - 4) = k := by omega
      simp [hkept, hback, Nat.le_of_not_lt hlow]
    · -- the mask ends where the word does
      have hword : op.toNat < 2 ^ k :=
        Nat.lt_of_lt_of_le op.toNat_lt (Nat.pow_le_pow_right (by decide) (by omega))
      have hback : 4 + (k - 4) = k := by omega
      simp [hback, Nat.testBit_lt_two_pow hword]

theorem canonical_eq (op : Opcode) :
    op.canonical = if op.HasFreeNibble then op.clearNibble else op := by
  unfold canonical
  split
  next =>
    apply UInt16.toNat_inj.mp
    have := op.toNat_lt
    rw [toNat_clearNibble]
    simp only [ofRegisters, family, x, y, UInt16.toNat_ofNat']
    omega
  next => rfl

theorem hasFreeNibble_canonical (op : Opcode) :
    op.canonical.HasFreeNibble ↔ op.HasFreeNibble := by
  simp only [HasFreeNibble, family_canonical]

theorem canonical_eq_canonical_iff {a b : Opcode} :
    a.canonical = b.canonical ↔
      a = b ∨ (a.HasFreeNibble ∧ b.HasFreeNibble) ∧
      a.clearNibble = b.clearNibble := by
  constructor
  · intro h
    have hfree : a.HasFreeNibble ↔ b.HasFreeNibble := by
      rw [← hasFreeNibble_canonical a, h, hasFreeNibble_canonical]
    simp only [canonical_eq, ← hfree] at h
    split at h
    next ha => exact .inr ⟨⟨ha, hfree.mp ha⟩, h⟩
    next => exact .inl h
  · rintro (rfl | ⟨⟨ha, hb⟩, hclear⟩)
    · rfl
    · rw [canonical_eq, canonical_eq, if_pos ha, if_pos hb, hclear]

end Opcode

namespace Instruction

/-! ## Words that decode -/

theorem decode_of_hasFreeNibble {op : Opcode} (h : op.HasFreeNibble) :
    ∃ instruction, decode op = some instruction := by
  rcases h with h5 | h9
  · exact ⟨_, by simp only [decode, h5]; rfl⟩
  · exact ⟨_, by simp only [decode, h9]; rfl⟩

theorem decode_eq_some_iff {op : Opcode} {instruction : Instruction} :
    decode op = some instruction ↔ instruction.encode = op.canonical := by
  constructor
  · exact encode_of_decode
  · intro hencode
    by_cases hfree : op.HasFreeNibble
    · rcases decode_of_hasFreeNibble hfree with ⟨decoded, hdecoded⟩
      have hsame : instruction.encode = decoded.encode :=
        hencode.trans (encode_of_decode hdecoded).symm
      have hdecode := decode_encode instruction
      rw [hsame, decode_encode decoded, ← hdecoded] at hdecode
      exact hdecode
    · rw [Opcode.canonical_eq, if_neg hfree] at hencode
      rw [← hencode]
      exact decode_encode instruction

theorem decode_eq_none_iff {op : Opcode} :
    decode op = none ↔
      ∀ instruction : Instruction, instruction.encode ≠ op.canonical := by
  rw [Option.eq_none_iff_forall_ne_some]
  exact forall_congr' fun instruction => not_congr decode_eq_some_iff

theorem exists_decode_iff {a b : Opcode} :
    (∃ instruction, decode a = some instruction ∧ decode b = some instruction) ↔
      (∃ instruction, decode a = some instruction) ∧ a.canonical = b.canonical := by
  constructor
  · rintro ⟨instruction, ha, hb⟩
    exact ⟨⟨instruction, ha⟩, (encode_of_decode ha).symm.trans
      (encode_of_decode hb)⟩
  · rintro ⟨⟨instruction, ha⟩, hsame⟩
    exact ⟨instruction, ha, decode_eq_some_iff.mpr
      ((encode_of_decode ha).trans hsame)⟩

theorem family_of_decode_eq_none {op : Opcode} (h : decode op = none) :
    op.family = 0x0 ∨ op.family = 0x8 ∨ op.family = 0xE ∨ op.family = 0xF := by
  unfold decode at h
  -- `h_1` to `h_16` are the families 0 to 15
  split at h
  case h_1 hfamily => exact .inl hfamily
  case h_9 hfamily => exact .inr (.inl hfamily)
  case h_15 hfamily => exact .inr (.inr (.inl hfamily))
  case h_16 hfamily => exact .inr (.inr (.inr hfamily))
  case h_17 =>
    have hlt := op.family_lt
    grind
  all_goals cases h

/--
Decoding is exact.  Every instruction is read back from its encoding.  A word
decodes to an instruction exactly if the instruction is encoded as that word, with
the lowest nibble cleared in families 5 and 9.  Words that stand for one instruction
are equal, or lie in one of these families and agree outside the lowest nibble.  A
word is refused exactly if nothing is encoded as it, with the same exception, and
that happens in four families only.
-/
theorem decoding_is_exact :
    (∀ instruction : Instruction, decode instruction.encode = some instruction) ∧
    (∀ (op : Opcode) (instruction : Instruction), decode op = some instruction ↔
      instruction.encode =
        if op.family = 0x5 ∨ op.family = 0x9 then op &&& 0xFFF0 else op) ∧
    (∀ a b : Opcode,
      (∃ instruction, decode a = some instruction ∧ decode b = some instruction) ↔
        (∃ instruction, decode a = some instruction) ∧
        (a = b ∨ ((a.family = 0x5 ∨ a.family = 0x9) ∧
          (b.family = 0x5 ∨ b.family = 0x9)) ∧
          a &&& 0xFFF0 = b &&& 0xFFF0)) ∧
    (∀ op : Opcode, decode op = none ↔
      ∀ instruction : Instruction, instruction.encode ≠
      if op.family = 0x5 ∨ op.family = 0x9 then op &&& 0xFFF0 else op) ∧
    (∀ op : Opcode, decode op = none →
      op.family = 0x0 ∨ op.family = 0x8 ∨ op.family = 0xE ∨ op.family = 0xF) := by
  have hcanonical : ∀ op : Opcode, op.canonical =
      if op.family = 0x5 ∨ op.family = 0x9 then op &&& 0xFFF0 else op :=
    Opcode.canonical_eq
  refine ⟨decode_encode, ?_, ?_, ?_, ?_⟩
  · intro op instruction
    rw [← hcanonical]
    exact decode_eq_some_iff
  · intro a b
    rw [exists_decode_iff, Opcode.canonical_eq_canonical_iff]
    rfl
  · intro op
    rw [← hcanonical]
    exact decode_eq_none_iff
  · intro op
    exact family_of_decode_eq_none

theorem decoding_is_exact_free_nibble :
    decode 0x512A = some (.skip (.registerEqual 0x1 0x2)) ∧
    decode 0x5120 = some (.skip (.registerEqual 0x1 0x2)) ∧
    decode 0x812A = none ∧
    ((0x812A : Opcode).family = 0x0 ∨ (0x812A : Opcode).family = 0x8 ∨
      (0x812A : Opcode).family = 0xE ∨ (0x812A : Opcode).family = 0xF) := by
  rcases decoding_is_exact with ⟨hback, hword, -, -, hrefused⟩
  have hsame : (0x5120 : Opcode) =
      (Instruction.skip (.registerEqual 0x1 0x2)).encode := by
    decide +kernel
  have hnone : decode 0x812A = none := by decide +kernel
  refine ⟨(hword _ _).mpr (by decide +kernel), ?_, hnone, hrefused _ hnone⟩
  rw [hsame]
  exact hback _

end Instruction

end Chip8
