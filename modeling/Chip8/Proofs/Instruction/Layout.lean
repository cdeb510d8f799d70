import Chip8.Instruction.Encoding

/-!
# The layout of words

A word is put together again from its family and its fields, in each of the
three layouts, and the fields are read back from a word put together.  Hence
`decode` undoes `encode`, and `encode` undoes `decode` up to the lowest nibble
of the two families that do not look at it.
-/

namespace Chip8

namespace Opcode

/-! ## Fields -/

theorem family_lt (op : Opcode) : op.family < 16 := by
  have := op.toNat_lt
  unfold family
  omega

theorem toNat_nn (op : Opcode) : op.nn.toNat = op.toNat % 0x100 := by
  simp [nn]

theorem ofAddress_fields (op : Opcode) : ofAddress op.family op.nnn = op := by
  apply UInt16.toNat_inj.mp
  have := op.toNat_lt
  simp only [ofAddress, family, nnn, UInt16.toNat_ofNat']
  omega

theorem ofByte_fields (op : Opcode) : ofByte op.family op.x op.nn = op := by
  apply UInt16.toNat_inj.mp
  have := op.toNat_lt
  simp only [ofByte, family, x, toNat_nn, UInt16.toNat_ofNat']
  omega

theorem ofByte_eq {op : Opcode} {f : Nat} {value : UInt8} (hfamily : op.family = f)
    (hvalue : op.nn.toNat = value.toNat) : ofByte f op.x value = op := by
  subst f
  rw [← UInt8.toNat_inj.mp hvalue]
  exact op.ofByte_fields

theorem ofRegisters_fields (op : Opcode) :
    ofRegisters op.family op.x op.y op.n = op := by
  apply UInt16.toNat_inj.mp
  have := op.toNat_lt
  simp only [ofRegisters, family, x, y, n, UInt16.toNat_ofNat']
  omega

theorem family_ofAddress {f : Nat} (hf : f < 16) (target : Address) :
    (ofAddress f target).family = f := by
  have := target.isLt
  simp only [ofAddress, family, UInt16.toNat_ofNat']
  omega

theorem family_ofByte {f : Nat} (hf : f < 16) (x : Register) (value : UInt8) :
    (ofByte f x value).family = f := by
  have := x.isLt
  have := value.toNat_lt
  simp only [ofByte, family, UInt16.toNat_ofNat']
  omega

theorem family_ofRegisters {f : Nat} (hf : f < 16) (x y : Register) {n : Nat}
    (hn : n < 16) :
    (ofRegisters f x y n).family = f := by
  have := x.isLt
  have := y.isLt
  simp only [ofRegisters, family, UInt16.toNat_ofNat']
  omega

theorem nnn_ofAddress (f : Nat) (target : Address) :
    (ofAddress f target).nnn = target := by
  have := target.isLt
  apply Fin.ext
  simp only [ofAddress, nnn, UInt16.toNat_ofNat']
  omega

theorem x_ofByte (f : Nat) (x : Register) (value : UInt8) :
    (ofByte f x value).x = x := by
  have := x.isLt
  have := value.toNat_lt
  apply Fin.ext
  simp only [ofByte, Opcode.x, UInt16.toNat_ofNat']
  omega

theorem nn_ofByte (f : Nat) (x : Register) (value : UInt8) :
    (ofByte f x value).nn = value := by
  have := x.isLt
  have := value.toNat_lt
  apply UInt8.toNat_inj.mp
  simp only [toNat_nn, ofByte, UInt16.toNat_ofNat']
  omega

section

variable (f : Nat) (x y : Register) {n : Nat} (hn : n < 16)
include hn

theorem x_ofRegisters : (ofRegisters f x y n).x = x := by
  have := x.isLt
  have := y.isLt
  apply Fin.ext
  simp only [ofRegisters, Opcode.x, UInt16.toNat_ofNat']
  omega

theorem y_ofRegisters : (ofRegisters f x y n).y = y := by
  have := x.isLt
  have := y.isLt
  apply Fin.ext
  simp only [ofRegisters, Opcode.y, UInt16.toNat_ofNat']
  omega

theorem n_ofRegisters : (ofRegisters f x y n).n = ⟨n, hn⟩ := by
  have := x.isLt
  have := y.isLt
  apply Fin.ext
  simp only [ofRegisters, Opcode.n, UInt16.toNat_ofNat']
  omega

end

/-- The word as it is encoded; families 5 and 9 do not use their lowest nibble. -/
def canonical (op : Opcode) : Opcode :=
  if op.family = 0x5 ∨ op.family = 0x9 then ofRegisters op.family op.x op.y 0x0
    else op

theorem canonical_of_family {op : Opcode} (h5 : op.family ≠ 0x5)
    (h9 : op.family ≠ 0x9) :
    op.canonical = op := by
  simp [canonical, h5, h9]

theorem family_canonical (op : Opcode) : op.canonical.family = op.family := by
  unfold canonical
  split
  · exact family_ofRegisters op.family_lt op.x op.y (by omega)
  · rfl

end Opcode

namespace Instruction

/-! ## Encoding what was decoded -/

private theorem encode_of_decodeSystem {op : Opcode} {instruction : Instruction}
    (h : decodeSystem op = some instruction) : instruction.encode = op := by
  unfold decodeSystem at h
  split at h
  next hclear =>
    cases h
    exact hclear.symm
  next =>
    split at h <;> cases h
    next hret => exact hret.symm

private theorem encode_of_decodeKeySkip {op : Opcode} {instruction : Instruction}
    (hfamily : op.family = 0xE) (h : decodeKeySkip op.x op.nn = some instruction) :
    instruction.encode = op := by
  unfold decodeKeySkip at h
  split at h <;> cases h
  all_goals
    rename_i hnn
    exact Opcode.ofByte_eq hfamily hnn

private theorem encode_of_decodeDevice {op : Opcode} {instruction : Instruction}
    (hfamily : op.family = 0xF) (h : decodeDevice op.x op.nn = some instruction) :
    instruction.encode = op := by
  unfold decodeDevice at h
  split at h <;> cases h
  all_goals
    rename_i hnn
    exact Opcode.ofByte_eq hfamily hnn

private theorem encode_of_decodeAlu {op : Opcode} {instruction : Instruction}
    (hfamily : op.family = 0x8)
    (h : ((AluOp.ofCode? op.n).map fun alu => Instruction.alu alu op.x op.y) =
      some instruction) : instruction.encode = op := by
  obtain ⟨alu, hcode, rfl⟩ := Option.map_eq_some_iff.mp h
  change Opcode.ofRegisters 0x8 op.x op.y alu.code = op
  rw [AluOp.code_of_ofCode? hcode, ← hfamily]
  exact op.ofRegisters_fields

theorem encode_of_decode {op : Opcode} {instruction : Instruction}
    (h : decode op = some instruction) : instruction.encode = op.canonical := by
  unfold decode at h
  -- `h_1` to `h_16` are the families 0 to 15
  split at h
  case h_6 hfamily =>
    cases h
    simp [Opcode.canonical, hfamily, encode]
  case h_10 hfamily =>
    cases h
    simp [Opcode.canonical, hfamily, encode]
  case h_17 => cases h
  all_goals
    rename_i hfamily
    rw [Opcode.canonical_of_family (by omega) (by omega)]
  case h_1 => exact encode_of_decodeSystem h
  case h_9 => exact encode_of_decodeAlu hfamily h
  case h_15 => exact encode_of_decodeKeySkip hfamily h
  case h_16 => exact encode_of_decodeDevice hfamily h
  case h_2 | h_3 | h_11 | h_12 =>
    cases h
    rw [encode, ← hfamily]
    exact op.ofAddress_fields
  case h_14 =>
    cases h
    rw [encode, ← hfamily]
    exact op.ofRegisters_fields
  all_goals
    cases h
    rw [encode, ← hfamily]
    exact op.ofByte_fields

theorem encode_eq_of_decode {op : Opcode} {instruction : Instruction}
    (h : decode op = some instruction) (h5 : instruction.encode.family ≠ 0x5)
    (h9 : instruction.encode.family ≠ 0x9) : instruction.encode = op := by
  have hencode := encode_of_decode h
  rw [hencode, Opcode.family_canonical] at h5 h9
  rw [hencode, Opcode.canonical_of_family h5 h9]

/-! ## Decoding what was encoded -/

theorem decode_encode (instruction : Instruction) :
    decode instruction.encode = some instruction := by
  cases instruction with
  | clearScreen | ret => rfl
  | jump target | call target | jumpOffset target | setIndex target =>
      simp [encode, decode, Opcode.family_ofAddress, Opcode.nnn_ofAddress]
  | alu op x y =>
      have hcode : op.code < 16 := by cases op <;> decide
      simp [encode, decode, Opcode.family_ofRegisters, Opcode.x_ofRegisters,
        Opcode.y_ofRegisters, Opcode.n_ofRegisters, hcode]
  | draw x y rows =>
      simp [encode, decode, Opcode.family_ofRegisters, Opcode.x_ofRegisters,
        Opcode.y_ofRegisters, Opcode.n_ofRegisters]
  | skip condition =>
      cases condition with
      | registerEqual x y | registerNotEqual x y =>
          simp [encode, decode, Opcode.family_ofRegisters, Opcode.x_ofRegisters,
            Opcode.y_ofRegisters]
      | _ =>
          simp [encode, decode, decodeKeySkip, Opcode.family_ofByte,
            Opcode.x_ofByte, Opcode.nn_ofByte]
  | _ =>
      simp [encode, decode, decodeDevice, Opcode.family_ofByte, Opcode.x_ofByte,
        Opcode.nn_ofByte]

end Instruction

end Chip8
