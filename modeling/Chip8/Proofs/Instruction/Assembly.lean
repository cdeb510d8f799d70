import Chip8.Instruction.Assembly
import Chip8.Proofs.Text.Hex

/-!
# Reading assembly text

Operands can be read back from their texts, lines from their mnemonic and operands,
and instructions from their lines.  Only the register that a shift makes no use of
is not written, so the text of an instruction tells everything about it but that.
-/

namespace Chip8

/-! ## Operands -/

namespace Operand

/-- The operand of a text; a text of no operand is read as a number of rows. -/
def ofChars : List Char → Operand
  | ['I'] => .index
  | ['[', 'I', ']'] => .atIndex
  | ['D', 'T'] => .delayTimer
  | ['S', 'T'] => .soundTimer
  | ['K'] => .key
  | ['F'] => .glyph
  | ['B'] => .decimal
  | 'V' :: digits => .register (Fin.ofNat 16 (Hex.value digits))
  | '0' :: 'x' :: digits =>
      if digits.length = 2 then .byte (UInt8.ofNat (Hex.value digits))
      else .address (Fin.ofNat 4096 (Hex.value digits))
  | digits =>
      .rows
        (Fin.ofNat 16 (digits.foldl (fun n c => 10 * n + (c.toNat - '0'.toNat)) 0))

theorem ofChars_rows (count : Fin 16) :
    ofChars (Operand.rows count).text.toList = .rows count := by
  have hall : ∀ count, ofChars (Operand.rows count).text.toList = .rows count := by
    decide +kernel
  exact hall count

theorem ofChars_text (operand : Operand) :
    ofChars operand.text.toList = operand := by
  cases operand with
  | register r =>
      have htext : (Operand.register r).text.toList =
          'V' :: (Hex.padded 1 r).toList := by
        rw [text, String.toList_append]
        rfl
      rw [htext, ofChars, Hex.value_padded]
      congr 1
      exact Fin.ext (Nat.mod_eq_of_lt r.isLt)
  | byte value =>
      have htext : (Operand.byte value).text.toList =
          '0' :: 'x' :: (Hex.padded 2 value.toNat).toList := by
        rw [text, Hex.literal, String.toList_append]
        rfl
      have hlength : (Hex.padded 2 value.toNat).toList.length = 2 :=
        Hex.length_padded (by decide) value.toNat_lt
      rw [htext, ofChars, if_pos hlength, Hex.value_padded, UInt8.ofNat_toNat]
  | address target =>
      have htext : (Operand.address target).text.toList =
          '0' :: 'x' :: (Hex.padded 3 target).toList := by
        rw [text, Hex.literal, String.toList_append]
        rfl
      have hlength : (Hex.padded 3 target).toList.length = 3 :=
        Hex.length_padded (by decide) target.isLt
      rw [htext, ofChars, if_neg (by rw [hlength]; decide), Hex.value_padded]
      congr 1
      exact Fin.ext (Nat.mod_eq_of_lt target.isLt)
  | rows count => exact ofChars_rows count
  | _ => decide +kernel

theorem text_injective {a b : Operand} (h : a.text = b.text) : a = b := by
  rw [← ofChars_text a, h, ofChars_text]

theorem comma_not_mem_text (operand : Operand) : ',' ∉ operand.text.toList := by
  have hdigits : ∀ least n, ',' ∉ (Hex.padded least n).toList :=
    Hex.not_mem_padded (by decide)
  cases operand with
  | register r => simpa [text] using hdigits 1 r
  | byte value => simpa [text, Hex.literal] using hdigits 2 value.toNat
  | address target => simpa [text, Hex.literal] using hdigits 3 target
  | rows count =>
      have hall : ∀ count : Fin 16, ',' ∉ (Operand.rows count).text.toList := by
        decide +kernel
      exact hall count
  | _ => decide +kernel

end Operand

/-! ## Lines -/

theorem cut_eq {c : Char} {front front' back back' : List Char} (hfront : c ∉ front)
    (hfront' : c ∉ front') (h : front ++ c :: back = front' ++ c :: back') :
    front = front' ∧ back = back' := by
  have hlength : front.length = front'.length := by
    simpa [List.idxOf_append, hfront, hfront'] using congrArg (List.idxOf c) h
  obtain ⟨rfl, hback⟩ := List.append_inj h hlength
  exact ⟨rfl, (List.cons.inj hback).2⟩

theorem joined_injective {xs ys : List (List Char)} (hxs : xs ≠ []) (hys : ys ≠ [])
    (hx : ∀ x ∈ xs, ',' ∉ x) (hy : ∀ y ∈ ys, ',' ∉ y)
    (h : [',', ' '].intercalate xs = [',', ' '].intercalate ys) : xs = ys := by
  induction xs generalizing ys with
  | nil => exact absurd rfl hxs
  | cons x xs ih =>
      obtain ⟨y, ys, rfl⟩ := List.exists_cons_of_ne_nil hys
      rw [List.forall_mem_cons] at hx hy
      cases xs with
      | nil =>
          cases ys with
          | nil => simpa using h
          | cons y' ys =>
              rw [List.intercalate_singleton, List.intercalate_cons_cons] at h
              exact absurd (by simp [h]) hx.1
      | cons x' xs =>
          cases ys with
          | nil =>
              rw [List.intercalate_singleton, List.intercalate_cons_cons] at h
              exact absurd (by simp [← h]) hy.1
          | cons y' ys =>
              simp only [List.intercalate_cons_cons, List.append_assoc,
                List.cons_append, List.nil_append] at h
              obtain ⟨rfl, hrest⟩ := cut_eq hx.1 hy.1 h
              rw [ih (List.cons_ne_nil _ _) (List.cons_ne_nil _ _) hx.2 hy.2
                (List.cons.inj hrest).2]

namespace Assembly

def operandTexts (line : Assembly) : List (List Char) :=
  line.operands.map fun operand => operand.text.toList

theorem toList_text_of_no_operand {line : Assembly} (h : line.operands = []) :
    line.text.toList = line.mnemonic.toList := by
  rw [text, h]

theorem toList_text_of_operands {line : Assembly} (h : line.operands ≠ []) :
    line.text.toList =
      line.mnemonic.toList ++ ' ' :: [',', ' '].intercalate line.operandTexts := by
  obtain ⟨operand, operands, hoperands⟩ := List.exists_cons_of_ne_nil h
  simp [text, operandTexts, hoperands, String.toList_intercalate, Function.comp_def]

theorem operands_of_operandTexts {a b : Assembly}
    (h : a.operandTexts = b.operandTexts) :
    a.operands = b.operands := by
  refine (List.map_inj_right ?_).mp h
  intro first second hsame
  exact Operand.text_injective (String.toList_inj.mp hsame)

theorem text_injective {a b : Assembly} (ha : ' ' ∉ a.mnemonic.toList)
    (hb : ' ' ∉ b.mnemonic.toList) (h : a.text = b.text) : a = b := by
  have htext := congrArg String.toList h
  suffices hparts : a.mnemonic.toList = b.mnemonic.toList ∧
      a.operands = b.operands by
    obtain ⟨mnemonic, operands⟩ := a
    obtain ⟨mnemonic', operands'⟩ := b
    rw [Assembly.mk.injEq, ← String.toList_inj]
    exact hparts
  by_cases hna : a.operands = [] <;> by_cases hnb : b.operands = []
  · rw [toList_text_of_no_operand hna, toList_text_of_no_operand hnb] at htext
    exact ⟨htext, hna.trans hnb.symm⟩
  · rw [toList_text_of_no_operand hna, toList_text_of_operands hnb] at htext
    exact absurd (by simp [htext]) ha
  · rw [toList_text_of_operands hna, toList_text_of_no_operand hnb] at htext
    exact absurd (by simp [← htext]) hb
  · rw [toList_text_of_operands hna, toList_text_of_operands hnb] at htext
    rcases cut_eq ha hb htext with ⟨hmnemonic, hjoined⟩
    have hcomma : ∀ line : Assembly, ∀ t ∈ line.operandTexts, ',' ∉ t := by
      intro line t ht
      obtain ⟨operand, -, rfl⟩ := List.mem_map.mp ht
      exact operand.comma_not_mem_text
    refine ⟨hmnemonic, operands_of_operandTexts ?_⟩
    exact joined_injective (by simpa [operandTexts] using hna)
      (by simpa [operandTexts] using hnb)
      (hcomma a) (hcomma b) hjoined

def instruction? : Assembly → Option Instruction
  | ⟨"CLS", []⟩ => some .clearScreen
  | ⟨"RET", []⟩ => some .ret
  | ⟨"JP", [.address target]⟩ => some (.jump target)
  | ⟨"CALL", [.address target]⟩ => some (.call target)
  | ⟨"JP", [.register _, .address base]⟩ => some (.jumpOffset base)
  | ⟨"SE", [.register x, .byte value]⟩ => some (.skip (.byteEqual x value))
  | ⟨"SNE", [.register x, .byte value]⟩ => some (.skip (.byteNotEqual x value))
  | ⟨"SE", [.register x, .register y]⟩ => some (.skip (.registerEqual x y))
  | ⟨"SNE", [.register x, .register y]⟩ => some (.skip (.registerNotEqual x y))
  | ⟨"SKP", [.register x]⟩ => some (.skip (.keyPressed x))
  | ⟨"SKNP", [.register x]⟩ => some (.skip (.keyReleased x))
  | ⟨"LD", [.register x, .byte value]⟩ => some (.setByte x value)
  | ⟨"ADD", [.register x, .byte value]⟩ => some (.addByte x value)
  | ⟨"LD", [.register x, .register y]⟩ => some (.alu .move x y)
  | ⟨"OR", [.register x, .register y]⟩ => some (.alu .or x y)
  | ⟨"AND", [.register x, .register y]⟩ => some (.alu .and x y)
  | ⟨"XOR", [.register x, .register y]⟩ => some (.alu .xor x y)
  | ⟨"ADD", [.register x, .register y]⟩ => some (.alu .add x y)
  | ⟨"SUB", [.register x, .register y]⟩ => some (.alu .sub x y)
  | ⟨"SUBN", [.register x, .register y]⟩ => some (.alu .subFrom x y)
  | ⟨"SHR", [.register x]⟩ => some (.alu .shiftRight x x)
  | ⟨"SHL", [.register x]⟩ => some (.alu .shiftLeft x x)
  | ⟨"LD", [.index, .address target]⟩ => some (.setIndex target)
  | ⟨"RND", [.register x, .byte mask]⟩ => some (.random x mask)
  | ⟨"DRW", [.register x, .register y, .rows rows]⟩ => some (.draw x y rows)
  | ⟨"LD", [.register x, .delayTimer]⟩ => some (.readDelay x)
  | ⟨"LD", [.register x, .key]⟩ => some (.waitKey x)
  | ⟨"LD", [.delayTimer, .register x]⟩ => some (.setDelay x)
  | ⟨"LD", [.soundTimer, .register x]⟩ => some (.setSound x)
  | ⟨"ADD", [.index, .register x]⟩ => some (.addIndex x)
  | ⟨"LD", [.glyph, .register x]⟩ => some (.pointGlyph x)
  | ⟨"LD", [.decimal, .register x]⟩ => some (.storeDecimal x)
  | ⟨"LD", [.atIndex, .register last]⟩ => some (.storeRegisters last)
  | ⟨"LD", [.register last, .atIndex]⟩ => some (.loadRegisters last)
  | _ => none

end Assembly

/-! ## Instructions -/

namespace Instruction

/-- The instruction as far as it is written: a shift names one register only. -/
def written : Instruction → Instruction
  | .alu .shiftRight x _ => .alu .shiftRight x x
  | .alu .shiftLeft x _ => .alu .shiftLeft x x
  | instruction => instruction

theorem instruction?_assembly (instruction : Instruction) :
    instruction.assembly.instruction? = some instruction.written := by
  cases instruction with
  | skip condition => cases condition <;> rfl
  | alu op x y => cases op <;> rfl
  | _ => rfl

theorem assembly_written (instruction : Instruction) :
    instruction.written.assembly = instruction.assembly := by
  cases instruction with
  | alu op x y => cases op <;> rfl
  | _ => rfl

theorem blank_not_mem_mnemonic (instruction : Instruction) :
    ' ' ∉ instruction.assembly.mnemonic.toList := by
  cases instruction with
  | skip condition => cases condition <;> simp [assembly, Condition.assembly]
  | alu op x y => cases op <;> simp [assembly, AluOp.assembly]
  | _ => simp [assembly]

theorem text_eq_iff_written {i j : Instruction} :
    i.text = j.text ↔ i.written = j.written := by
  constructor
  · intro h
    have hline : i.assembly = j.assembly :=
      Assembly.text_injective i.blank_not_mem_mnemonic j.blank_not_mem_mnemonic h
    have hread := i.instruction?_assembly
    rw [hline, instruction?_assembly] at hread
    exact (Option.some.inj hread).symm
  · intro h
    rw [text, text, ← assembly_written i, h, assembly_written]

def SameShift (i j : Instruction) : Prop :=
  ∃ op x y y', (op = AluOp.shiftRight ∨ op = AluOp.shiftLeft) ∧ i = .alu op x y ∧
    j = .alu op x y'

theorem written_eq_self_or (i : Instruction) :
    i.written = i ∨ i.SameShift i.written := by
  cases i with
  | alu op x y =>
      cases op with
      | shiftRight => exact .inr ⟨_, x, y, x, .inl rfl, rfl, rfl⟩
      | shiftLeft => exact .inr ⟨_, x, y, x, .inr rfl, rfl, rfl⟩
      | _ => exact .inl rfl
  | _ => exact .inl rfl

theorem written_eq_written_iff {i j : Instruction} :
    i.written = j.written ↔ i = j ∨ i.SameShift j := by
  constructor
  · intro h
    rcases i.written_eq_self_or with hi | ⟨op, x, y, z, hop, hi, hi'⟩
    · rcases j.written_eq_self_or with hj | ⟨op, x, y, z, hop, hj, hj'⟩
      · exact .inl (hi.symm.trans (h.trans hj))
      · exact .inr ⟨op, x, z, y, hop, hi.symm.trans (h.trans hj'), hj⟩
    · rcases j.written_eq_self_or with hj | ⟨op', x', y', z', -, hj, hj'⟩
      · exact .inr ⟨op, x, y, z, hop, hi, hj.symm.trans (h.symm.trans hi')⟩
      · cases hi'.symm.trans (h.trans hj')
        exact .inr ⟨op, x, y, y', hop, hi, hj⟩
  · rintro (rfl | ⟨op, x, y, y', rfl | rfl, rfl, rfl⟩) <;> rfl

end Instruction

end Chip8
