import Chip8.Proofs.Machine.Ensures
import Chip8.Proofs.Machine.Frame
import Chip8.Proofs.Registers.Bytes

/-!
# Flags of register arithmetic

Sums, differences and shifts leave a result in their first register and a flag in
the flag register.  Both operands are read before either is written, and the result
is written last; so the laws below hold as well when the registers coincide with
each other or with the flag register.
-/

namespace Chip8

namespace Machine

/-! ## Registers -/

/--
The register `x` has the result and the flag register the flag, or the result if it
is `x` itself; the other registers are those of `m`.
-/
structure Receives (m : Machine) (x : Register) (result flag : UInt8)
    (after : Machine) :
    Prop where
  result_eq : after.reg x = result
  flag_eq : x ≠ flagRegister → after.reg flagRegister = flag
  others_eq : ∀ r, r ≠ x → r ≠ flagRegister → after.reg r = m.reg r

theorem receives_setResult (m : Machine) (x : Register) {result : AluResult}
    {flag : UInt8} (hflag : result.flag = some flag) :
    m.Receives x result.value flag (m.setResult x result) := by
  have hset : m.setResult x result =
      (m.setReg flagRegister flag).setReg x result.value := by
    rw [setResult, hflag]
  constructor
  · rw [hset, reg_setReg_self]
  · intro hx
    rw [hset, reg_setReg_of_ne _ (Ne.symm hx), reg_setReg_self]
  · intro r hr hrflag
    exact m.reg_setResult_of_ne hr (.inr hrflag)

theorem ensures_alu (m : Machine) (op : AluOp) (x y : Register) {flag : UInt8}
    (hflag : (op.apply m.dialect (m.reg x) (m.reg y)).flag = some flag) :
    m.Ensures (.alu op x y)
      (m.Receives x (op.apply m.dialect (m.reg x) (m.reg y)).value flag) := by
  refine ensures_of_effect (by simp [fault?, cellFault?, Instruction.cells]) ?_
  intro delay sound
  have hreceives := m.receives_setResult x hflag
  exact ⟨hreceives.result_eq, hreceives.flag_eq, hreceives.others_eq⟩

/--
Sums, differences and shifts are exact, whichever registers coincide: the flag is
the carry of a sum, says that a difference has borrowed nothing, where equal
operands count as a borrow one way and not the other, or is the bit that a shift
loses, which shifting left keeps in its place unless the dialect normalizes it.
Shifts do not look at their second register.
-/
theorem flags_are_exact (m : Machine) (x y : Register) :
    let vx := (m.reg x).toNat
    let vy := (m.reg y).toNat
    m.Ensures (.alu .add x y) (fun after =>
      ∃ result flag, m.Receives x result flag after ∧
      256 * flag.toNat + result.toNat = vx + vy) ∧
    m.Ensures (.alu .sub x y) (fun after =>
      ∃ result flag, m.Receives x result flag after ∧
      (result.toNat : Int) = ((vx : Int) - vy) % 256 ∧
      flag.toNat = if vy < vx then 1 else 0) ∧
    m.Ensures (.alu .subFrom x y) (fun after =>
      ∃ result flag, m.Receives x result flag after ∧
      (result.toNat : Int) = ((vy : Int) - vx) % 256 ∧
      flag.toNat = if vx ≤ vy then 1 else 0) ∧
    m.Ensures (.alu .shiftRight x y) (fun after => ∃ result flag,
      m.Receives x result flag after ∧
      2 * result.toNat + flag.toNat = vx ∧ flag.toNat ≤ 1) ∧
    m.Ensures (.alu .shiftLeft x y) (fun after => ∃ result flag,
      m.Receives x result flag after ∧
      result.toNat = 2 * vx % 256 ∧
      flag.toNat = (if m.dialect.normalizeShiftFlag then 1 else 128) * (vx / 128)) ∧
    ∀ y', m.execute (.alu .shiftRight x y) = m.execute (.alu .shiftRight x y') ∧
      m.execute (.alu .shiftLeft x y) = m.execute (.alu .shiftLeft x y') := by
  intro vx vy
  refine ⟨?_, ?_, ?_, ?_, ?_, fun y' => ⟨rfl, rfl⟩⟩
  · refine (m.ensures_alu .add x y rfl).mono fun after hreceives =>
      ⟨_, _, hreceives, ?_⟩
    exact carry_add_result (m.reg x) (m.reg y)
  · refine (m.ensures_alu .sub x y rfl).mono fun after hreceives =>
      ⟨_, _, hreceives, ?_, ?_⟩
    · exact toNat_sub_eq_emod (m.reg x) (m.reg y)
    · simp [toNat_flagByte, vx, vy, UInt8.lt_iff_toNat_lt]
  · refine (m.ensures_alu .subFrom x y rfl).mono fun after hreceives =>
      ⟨_, _, hreceives, ?_, ?_⟩
    · exact toNat_sub_eq_emod (m.reg y) (m.reg x)
    · simp [toNat_flagByte, vx, vy, UInt8.le_iff_toNat_le]
  · refine (m.ensures_alu .shiftRight x y rfl).mono fun after hreceives =>
      ⟨_, _, hreceives, ?_, ?_⟩
    · have hhalf : (m.reg x >>> 1).toNat = vx / 2 :=
        toNat_shiftRight_of_lt _ (by decide)
      change 2 * (m.reg x >>> 1).toNat + (m.reg x &&& 1).toNat = vx
      rw [hhalf, toNat_lowest_bit]
      omega
    · rw [toNat_lowest_bit]
      omega
  · refine (m.ensures_alu .shiftLeft x y rfl).mono fun after hreceives =>
      ⟨_, _, hreceives, ?_, ?_⟩
    · exact toNat_shiftLeft_one (m.reg x)
    · exact m.dialect.toNat_shiftFlag (m.reg x)

end Machine

end Chip8
