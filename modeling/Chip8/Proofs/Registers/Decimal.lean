import Chip8.Proofs.Registers.Transfer

/-!
# Decimal digits in memory

A byte is written out as its three decimal digits, hundreds first, at the index.
They are the only digits that make up the byte, and loading three registers from
there reads them back, whichever register the byte has come from.
-/

namespace Chip8

structure Decimal (value hundreds tens ones : Nat) : Prop where
  hundreds_le : hundreds ≤ 9
  tens_le : tens ≤ 9
  ones_le : ones ≤ 9
  value_eq : 100 * hundreds + 10 * tens + ones = value

theorem Decimal.unique {value h t o h' t' o' : Nat} (d : Decimal value h t o)
    (d' : Decimal value h' t' o') : h' = h ∧ t' = t ∧ o' = o := by
  have := d.tens_le
  have := d.ones_le
  have := d.value_eq
  have := d'.tens_le
  have := d'.ones_le
  have := d'.value_eq
  omega

theorem decimal_digits (value : UInt8) :
    Decimal value.toNat (value / 100).toNat (value / 10 % 10).toNat
    (value % 10).toNat := by
  have := value.toNat_lt
  have hhundreds : (value / 100).toNat = value.toNat / 100 :=
    UInt8.toNat_div value 100
  have htens : (value / 10 % 10).toNat = value.toNat / 10 % 10 := by
    rw [UInt8.toNat_mod, UInt8.toNat_div]
    rfl
  have hones : (value % 10).toNat = value.toNat % 10 := UInt8.toNat_mod value 10
  rw [hhundreds, htens, hones]
  constructor <;> omega

namespace Machine

/-- After the digits of the register `x` were written at the index. -/
structure WrittenOut (m : Machine) (x : Register) (after : Machine) : Prop where
  memory_eq : after.memory = m.memory.store m.index.toNat (decimalDigits (m.reg x))
  registers_eq : after.registers = m.registers
  index_eq : after.index = m.index

theorem ensures_storeDecimal {m : Machine} {x : Register}
    (hcells : m.index.toNat + 3 ≤ 4096) :
    m.Ensures (.storeDecimal x) (m.WrittenOut x) := by
  refine ensures_of_effect (if_pos (.inr hcells)) ?_
  intro delay sound
  exact ⟨rfl, rfl, rfl⟩

theorem WrittenOut.read_eq {m written : Machine} {x : Register}
    (h : m.WrittenOut x written)
    (hcells : m.index.toNat + 3 ≤ 4096) {k : Nat} (hk : k < 3) :
    written.memory.read (m.index.toNat + k) =
      (decimalDigits (m.reg x)).get ⟨k, hk⟩ := by
  rw [h.memory_eq]
  exact m.memory.read_store_add hk (by omega)

/--
If the three cells from the index on are in memory, they receive the decimal digits
of the register, and nothing else changes.  Loading three registers next leaves the
digits in them, also where one of them was the register itself, and the index behind
the last.
-/
theorem decimal_reads_back (m : Machine) (x : Register)
    (hcells : m.index.toNat + 3 ≤ 4096) :
    m.Ensures (.storeDecimal x) fun written =>
      ∃ hundreds tens ones : UInt8,
        Decimal (m.reg x).toNat hundreds.toNat tens.toNat ones.toNat ∧
        (∀ h t o, Decimal (m.reg x).toNat h t o →
          h = hundreds.toNat ∧ t = tens.toNat ∧ o = ones.toNat) ∧
        written.memory.read m.index.toNat = hundreds ∧
        written.memory.read (m.index.toNat + 1) = tens ∧
        written.memory.read (m.index.toNat + 2) = ones ∧
        (∀ a, a < m.index.toNat ∨ m.index.toNat + 3 ≤ a →
          written.memory.read a = m.memory.read a) ∧
        written.index = m.index ∧ written.registers = m.registers ∧
        written.Ensures (.loadRegisters ⟨2, by decide⟩) fun loaded =>
          loaded.reg ⟨0, by decide⟩ = hundreds ∧ loaded.reg ⟨1, by decide⟩ = tens ∧
          loaded.reg ⟨2, by decide⟩ = ones ∧
          (∀ r : Register, 2 < r.val → loaded.reg r = m.reg r) ∧
          loaded.index.toNat = m.index.toNat + 3 := by
  refine (ensures_storeDecimal hcells).mono fun written hwritten => ?_
  have hdigits := decimal_digits (m.reg x)
  have hfirst := hwritten.read_eq hcells (show 0 < 3 by decide)
  have hsecond := hwritten.read_eq hcells (show 1 < 3 by decide)
  have hthird := hwritten.read_eq hcells (show 2 < 3 by decide)
  refine ⟨m.reg x / 100, m.reg x / 10 % 10, m.reg x % 10, hdigits,
    fun h t o => hdigits.unique, hfirst, hsecond, hthird, ?_, hwritten.index_eq,
    hwritten.registers_eq, ?_⟩
  · intro a ha
    rw [hwritten.memory_eq]
    exact m.memory.read_store_of_not_mem ha
  · have hroom : written.index.toNat + (⟨2, by decide⟩ : Register).val + 1 ≤
        4096 := by
      rw [hwritten.index_eq]
      exact hcells
    refine (ensures_loadRegisters hroom).mono fun loaded hloaded => ?_
    have hlow := hloaded.low_eq
    rw [hwritten.index_eq] at hlow
    refine ⟨(hlow _ (by decide)).trans hfirst, (hlow _ (by decide)).trans hsecond,
      (hlow _ (by decide)).trans hthird, ?_, ?_⟩
    · intro r hr
      rw [hloaded.high_eq r hr, reg, hwritten.registers_eq, reg]
    · rw [hloaded.index_eq, hwritten.index_eq]

theorem decimal_reads_back_overwritten :
    let m := (boot {} (.ofSeed 0)).machine.after
      [.step, .step, .load [0x62, 0xFE, 0xAF, 0xFD]]
    let x : Register := ⟨2, by decide⟩
    (m.reg x).toNat = 254 ∧ m.index.toNat + 3 ≤ 4096 ∧
    m.Ensures (.storeDecimal x) fun written =>
        written.Ensures (.loadRegisters x) fun loaded =>
      loaded.reg offsetRegister = 2 ∧ loaded.reg x = 4 ∧ loaded.index = 0x1000 := by
  intro m x
  have hfacts : (m.reg x).toNat = 254 ∧ m.index.toNat = 0xFFD := by decide +kernel
  rcases hfacts with ⟨hvalue, hindex⟩
  clear_value m
  have hcells : m.index.toNat + 3 ≤ 4096 := by omega
  refine ⟨hvalue, hcells, (decimal_reads_back m x hcells).mono ?_⟩
  rintro written ⟨hundreds, tens, ones, -, honly, -, -, -, -, -, -, hread⟩
  rw [hvalue] at honly
  rcases honly 2 5 4 ⟨by decide, by decide, by decide, rfl⟩ with
    ⟨hhundreds, -, hones⟩
  refine hread.mono ?_
  rintro loaded ⟨hfirst, -, hthird, -, hbehind⟩
  rw [hindex] at hbehind
  refine ⟨?_, ?_, UInt16.toNat_inj.mp hbehind⟩
  · exact hfirst.trans (UInt8.toNat_inj.mp hhundreds.symm)
  · exact hthird.trans (UInt8.toNat_inj.mp hones.symm)

end Machine

end Chip8
