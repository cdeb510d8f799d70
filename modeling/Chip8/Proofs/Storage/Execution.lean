import Chip8.Proofs.Machine.Bounds
import Chip8.Proofs.Storage.Drawing

/-!
# Instructions on plain storage

Laid out in storage, a machine carries an instruction out without a trap and
just as it does itself, provided its counter is at a word and its saved
addresses are addresses of words.
-/

namespace Chip8.Storage

/-! ## Small updates -/

theorem registers_ofMachine (m : Machine) (x : Register) :
    (ofMachine m).registers[x.val]? = some (m.reg x) := by
  simp [ofMachine, Machine.reg]

theorem setReg?_ofMachine (m : Machine) (x : Register) (value : UInt8) :
    (ofMachine m).setReg? x value = some (ofMachine (m.setReg x value)) := by
  rw [setReg?, set?_of_lt x.isLt]
  rfl

theorem setFlag?_ofMachine (m : Machine) (value : UInt8) :
    (ofMachine m).setReg? 0xF value =
      some (ofMachine (m.setReg flagRegister value)) :=
  setReg?_ofMachine m flagRegister value

theorem advance?_ofMachine {m : Machine} (h : m.pc.toNat ≤ 0xFFE) :
    (ofMachine m).advance? = some (ofMachine m.advance) := by
  have hsum : sum16? m.pc 2 = some (m.pc + 2) := sum16?_of_lt (by simp; omega)
  simp only [advance?, ofMachine, hsum]
  rfl

theorem skipIf?_ofMachine {m : Machine} (h : m.pc.toNat ≤ 0xFFE)
    (condition : Bool) :
    (ofMachine m).skipIf? condition = some (ofMachine (m.skipIf condition)) := by
  have hsum : sum16? m.pc (if condition then 4 else 2) =
      some (m.pc + if condition then 4 else 2) :=
    sum16?_of_lt (by cases condition <;> simp <;> omega)
  simp only [skipIf?, ofMachine, hsum]
  rfl

theorem holds?_ofMachine (m : Machine) (condition : Condition) :
    (ofMachine m).holds? condition = some (m.holds condition) := by
  cases condition with
  | keyPressed x =>
      simp only [holds?, registers_ofMachine, Option.bind_eq_bind, Option.bind_some,
        keyDown?_ofMachine, Machine.holds]
  | keyReleased x =>
      simp only [holds?, registers_ofMachine, Option.bind_eq_bind, Option.bind_some,
        keyDown?_ofMachine]
      rfl
  | _ =>
      simp only [holds?, registers_ofMachine, Option.bind_eq_bind, Option.bind_some]
      rfl

theorem setResult?_ofMachine (m : Machine) (x : Register) (result : AluResult) :
    (ofMachine m).setResult? x result =
      some (ofMachine (m.setResult x result)) := by
  unfold setResult? Machine.setResult
  cases result.flag with
  | none => exact setReg?_ofMachine m x result.value
  | some flag =>
      simp only [setFlag?_ofMachine, Option.bind_eq_bind, Option.bind_some,
        setReg?_ofMachine]

theorem pollKey?_of_running {m : Machine} (hpc : m.pc.toNat ≤ 0xFFE)
    (hstatus : m.status = .running) (x : Register) :
    (ofMachine m).pollKey? x = some (ofMachine (m.effect (.waitKey x))) := by
  unfold pollKey? Machine.effect
  rw [firstKey?_ofMachine]
  cases m.keypad.firstPressed with
  | none =>
      have hrunning : (ofMachine m).status = .running :=
        statusOf_eq_running_iff.mpr hstatus
      simp only [Option.map_none, hrunning, if_true]
      rfl
  | some key =>
      have hadvance := advance?_ofMachine (m := m.setReg x (UInt8.ofNat key)) hpc
      simp only [Option.map_some, setReg?_ofMachine, Option.bind_eq_bind,
        Option.bind_some, hadvance]
      simp [Machine.takeKey, ofMachine, Machine.advance, Machine.setReg,
        hstatus, statusOf]

theorem pollKey?_of_awaiting {m : Machine} (hpc : m.pc.toNat ≤ 0xFFE)
    {register : Register} (hstatus : m.status = .awaitingKey register) :
    (ofMachine m).pollKey? register = some (ofMachine
      (match m.keypad.firstPressed with
        | none => m
        | some key => { m.takeKey register key with status := .running })) := by
  unfold pollKey?
  rw [firstKey?_ofMachine]
  cases m.keypad.firstPressed with
  | none =>
      have hawaiting : (ofMachine m).status ≠ .running := by
        simp [ofMachine, hstatus]
      simp [hawaiting]
  | some key =>
      have hadvance :=
        advance?_ofMachine (m := m.setReg register (UInt8.ofNat key)) hpc
      simp only [Option.map_some, setReg?_ofMachine, Option.bind_eq_bind,
        Option.bind_some, hadvance]
      rfl

/-! ## Ranges of memory -/

theorem withCells?_ofMachine {m next : Machine} {count : Nat}
    {use : Nat → Nat → Option Storage} (hcount : count ≤ 16)
    (huse : ∀ start, start + count ≤ 4096 → count = 0 ∨ start = m.index.toNat →
      use start (start + count) = some (ofMachine next)) :
    (ofMachine m).withCells? count use =
      some ((m.withCells count next).map ofMachine) := by
  have hindex := m.index.toNat_lt
  unfold withCells? Machine.withCells
  rcases Nat.eq_zero_or_pos count with rfl | hsome
  · have hnone := huse 0 (by omega) (.inl rfl)
    rw [if_pos rfl, if_pos (.inl rfl), succeed, hnone]
    rfl
  · have hstop : sum? (ofMachine m).index.toNat count =
        some (m.index.toNat + count) :=
      sum?_of_lt (by simp only [ofMachine]; omega)
    rw [if_neg (by omega), hstop, Option.bind_eq_bind, Option.bind_some]
    rcases Nat.lt_or_ge 4096 (m.index.toNat + count) with houtside | hinside
    · have hlast : difference? (m.index.toNat + count) 1 =
          some (m.index.toNat + count - 1) :=
        difference?_of_le (by omega)
      rw [if_pos houtside, if_neg (by omega), hlast]
      rfl
    · rw [if_neg (by omega), if_pos (.inr hinside), succeed]
      have hused := huse m.index.toNat hinside (.inr rfl)
      simp only [ofMachine] at hused ⊢
      rw [hused]
      rfl

theorem drawSprite?_ofMachine {m : Machine} (hpc : m.pc.toNat ≤ 0xFFE)
    (x y : Register)
    {start rows : Nat} (hrows : rows < 16) (hinside : start + rows ≤ 4096)
    (hstart : rows = 0 ∨ start = m.index.toNat) :
    (ofMachine m).drawSprite? x y start (start + rows) =
      some (ofMachine (m.drawSprite x y rows).advance) := by
  have hsprite : slice? m.memory.cells start (start + rows) =
      some (m.memory.slice m.index.toNat rows) := by
    rw [slice?_memory _ hinside]
    rcases hstart with rfl | rfl <;> rfl
  have hlength : (m.memory.slice m.index.toNat rows).length < 16 := by
    simpa using hrows
  have hcanvas :=
    Canvas.drawFrom?_draw m.display (m.reg x).toNat_lt (m.reg y).toNat_lt hlength
  have hadvance := advance?_ofMachine (m := m.drawSprite x y rows) hpc
  simp only [drawSprite?, registers_ofMachine, setFlag?_ofMachine,
    Option.bind_eq_bind, Option.bind_some]
  change (slice? m.memory.cells start (start + rows)).bind _ = _
  rw [hsprite, Option.bind_some]
  change (Canvas.drawFrom? _ _ 0 ⟨pixelsOf m.display, false⟩ _).bind _ = _
  rw [hcanvas, Option.bind_some, ← hadvance]
  simp only [Machine.setReg, Vector.set_set]
  rfl

theorem storeDecimal?_ofMachine {m : Machine} (hpc : m.pc.toNat ≤ 0xFFE)
    (x : Register) {start : Nat} (hinside : start + 3 ≤ 4096)
    (hstart : 3 = 0 ∨ start = m.index.toNat) :
    (ofMachine m).storeDecimal? x start (start + 3) =
      some (ofMachine (m.storeAtIndex (decimalDigits (m.reg x))).advance) := by
  obtain rfl : start = m.index.toNat := by omega
  have hmemory : replace? m.memory.cells m.index.toNat (m.index.toNat + 3)
      (decimalDigits (m.reg x)) =
        some (m.memory.store m.index.toNat (decimalDigits (m.reg x))).cells :=
    replace?_memory m.memory rfl hinside
  have hadvance :=
    advance?_ofMachine (m := m.storeAtIndex (decimalDigits (m.reg x))) hpc
  simp only [storeDecimal?, registers_ofMachine, Option.bind_eq_bind,
    Option.bind_some]
  change (replace? m.memory.cells _ _ _).bind _ = _
  rw [hmemory, Option.bind_some]
  exact hadvance

theorem moveIndex?_ofMachine (m : Machine) (last : Register) :
    (ofMachine m).moveIndex? last =
      some (ofMachine (m.moveIndex (UInt16.ofNat (last + 1)))) := by
  have hlast := last.isLt
  have hcount : (UInt16.ofNat last + 1) = UInt16.ofNat (last + 1) := by simp
  have hdistance : sum16? (UInt16.ofNat last) 1 =
      some (UInt16.ofNat (last + 1)) := by
    rw [sum16?_of_lt, hcount]
    simp
    omega
  simp only [moveIndex?, hdistance, Option.bind_eq_bind, Option.bind_some]
  rfl

theorem storeRegisters?_ofMachine {m : Machine} (hpc : m.pc.toNat ≤ 0xFFE)
    (last : Register) {start : Nat} (hinside : start + (last + 1) ≤ 4096)
    (hstart : last.val + 1 = 0 ∨ start = m.index.toNat) :
    (ofMachine m).storeRegisters? last start (start + (last + 1)) =
      some (ofMachine ((m.storeAtIndex (m.firstRegisters (last + 1))).moveIndex
        (UInt16.ofNat (last + 1))).advance) := by
  obtain rfl : start = m.index.toNat := by omega
  have hlast := last.isLt
  have hvalues : slice? m.registers 0 (last + 1) =
      some (m.firstRegisters (last + 1)) :=
    slice?_registers m (by omega)
  have hlength : (m.firstRegisters (last + 1)).length = last + 1 := by
    simp only [Machine.firstRegisters, List.length_take, Vector.length_toList]
    omega
  have hmemory : replace? m.memory.cells m.index.toNat (m.index.toNat + (last + 1))
      (m.firstRegisters (last + 1)) =
        some (m.memory.store m.index.toNat (m.firstRegisters (last + 1))).cells :=
    replace?_memory m.memory hlength hinside
  simp only [storeRegisters?]
  change (slice? m.registers 0 _).bind _ = _
  rw [hvalues, Option.bind_some]
  change (replace? m.memory.cells _ _ _).bind _ = _
  rw [hmemory, Option.bind_some]
  change (moveIndex? (ofMachine (m.storeAtIndex (m.firstRegisters (last + 1))))
    last).bind _ = _
  rw [moveIndex?_ofMachine, Option.bind_some]
  exact advance?_ofMachine hpc

theorem loadRegisters?_ofMachine {m : Machine} (hpc : m.pc.toNat ≤ 0xFFE)
    (last : Register) {start : Nat} (hinside : start + (last + 1) ≤ 4096)
    (hstart : last.val + 1 = 0 ∨ start = m.index.toNat) :
    (ofMachine m).loadRegisters? last start (start + (last + 1)) =
      some (ofMachine ((m.loadFirstRegisters (last + 1)).moveIndex
        (UInt16.ofNat (last + 1))).advance) := by
  obtain rfl : start = m.index.toNat := by omega
  have hlast := last.isLt
  have hvalues := slice?_memory m.memory hinside
  have hcount : last.val + 1 ≤ 16 := last.isLt
  have hregisters := replace?_registers m hcount
  simp only [loadRegisters?]
  change (slice? m.memory.cells _ _).bind _ = _
  rw [hvalues, Option.bind_some]
  change (replace? m.registers 0 _ _).bind _ = _
  rw [hregisters, Option.bind_some, Machine.loadFirstRegisters_eq]
  generalize (m.loadFirstRegisters (last + 1)).registers = loaded
  change (moveIndex? (ofMachine { m with registers := loaded }) last).bind _ = _
  rw [moveIndex?_ofMachine, Option.bind_some]
  exact advance?_ofMachine hpc

/-! ## The call stack -/

theorem ret?_ofMachine {m : Machine} (hslots : m.calls.Within 0xFFE) :
    (ofMachine m).ret? = some ((m.execute .ret).map ofMachine) := by
  have hdepth := m.calls.depth_le
  unfold ret? Machine.execute CallStack.pop?
  rcases Nat.eq_zero_or_pos m.calls.depth with hempty | hused
  · have htop : (ofMachine m).top = 0 := hempty
    rw [if_pos htop, dif_neg (by omega)]
    rfl
  · have htop : difference? (ofMachine m).top 1 = some (m.calls.depth - 1) :=
      difference?_of_le hused
    have hslot : m.calls.depth - 1 < 16 := by omega
    have hcaller : (ofMachine m).stack[m.calls.depth - 1]? =
        some m.calls.slots[m.calls.depth - 1] := by
      simp [ofMachine, hslot]
    have hsaved : m.calls.slots[m.calls.depth - 1].toNat ≤ 0xFFE :=
      hslots ⟨_, hslot⟩
    rw [if_neg (by simp only [ofMachine]; omega)]
    simp only [htop, hcaller, Option.bind_eq_bind, Option.bind_some, dif_pos hused]
    change (advance? (ofMachine { m with
      pc := m.calls.slots[m.calls.depth - 1]
      calls := ⟨m.calls.slots, m.calls.depth - 1, by omega⟩ })).bind _ = _
    rw [advance?_ofMachine hsaved]
    rfl

theorem call?_ofMachine (m : Machine) (target : Address) :
    (ofMachine m).call? target =
      some ((m.execute (.call target)).map ofMachine) := by
  unfold call? Machine.execute CallStack.push?
  rcases Nat.eq_or_lt_of_le m.calls.depth_le with hfull | hroom
  · have htop : (ofMachine m).top = 16 := hfull
    rw [if_pos htop, dif_neg (by omega)]
    rfl
  · have htop : sum? (ofMachine m).top 1 = some (m.calls.depth + 1) :=
      sum?_of_lt (by simp only [ofMachine]; omega)
    have hstack : set? (ofMachine m).stack (ofMachine m).top (ofMachine m).pc =
        some (m.calls.slots.set m.calls.depth m.pc) := set?_of_lt hroom m.pc
    rw [if_neg (by simp only [ofMachine]; omega)]
    simp only [hstack, htop, Option.bind_eq_bind, Option.bind_some, dif_pos hroom]
    rfl

/-! ## Addresses from registers -/

private theorem sum16?_offset (base : Address) (byte : UInt8) :
    sum16? (UInt16.ofNat base) byte.toUInt16 =
      some (UInt16.ofNat base + byte.toUInt16) := by
  have hbase := base.isLt
  have hbyte := byte.toNat_lt
  exact sum16?_of_lt (by simp; omega)

private theorem product16?_glyph (byte : UInt8) :
    product16? byte.toUInt16 5 = some (byte.toUInt16 * 5) := by
  have hbyte := byte.toNat_lt
  exact product16?_of_lt (by simp; omega)

private theorem sum16?_glyph (byte : UInt8) :
    sum16? 0x050 (byte.toUInt16 * 5) = some (0x050 + 5 * byte.toUInt16) := by
  have hbyte := byte.toNat_lt
  have hoffset : (byte.toUInt16 * 5).toNat = byte.toNat * 5 := by
    simp
    omega
  rw [sum16?_of_lt (by rw [hoffset]; simp; omega), UInt16.mul_comm]

/-! ## All instructions -/

theorem execute?_ofMachine {m : Machine} (hpc : m.pc.toNat ≤ 0xFFE)
    (hslots : m.calls.Within 0xFFE) (hstatus : m.status = .running)
    (instruction : Instruction) :
    (ofMachine m).execute? instruction =
      some ((m.execute instruction).map ofMachine) := by
  have hadvance : ∀ next : Machine, next.pc = m.pc →
      succeed (ofMachine next).advance? = some (.ok (ofMachine next.advance)) := by
    intro next hnext
    rw [advance?_ofMachine (hnext ▸ hpc)]
    rfl
  cases instruction with
  | clearScreen =>
      have hblank := hadvance { m with display := .blank, redraw := true } rfl
      simp only [ofMachine, pixelsOf_blank] at hblank
      exact hblank
  | ret => exact ret?_ofMachine hslots
  | jump target => rfl
  | call target => exact call?_ofMachine m target
  | jumpOffset base =>
      have hoffset : (ofMachine m).registers[0]? = some (m.reg offsetRegister) :=
        registers_ofMachine m offsetRegister
      have hsum := sum16?_offset base (m.reg offsetRegister)
      simp only [execute?, hoffset, hsum, Option.bind_eq_bind, Option.bind_some]
      rfl
  | skip condition =>
      simp only [execute?, holds?_ofMachine, skipIf?_ofMachine hpc,
        Option.bind_eq_bind, Option.bind_some]
      rfl
  | setByte x value | readDelay x =>
      simp only [execute?, setReg?_ofMachine, Option.bind_eq_bind, Option.bind_some]
      exact hadvance _ rfl
  | addByte x value =>
      simp only [execute?, registers_ofMachine, setReg?_ofMachine,
        Option.bind_eq_bind, Option.bind_some]
      exact hadvance _ rfl
  | alu op x y =>
      simp only [execute?, registers_ofMachine, setResult?_ofMachine,
        Option.bind_eq_bind, Option.bind_some]
      exact hadvance _ (by rw [Machine.setResult_eq])
  | setIndex target => exact hadvance { m with index := UInt16.ofNat target } rfl
  | random x mask =>
      have hdrawn := setReg?_ofMachine { m with random := m.random.next.2 } x
        (m.random.next.1 &&& mask)
      simp only [ofMachine] at hdrawn
      simp only [execute?, ofMachine, hdrawn, Option.bind_eq_bind, Option.bind_some]
      exact hadvance (m.drawRandom x mask) rfl
  | draw x y rows =>
      exact withCells?_ofMachine (by omega) fun start hinside hstart =>
        drawSprite?_ofMachine hpc x y rows.isLt hinside hstart
  | waitKey x =>
      have hfault : m.fault? (.waitKey x) = none := rfl
      rw [execute?, pollKey?_of_running hpc hstatus, Machine.execute_eq, hfault]
      rfl
  | setDelay x =>
      simp only [execute?, registers_ofMachine, Option.bind_eq_bind,
        Option.bind_some]
      exact hadvance { m with delay := m.reg x } rfl
  | setSound x =>
      simp only [execute?, registers_ofMachine, Option.bind_eq_bind,
        Option.bind_some]
      exact hadvance { m with sound := m.reg x } rfl
  | addIndex x =>
      simp only [execute?, registers_ofMachine, Option.bind_eq_bind,
        Option.bind_some]
      exact hadvance (m.moveIndex (m.reg x).toUInt16) rfl
  | pointGlyph x =>
      simp only [execute?, registers_ofMachine, product16?_glyph, sum16?_glyph,
        Option.bind_eq_bind, Option.bind_some]
      exact hadvance { m with index := 0x050 + 5 * (m.reg x).toUInt16 } rfl
  | storeDecimal x =>
      exact withCells?_ofMachine (by omega) fun start hinside hstart =>
        storeDecimal?_ofMachine hpc x hinside hstart
  | storeRegisters last =>
      rw [execute?, sum?_of_lt (by omega), Option.bind_eq_bind, Option.bind_some]
      exact withCells?_ofMachine (by omega) fun start hinside hstart =>
        storeRegisters?_ofMachine hpc last hinside hstart
  | loadRegisters last =>
      rw [execute?, sum?_of_lt (by omega), Option.bind_eq_bind, Option.bind_some]
      exact withCells?_ofMachine (by omega) fun start hinside hstart =>
        loadRegisters?_ofMachine hpc last hinside hstart

end Chip8.Storage
