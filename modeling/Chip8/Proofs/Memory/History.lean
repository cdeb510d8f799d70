import Chip8.Proofs.Machine.CarriedOut

/-!
# Memory as a record of its past

Four kinds of events write to memory: a reset or the power switch, an accepted
program, and the two instructions that store.  Each covers some addresses and
gives each of them a byte.  What memory holds at an address is the byte of the
latest event that covers it; nothing else leaves a trace there.
-/

namespace Chip8

/-! ## Bytes at addresses -/

namespace Memory

def initialByte (a : Nat) : UInt8 :=
  if 0x050 ≤ a ∧ a < 0x0A0 then font.getD (a - 0x050) 0 else 0

def placed (start : Nat) (bytes : List UInt8) (a : Nat) : Option UInt8 :=
  if start ≤ a then bytes[a - start]? else none

theorem read_store_eq (m : Memory) (start : Nat) (bytes : List UInt8) {a : Nat}
    (h : a < 4096) :
    (m.store start bytes).read a = (placed start bytes a).getD (m.read a) := by
  rw [read_store, placed]
  by_cases hcovered : start ≤ a ∧ a < start + bytes.length
  · have hoffset : a - start < bytes.length := by omega
    rw [dif_pos ⟨hcovered.1, hcovered.2, h⟩, if_pos hcovered.1,
      List.getElem?_eq_getElem hoffset, Option.getD_some]
  · rw [dif_neg fun hstored => hcovered ⟨hstored.1, hstored.2.1⟩]
    split
    next hstart =>
      have hoffset : bytes.length ≤ a - start := by omega
      rw [List.getElem?_eq_none hoffset, Option.getD_none]
    next => rfl

theorem read_powerOn {a : Nat} (h : a < 4096) : powerOn.read a = initialByte a := by
  rw [powerOn, read_store_eq _ _ _ h, read_blank, placed, initialByte]
  by_cases hstart : 0x050 ≤ a
  · rw [if_pos hstart]
    by_cases hend : a < 0x0A0
    · rw [if_pos ⟨hstart, hend⟩, List.getD_eq_getElem?_getD]
    · have hoffset : font.length ≤ a - 0x050 := by
        have hlength : font.length = 80 := rfl
        omega
      rw [if_neg fun hglyph => hend hglyph.2, List.getElem?_eq_none hoffset,
        Option.getD_none]
  · rw [if_neg hstart, if_neg fun hglyph => hstart hglyph.1, Option.getD_none]

end Memory

/-! ## Writes -/

/-- An event that writes to memory, with all that its bytes depend on. -/
inductive Write where
  | powerOn
  | program (bytes : List UInt8)
  | decimal (start : Nat) (value : UInt8)
  | registers (start : Nat) (last : Register) (values : Vector UInt8 16)

def Write.byteAt? : Write → Nat → Option UInt8
  | .powerOn, a => some (Memory.initialByte a)
  | .program bytes, a => if 0x200 ≤ a then bytes[a - 0x200]? else none
  | .decimal start value, a =>
      if a = start then some (value / 100)
      else if a = start + 1 then some (value / 10 % 10)
      else if a = start + 2 then some (value % 10)
      else none
  | .registers start last values, a =>
      if start ≤ a ∧ a ≤ start + last then values[a - start]? else none

/-- The byte that the latest of some writes put at an address, latest first. -/
def Write.latest? (writes : List Write) (a : Nat) : Option UInt8 :=
  writes.findSome? fun w => w.byteAt? a

theorem Write.byteAt?_decimal (start : Nat) (value : UInt8) (a : Nat) :
    (decimal start value).byteAt? a =
      Memory.placed start (decimalDigits value) a := by
  simp only [byteAt?, Memory.placed, decimalDigits]
  by_cases hstart : start ≤ a
  · obtain ⟨offset, rfl⟩ := Nat.exists_eq_add_of_le hstart
    rw [if_pos hstart, Nat.add_sub_cancel_left]
    match offset with
    | 0 | 1 | 2 => simp
    | offset + 3 => simp
  · rw [if_neg hstart, if_neg (by omega), if_neg (by omega), if_neg (by omega)]

theorem Write.byteAt?_registers (m : Machine) (start : Nat) (last : Register)
    (a : Nat) :
    (registers start last m.registers).byteAt? a =
      Memory.placed start (m.firstRegisters (last + 1)) a := by
  simp only [byteAt?, Memory.placed, Machine.firstRegisters]
  by_cases hcovered : start ≤ a ∧ a ≤ start + last
  · have hoffset : a - start < last + 1 := by omega
    rw [if_pos hcovered, if_pos hcovered.1, List.getElem?_take_of_lt hoffset,
      Vector.getElem?_toList]
  · rw [if_neg hcovered]
    split
    next hstart =>
      have hoffset : last + 1 ≤ a - start := by omega
      rw [List.getElem?_take_eq_none hoffset]
    next => rfl

namespace Transition

def write? (t : Transition) : Option Write :=
  match t.command, t.response.reply with
  | .reset, _ => some .powerOn
  | .load program, .loaded (.ok ()) => some (.program program)
  | _, _ =>
      match t.carriedOut with
      | some (.storeDecimal x) =>
          some (.decimal t.before.index.toNat (t.before.reg x))
      | some (.storeRegisters last) =>
          some (.registers t.before.index.toNat last t.before.registers)
      | _ => none

def storesBelow (t : Transition) (limit : Nat) : Bool :=
  match t.carriedOut with
  | some (.storeDecimal _) => decide (t.before.index.toNat < limit)
  | some (.storeRegisters _) => decide (t.before.index.toNat < limit)
  | _ => false

end Transition

def Machine.writes (start : Machine) (past : List Command) : List Write :=
  (start.history past).filterMap Transition.write? ++ [.powerOn]

namespace Transition

/-! ## One command -/

theorem memory_of_carriedOut {t : Transition} {instruction : Instruction}
    (h : t.carriedOut = some instruction) :
    t.after.memory = t.before.nextMemory instruction := by
  rw [after_of_carriedOut h, Machine.endStep_eq, Machine.effect_eq]

theorem memory_of_idle {t : Transition} (hidle : t.carriedOut = none)
    (hreset : t.command ≠ .reset) (hload : ∀ program, t.command ≠ .load program) :
    t.after.memory = t.before.memory := by
  obtain ⟨m, command⟩ := t
  cases command with
  | step =>
      rcases idle_step hidle with ⟨pc, registers, delay, sound, status, hstep⟩
      change m.step.machine.memory = m.memory
      rw [hstep]
  | reset => exact absurd rfl hreset
  | load program => exact absurd rfl (hload program)
  | _ => rfl

theorem write?_of_other {t : Transition} (hreset : t.command ≠ .reset)
    (hload : ∀ program, t.command ≠ .load program) :
    t.write? = match t.carriedOut with
      | some (.storeDecimal x) =>
          some (.decimal t.before.index.toNat (t.before.reg x))
      | some (.storeRegisters last) =>
          some (.registers t.before.index.toNat last t.before.registers)
      | _ => none := by
  unfold write?
  split
  next hcommand => exact absurd hcommand hreset
  next hcommand _ => exact absurd hcommand (hload _)
  next => rfl

/-- An address holds what the command wrote there, or what it held before. -/
def Records (t : Transition) : Prop :=
  ∀ a, a < 4096 →
    t.after.memory.read a = (t.write?.bind fun w =>
      w.byteAt? a).getD (t.before.memory.read a)

theorem records_reset (m : Machine) : Records ⟨m, .reset⟩ := by
  intro a ha
  exact Memory.read_powerOn ha

theorem records_load (m : Machine) (program : List UInt8) :
    Records ⟨m, .load program⟩ := by
  intro a ha
  by_cases hfits : program.length ≤ Memory.programLimit
  · have hload : m.load program =
        .ok { m with memory := m.memory.store Memory.programStart program } :=
      if_pos hfits
    simp only [after, write?, response, Machine.perform, hload, Option.bind_some,
      Write.byteAt?]
    exact Memory.read_store_eq m.memory Memory.programStart program ha
  · have hload : m.load program = .error (.tooLarge program.length) := if_neg hfits
    simp only [after, write?, response, Machine.perform, hload]
    rfl

theorem records_carriedOut {t : Transition} {instruction : Instruction}
    (h : t.carriedOut = some instruction) (hreset : t.command ≠ .reset)
    (hload : ∀ program, t.command ≠ .load program) : t.Records := by
  intro a ha
  rw [memory_of_carriedOut h, write?_of_other hreset hload, h]
  cases instruction with
  | storeDecimal x =>
      rw [Machine.nextMemory, Memory.read_store_eq _ _ _ ha]
      simp only [Option.bind_some, Write.byteAt?_decimal]
  | storeRegisters last =>
      rw [Machine.nextMemory, Memory.read_store_eq _ _ _ ha]
      simp only [Option.bind_some, Write.byteAt?_registers]
  | _ => rfl

theorem records (t : Transition) : t.Records := by
  by_cases hreset : t.command = .reset
  · obtain ⟨m, command⟩ := t
    cases hreset
    exact records_reset m
  · by_cases hload : ∃ program, t.command = .load program
    · rcases hload with ⟨program, hload⟩
      obtain ⟨m, command⟩ := t
      cases hload
      exact records_load m program
    · have hother : ∀ program, t.command ≠ .load program :=
        fun program h => hload ⟨program, h⟩
      cases hcarried : t.carriedOut with
      | some instruction => exact records_carriedOut hcarried hreset hother
      | none =>
          intro a ha
          rw [memory_of_idle hcarried hreset hother, write?_of_other hreset hother,
            hcarried]
          rfl

theorem memory_of_write?_eq_none {t : Transition} (h : t.write? = none) :
    t.after.memory = t.before.memory := by
  apply Memory.ext_read
  intro a
  by_cases ha : a < 4096
  · rw [t.records a ha, h]
    rfl
  · rw [Memory.read_of_le _ (by omega), Memory.read_of_le _ (by omega)]

theorem byteAt?_of_not_storesBelow {t : Transition}
    (h : t.storesBelow 0x200 = false) {a : Nat} (ha : a < 0x200) :
    (t.write?.bind fun w => w.byteAt? a) = none ∨
      (t.write?.bind fun w => w.byteAt? a) = some (Memory.initialByte a) := by
  unfold write?
  split
  next => exact .inr rfl
  next program _ _ =>
    left
    simp only [Option.bind_some, Write.byteAt?]
    rw [if_neg (by omega)]
  next =>
    left
    split
    next x hstore =>
      simp only [storesBelow, hstore, decide_eq_false_iff_not] at h
      simp only [Option.bind_some, Write.byteAt?]
      rw [if_neg (by omega), if_neg (by omega), if_neg (by omega)]
    next last hstore =>
      simp only [storesBelow, hstore, decide_eq_false_iff_not] at h
      simp only [Option.bind_some, Write.byteAt?]
      rw [if_neg (by omega)]
    next => rfl

end Transition

/-! ## Runs -/

namespace Machine

theorem latest?_writes_cons (start : Machine) (command : Command)
    (earlier : List Command) (a : Nat) :
    Write.latest? (start.writes (command :: earlier)) a =
      (Transition.write? ⟨start.after earlier, command⟩ |>.bind fun w =>
        w.byteAt? a).or
        (Write.latest? (start.writes earlier) a) := by
  simp only [writes, history, Write.latest?, List.filterMap_cons]
  cases Transition.write? ⟨start.after earlier, command⟩ with
  | none => rfl
  | some write =>
      rw [List.cons_append, List.findSome?_cons, Option.bind_some]
      cases write.byteAt? a <;> rfl

theorem latest?_writes {start : Machine} (hstart : start.memory = .powerOn)
    (past : List Command) {a : Nat} (ha : a < 4096) :
    Write.latest? (start.writes past) a =
      some ((start.after past).memory.read a) := by
  induction past with
  | nil =>
      change some (Memory.initialByte a) = some (start.memory.read a)
      rw [hstart, Memory.read_powerOn ha]
  | cons command earlier ih =>
      let t : Transition := ⟨start.after earlier, command⟩
      have hafter : (start.after (command :: earlier)).memory.read a = _ :=
        t.records a ha
      rw [latest?_writes_cons, ih, hafter]
      cases t.write?.bind fun w => w.byteAt? a <;> rfl

theorem read_of_not_storesBelow {start : Machine} (hstart : start.memory = .powerOn)
    {past : List Command}
    (hstores : ∀ t ∈ start.history past, t.storesBelow 0x200 = false)
    {a : Nat} (ha : a < 0x200) :
    (start.after past).memory.read a = Memory.initialByte a := by
  have hcell : a < 4096 := by omega
  -- A reset in the past is harmless: it writes what the power switch wrote.
  induction past with
  | nil =>
      change start.memory.read a = _
      rw [hstart, Memory.read_powerOn hcell]
  | cons command earlier ih =>
      let t : Transition := ⟨start.after earlier, command⟩
      have hearlier : t.before.memory.read a = _ :=
        ih fun t ht => hstores t (.tail _ ht)
      have hafter : (start.after (command :: earlier)).memory.read a = _ :=
        t.records a hcell
      rw [hafter, hearlier]
      rcases t.byteAt?_of_not_storesBelow (hstores t (.head _)) ha with
        hnone | hsome
      · rw [hnone, Option.getD_none]
      · rw [hsome, Option.getD_some]

/--
Memory is the replay of its writes.  After every run an address holds the byte of
the latest write that covers it, where switching on is the earliest write and
covers everything; a command that is no write leaves memory as it was.  Below the
place of the programs nothing ever changes, as long as all stores are made
further up.  A run of a machine that was switched on with a program is a run of a
bare one that begins with loading the program.
-/
theorem memory_is_replay (dialect : Dialect) (seed : UInt64) (past : List Command) :
    let start := (boot dialect (.ofSeed seed)).machine
    (∀ a, a < 4096 →
      Write.latest? (start.writes past) a =
      some ((start.after past).memory.read a)) ∧
    (∀ t ∈ start.history past, t.write? = none → t.after.memory = t.before.memory) ∧
    ((∀ t ∈ start.history past, t.storesBelow 0x200 = false) → ∀ a, a < 0x200 →
      (start.after past).memory.read a = Memory.initialByte a) ∧
    ∀ source started, bootFrom source dialect (.ofSeed seed) = .ok started →
      ∃ program, source.readUpTo (Memory.programLimit + 1) = .ok program ∧
        ∀ later, started.machine.after later =
            start.after (later ++ [.load program]) := by
  intro start
  refine ⟨?_, ?_, ?_, ?_⟩
  · intro a ha
    exact latest?_writes rfl past ha
  · intro t _
    exact Transition.memory_of_write?_eq_none
  · intro hstores a ha
    exact read_of_not_storesBelow rfl hstores ha
  · intro source started hboot
    rcases bootFrom_eq_ok hboot with ⟨program, hread, hstarted⟩
    refine ⟨program, hread, ?_⟩
    intro later
    rw [hstarted, ← after_append]

/-- A program that overwrites itself, and a shorter one that is loaded over it. -/
theorem memory_is_replay_overwritten :
    let start := (boot {} (.ofSeed 0)).machine
    let past : List Command :=
      [.load [0x12], .step, .step, .step,
        .load [0x60, 0xFE, 0xA2, 0x01, 0xF0, 0x33]]
    (∀ t ∈ start.history past, t.storesBelow 0x200 = false) ∧
    (start.after past).memory.slice 0x200 6 = [0x12, 2, 5, 4, 0xF0, 0x33] ∧
    Write.latest? (start.writes past) 0x201 = some 2 ∧
    (start.after past).memory.read 0x050 = Memory.initialByte 0x050 := by
  intro start past
  have hfacts : (∀ t ∈ start.history past, t.storesBelow 0x200 = false) ∧
      (start.after past).memory.slice 0x200 6 = [0x12, 2, 5, 4, 0xF0, 0x33] ∧
      (start.after past).memory.read 0x201 = 2 := by
    decide +kernel
  rcases hfacts with ⟨hstores, hslice, hread⟩
  rcases memory_is_replay {} 0 past with ⟨hreplay, -, hbelow, -⟩
  refine ⟨hstores, hslice, ?_, hbelow hstores 0x050 (by decide)⟩
  exact (hreplay 0x201 (by decide)).trans (congrArg some hread)

end Machine

end Chip8
