import Chip8.Machine.Command
import Chip8.Proofs.Machine.CarriedOut

/-!
# The machine changed in place

Instructions, steps and loading once more, as updates of one machine that are
made one after another.  A failure keeps every update made before it, so here
only the order of checks and updates can keep a failing step from leaving
something half done.  The main theorem is that none does.
-/

namespace Chip8

namespace InPlace

/-- Updates of one machine; a failure keeps those that were made before it. -/
abbrev Action (ε : Type) := EStateM ε Machine

/-! ## Instructions -/

def setReg (x : Register) (value : UInt8) : Action StepError Unit :=
  modify fun m => m.setReg x value

def advance : Action StepError Unit := modify Machine.advance

def setPc (pc : UInt16) : Action StepError Unit :=
  modify fun m => { m with pc := pc }

def setIndex (index : UInt16) : Action StepError Unit :=
  modify fun m => { m with index := index }

def setStatus (status : Status) : Action StepError Unit :=
  modify fun m => { m with status := status }

def setResult (x : Register) (result : AluResult) : Action StepError Unit := do
  match result.flag with
  | none => pure ()
  | some flag => setReg flagRegister flag
  setReg x result.value

def checkCells (count : Nat) : Action StepError Unit := do
  let m ← get
  if count = 0 ∨ m.index.toNat + count ≤ 4096 then pure ()
  else throw (.fault (.memoryOutOfBounds (m.index.toNat + count - 1) m.pc))

def ret : Action StepError Unit := do
  let m ← get
  match m.calls.pop? with
  | none => throw (.fault (.stackUnderflow m.pc))
  | some (caller, calls) => do
      modify fun m => { m with calls := calls }
      setPc caller
      advance

def call (target : Address) : Action StepError Unit := do
  let m ← get
  match m.calls.push? m.pc with
  | none => throw (.fault (.stackOverflow m.pc))
  | some calls => do
      modify fun m => { m with calls := calls }
      setPc (UInt16.ofNat target)

def toggleSprite (left top : UInt8) (rows : Nat) : Action StepError Unit := do
  setReg flagRegister 0
  let m ← get
  let drawing :=
    m.display.draw left.toNat top.toNat (m.memory.slice m.index.toNat rows)
  modify fun m => { m with display := drawing.display }
  setReg flagRegister (flagByte drawing.collision)
  modify fun m => { m with redraw := true }
  advance

def draw (x y : Register) (rows : Nat) : Action StepError Unit := do
  let m ← get
  checkCells rows
  toggleSprite (m.reg x) (m.reg y) rows

def pollKey (x : Register) : Action StepError Unit := do
  let m ← get
  match m.keypad.firstPressed with
  | none => if m.status = .running then setStatus (.awaitingKey x)
  | some key => do
      setReg x (UInt8.ofNat key)
      advance
      if m.status ≠ .running then setStatus .running

def storeDecimal (x : Register) : Action StepError Unit := do
  checkCells 3
  let m ← get
  modify fun m' => m'.storeAtIndex (decimalDigits (m.reg x))
  advance

def storeRegisters (last : Register) : Action StepError Unit := do
  checkCells (last + 1)
  modify fun m => m.storeAtIndex (m.firstRegisters (last + 1))
  modify fun m => m.moveIndex (UInt16.ofNat (last + 1))
  advance

def loadRegisters (last : Register) : Action StepError Unit := do
  checkCells (last + 1)
  modify fun m => m.loadFirstRegisters (last + 1)
  modify fun m => m.moveIndex (UInt16.ofNat (last + 1))
  advance

def execute : Instruction → Action StepError Unit
  | .clearScreen => do
      modify fun m => { m with display := .blank }
      modify fun m => { m with redraw := true }
      advance
  | .ret => ret
  | .jump target => setPc (UInt16.ofNat target)
  | .call target => call target
  | .jumpOffset base => do
      setPc (UInt16.ofNat base + ((← get).reg offsetRegister).toUInt16)
  | .skip condition => modify fun m => m.skipIf (m.holds condition)
  | .setByte x value => do
      setReg x value
      advance
  | .addByte x value => do
      setReg x ((← get).reg x + value)
      advance
  | .alu op x y => do
      let m ← get
      setResult x (op.apply m.dialect (m.reg x) (m.reg y))
      advance
  | .setIndex target => do
      setIndex (UInt16.ofNat target)
      advance
  | .random x mask => do
      let (byte, random) := (← get).random.next
      modify fun m => { m with random := random }
      setReg x (byte &&& mask)
      advance
  | .draw x y rows => draw x y rows
  | .readDelay x => do
      setReg x (← get).delay
      advance
  | .waitKey x => pollKey x
  | .setDelay x => do
      modify fun m => { m with delay := m.reg x }
      advance
  | .setSound x => do
      modify fun m => { m with sound := m.reg x }
      advance
  | .addIndex x => do
      modify fun m => m.moveIndex (m.reg x).toUInt16
      advance
  | .pointGlyph x => do
      setIndex (0x050 + 5 * ((← get).reg x).toUInt16)
      advance
  | .storeDecimal x => storeDecimal x
  | .storeRegisters last => storeRegisters last
  | .loadRegisters last => loadRegisters last

/-! ## Steps and loading -/

def runWord : Action StepError Unit := do
  match (← get).nextInstruction with
  | .error cause => throw (.fault cause)
  | .ok (_, instruction) => execute instruction

def runOrHalt : Action StepError Unit := do
  try
    runWord
  catch error => do
    setStatus .halted
    throw error

def step : Action StepError Unit := do
  match (← get).status with
  | .halted => throw .halted
  | .awaitingKey register => do
      pollKey register
      modify Machine.endStep
  | .running => do
      runOrHalt
      modify Machine.endStep

def load (program : List UInt8) : Action LoadError Unit := do
  if Memory.programLimit < program.length then throw (.tooLarge program.length)
  modify fun m => { m with memory := m.memory.store Memory.programStart program }

/-! ## Instructions fail before they change anything -/

def settle (m : Machine) :
    Except Fault Machine → EStateM.Result StepError Machine Unit
  | .error cause => .error (.fault cause) m
  | .ok next => .ok () next

theorem run_setResult (m : Machine) (x : Register) (result : AluResult) :
    (setResult x result).run m = .ok () (m.setResult x result) := by
  unfold setResult Machine.setResult
  cases result.flag <;> rfl

theorem run_checkCells (m : Machine) (count : Nat) :
    (checkCells count).run m = settle m (m.withCells count m) := by
  simp only [checkCells, Machine.withCells, EStateM.run_bind, EStateM.run_get]
  split <;> rfl

theorem run_checkCells_bind {m next : Machine} (count : Nat)
    {rest : Action StepError Unit} (hrest : rest.run m = .ok () next) :
    (checkCells count >>= fun _ => rest).run m =
      settle m (m.withCells count next) := by
  rw [EStateM.run_bind, run_checkCells]
  unfold Machine.withCells
  by_cases hroom : count = 0 ∨ m.index.toNat + count ≤ 4096
  · rw [if_pos hroom, if_pos hroom]
    exact hrest
  · rw [if_neg hroom, if_neg hroom]
    rfl

theorem run_toggleSprite (m : Machine) (x y : Register) (rows : Nat) :
    (toggleSprite (m.reg x) (m.reg y) rows).run m =
      .ok () (m.drawSprite x y rows).advance := by
  have htwice : ∀ flag, (m.registers.set flagRegister 0).set flagRegister flag =
      m.registers.set flagRegister flag := by simp
  have hrun : (toggleSprite (m.reg x) (m.reg y) rows).run m = .ok () { m with
      display := (m.drawing x y rows).display
      registers := (m.registers.set flagRegister 0).set flagRegister
        (flagByte (m.drawing x y rows).collision)
      redraw := true }.advance := rfl
  rw [hrun, htwice]
  rfl

theorem run_pollKey (m : Machine) (x : Register) :
    (pollKey x).run m = .ok () (match m.keypad.firstPressed with
      | none =>
          if m.status = .running then { m with status := .awaitingKey x } else m
      | some key => { m.takeKey x key with status := .running }) := by
  simp only [pollKey, EStateM.run_bind, EStateM.run_get]
  cases m.keypad.firstPressed with
  | none =>
      simp only
      split <;> rfl
  | some key =>
      by_cases hrunning : m.status = .running
      · have hsame : { m.takeKey x key with status := .running } =
            m.takeKey x key := by
          rw [← hrunning]
          rfl
        simp only [hrunning, hsame]
        rfl
      · simp only [if_pos hrunning]
        rfl

theorem run_execute {m : Machine} (hrunning : m.status = .running)
    (instruction : Instruction) :
    (execute instruction).run m = settle m (m.execute instruction) := by
  cases instruction with
  | ret =>
      simp only [execute, ret, Machine.execute, EStateM.run_bind, EStateM.run_get]
      cases m.calls.pop? <;> rfl
  | call target =>
      simp only [execute, call, Machine.execute, EStateM.run_bind, EStateM.run_get]
      cases m.calls.push? m.pc <;> rfl
  | alu op x y =>
      simp only [execute, EStateM.run_bind, EStateM.run_get, run_setResult]
      rfl
  | draw x y rows =>
      have hrun := run_checkCells_bind rows (run_toggleSprite m x y rows)
      rw [EStateM.run_bind] at hrun
      simp only [execute, draw, Machine.execute, EStateM.run_bind,
        EStateM.run_get, hrun]
  | waitKey x =>
      simp only [execute, run_pollKey, Machine.execute]
      cases m.keypad.firstPressed with
      | none => rw [if_pos hrunning]; rfl
      | some key => rw [← hrunning]; rfl
  | storeDecimal x => exact run_checkCells_bind 3 rfl
  | storeRegisters last => exact run_checkCells_bind (last + 1) rfl
  | loadRegisters last => exact run_checkCells_bind (last + 1) rfl
  | _ => rfl

/-! ## Steps and loading in place -/

def ofStep (s : Step) : EStateM.Result StepError Machine Unit :=
  match s.result with
  | .error error => .error error s.machine
  | .ok () => .ok () s.machine

theorem run_runWord {m : Machine} (hrunning : m.status = .running) :
    runWord.run m = settle m (match m.nextInstruction with
      | .error cause => .error cause
      | .ok (_, instruction) => m.execute instruction) := by
  simp only [runWord, EStateM.run_bind, EStateM.run_get]
  cases m.nextInstruction with
  | error cause => rfl
  | ok word => exact run_execute hrunning word.2

theorem run_runOrHalt (m : Machine) :
    runOrHalt.run m =
      match runWord.run m with
      | .error error stopped => .error error { stopped with status := .halted }
      | .ok () next => .ok () next := by
  change EStateM.tryCatch runWord _ m = _
  delta EStateM.tryCatch EStateM.run
  cases runWord m <;> rfl

theorem run_step (m : Machine) : step.run m = ofStep m.step := by
  simp only [step, EStateM.run_bind, EStateM.run_get]
  cases hstatus : m.status with
  | halted =>
      simp only [Machine.step, hstatus]
      rfl
  | awaitingKey register =>
      simp only [Machine.step, hstatus, Machine.stepWaiting, EStateM.run_bind,
        run_pollKey]
      cases m.keypad.firstPressed <;> rfl
  | running =>
      simp only [Machine.step, hstatus, Machine.stepRunning, EStateM.run_bind,
        run_runOrHalt, run_runWord hstatus]
      cases m.nextInstruction with
      | error cause => rfl
      | ok word =>
          simp only
          cases m.execute word.2 <;> rfl

def ofLoad (m : Machine) : Except LoadError Machine →
    EStateM.Result LoadError Machine Unit
  | .error error => .error error m
  | .ok next => .ok () next

theorem run_load (m : Machine) (program : List UInt8) :
    (load program).run m = ofLoad m (m.load program) := by
  unfold load Machine.load
  rcases Nat.lt_or_ge Memory.programLimit program.length with hlarge | hfits
  · rw [if_neg (Nat.not_le.mpr hlarge), if_pos hlarge]
    rfl
  · rw [if_pos hfits, if_neg (Nat.not_lt.mpr hfits)]
    rfl

end InPlace

/-! ## Failures -/

namespace Machine

theorem step_of_fault {m : Machine} (hrunning : m.status = .running)
    {error : StepError} (h : m.step.result = .error error) :
    m.step.machine = { m with status := .halted } := by
  rcases Transition.step_of_running hrunning with
    ⟨instruction, -, hok, -⟩ | ⟨-, -, hmachine⟩
  · rw [hok] at h
    cases h
  · exact hmachine

theorem step_of_refusal {m : Machine} (h : m.step.result = .error .halted) :
    m.step.machine = m := by
  cases hstatus : m.status with
  | halted => simp only [step, hstatus]
  | awaitingKey register =>
      have hok : m.step.result = .ok () := by
        simp only [step, hstatus, stepWaiting]
        cases m.keypad.firstPressed <;> rfl
      rw [hok] at h
      cases h
  | running =>
      rcases Transition.step_of_running hstatus with
        ⟨_, -, hok, -⟩ | ⟨-, ⟨cause, hfault⟩, -⟩
      · rw [hok] at h
        cases h
      · rw [hfault] at h
        cases h

theorem perform_of_refused_load {m : Machine} {program : List UInt8}
    {error : LoadError}
    (h : (m.perform (.load program)).reply = .loaded (.error error)) :
    (m.perform (.load program)).machine = m := by
  simp only [perform, load] at h ⊢
  by_cases hfits : program.length ≤ Memory.programLimit
  · rw [if_pos hfits] at h
    cases h
  · rw [if_neg hfits]

/--
A failure leaves nothing half done: a failing step of a running machine changes
nothing but the status, a step that is refused because the machine has halted
changes nothing, and neither does a program that is too large.  This holds of the
updates in place as well, which end as the machine does.
-/
theorem failure_is_atomic (m : Machine) :
    (∀ error, m.status = .running → m.step.result = .error error →
      m.step.machine = { m with status := .halted }) ∧
    (m.step.result = .error .halted → m.step.machine = m) ∧
    (∀ program error, (m.perform (.load program)).reply = .loaded (.error error) →
      (m.perform (.load program)).machine = m) ∧
    InPlace.step.run m = InPlace.ofStep m.step ∧
    ∀ program, (InPlace.load program).run m =
      InPlace.ofLoad m (m.load program) := by
  refine ⟨?_, step_of_refusal, ?_, InPlace.run_step m, InPlace.run_load m⟩
  · intro error hrunning
    exact step_of_fault hrunning
  · intro program error
    exact perform_of_refused_load

theorem failure_is_atomic_sprite :
    let m := (boot {} (.ofSeed 0)).machine.after
      [.step, .step, .load [0x6F, 0x07, 0xAF, 0xFF, 0xD0, 0x12]]
    m.status = .running ∧ m.step.result.isOk = false ∧
    m.step.machine = { m with status := .halted } ∧
        m.step.machine.reg flagRegister = 7 := by
  intro m
  have hfacts : m.status = .running ∧ m.step.result.isOk = false ∧
      m.reg flagRegister = 7 := by
    decide +kernel
  clear_value m
  rcases hfacts with ⟨hrunning, hfailed, hflag⟩
  cases hresult : m.step.result with
  | ok done =>
      rw [hresult] at hfailed
      cases hfailed
  | error error =>
      have hmachine := (failure_is_atomic m).1 error hrunning hresult
      refine ⟨hrunning, rfl, hmachine, ?_⟩
      rw [hmachine]
      exact hflag

end Machine

end Chip8
