import Chip8.Proofs.Calls.Return

/-!
# The call stack as a list

An engine that keeps its saved addresses in a list of at most sixteen, newest
first.  The machine with slots and a depth does the same, command for command;
what its slots hold from the depth on, left there by earlier calls, has no
influence on anything that it does later.
-/

namespace Chip8

/-- A machine with a list of saved addresses; the stack in `core` is not used. -/
structure Lifo where
  core : Machine
  saved : List UInt16

/-! ## The engine with a list -/

namespace Lifo

def ret (s : Lifo) : Except Fault Lifo :=
  match s.saved with
  | [] => .error (.stackUnderflow s.core.pc)
  | caller :: older => .ok ⟨{ s.core with pc := caller + 2 }, older⟩

def call (s : Lifo) (target : Address) : Except Fault Lifo :=
  if s.saved.length = 16 then .error (.stackOverflow s.core.pc)
  else .ok ⟨{ s.core with pc := UInt16.ofNat target }, s.core.pc :: s.saved⟩

def execute (s : Lifo) : Instruction → Except Fault Lifo
  | .ret => s.ret
  | .call target => s.call target
  | instruction => (s.core.execute instruction).map fun next => { s with
    core := next }

def stepRunning (s : Lifo) : Except StepError Unit × Lifo :=
  match s.core.nextInstruction with
  | .error cause =>
      (.error (.fault cause), { s with core := { s.core with status := .halted } })
  | .ok (_, instruction) =>
      match s.execute instruction with
      | .error cause =>
          (.error (.fault cause), { s with
            core := { s.core with status := .halted } })
      | .ok next => (.ok (), { next with core := next.core.endStep })

def step (s : Lifo) : Except StepError Unit × Lifo :=
  match s.core.status with
  | .running => s.stepRunning
  | _ => (s.core.step.result, { s with core := s.core.step.machine })

def perform (s : Lifo) : Command → Lifo × Reply
  | .step => (s.step.2, .stepped s.step.1)
  | .reset => (⟨s.core.reset, []⟩, .done)
  | command =>
      ({ s with core := (s.core.perform command).machine },
        (s.core.perform command).reply)

def after (s : Lifo) : List Command → Lifo
  | [] => s
  | command :: earlier => ((after s earlier).perform command).1

def replies (s : Lifo) : List Command → List Reply
  | [] => []
  | command :: earlier => ((after s earlier).perform command).2 :: replies s earlier

end Lifo

namespace Machine

def withCalls (m : Machine) (calls : CallStack) : Machine :=
  { m with calls := calls }

def lifo (m : Machine) : Lifo := ⟨m.withCalls .empty, m.calls.saved⟩

theorem saved_lifo (m : Machine) : m.lifo.saved = m.calls.saved := rfl

theorem SwitchedOn.lifo_eq {m : Machine} (h : m.SwitchedOn) : m.lifo = ⟨m, []⟩ := by
  rcases h.eq_powerOn with ⟨dialect, seed, memory, rfl⟩
  rfl

/-! ## What does not look at the stack -/

theorem fault?_withCalls (m : Machine) (calls : CallStack)
    {instruction : Instruction}
    (hret : instruction ≠ .ret) (hcall : ∀ target, instruction ≠ .call target) :
    (m.withCalls calls).fault? instruction = m.fault? instruction := by
  cases instruction with
  | ret => exact absurd rfl hret
  | call target => exact absurd rfl (hcall target)
  | _ => rfl

theorem unseen_withCalls (calls : CallStack) :
    Unseen fun m => m.withCalls calls where
  keypad _ := rfl
  status _ := rfl
  dialect _ := rfl
  setReg _ _ _ := rfl
  tick _ := rfl
  resume _ := rfl

theorem effect_withCalls (m : Machine) (calls : CallStack)
    {instruction : Instruction}
    (hret : instruction ≠ .ret) (hcall : ∀ target, instruction ≠ .call target) :
    (m.withCalls calls).effect instruction =
      (m.effect instruction).withCalls calls := by
  cases instruction with
  | ret => exact absurd rfl hret
  | call target => exact absurd rfl (hcall target)
  | alu op x y =>
      exact congrArg advance
        ((unseen_withCalls calls).setResult m x
          (op.apply m.dialect (m.reg x) (m.reg y)))
  | waitKey x =>
      have hkeypad : (m.withCalls calls).keypad = m.keypad := rfl
      simp only [effect, hkeypad]
      cases m.keypad.firstPressed <;> rfl
  | _ => rfl

/-! ## Steps -/

theorem lifo_execute_ret (m : Machine) :
    m.lifo.execute .ret = (m.execute .ret).map lifo := by
  change m.lifo.ret = _
  cases hpop : m.calls.pop? with
  | none =>
      have hsaved : m.lifo.saved = [] := (CallStack.pop?_eq_none_iff _).mp hpop
      simp only [Lifo.ret, hsaved, execute, hpop]
      rfl
  | some top =>
      have hsaved : m.lifo.saved = top.1 :: top.2.saved := CallStack.saved_pop hpop
      simp only [Lifo.ret, hsaved, execute, hpop]
      rfl

theorem lifo_execute_call (m : Machine) (target : Address) :
    m.lifo.execute (.call target) = (m.execute (.call target)).map lifo := by
  change m.lifo.call target = _
  have hfull := CallStack.push?_eq_none_iff m.calls m.pc
  cases hpush : m.calls.push? m.pc with
  | none =>
      have hlength : m.lifo.saved.length = 16 := hfull.mp hpush
      simp only [Lifo.call, hlength, execute, hpush]
      rfl
  | some calls =>
      have hlength : ¬m.lifo.saved.length = 16 := by
        intro hlength
        rw [hfull.mpr hlength] at hpush
        cases hpush
      simp only [Lifo.call, if_neg hlength, execute, hpush, Except.map]
      simp only [lifo, CallStack.saved_push hpush]
      rfl

theorem lifo_execute (m : Machine) (instruction : Instruction) :
    m.lifo.execute instruction = (m.execute instruction).map lifo := by
  by_cases hcall : ∃ target, instruction = .call target
  · rcases hcall with ⟨target, rfl⟩
    exact m.lifo_execute_call target
  · by_cases hret : instruction = .ret
    · subst hret
      exact m.lifo_execute_ret
    · have hother : ∀ target, instruction ≠ .call target :=
        fun target h => hcall ⟨target, h⟩
      have hcore : m.lifo.execute instruction =
          (m.lifo.core.execute instruction).map fun next =>
              ⟨next, m.calls.saved⟩ := by
        cases instruction with
        | ret => exact absurd rfl hret
        | call target => exact absurd rfl (hother target)
        | _ => rfl
      have hcalls : (m.effect instruction).calls = m.calls := by
        rw [effect_eq]
        exact nextCalls_of_other hret hother
      rw [hcore, lifo, execute_eq, execute_eq,
        fault?_withCalls m .empty hret hother,
        effect_withCalls m .empty hret hother]
      cases m.fault? instruction with
      | some cause => rfl
      | none => simp only [Except.map, lifo, hcalls]

theorem lifo_endStep (m : Machine) :
    { m.lifo with core := m.lifo.core.endStep } = m.endStep.lifo := by
  have hcalls : m.endStep.calls = m.calls := by rw [endStep_eq]
  simp only [lifo, (unseen_withCalls .empty).endStep, hcalls]

theorem lifo_stepRunning (m : Machine) :
    m.lifo.stepRunning = (m.stepRunning.result, m.stepRunning.machine.lifo) := by
  have hnext : m.lifo.core.nextInstruction = m.nextInstruction := rfl
  unfold Lifo.stepRunning stepRunning
  rw [hnext]
  cases m.nextInstruction with
  | error cause => rfl
  | ok word =>
      simp only [lifo_execute]
      cases m.execute word.2 with
      | error cause => rfl
      | ok next => simp only [Except.map, lifo_endStep]

theorem step_withCalls {m : Machine} (h : m.status ≠ .running) (calls : CallStack) :
    (m.withCalls calls).step =
      { m.step with machine := m.step.machine.withCalls calls } := by
  have hsame : (m.withCalls calls).status = m.status := rfl
  cases hstatus : m.status with
  | running => exact absurd hstatus h
  | halted => simp only [step, hsame, hstatus]
  | awaitingKey register =>
      simp only [step, hsame, hstatus, (unseen_withCalls calls).stepWaiting]

theorem calls_step_of_not_running {m : Machine} (h : m.status ≠ .running) :
    m.step.machine.calls = m.calls :=
  Transition.calls_of_idle (Transition.carriedOut_of_not_running h .step) (by simp)

theorem lifo_step (m : Machine) :
    m.lifo.step = (m.step.result, m.step.machine.lifo) := by
  have hsame : m.lifo.core.status = m.status := rfl
  by_cases hrunning : m.status = .running
  · simp only [Lifo.step, hsame, step, hrunning]
    exact m.lifo_stepRunning
  · have hcore : m.lifo.step =
        (m.lifo.core.step.result, ⟨m.lifo.core.step.machine, m.lifo.saved⟩) := by
      unfold Lifo.step
      split
      next hcore => exact absurd hcore hrunning
      next => rfl
    rw [hcore, lifo, lifo, calls_step_of_not_running hrunning,
      step_withCalls hrunning]

/-! ## Commands and runs -/

theorem lifo_perform (m : Machine) (command : Command) :
    m.lifo.perform command =
      ((m.perform command).machine.lifo, (m.perform command).reply) := by
  cases command with
  | step =>
      simp only [Lifo.perform, lifo_step]
      rfl
  | load program =>
      simp only [Lifo.perform, perform, load]
      by_cases hfits : program.length ≤ Memory.programLimit
      · simp only [if_pos hfits]
        rfl
      · simp only [if_neg hfits]
  | _ => rfl

theorem lifo_after (m : Machine) (past : List Command) :
    m.lifo.after past = (m.after past).lifo ∧
    m.lifo.replies past = m.replies past := by
  induction past with
  | nil => exact ⟨rfl, rfl⟩
  | cons command earlier ih =>
      rcases ih with ⟨hafter, hreplies⟩
      have hperform := (m.after earlier).lifo_perform command
      constructor
      · rw [Lifo.after, hafter, hperform]
        rfl
      · rw [Lifo.replies, hafter, hperform, hreplies]
        rfl

theorem lifo_withCalls {m : Machine} {calls : CallStack}
    (h : calls.saved = m.calls.saved) :
    (m.withCalls calls).lifo = m.lifo := by
  have hsaved : (m.withCalls calls).calls.saved = m.calls.saved := h
  rw [lifo, hsaved]
  rfl

/--
The slots with their depth are a list.  After every command of a run, the engine
with a list and the machine are the same, but for the form of the stack, and have
given the same replies; the list holds the slots below the depth, the last one
first.  Two stacks with the same list are never told apart by what follows, so
the slots from the depth on are dead.
-/
theorem stack_is_list {start : Machine} (hstart : start.SwitchedOn)
    (past : List Command) :
    Lifo.after ⟨start, []⟩ past = (start.after past).lifo ∧
    Lifo.replies ⟨start, []⟩ past = start.replies past ∧
    ((Lifo.after ⟨start, []⟩ past).saved.length = (start.after past).calls.depth ∧
      ∀ k, k < (start.after past).calls.depth →
        (Lifo.after ⟨start, []⟩ past).saved[k]? =
          (start.after past).calls.slots[(start.after past).calls.depth - 1 - k]?) ∧
    ∀ calls : CallStack, calls.saved = (start.after past).calls.saved → ∀ later,
      (((start.after past).withCalls calls).after later).lifo =
        ((start.after past).after later).lifo ∧
      ((start.after past).withCalls calls).replies later =
        (start.after past).replies later := by
  rcases start.lifo_after past with ⟨hafter, hreplies⟩
  rw [hstart.lifo_eq] at hafter hreplies
  refine ⟨hafter, hreplies, ?_, ?_⟩
  · rw [hafter, saved_lifo]
    exact ⟨CallStack.length_saved _, fun k hk => CallStack.getElem?_saved _ hk⟩
  · intro calls hsaved later
    have hsame := lifo_withCalls hsaved
    rcases lifo_after ((start.after past).withCalls calls) later with
      ⟨hafter, hreplies⟩
    rcases lifo_after (start.after past) later with ⟨hafter', hreplies'⟩
    rw [← hafter, ← hreplies, hsame]
    exact ⟨hafter', hreplies'⟩

/-- After a call and its return, the first slot still holds the address. -/
theorem stack_is_list_stale :
    let start := (boot {} (.ofSeed 0)).machine
    let past : List Command :=
      [.step, .step, .load [0x22, 0x04, 0x12, 0x02, 0x00, 0xEE]]
    start.SwitchedOn ∧ (start.after past).calls.slots[0]? = some 0x200 ∧
    CallStack.empty.saved = (start.after past).calls.saved ∧
    (Lifo.after ⟨start, []⟩ past).saved = [] ∧
    ∀ later, ((start.after past).withCalls .empty).replies later =
      (start.after past).replies later := by
  intro start past
  have hslot : (start.after past).calls.slots[0]? = some 0x200 := by decide +kernel
  have hnil : (start.after past).calls.saved = [] := by decide +kernel
  have hsaved := CallStack.saved_empty.trans hnil.symm
  rcases stack_is_list (.bare {} 0) past with ⟨hafter, -, -, hdead⟩
  have hlist := (congrArg Lifo.saved hafter).trans ((saved_lifo _).trans hnil)
  exact ⟨.bare {} 0, hslot, hsaved, hlist, fun later =>
    (hdead .empty hsaved later).2⟩

end Machine

end Chip8
