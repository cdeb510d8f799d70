import Chip8.Proofs.Log.Transcript
import Mathlib.Data.List.Basic

/-!
# The log of a run

The account of a command says which lines it leaves in the log, from the way the
command goes.  The log of a run begins where a machine is switched on and takes in
the lines of one command after another.  Every instruction that was executed, with
its address, can be read off the log, and between two resets the lines come in an
orderly way.
-/

namespace Chip8

namespace Machine

/-! ## Commands -/

def traceLines (m : Machine) : List String :=
  match m.fetch with
  | .error _ => []
  | .ok opcode =>
      match Instruction.decode opcode with
      | none => []
      | some instruction =>
          ["TRACE 0x" ++ Hex.padded 3 m.pc.toNat ++ ": " ++
            Hex.padded 4 opcode.toNat ++ "  " ++ instruction.text]

def endingLines (m : Machine) : List String :=
  match m.step.result, m.step.machine.status with
  | .error cause, _ => ["ERROR emulator halted: " ++ cause.message]
  | .ok (), .awaitingKey register =>
      ["DEBUG waiting for key press into V" ++ Hex.padded 1 register]
  | .ok (), _ => []

def account (m : Machine) : Command → List String
  | .step =>
      match m.status with
      | .halted => []
      | .awaitingKey _ =>
          match m.keypad.firstPressed with
          | none => []
          | some key => ["DEBUG key " ++ Hex.padded 1 key ++ " pressed, resuming"]
      | .running => m.traceLines ++ m.endingLines
  | .reset => ["DEBUG emulator initialized"]
  | .load program =>
      if program.length ≤ 3584 then
        ["DEBUG loaded " ++ Nat.repr program.length ++ " byte program at 0x200"]
      else []
  | _ => []

theorem traceLines_of_unreadable {m : Machine} {cause : Fault}
    (h : m.nextInstruction = .error cause) : m.traceLines = [] := by
  cases hfetch : m.fetch with
  | error cause => simp only [traceLines, hfetch]
  | ok opcode =>
      cases hdecode : Instruction.decode opcode with
      | none => simp only [traceLines, hfetch, hdecode]
      | some instruction =>
          simp only [nextInstruction, hfetch, hdecode, reduceCtorEq] at h

theorem traceLines_of_readable {m : Machine} {opcode : Opcode}
    {instruction : Instruction}
    (h : m.nextInstruction = .ok (opcode, instruction)) :
    m.traceLines = [(Event.executing m.pc opcode instruction).line] := by
  rcases nextInstruction_eq_ok h with ⟨hpc, rfl, hdecode⟩
  simp only [traceLines, fetch_of_lt (Nat.lt_succ_of_le hpc), hdecode,
    Event.line_executing]

theorem endingLines_of_fault {m : Machine} {cause : Fault} {events : List Event}
    (h : m.step = m.haltWith cause events) :
    m.endingLines = [(Event.halted cause).line] := by
  rw [endingLines, h, Event.line_halted]
  rfl

theorem endingLines_of_success {m next : Machine} {events : List Event}
    (h : m.step = ⟨next.endStep, .ok (), events⟩) :
    m.endingLines = next.waitingEvents.map Event.line := by
  have hend : next.endStep.status = next.status := by rw [endStep_eq]
  rw [endingLines, h]
  cases hstatus : next.status with
  | awaitingKey register =>
      simp only [hend, hstatus, waitingEvents, List.map_cons, List.map_nil,
        Event.line_waiting]
  | running => simp only [hend, hstatus, waitingEvents, List.map_nil]
  | halted => simp only [hend, hstatus, waitingEvents, List.map_nil]

theorem account_of_running {m : Machine} (h : m.status = .running) :
    m.account .step = m.traceLines ++ m.endingLines := by
  simp only [account, h]

theorem step_lines (m : Machine) :
    m.step.events.map Event.line = m.account .step := by
  cases m.course with
  | halted hstatus hstep =>
      simp only [account, hstatus, hstep, List.map_nil]
  | parked register hstatus hkey hstep =>
      simp only [account, hstatus, hkey, hstep, List.map_nil]
  | resumed register key hstatus hkey hstep =>
      simp only [account, hstatus, hkey, hstep, List.map_cons, List.map_nil,
        Event.line_resumed]
  | unreadable cause hstatus hnext hstep =>
      rw [account_of_running hstatus, traceLines_of_unreadable hnext,
        endingLines_of_fault hstep, hstep]
      rfl
  | refused opcode instruction cause hstatus hnext hfault hstep =>
      rw [account_of_running hstatus, traceLines_of_readable hnext,
        endingLines_of_fault hstep, hstep]
      rfl
  | executed opcode instruction hstatus hnext hfault hstep =>
      rw [account_of_running hstatus, traceLines_of_readable hnext,
        endingLines_of_success hstep, hstep]
      rfl

theorem perform_lines (m : Machine) (command : Command) :
    (m.perform command).events.map Event.line = m.account command := by
  cases command with
  | step => exact m.step_lines
  | reset => exact congrArg (fun line => [line]) Event.line_initialized
  | load program =>
      rw [events_load, account, Memory.programLimit]
      split
      · exact congrArg (fun line => [line]) (Event.line_loaded program.length)
      · rfl
  | _ => rfl

end Machine

/-! ## Runs -/

namespace Event

def instruction? : Event → Option (UInt16 × Opcode)
  | .executing pc opcode _ => some (pc, opcode)
  | _ => none

theorem read_traces (events : List Event) :
    ((events.map line).filter Log.IsTrace).map Log.readInstruction =
      events.filterMap instruction? := by
  induction events with
  | nil => rfl
  | cons event events ih =>
      have htrace := Log.isTrace_line event
      cases event with
      | executing pc opcode instruction =>
          have hread := Log.readInstruction_line pc opcode instruction
          rw [List.map_cons, List.filter_cons,
            if_pos (decide_eq_true (htrace.mpr rfl)), List.map_cons, ih, hread]
          rfl
      | _ =>
          rw [List.map_cons, List.filter_cons_of_neg (by simp [htrace, kind]), ih]
          rfl

end Event

namespace Transition

/-- Address and word of the instruction that a command executes, faulty or not. -/
def executes (t : Transition) : Option (UInt16 × Opcode) :=
  match t.command, t.before.status, t.before.nextInstruction with
  | .step, .running, .ok (opcode, _) => some (t.before.pc, opcode)
  | _, _, _ => none

theorem instructions_step (m : Machine) :
    m.step.events.filterMap Event.instruction? = (executes ⟨m, .step⟩).toList := by
  cases m.course with
  | halted hstatus hstep => simp [executes, hstatus, hstep]
  | parked register hstatus hkey hstep => simp [executes, hstatus, hstep]
  | resumed register key hstatus hkey hstep =>
      simp [executes, hstatus, hstep, Event.instruction?]
  | unreadable cause hstatus hnext hstep =>
      simp [executes, hstatus, hnext, hstep, Machine.haltWith, Event.instruction?]
  | refused opcode instruction cause hstatus hnext hfault hstep =>
      simp [executes, hstatus, hnext, hstep, Machine.haltWith, Event.instruction?]
  | executed opcode instruction hstatus hnext hfault hstep =>
      have hwaiting :
          (m.effect instruction).waitingEvents.filterMap Event.instruction? =
          [] := by
        unfold Machine.waitingEvents
        split <;> rfl
      simp [executes, hstatus, hnext, hstep, Event.instruction?, hwaiting]

theorem instructions_response (t : Transition) :
    t.response.events.filterMap Event.instruction? = t.executes.toList := by
  obtain ⟨m, command⟩ := t
  cases command with
  | step => exact instructions_step m
  | load program =>
      rw [response, Machine.events_load]
      split <;> rfl
  | _ => rfl

end Transition

namespace Machine

def executions (m : Machine) (past : List Command) : List (UInt16 × Opcode) :=
  (m.history past).reverse.filterMap Transition.executes

def report (m : Machine) (past : List Command) : List Event :=
  (m.history past).reverse.flatMap fun t => t.response.events

theorem report_cons (m : Machine) (command : Command) (earlier : List Command) :
    m.report (command :: earlier) =
      m.report earlier ++ ((m.after earlier).perform command).events := by
  rw [report, history, List.reverse_cons, List.flatMap_append,
    List.flatMap_singleton]
  rfl

theorem instructions_report (m : Machine) (past : List Command) :
    (m.report past).filterMap Event.instruction? = m.executions past := by
  rw [report, List.filterMap_flatMap, executions, List.filterMap_eq_flatMap_toList]
  simp only [Transition.instructions_response]

theorem report_transcript (m : Machine) (past : List Command) :
    Transcript m.status (m.report past) (m.after past).status := by
  induction past with
  | nil => exact .nil m.status
  | cons command earlier ih =>
      rw [report_cons]
      exact Transcript.append_iff.mpr ⟨_, ih,
        (m.after earlier).perform_transcript command⟩

namespace Boot

inductive Completed : Boot → Prop
  | bare (dialect : Dialect) (seed : UInt64) :
      Completed (boot dialect (.ofSeed seed))
  | loaded {source : ByteSource} {dialect : Dialect} {seed : UInt64}
      {started : Boot}
      (hboot : bootFrom source dialect (.ofSeed seed) = .ok started) :
        Completed started

def lines (start : Boot) (past : List Command) : List String :=
  (start.events ++ start.machine.report past).map Event.line

end Boot

theorem bootFrom_events {source : ByteSource} {dialect : Dialect}
    {random : RandomSource}
    {started : Boot} (h : bootFrom source dialect random = .ok started) :
    ∃ program, started.machine =
      ((powerOn dialect random).perform (.load program)).machine ∧
      started.events =
        .initialized :: ((powerOn dialect random).perform
          (.load program)).events := by
  unfold bootFrom at h
  split at h
  next => cases h
  next program hread =>
    split at h
    next => cases h
    next m hload =>
      cases h
      refine ⟨program, ?_, ?_⟩
      · simp only [perform, hload]
      · simp only [perform, hload]

theorem Boot.Completed.events_eq {start : Boot} (h : start.Completed) :
    ∃ events, start.events = .initialized :: events ∧
      Transcript .running events start.machine.status ∧
      events.filterMap Event.instruction? = [] := by
  cases h with
  | bare dialect seed => exact ⟨[], rfl, .nil .running, rfl⟩
  | @loaded source dialect seed started hboot =>
      rcases bootFrom_events hboot with ⟨program, hmachine, hevents⟩
      refine ⟨_, hevents, ?_, Transition.instructions_response ⟨_, .load program⟩⟩
      rw [hmachine]
      exact (powerOn dialect (.ofSeed seed)).perform_transcript (.load program)

/--
The log is a faithful account of the run.  The lines of a command are those of its
account.  Address and word of every executed instruction can be read off the lines
about instructions, in order.  A log begins with the line of a reset, and the lines
from one such line to the next are orderly: no more than one is about a fault, no
line about an instruction or a fault comes after it, and the lines about waiting for
a key and about going on come by turns, beginning with waiting.
-/
theorem log_is_faithful {start : Boot} (hstart : start.Completed)
    (past : List Command) :
    (∀ (m : Machine) (command : Command),
      (m.perform command).events.map Event.line = m.account command) ∧
    ((start.lines past).filter Log.IsTrace).map Log.readInstruction =
      start.machine.executions past ∧
    (∀ pc opcode instruction pc' opcode' instruction',
      (Event.executing pc opcode instruction).line =
        (Event.executing pc' opcode' instruction').line →
        pc = pc' ∧ opcode = opcode') ∧
    (start.lines past).head? = some Log.initializedLine ∧
    ∀ earlier segment later,
      start.lines past = earlier ++ Log.initializedLine :: (segment ++ later) →
      Log.initializedLine ∉ segment → Log.Orderly segment := by
  rcases hstart.events_eq with ⟨events, hevents, hbegin, hnone⟩
  have hlog : Transcript start.machine.status
    (start.events ++ start.machine.report past)
      (start.machine.after past).status := by
    rw [hevents]
    exact .cons (.initialized _)
      (Transcript.append_iff.mpr ⟨_, hbegin, start.machine.report_transcript past⟩)
  refine ⟨perform_lines, ?_, ?_, ?_, ?_⟩
  · have hstarted : start.events.filterMap Event.instruction? = [] := by
      rw [hevents]
      exact hnone
    rw [Boot.lines, Event.read_traces, List.filterMap_append, hstarted,
      instructions_report, List.nil_append]
  · intro pc opcode instruction pc' opcode' instruction' hline
    have hread := congrArg Log.readInstruction hline
    rw [Log.readInstruction_line, Log.readInstruction_line] at hread
    exact Prod.mk.inj hread
  · rw [Boot.lines, hevents, List.cons_append, List.map_cons, List.head?_cons,
      Event.line_initialized]
  · intro earlier segment later hlines hreset
    exact hlog.orderly_segment hlines hreset

/-- A reset cuts one wait short, a key ends the other, and then a fault comes. -/
theorem log_is_faithful_resumed :
    let start := boot {} (.ofSeed 0)
    let first : List Command := [.step, .load [0xF0, 0x0A, 0x00, 0xEE]]
    let past :=
      [.step, .step, .step, .setKey 5 true, .step] ++ first ++ [.reset] ++ first
    let segment :=
      ["DEBUG loaded 4 byte program at 0x200", "TRACE 0x200: F00A  LD V0, K",
        "DEBUG waiting for key press into V0", "DEBUG key 5 pressed, resuming",
        "TRACE 0x202: 00EE  RET",
        "ERROR emulator halted: stack underflow on return at address 0x202"]
    start.Completed ∧
    start.lines past = ["DEBUG emulator initialized",
      "DEBUG loaded 4 byte program at 0x200", "TRACE 0x200: F00A  LD V0, K",
      "DEBUG waiting for key press into V0"] ++
      "DEBUG emulator initialized" :: (segment ++ []) ∧
    Log.Orderly segment ∧
    start.machine.executions past =
      [(0x200, 0xF00A), (0x200, 0xF00A), (0x202, 0x00EE)] := by
  intro start first past segment
  have hstart : start.Completed := .bare {} 0
  have hfacts : start.lines past = ["DEBUG emulator initialized",
        "DEBUG loaded 4 byte program at 0x200", "TRACE 0x200: F00A  LD V0, K",
        "DEBUG waiting for key press into V0"] ++
        "DEBUG emulator initialized" :: (segment ++ []) ∧
      Log.initializedLine ∉ segment ∧
      ((start.lines past).filter Log.IsTrace).map Log.readInstruction =
        [(0x200, 0xF00A), (0x200, 0xF00A), (0x202, 0x00EE)] := by
    decide +kernel
  rcases hfacts with ⟨hlines, hreset, hread⟩
  rcases log_is_faithful hstart past with ⟨-, hexecutions, -, -, hsegments⟩
  exact ⟨hstart, hlines, hsegments _ segment [] hlines hreset,
    hexecutions.symm.trans hread⟩

end Machine

end Chip8
