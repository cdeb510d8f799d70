import Chip8.Machine.Command

/-!
# The past of a machine

A machine is switched on, with or without a program, and then given commands in
any order.  Its past lists these commands, the latest first, so that what
happened since some event is a front part of the list.  The reachable machines
are those that have a past.
-/

namespace Chip8

/-- One command together with the machine that it was given to. -/
structure Transition where
  before : Machine
  command : Command

namespace Transition

def response (t : Transition) : Response := t.before.perform t.command

def after (t : Transition) : Machine := t.response.machine

/-- The instruction that was carried out, if the command was a step that did so. -/
def carriedOut (t : Transition) : Option Instruction :=
  match t.command, t.before.status, t.before.nextInstruction,
    t.before.step.result with
  | .step, .running, .ok (_, instruction), .ok () => some instruction
  | _, _, _, _ => none

end Transition

namespace Machine

def after (m : Machine) : List Command → Machine
  | [] => m
  | command :: earlier => ((m.after earlier).perform command).machine

def replies (m : Machine) : List Command → List Reply
  | [] => []
  | command :: earlier =>
      ((m.after earlier).perform command).reply :: m.replies earlier

def history (m : Machine) : List Command → List Transition
  | [] => []
  | command :: earlier => ⟨m.after earlier, command⟩ :: m.history earlier

theorem after_append (m : Machine) (later earlier : List Command) :
    m.after (later ++ earlier) = (m.after earlier).after later := by
  induction later with
  | nil => rfl
  | cons command later ih => rw [List.cons_append, after, after, ih]

theorem replies_append (m : Machine) (later earlier : List Command) :
    m.replies (later ++ earlier) =
      (m.after earlier).replies later ++ m.replies earlier := by
  induction later with
  | nil => rfl
  | cons command later ih =>
      rw [List.cons_append, replies, replies, ih, after_append, List.cons_append]

inductive SwitchedOn : Machine → Prop
  | bare (dialect : Dialect) (seed : UInt64) :
      SwitchedOn (boot dialect (.ofSeed seed)).machine
  | loaded {source : ByteSource} {dialect : Dialect} {seed : UInt64}
      {started : Boot}
      (hboot : bootFrom source dialect (.ofSeed seed) = .ok started) :
        SwitchedOn started.machine

inductive Reachable : Machine → Prop
  | start {m : Machine} (hstart : m.SwitchedOn) : Reachable m
  | perform {m : Machine} (command : Command) (hm : Reachable m) :
      Reachable (m.perform command).machine

theorem perform_load_eq (m : Machine) (program : List UInt8) :
    ∃ memory, (m.perform (.load program)).machine =
      { m with memory := memory } := by
  simp only [perform, load]
  by_cases hfits : program.length ≤ Memory.programLimit
  · rw [if_pos hfits]
    exact ⟨_, rfl⟩
  · rw [if_neg hfits]
    exact ⟨m.memory, rfl⟩

/-- What a command can change if it is neither a step nor a reset. -/
theorem perform_of_other (m : Machine) {command : Command} (hstep : command ≠ .step)
    (hreset : command ≠ .reset) :
    ∃ memory redraw keypad dialect random, (m.perform command).machine =
      { m with
        memory := memory
        redraw := redraw
        keypad := keypad
        dialect := dialect
        random := random } := by
  cases command with
  | step => exact absurd rfl hstep
  | reset => exact absurd rfl hreset
  | load program =>
      rcases m.perform_load_eq program with ⟨memory, hload⟩
      rw [hload]
      exact ⟨_, _, _, _, _, rfl⟩
  | _ => exact ⟨_, _, _, _, _, rfl⟩

theorem bootFrom_eq_ok {source : ByteSource} {dialect : Dialect}
    {random : RandomSource}
    {started : Boot} (h : bootFrom source dialect random = .ok started) :
    ∃ program, source.readUpTo (Memory.programLimit + 1) = .ok program ∧
      started.machine = (boot dialect random).machine.after [.load program] := by
  unfold bootFrom at h
  split at h
  next => cases h
  next program hread =>
    split at h
    next => cases h
    next m hload =>
      cases h
      refine ⟨program, hread, ?_⟩
      simp only [after, boot, perform, hload]

theorem SwitchedOn.eq_perform_load {m : Machine} (h : m.SwitchedOn) :
    ∃ dialect seed program,
      m = ((powerOn dialect (.ofSeed seed)).perform (.load program)).machine := by
  cases h with
  | bare dialect seed =>
      refine ⟨dialect, seed, [], ?_⟩
      simp [boot, perform, load, Memory.store]
  | @loaded source dialect seed started hboot =>
      rcases bootFrom_eq_ok hboot with ⟨program, -, hstarted⟩
      exact ⟨dialect, seed, program, hstarted⟩

theorem SwitchedOn.eq_powerOn {m : Machine} (h : m.SwitchedOn) :
    ∃ dialect seed memory,
      m = { powerOn dialect (.ofSeed seed) with memory := memory } := by
  rcases h.eq_perform_load with ⟨dialect, seed, program, rfl⟩
  rcases perform_load_eq (powerOn dialect (.ofSeed seed)) program with
    ⟨memory, hload⟩
  exact ⟨dialect, seed, memory, hload⟩

theorem reachable_after {m : Machine} (h : m.Reachable) (past : List Command) :
    (m.after past).Reachable := by
  induction past with
  | nil => exact h
  | cons command earlier ih => exact .perform command ih

theorem reachable_iff {m : Machine} :
    m.Reachable ↔
      ∃ (start : Machine) (past : List Command), start.SwitchedOn ∧
      m = start.after past := by
  constructor
  · intro h
    induction h with
    | start hstart => exact ⟨_, [], hstart, rfl⟩
    | perform command _ ih =>
        rcases ih with ⟨start, past, hstart, rfl⟩
        exact ⟨start, command :: past, hstart, rfl⟩
  · rintro ⟨start, past, hstart, rfl⟩
    exact reachable_after (.start hstart) past

theorem Reachable.invariant {P : Machine → Prop}
    (hstart : ∀ dialect seed, P (powerOn dialect (.ofSeed seed)))
    (hkeep : ∀ m command, P m → P (m.perform command).machine)
    {m : Machine} (h : m.Reachable) : P m := by
  induction h with
  | start hswitched =>
      rcases hswitched.eq_perform_load with ⟨dialect, seed, program, rfl⟩
      exact hkeep _ (.load program) (hstart dialect seed)
  | perform command _ ih => exact hkeep _ command ih

end Machine

end Chip8
