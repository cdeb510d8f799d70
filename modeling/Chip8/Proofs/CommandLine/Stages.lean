import Chip8.CommandLine.FileTree
import Chip8.CommandLine.Program
import Chip8.Proofs.Keyboard.Holding
import Chip8.Proofs.Load.Reading
import Chip8.Proofs.Run.Ending

/-!
# The stages of the program

The program holds keys, opens its file, loads it and runs.  The first of these
stages that fails decides the outcome; otherwise the outcome shows the machine at
the end of the run, with the last frame if there was one.  What the options set
can be set when the machine is switched on or on the machine with its program.
-/

namespace Chip8

namespace Machine

theorem bootFrom_other (source : ByteSource) (dialect dialect' : Dialect)
    (random random' : RandomSource) :
    bootFrom source dialect' random' =
      (bootFrom source dialect random).map fun started =>
        { started with
          machine :=
            { started.machine with dialect := dialect', random := random' } } := by
  unfold bootFrom
  cases source.readUpTo (Memory.programLimit + 1) with
  | error reason => rfl
  | ok program =>
      simp only [load]
      by_cases hfits : program.length ≤ Memory.programLimit
      · simp only [if_pos hfits]
        rfl
      · simp only [if_neg hfits]
        rfl

theorem machine_of_bootFrom {source : ByteSource} {dialect : Dialect}
    {random : RandomSource}
    {started : Boot} (h : bootFrom source dialect random = .ok started) :
    ∃ memory, started.machine =
      { powerOn dialect random with memory := memory } := by
  obtain ⟨program, -, hstarted⟩ := bootFrom_eq_ok h
  obtain ⟨memory, hload⟩ := perform_load_eq (powerOn dialect random) program
  exact ⟨memory, hstarted.trans hload⟩

end Machine

namespace CommandLine

namespace Options

/-- What the options set on a machine that has its program, latest first. -/
def settings (options : Options) : List Command :=
  options.seed.toList.map Command.setSeed ++
    [.setDialect ⟨options.normalizeShiftFlag, !options.freezeTimersWhileWaiting⟩]

variable (options : Options) (openFile : String → Except String ByteSource)
  (entropy : UInt64)

/-- The stages before the run succeed, with these keys and this machine. -/
structure Ready (held : Keypad) (m : Machine) : Prop where
  keys : Keyboard.heldKeys options.hold = .ok held
  loaded : ∃ source started, openFile options.filename = .ok source ∧
    Machine.bootFrom source {} (.ofSeed entropy) = .ok started ∧
    m = started.machine.after options.settings

end Options

theorem after_settings (options : Options) (m : Machine) :
    m.after options.settings =
      { m with
        dialect := options.dialect
        random := options.seed.elim m.random .ofSeed } := by
  unfold Options.settings
  cases options.seed <;> rfl

theorem bootFrom_eq_settings (options : Options) (source : ByteSource)
    (entropy : UInt64) :
    Machine.bootFrom source options.dialect (.ofSeed (options.seed.getD entropy)) =
      (Machine.bootFrom source {} (.ofSeed entropy)).map fun started =>
        { started with machine := started.machine.after options.settings } := by
  rw [Machine.bootFrom_other source {} options.dialect (.ofSeed entropy)]
  cases hboot : Machine.bootFrom source {} (.ofSeed entropy) with
  | error error => rfl
  | ok started =>
      obtain ⟨memory, hstarted⟩ := Machine.machine_of_bootFrom hboot
      simp only [Except.map, after_settings, hstarted]
      cases options.seed <;> rfl

namespace Options

variable {options : Options} {openFile : String → Except String ByteSource}
  {entropy : UInt64}
  {held : Keypad} {m : Machine}

/-! ## The stages in their order -/

theorem execute_of_opened {source : ByteSource}
    (hkeys : Keyboard.heldKeys options.hold = .ok held)
    (hopen : openFile options.filename = .ok source) :
    options.execute openFile entropy =
      match Machine.bootFrom source {} (.ofSeed entropy) with
      | .error error => .error (.loading error)
      | .ok started =>
          let finish :=
            (started.machine.after options.settings).run held options.steps
          match finish.result with
          | .error error => .error (.running error)
          | .ok summary => .ok ⟨summary, finish.machine⟩ := by
  simp only [execute, hkeys, hopen, Except.mapError, bind, Except.bind,
    bootFrom_eq_settings]
  cases Machine.bootFrom source {} (.ofSeed entropy) with
  | error error => rfl
  | ok started =>
      simp only [Except.map]
      cases ((started.machine.after options.settings).run held
        options.steps).result <;> rfl

theorem Ready.execute_eq (h : options.Ready openFile entropy held m) :
    options.execute openFile entropy =
      match (m.run held options.steps).result with
      | .error error => .error (.running error)
      | .ok summary => .ok ⟨summary, (m.run held options.steps).machine⟩ := by
  obtain ⟨source, started, hopen, hboot, rfl⟩ := h.loaded
  rw [execute_of_opened h.keys hopen, hboot]

theorem Ready.eq_powerOn (h : options.Ready openFile entropy held m) :
    ∃ memory, m =
      { Machine.powerOn options.dialect
        (options.seed.elim (.ofSeed entropy) .ofSeed) with
        memory := memory } := by
  obtain ⟨source, started, -, hboot, rfl⟩ := h.loaded
  obtain ⟨memory, hstarted⟩ := Machine.machine_of_bootFrom hboot
  rw [after_settings, hstarted]
  exact ⟨memory, rfl⟩

theorem Ready.withRandom (h : options.Ready openFile entropy held m)
    (entropy' : UInt64) :
    options.Ready openFile entropy' held
      (m.withRandom (options.seed.elim (.ofSeed entropy') .ofSeed)) := by
  obtain ⟨source, started, hopen, hboot, rfl⟩ := h.loaded
  obtain ⟨memory, hstarted⟩ := Machine.machine_of_bootFrom hboot
  have hother :=
    Machine.bootFrom_other source {} {} (.ofSeed entropy) (.ofSeed entropy')
  rw [hboot] at hother
  refine ⟨h.keys, source, _, hopen, hother, ?_⟩
  simp only [after_settings, hstarted]
  rfl

theorem Ready.redraw (h : options.Ready openFile entropy held m) :
    m.redraw = false := by
  obtain ⟨memory, rfl⟩ := h.eq_powerOn
  rfl

end Options

/-! ## Outcomes -/

section Outcomes

variable {arguments : List String} {options : Options}
  {openFile : String → Except String ByteSource} {entropy : UInt64} {held : Keypad}
  {m : Machine}

end Outcomes

end CommandLine

end Chip8
