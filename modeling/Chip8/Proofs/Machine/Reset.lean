import Chip8.Proofs.Load.Reading
import Chip8.Proofs.Storage.Safety

/-!
# A reset forgets the past

A reset leaves a machine its dialect and its random source and nothing else.  So
a machine that is reset and loaded with a program goes on as one that was switched
on with this program from a source, and two machines are told apart after it only
by their random sources and their dialects.  On storage, where a reset clears one
field after another, no field is left over.
-/

namespace Chip8

def restart (program : List UInt8) : List Command := [.load program, .reset]

def restartWith (seed : UInt64) (dialect : Dialect) (program : List UInt8) :
    List Command :=
  restart program ++ [.setDialect dialect, .setSeed seed]

/-! ## On storage -/

namespace Storage

def after? (s : Storage) : List Command → Option Storage
  | [] => some s
  | command :: earlier => do (← s.after? earlier).perform? command

theorem after?_append (s : Storage) (later earlier : List Command) :
    s.after? (later ++ earlier) = (s.after? earlier).bind fun next =>
    next.after? later := by
  induction later with
  | nil => simp [after?]
  | cons command later ih =>
      simp only [List.cons_append, after?, ih, Option.bind_eq_bind,
        Option.bind_assoc]

theorem after?_ofMachine {m : Machine} (h : m.Bounded) (past : List Command) :
    (m.after past).Bounded ∧
    (ofMachine m).after? past = some (ofMachine (m.after past)) := by
  induction past with
  | nil => exact ⟨h, rfl⟩
  | cons command earlier ih =>
      rcases ih with ⟨hbounded, hafter⟩
      refine ⟨hbounded.perform command, ?_⟩
      rw [after?, hafter, Option.bind_eq_bind, Option.bind_some,
        perform?_ofMachine hbounded]
      rfl

theorem after?_reset (s : Storage) (later : List Command) :
    s.after? (later ++ [.reset]) =
      some (ofMachine ((Machine.powerOn s.dialect s.random).after later)) := by
  have hreset : s.after? [.reset] =
      some (ofMachine (.powerOn s.dialect s.random)) :=
    initialize?_eq s
  rw [after?_append, hreset, Option.bind_some]
  exact (after?_ofMachine (Machine.bounded_powerOn _ _) later).2

end Storage

/-! ## Fresh machines -/

namespace Machine

theorem after_load {m : Machine} {program : List UInt8}
    (hfits : program.length ≤ Memory.programLimit) :
    m.after [.load program] =
      { m with memory := m.memory.store Memory.programStart program } := by
  simp only [after, perform, load, if_pos hfits]

theorem replies_load (m : Machine) {program : List UInt8}
    (hfits : program.length ≤ Memory.programLimit) :
    m.replies [.load program] = [.loaded (.ok ())] := by
  simp only [replies, after, perform, load, if_pos hfits]

theorem bootFrom_eq_load {source : ByteSource} (hportion : source.portion ≠ some 0)
    (hwhole : source.breakdown = none)
    (hfits : source.pending.length ≤ Memory.programLimit)
    (dialect : Dialect) (random : RandomSource) :
    ∃ started, bootFrom source dialect random = .ok started ∧
      started.machine = (powerOn dialect random).after [.load source.pending] := by
  have hbreaks : ¬source.BreaksBefore (Memory.programLimit + 1) := by
    rintro ⟨breakdown, hbreakdown, -⟩
    cases hwhole.symm.trans hbreakdown
  exact ⟨_, bootFrom_of_fits hportion hbreaks hfits dialect random,
    (after_load hfits).symm⟩

theorem set_after_load (dialect first : Dialect) (seed : UInt64)
    (random : RandomSource)
    {program : List UInt8} (hfits : program.length ≤ Memory.programLimit) :
    ((powerOn first random).after [.load program]).after
      [.setDialect dialect, .setSeed seed] =
      (powerOn dialect (.ofSeed seed)).after [.load program] := by
  rw [after_load hfits, after_load hfits]
  rfl

theorem after_restart (m : Machine) (later : List Command) (program : List UInt8) :
    m.after (later ++ restart program) =
      ((powerOn m.dialect m.random).after [.load program]).after later := by
  rw [after_append]
  rfl

theorem replies_restart (m : Machine) (later : List Command) {program : List UInt8}
    (hfits : program.length ≤ Memory.programLimit) :
    m.replies (later ++ restart program) =
      ((powerOn m.dialect m.random).after [.load program]).replies later ++
        [.loaded (.ok ()), .done] := by
  have hreplies : m.replies (restart program) =
      (powerOn m.dialect m.random).replies [.load program] ++ [.done] := rfl
  rw [replies_append, hreplies, replies_load _ hfits]
  rfl

theorem kept_by_restart (m : Machine) (program : List UInt8) :
    (m.after (restart program)).random = m.random ∧
      (m.after (restart program)).dialect = m.dialect := by
  rcases (powerOn m.dialect m.random).perform_load_eq program with ⟨memory, hload⟩
  have hafter : m.after (restart program) = _ := hload
  rw [hafter]
  exact ⟨rfl, rfl⟩

/--
A reset erases all history.  From any machine, a seed, a dialect, a reset and a
program lead to a run that is, command for command and reply for reply, the run of
a machine just switched on with the program, that seed and that dialect; on storage
no field is left over either.  Without the seed and the dialect it is the run of a
machine switched on with those that the old machine had, so two machines that agree
on them go on alike, and two that do not agree can be told apart.
-/
theorem reset_erases_history {source : ByteSource}
    (hportion : source.portion ≠ some 0)
    (hwhole : source.breakdown = none) (hfits : source.pending.length ≤ 3584) :
    (∀ (seed : UInt64) (dialect first : Dialect) (random : RandomSource), ∃ started,
      bootFrom source first random = .ok started ∧
      let fresh := started.machine.after [.setDialect dialect, .setSeed seed]
      ∀ later : List Command,
        let past := later ++ restartWith seed dialect source.pending
        (∀ m : Machine, m.after past = fresh.after later ∧
          m.replies past =
            fresh.replies later ++ [.loaded (.ok ()), .done, .done, .done]) ∧
        ∀ s : Storage, s.after? past = some (.ofMachine (fresh.after later))) ∧
    (∀ m : Machine, ∃ started, bootFrom source m.dialect m.random = .ok started ∧
      ∀ later : List Command,
        let past := later ++ restart source.pending
        m.after past = started.machine.after later ∧
        m.replies past =
          started.machine.replies later ++ [.loaded (.ok ()), .done]) ∧
    ∀ m n : Machine,
      (∀ later : List Command,
        m.after (later ++ restart source.pending) =
        n.after (later ++ restart source.pending) ∧
        m.replies (later ++ restart source.pending) =
          n.replies (later ++ restart source.pending)) ↔
      m.random = n.random ∧ m.dialect = n.dialect := by
  refine ⟨?_, ?_, ?_⟩
  · intro seed dialect first random
    rcases bootFrom_eq_load hportion hwhole hfits first random with
      ⟨started, hboot, hstarted⟩
    refine ⟨started, hboot, ?_⟩
    intro fresh later past
    have hfresh : fresh =
        (powerOn dialect (.ofSeed seed)).after [.load source.pending] := by
      rw [← set_after_load dialect first seed random hfits, ← hstarted]
    have hpast : past =
        (later ++ restart source.pending) ++ [.setDialect dialect, .setSeed seed] :=
      (List.append_assoc _ _ _).symm
    constructor
    · intro m
      constructor
      · rw [hpast, after_append, after_restart, hfresh]
        rfl
      · rw [hpast, replies_append, replies_restart _ _ hfits, hfresh,
          List.append_assoc]
        rfl
    · intro s
      have hset : s.after? [.setDialect dialect, .setSeed seed] =
          some { s with random := .ofSeed seed, dialect := dialect } := rfl
      have hload : later ++ restart source.pending =
          (later ++ [.load source.pending]) ++ [.reset] :=
        (List.append_assoc _ [_] _).symm
      rw [hpast, Storage.after?_append, hset, Option.bind_some, hload,
        Storage.after?_reset, after_append, hfresh]
  · intro m
    rcases bootFrom_eq_load hportion hwhole hfits m.dialect m.random with
      ⟨started, hboot, hstarted⟩
    refine ⟨started, hboot, ?_⟩
    intro later past
    rw [hstarted]
    exact ⟨m.after_restart later source.pending, m.replies_restart later hfits⟩
  · intro m n
    constructor
    · intro hsame
      have hrestart : m.after (restart source.pending) =
          n.after (restart source.pending) :=
        (hsame []).1
      rcases m.kept_by_restart source.pending with ⟨hrandom, hdialect⟩
      rw [← hrandom, ← hdialect, hrestart]
      exact n.kept_by_restart source.pending
    · rintro ⟨hrandom, hdialect⟩ later
      rw [after_restart, after_restart, replies_restart m later hfits,
        replies_restart n later hfits, hrandom, hdialect]
      exact ⟨rfl, rfl⟩

/-- A machine halted inside a subroutine and one that waits are restarted. -/
theorem reset_erases_history_halted :
    let source : ByteSource :=
      { pending := [0xC0, 0xFF, 0xD0, 0x15], portion := some 1 }
    let halted :=
      (boot {} (.ofSeed 0)).machine.after [.step, .step, .load [0x22, 0x08]]
    let waiting := (boot {} (.ofSeed 1)).machine.after
      [.step, .setDialect ⟨true, false⟩, .load [0xF3, 0x0A]]
    (source.portion ≠ some 0 ∧ source.pending.length ≤ 3584) ∧
    (halted.status = .halted ∧ halted.calls.depth = 1) ∧
      waiting.status = .awaitingKey 3 ∧
    (∀ later, halted.replies (later ++ restartWith 7 {} source.pending) =
      waiting.replies (later ++ restartWith 7 {} source.pending)) ∧
    ¬∀ later, halted.after (later ++ restart source.pending) =
        waiting.after (later ++ restart source.pending) ∧
      halted.replies (later ++ restart source.pending) =
        waiting.replies (later ++ restart source.pending) := by
  intro source halted waiting
  have hportion : source.portion ≠ some 0 := by simp [source]
  have hfits : source.pending.length ≤ 3584 := by simp [source]
  have hstatus : (halted.status = .halted ∧ halted.calls.depth = 1) ∧
      waiting.status = .awaitingKey 3 ∧ halted.dialect ≠ waiting.dialect := by
    decide +kernel
  rcases hstatus with ⟨hhalted, hwaiting, hdialect⟩
  rcases reset_erases_history hportion rfl hfits with ⟨hfresh, -, hkept⟩
  rcases hfresh 7 {} {} (.ofSeed 0) with ⟨started, -, hruns⟩
  refine ⟨⟨hportion, hfits⟩, hhalted, hwaiting, ?_, ?_⟩
  · intro later
    rw [((hruns later).1 halted).2, ((hruns later).1 waiting).2]
  · intro hsame
    exact hdialect ((hkept halted waiting).mp hsame).2

end Machine

end Chip8
