import Chip8.Machine.Step
import Chip8.Proofs.Instruction.Assembly
import Chip8.Proofs.Log.Lines

/-!
# What a text says about an instruction

Instructions with one text are carried out alike, on every machine, because the
register that a text leaves out has no part in what happens.  So what a word does
can be told from its text; of the log, only the digits of the word itself depend on
anything else.
-/

namespace Chip8

namespace Machine

/-- The step of a running machine that has fetched `opcode` from anywhere. -/
def stepOn (m : Machine) (opcode : Opcode) : Step :=
  match Instruction.decode opcode with
  | none => m.haltWith (.unsupportedOpcode opcode m.pc) []
  | some instruction =>
      let executing := Event.executing m.pc opcode instruction
      match m.execute instruction with
      | .error cause => m.haltWith cause [executing]
      | .ok next => ⟨next.endStep, .ok (), executing :: next.waitingEvents⟩

theorem step_of_fetch {m : Machine} {opcode : Opcode}
    (hrunning : m.status = .running)
    (hfetch : m.fetch = .ok opcode) : m.step = m.stepOn opcode := by
  simp only [step, hrunning, stepRunning, nextInstruction, hfetch, stepOn]
  cases Instruction.decode opcode <;> rfl

theorem execute_written (m : Machine) (instruction : Instruction) :
    m.execute instruction.written = m.execute instruction := by
  cases instruction with
  | alu op x y => cases op <;> rfl
  | _ => rfl

theorem execute_of_text_eq {i j : Instruction} (h : i.text = j.text) (m : Machine) :
    m.execute i = m.execute j := by
  rw [← execute_written m i, Instruction.text_eq_iff_written.mp h, execute_written]

end Machine

/-- Two steps that are alike but for one number in their logs. -/
structure Step.SameButWord (first second : Step) (a b : Opcode) : Prop where
  machine : first.machine = second.machine
  result : first.result = second.result
  lines : ∃ front back later,
    first.events.map Event.line = (front ++ Hex.padded 4 a.toNat ++ back) :: later ∧
    second.events.map Event.line = (front ++ Hex.padded 4 b.toNat ++ back) :: later

namespace Machine

theorem stepOn_of_text_eq {a b : Opcode} {i j : Instruction}
    (ha : Instruction.decode a = some i) (hb : Instruction.decode b = some j)
    (h : i.text = j.text) (m : Machine) :
    (m.stepOn a).SameButWord (m.stepOn b) a b := by
  have hline : ∀ (op : Opcode) (k : Instruction), (Event.executing m.pc op k).line =
      "TRACE 0x" ++ Hex.padded 3 m.pc.toNat ++ ": " ++ Hex.padded 4 op.toNat ++
        ("  " ++ k.text) := by
    intro op k
    rw [Event.line_executing, String.append_assoc]
  have hexecute := execute_of_text_eq h m
  simp only [stepOn, ha, hb, hexecute]
  cases m.execute j with
  | _ =>
      refine ⟨rfl, rfl, _, _, _, congrArg (· :: _) (hline a i), ?_⟩
      rw [h]
      exact congrArg (· :: _) (hline b j)

/--
The text of an instruction tells what it does.  Two words that decode have one text
if they decode to the same instruction, or to the same kind of shift of the same
register, and only then.  Words with one text are carried out alike by every
machine: the machines afterwards and the answers are the same, and the logs as well
but for the digits of the word.  A running machine that fetches a word does just
that.
-/
theorem text_tells_behaviour {a b : Opcode} {i j : Instruction}
    (ha : Instruction.decode a = some i) (hb : Instruction.decode b = some j) :
    (i.text = j.text ↔ i = j ∨ i.SameShift j) ∧
    (i.text = j.text → ∀ m : Machine,
      m.execute i = m.execute j ∧ (m.stepOn a).SameButWord (m.stepOn b) a b) ∧
    ∀ m : Machine, m.status = .running → m.fetch = .ok a → m.step = m.stepOn a := by
  refine ⟨?_, ?_, ?_⟩
  · rw [Instruction.text_eq_iff_written, Instruction.written_eq_written_iff]
  · intro h m
    exact ⟨execute_of_text_eq h m, stepOn_of_text_eq ha hb h m⟩
  · intro m hrunning
    exact step_of_fetch hrunning

theorem text_tells_behaviour_shift :
    let m := (powerOn {} (.ofSeed 0)).setReg 0x3 0x85
    (Instruction.alu .shiftRight 0x3 0x4).text =
    (Instruction.alu .shiftRight 0x3 0x5).text ∧
    (m.stepOn 0x8346).SameButWord (m.stepOn 0x8356) 0x8346 0x8356 ∧
    (m.stepOn 0x8346).result = .ok () ∧
    (m.stepOn 0x8346).machine.reg 0x3 = 0x42 := by
  intro m
  have ha : Instruction.decode 0x8346 = some (.alu .shiftRight 0x3 0x4) := by
    decide +kernel
  have hb : Instruction.decode 0x8356 = some (.alu .shiftRight 0x3 0x5) := by
    decide +kernel
  rcases text_tells_behaviour ha hb with ⟨hiff, hsame, -⟩
  have htext := hiff.mpr (.inr ⟨_, _, _, _, .inl rfl, rfl, rfl⟩)
  exact ⟨htext, (hsame htext m).2, by decide +kernel, by decide +kernel⟩

end Machine

end Chip8
