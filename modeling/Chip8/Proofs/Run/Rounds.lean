import Chip8.Machine.Run
import Chip8.Proofs.Screen.Redraw

/-!
# Runs round by round

A run is a sequence of rounds: the keys are set, a step is made, and the pending
frame is taken.  It goes on until all rounds are made or a step fails.  Its
summary counts the rounds and the frames, and the last frame that it took is
still on the screen at its end, because nothing was drawn after it.
-/

namespace Chip8

@[simp] theorem Summary.steps_record (summary : Summary) (frame : Option Display) :
    (summary.record frame).steps = summary.steps + 1 := by
  cases frame <;> rfl

namespace Machine

def rounds (m : Machine) (held : Keypad) : Nat → Machine
  | 0 => m
  | count + 1 => (m.rounds held count).after [.takeFrame, .step, .setKeys held]

def atStep (m : Machine) (held : Keypad) (round : Nat) : Machine :=
  (m.rounds held round).setKeys held

def drawsIn (m : Machine) (held : Keypad) (round : Nat) : Bool :=
  Transition.draws ⟨m.atStep held round, .step⟩

/-- A frame that was pending counts if the first round takes it and draws none. -/
def frameCount (m : Machine) (held : Keypad) (count : Nat) : Nat :=
  (List.range count).countP (m.drawsIn held) +
    if m.redraw = true ∧ 1 ≤ count ∧ m.drawsIn held 0 = false then 1 else 0

def summarize (m : Machine) (held : Keypad) : Nat → Summary
  | 0 => .empty
  | count + 1 =>
      (m.summarize held count).record
        (m.atStep held count).step.machine.pendingFrame

/-! ## The loop -/

theorem runFrom_of_succeeds {m : Machine} {held : Keypad}
    (h : (m.setKeys held).step.result = .ok ()) (count : Nat) (summary : Summary) :
    runFrom held (count + 1) summary m =
      runFrom held count (summary.record (m.setKeys held).step.machine.pendingFrame)
        (m.after [.takeFrame, .step, .setKeys held]) := by
  simp only [runFrom, heldStep, h]
  rfl

theorem runFrom_of_fails {m : Machine} {held : Keypad} {cause : StepError}
    (h : (m.setKeys held).step.result = .error cause) (count : Nat)
    (summary : Summary) :
    runFrom held (count + 1) summary m =
      ⟨(m.setKeys held).step.machine, .error ⟨summary.steps, cause⟩⟩ := by
  simp only [runFrom, heldStep, h]

theorem runFrom_rounds {m : Machine} {held : Keypad} {count : Nat}
    (h : ∀ round, round < count → (m.atStep held round).step.result = .ok ())
    (rest : Nat) :
    runFrom held (count + rest) .empty m =
      runFrom held rest (m.summarize held count) (m.rounds held count) := by
  induction count generalizing rest with
  | zero =>
      rw [Nat.zero_add]
      rfl
  | succ count ih =>
      have hearlier : ∀ round,
          round < count → (m.atStep held round).step.result = .ok () :=
        fun round hround => h round (Nat.lt_succ_of_lt hround)
      have hlast : ((m.rounds held count).setKeys held).step.result = .ok () :=
        h count (Nat.lt_succ_self count)
      -- The loop starts with the first round, so the last one is left to the rest.
      rw [Nat.succ_add_eq_add_succ, ih hearlier, runFrom_of_succeeds hlast]
      rfl

/-! ## The summary -/

theorem redraw_rounds_succ (m : Machine) (held : Keypad) (count : Nat) :
    (m.rounds held (count + 1)).redraw = false := rfl

theorem redraw_atStep (m : Machine) (held : Keypad) (count : Nat) :
    (m.atStep held count).step.machine.redraw =
      ((m.rounds held count).redraw || m.drawsIn held count) :=
  Transition.redraw_step _

theorem frameCount_succ (m : Machine) (held : Keypad) (count : Nat) :
    m.frameCount held (count + 1) =
      m.frameCount held count +
        if (m.atStep held count).step.machine.redraw then 1 else 0 := by
  rw [redraw_atStep]
  simp only [frameCount, List.range_succ, List.countP_append, List.countP_singleton]
  cases count with
  | zero =>
      have hstart : (m.rounds held 0).redraw = m.redraw := rfl
      rw [hstart]
      cases m.redraw <;> cases m.drawsIn held 0 <;> simp
  | succ count =>
      rw [redraw_rounds_succ]
      simp [Nat.add_right_comm]

theorem steps_summarize (m : Machine) (held : Keypad) (count : Nat) :
    (m.summarize held count).steps = count := by
  induction count with
  | zero => rfl
  | succ count ih => rw [summarize, Summary.steps_record, ih]

theorem summarize_eq (m : Machine) (held : Keypad) (count : Nat) :
    m.summarize held count =
      ⟨count, m.frameCount held count,
        if m.frameCount held count = 0 then none
        else some (m.rounds held count).display⟩ := by
  induction count with
  | zero => simp [summarize, frameCount, Summary.empty]
  | succ count ih =>
      have hdisplay : (m.rounds held (count + 1)).display =
          (m.atStep held count).step.machine.display := rfl
      rw [summarize, ih, frameCount_succ, hdisplay]
      cases hredraw : (m.atStep held count).step.machine.redraw with
      | true =>
          have hpending : (m.atStep held count).step.machine.pendingFrame =
              some (m.atStep held count).step.machine.display := by
            simp [pendingFrame, hredraw]
          simp [hpending, Summary.record]
      | false =>
          have hdraws : m.drawsIn held count = false := by
            rw [redraw_atStep, Bool.or_eq_false_iff] at hredraw
            exact hredraw.2
          have hkept : (m.atStep held count).step.machine.display =
              (m.rounds held count).display :=
            Transition.display_of_not_draws (t := ⟨m.atStep held count, .step⟩)
              (by simp) hdraws
          rw [hkept, pendingFrame_of_not_redraw hredraw]
          simp [Summary.record]

/-! ## The two endings -/

theorem run_of_succeeds {m : Machine} {held : Keypad} {count : Nat}
    (h : ∀ round, round < count → (m.atStep held round).step.result = .ok ()) :
    m.run held count = ⟨m.rounds held count, .ok (m.summarize held count)⟩ :=
  runFrom_rounds h 0

theorem run_of_fails {m : Machine} {held : Keypad} {count round : Nat}
    {cause : StepError} (hround : round < count)
    (hearlier : ∀ earlier, earlier < round →
      (m.atStep held earlier).step.result = .ok ())
    (hfail : (m.atStep held round).step.result = .error cause) :
    m.run held count =
      ⟨(m.atStep held round).step.machine, .error ⟨round, cause⟩⟩ := by
  obtain ⟨rest, rfl⟩ := Nat.exists_eq_add_of_lt hround
  have hrun : m.run held (round + (rest + 1)) = runFrom held (rest + 1) _ _ :=
    runFrom_rounds hearlier (rest + 1)
  rw [Nat.add_assoc, hrun, runFrom_of_fails hfail, steps_summarize]
  rfl

/--
A run is its rounds.  If the steps of all rounds succeed, the run ends as the
machine after them; it has taken one frame for every step that drew, and one that
was pending before the first, and the last frame is what the machine shows.  If
the step of a round is the first to fail, the run reports how many have been made
and why it stops, and leaves the machine before that step, with its keys, halted.
Without a round a run always succeeds.
-/
theorem run_is_its_rounds (m : Machine) (held : Keypad) (count : Nat) :
    ((∀ round, round < count → (m.atStep held round).step.result = .ok ()) →
      m.run held count = ⟨m.rounds held count, .ok ⟨count, m.frameCount held count,
        if m.frameCount held count = 0 then none
        else some (m.rounds held count).display⟩⟩) ∧
    (∀ round cause, round < count →
      (∀ earlier, earlier < round → (m.atStep held earlier).step.result = .ok ()) →
      (m.atStep held round).step.result = .error cause →
      m.run held count =
          ⟨{ m.rounds held round with keypad := held, status := .halted },
            .error ⟨round, cause⟩⟩ ∧
        RunError.chain ⟨round, cause⟩ =
          ["emulation stopped after " ++ Nat.repr round ++ " steps",
            cause.message]) ∧
    m.run held 0 = ⟨m, .ok ⟨0, 0, none⟩⟩ := by
  refine ⟨?_, ?_, rfl⟩
  · intro hsucceed
    rw [run_of_succeeds hsucceed, summarize_eq]
  · intro round cause hround hearlier hfail
    have hmachine : (m.atStep held round).step.machine = _ :=
      Transition.step_of_failure hfail
    rw [run_of_fails hround hearlier hfail, hmachine]
    exact ⟨rfl, rfl⟩

theorem run_is_its_rounds_stopped :
    let m :=
      (boot {} (.ofSeed 0)).machine.after
        [.load [0x60, 0x01, 0x00, 0xE0, 0x00, 0xEE]]
    (∀ round, round < 2 → (m.atStep .released round).step.result = .ok ()) ∧
    m.run .released 2 = ⟨m.rounds .released 2, .ok ⟨2, 1, some .blank⟩⟩ ∧
    (m.run .released 10).result = .error ⟨2, .fault (.stackUnderflow 0x204)⟩ := by
  intro m
  have hfacts : (∀ round, round < 2 →
    (m.atStep .released round).step.result = .ok ()) ∧
      (m.atStep .released 2).step.result = .error (.fault (.stackUnderflow 0x204)) ∧
      m.frameCount .released 2 = 1 ∧ (m.rounds .released 2).display = .blank := by
    decide +kernel
  rcases hfacts with ⟨hsucceed, hfail, hcount, hblank⟩
  rcases run_is_its_rounds m .released 2 with ⟨hfinished, -⟩
  rcases run_is_its_rounds m .released 10 with ⟨-, hstopped, -⟩
  refine ⟨hsucceed, ?_, congrArg Run.result
    (hstopped 2 _ (by decide) hsucceed hfail).1⟩
  rw [hfinished hsucceed, hcount, hblank]
  rfl

end Machine

end Chip8
