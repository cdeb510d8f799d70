import Chip8.Proofs.Screen.History

/-!
# Pending frames

The redraw flag tells a renderer that there is a frame to collect.  It is set by
the two instructions that draw and taken back by whoever collects the frame, so
it is set exactly when something was drawn since, and without it the screen is
still the one that was there at the last collection.  Collecting frames changes
nothing else: as far as anybody can tell who does not see the flag, a run goes
the same way however often its frames are collected.
-/

namespace Chip8

namespace Command

def renders : Command → Bool
  | .clearRedraw => true
  | .takeFrame => true
  | _ => false

def collects (command : Command) : Bool :=
  command.renders || decide (command = .reset)

end Command

namespace Transition

def draws (t : Transition) : Bool :=
  match t.carriedOut with
  | some .clearScreen => true
  | some (.draw _ _ _) => true
  | _ => false

end Transition

def Response.unflagged (response : Response) : Response :=
  { response with machine := response.machine.clearRedraw }

namespace Machine

def sinceCollected (start : Machine) (past : List Command) : List Transition :=
  (start.history past).takeWhile fun t => !t.command.collects

/-- What the machine does in answer to all commands that are not a renderer's. -/
def responses (start : Machine) (past : List Command) : List (Command × Response) :=
  ((start.history past).filter fun t => !t.command.renders).map fun t =>
    (t.command, t.response.unflagged)

end Machine

/-! ## The flag and the screen -/

namespace Transition

theorem nextRedraw_eq {m : Machine} {command : Command} {instruction : Instruction}
    (h : carriedOut ⟨m, command⟩ = some instruction) :
    m.nextRedraw instruction = (m.redraw || draws ⟨m, command⟩) := by
  simp only [draws, h]
  cases instruction with
  | clearScreen => simp [Machine.nextRedraw]
  | draw x y rows => simp [Machine.nextRedraw]
  | _ => simp [Machine.nextRedraw]

theorem draws_of_idle {t : Transition} (h : t.carriedOut = none) :
    t.draws = false := by
  simp [draws, h]

theorem redraw_step (m : Machine) :
    m.step.machine.redraw = (m.redraw || draws ⟨m, .step⟩) := by
  cases hcarried : carriedOut ⟨m, .step⟩ with
  | some instruction =>
      have hafter : m.step.machine = _ := after_of_carriedOut hcarried
      rw [← nextRedraw_eq hcarried, hafter, Machine.endStep_eq, Machine.effect_eq]
  | none =>
      rcases idle_step hcarried with ⟨pc, registers, delay, sound, status, hstep⟩
      rw [draws_of_idle hcarried, Bool.or_false, hstep]

theorem redraw_after (t : Transition) :
    t.after.redraw = (!t.command.collects && (t.before.redraw || t.draws)) := by
  obtain ⟨m, command⟩ := t
  by_cases hstep : command = .step
  · subst hstep
    exact redraw_step m
  · rw [draws_of_idle (carriedOut_of_ne_step hstep), Bool.or_false]
    cases command with
    | step => exact absurd rfl hstep
    | load program =>
        rcases m.perform_load_eq program with ⟨memory, hload⟩
        rw [after, response, hload]
        rfl
    | _ => rfl

theorem display_of_not_draws {t : Transition} (hreset : t.command ≠ .reset)
    (hdraws : t.draws = false) : t.after.display = t.before.display := by
  apply display_of_idle
  · have hclear : t.carriedOut ≠ some .clearScreen := by
      intro hclear
      simp [draws, hclear] at hdraws
    simp [clears, hreset, hclear]
  · intro x y rows hdraw
    simp [draws, hdraw] at hdraws

end Transition

namespace Machine

theorem redraw_after_eq {start : Machine} (hstart : start.redraw = false)
    (past : List Command) :
    (start.after past).redraw =
      (start.sinceCollected past).any Transition.draws := by
  induction past with
  | nil => exact hstart
  | cons command earlier ih =>
      let t : Transition := ⟨start.after earlier, command⟩
      have hafter : (start.after (command :: earlier)).redraw = _ := t.redraw_after
      have hsince : start.sinceCollected (command :: earlier) =
          if command.collects then [] else t :: start.sinceCollected earlier := by
        simp only [sinceCollected, history, List.takeWhile_cons]
        cases command.collects <;> rfl
      rw [hafter, hsince]
      cases hcollects : command.collects with
      | true => simp [t]
      | false =>
          have hbefore : t.before.redraw = _ := ih
          rw [hbefore]
          simp [t, Bool.or_comm]

theorem display_of_not_redraw {start : Machine} {past : List Command}
    (h : (start.after past).redraw = false) :
    (start.after past).display =
      (start.after (past.dropWhile fun command => !command.collects)).display := by
  induction past with
  | nil => rfl
  | cons command earlier ih =>
      let t : Transition := ⟨start.after earlier, command⟩
      cases hcollects : command.collects with
      | true => simp [hcollects]
      | false =>
          have hflag : t.after.redraw = false := h
          rw [t.redraw_after] at hflag
          simp only [t, hcollects, Bool.not_false, Bool.true_and,
            Bool.or_eq_false_iff] at hflag
          have hreset : command ≠ .reset := by
            rintro rfl
            cases hcollects
          have hdisplay : (start.after (command :: earlier)).display = _ :=
            t.display_of_not_draws hreset hflag.2
          rw [hdisplay, ih hflag.1]
          simp [hcollects]

theorem pendingFrame_of_not_redraw {m : Machine} (h : m.redraw = false) :
    m.pendingFrame = none := by
  simp [pendingFrame, h]

theorem redraw_of_not_draws {m : Machine} (hflag : m.redraw = false)
    {later : List Command} (hdraws : ∀ t ∈ m.history later, t.draws = false) :
    (m.after later).redraw = false := by
  rw [redraw_after_eq hflag, List.any_eq_false]
  intro t ht
  rw [hdraws t ((List.takeWhile_subset _) ht)]
  simp

/-! ## Without the flag -/

theorem unseen_clearRedraw : Unseen clearRedraw where
  keypad _ := rfl
  status _ := rfl
  dialect _ := rfl
  setReg _ _ _ := rfl
  tick _ := rfl
  resume _ := rfl

theorem effect_clearRedraw (m : Machine) (instruction : Instruction) :
    (m.clearRedraw.effect instruction).clearRedraw =
      (m.effect instruction).clearRedraw := by
  cases instruction with
  | ret =>
      have hcalls : m.clearRedraw.calls = m.calls := rfl
      simp only [effect, hcalls]
      cases m.calls.pop? <;> rfl
  | alu op x y =>
      exact congrArg (fun next => next.advance.clearRedraw)
        (unseen_clearRedraw.setResult m x (op.apply m.dialect (m.reg x) (m.reg y)))
  | waitKey x =>
      have hkeypad : m.clearRedraw.keypad = m.keypad := rfl
      simp only [effect, hkeypad]
      cases m.keypad.firstPressed <;> rfl
  | _ => rfl

theorem fault?_clearRedraw (m : Machine) (instruction : Instruction) :
    m.clearRedraw.fault? instruction = m.fault? instruction := by
  cases instruction <;> rfl

theorem stepRunning_clearRedraw (m : Machine) :
    m.clearRedraw.stepRunning.result = m.stepRunning.result ∧
    m.clearRedraw.stepRunning.events = m.stepRunning.events ∧
    m.clearRedraw.stepRunning.machine.clearRedraw =
      m.stepRunning.machine.clearRedraw := by
  have hnext : m.clearRedraw.nextInstruction = m.nextInstruction := rfl
  unfold stepRunning
  rw [hnext]
  cases m.nextInstruction with
  | error cause => exact ⟨rfl, rfl, rfl⟩
  | ok word =>
      simp only [execute_eq, fault?_clearRedraw]
      cases m.fault? word.2 with
      | some cause => exact ⟨rfl, rfl, rfl⟩
      | none =>
          have heffect := m.effect_clearRedraw word.2
          have hevents := congrArg waitingEvents heffect
          refine ⟨rfl, congrArg (List.cons _) hevents, ?_⟩
          simp only [← unseen_clearRedraw.endStep, heffect]

theorem unflagged_step (m : Machine) :
    (m.clearRedraw.perform .step).unflagged = (m.perform .step).unflagged := by
  have hsame : m.clearRedraw.status = m.status := rfl
  simp only [perform, step, hsame]
  cases m.status with
  | halted => rfl
  | awaitingKey register =>
      simp only [unseen_clearRedraw.stepWaiting]
      rfl
  | running =>
      rcases m.stepRunning_clearRedraw with ⟨hresult, hevents, hmachine⟩
      simp only [Response.unflagged, hresult, hevents, hmachine]

theorem unflagged_perform (m : Machine) {command : Command}
    (h : command.renders = false) :
    (m.clearRedraw.perform command).unflagged = (m.perform command).unflagged := by
  cases command with
  | step => exact m.unflagged_step
  | load program =>
      by_cases hfits : program.length ≤ Memory.programLimit
      · simp only [perform, load, if_pos hfits]
        rfl
      · simp only [perform, load, if_neg hfits]
        rfl
  | clearRedraw => cases h
  | takeFrame => cases h
  | _ => rfl

theorem clearRedraw_perform_of_renders (m : Machine) {command : Command}
    (h : command.renders = true) :
    (m.perform command).machine.clearRedraw = m.clearRedraw := by
  cases command with
  | clearRedraw => rfl
  | takeFrame => rfl
  | _ => cases h

theorem responses_cons (start : Machine) (command : Command)
    (earlier : List Command) :
    start.responses (command :: earlier) =
      if command.renders then start.responses earlier
      else (command, ((start.after earlier).perform command).unflagged) ::
        start.responses earlier := by
  simp only [responses, history, List.filter_cons]
  cases command.renders <;> rfl

theorem unflagged_after (start : Machine) (past : List Command) :
    (start.after past).clearRedraw =
        (start.after (past.filter fun command => !command.renders)).clearRedraw ∧
      start.responses past =
        start.responses (past.filter fun command => !command.renders) := by
  -- The two runs differ in the flag from the first collection on, so the machines
  -- can be compared only without it, and each command through `unflagged_perform`.
  induction past with
  | nil => exact ⟨rfl, rfl⟩
  | cons command earlier ih =>
      rcases ih with ⟨hafter, hresponses⟩
      cases hrenders : command.renders with
      | true =>
          have hperform : (start.after (command :: earlier)).clearRedraw = _ :=
            clearRedraw_perform_of_renders _ hrenders
          rw [hperform, hafter, List.filter_cons_of_neg (by simp [hrenders]),
            responses_cons, if_pos hrenders]
          exact ⟨rfl, hresponses⟩
      | false =>
          let kept := earlier.filter fun command => !command.renders
          have hsame : ((start.after earlier).perform command).unflagged =
              ((start.after kept).perform command).unflagged := by
            calc ((start.after earlier).perform command).unflagged
                = ((start.after earlier).clearRedraw.perform command).unflagged :=
                  (unflagged_perform _ hrenders).symm
              _ = ((start.after kept).clearRedraw.perform command).unflagged := by
                rw [hafter]
              _ = ((start.after kept).perform command).unflagged :=
                unflagged_perform _ hrenders
          have hnot : ¬command.renders = true := by simp [hrenders]
          rw [List.filter_cons_of_pos (by simp [hrenders]), responses_cons,
            responses_cons, if_neg hnot, if_neg hnot, hresponses, hsame]
          exact ⟨congrArg Response.machine hsame, rfl⟩

/--
No frame is lost.  A frame is pending exactly when something was drawn since one
was last collected, and as long as none is pending the screen is the one of that
moment.  Collecting hands out the screen if a frame is pending, and nothing the
next time unless something was drawn in between.  Two runs that differ only in
what the renderer does agree after every command, and in what they answer, but
for the flag.
-/
theorem redraw_loses_no_frame {start : Machine} (hstart : start.SwitchedOn)
    (past : List Command) :
    let m := start.after past
    (m.redraw = true ↔ ∃ t ∈ start.sinceCollected past, t.draws = true) ∧
    (m.redraw = false → m.display =
      (start.after (past.dropWhile fun command => !command.collects)).display) ∧
    ((m.perform .takeFrame).reply =
      .frame (if m.redraw then some m.display else none) ∧
      (m.perform .takeFrame).machine = { m with redraw := false } ∧
      ∀ later,
      (∀ t ∈ (m.perform .takeFrame).machine.history later, t.draws = false) →
        (((m.perform .takeFrame).machine.after later).perform .takeFrame).reply =
        .frame none) ∧
    ∀ other : List Command,
      (other.filter fun command => !command.renders) =
        (past.filter fun command => !command.renders) →
      { start.after other with redraw := false } = { m with redraw := false } ∧
      start.responses other = start.responses past := by
  intro m
  have hflag : start.redraw = false := by
    rcases hstart.eq_powerOn with ⟨dialect, seed, memory, rfl⟩
    rfl
  refine ⟨?_, ?_, ⟨rfl, rfl, ?_⟩, ?_⟩
  · rw [redraw_after_eq hflag, List.any_eq_true]
  · exact display_of_not_redraw
  · intro later hdraws
    have hnone := redraw_of_not_draws rfl hdraws
    exact congrArg Reply.frame (pendingFrame_of_not_redraw hnone)
  · intro other hsame
    rcases start.unflagged_after other with ⟨hother, hresponses⟩
    rcases start.unflagged_after past with ⟨hpast, hresponses'⟩
    rw [hsame] at hother hresponses
    exact ⟨hother.trans hpast.symm, hresponses.trans hresponses'.symm⟩

theorem redraw_loses_no_frame_empty :
    let start := (boot {} (.ofSeed 0)).machine
    let past : List Command := [.step, .load [0xD0, 0x00]]
    let other : List Command :=
      [.step, .takeFrame, .load [0xD0, 0x00], .clearRedraw]
    start.SwitchedOn ∧ (start.after past).redraw = true ∧
    ((start.after past).perform .takeFrame).reply = .frame (some .blank) ∧
    { start.after other with redraw := false } = { start.after past with
        redraw := false } := by
  intro start past other
  have hfacts : (start.after past).redraw = true ∧
      (start.after past).display = .blank := by
    decide +kernel
  rcases hfacts with ⟨hflag, hblank⟩
  rcases redraw_loses_no_frame (.bare {} 0) past with ⟨-, -, ⟨hframe, -⟩, hsame⟩
  refine ⟨.bare {} 0, hflag, ?_, (hsame other rfl).1⟩
  rw [hframe, if_pos hflag, hblank]

end Machine

end Chip8
