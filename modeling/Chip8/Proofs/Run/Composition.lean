import Chip8.Proofs.Run.Ending

/-!
# Runs one after the other

A run can be split after any number of its steps.  The second part is a run of the
machine that the first one left, and nothing else of the first part has any
influence on it: its summary is added to the summary so far, and if it fails, the
steps of the first part count as well.
-/

namespace Chip8

/-! ## Putting summaries together -/

def Summary.append (first second : Summary) : Summary where
  steps := first.steps + second.steps
  frames := first.frames + second.frames
  lastFrame := second.lastFrame.or first.lastFrame

theorem Summary.append_empty (summary : Summary) :
    summary.append .empty = summary := by
  simp [append, empty]

theorem Summary.append_record (first second : Summary) (frame : Option Display) :
    first.append (second.record frame) = (first.append second).record frame := by
  cases frame with
  | none => simp [append, record, Nat.add_assoc]
  | some display => simp [append, record, Nat.add_assoc]

namespace Run

def countedFrom (run : Run) (before : Summary) : Run where
  machine := run.machine
  result :=
    match run.result with
    | .error error => .error ⟨before.steps + error.completed, error.cause⟩
    | .ok summary => .ok (before.append summary)

def andThen (first : Run) (next : Machine → Run) : Run :=
  match first.result with
  | .error _ => first
  | .ok summary => (next first.machine).countedFrom summary

@[simp] theorem machine_countedFrom (run : Run) (before : Summary) :
    (run.countedFrom before).machine = run.machine := rfl

theorem andThen_of_error {first : Run} {error : RunError}
    (h : first.result = .error error)
    (next : Machine → Run) : first.andThen next = first := by
  simp [andThen, h]

theorem andThen_of_ok {first : Run} {summary : Summary}
    (h : first.result = .ok summary) (next : Machine → Run) :
    first.andThen next = (next first.machine).countedFrom summary := by
  simp [andThen, h]

end Run

namespace Machine

/-! ## Splitting the loop -/

/-- The loop adds to its summary and never looks at it. -/
theorem runFrom_append (m : Machine) (held : Keypad) (count : Nat)
    (before summary : Summary) :
    runFrom held count (before.append summary) m =
      (runFrom held count summary m).countedFrom before := by
  induction count generalizing m summary with
  | zero => rfl
  | succ count ih =>
      simp only [runFrom]
      cases (m.heldStep held).result with
      | error cause => rfl
      | ok done =>
          simp only [← Summary.append_record]
          exact ih _ _

theorem runFrom_eq_countedFrom (m : Machine) (held : Keypad) (count : Nat)
    (before : Summary) :
    runFrom held count before m = (m.run held count).countedFrom before := by
  have happend := runFrom_append m held count before .empty
  rwa [Summary.append_empty] at happend

theorem runFrom_add (m : Machine) (held : Keypad) (first second : Nat)
    (summary : Summary) :
    runFrom held (first + second) summary m =
      (runFrom held first summary m).andThen fun next => next.run held second := by
  induction first generalizing m summary with
  | zero =>
      rw [Nat.zero_add]
      exact runFrom_eq_countedFrom m held second summary
  | succ first ih =>
      rw [Nat.succ_add]
      simp only [runFrom]
      cases (m.heldStep held).result with
      | error cause => rfl
      | ok done => exact ih _ _

theorem run_add (m : Machine) (held : Keypad) (first second : Nat) :
    m.run held (first + second) =
      (m.run held first).andThen fun next => next.run held second :=
  runFrom_add m held first second .empty

theorem run_add_of_error {m : Machine} {held : Keypad} {first : Nat}
    {error : RunError}
    (h : (m.run held first).result = .error error) (second : Nat) :
    m.run held (first + second) = m.run held first := by
  rw [run_add, Run.andThen_of_error h]

theorem run_add_of_ok {m : Machine} {held : Keypad} {first : Nat}
    {summary : Summary}
    (h : (m.run held first).result = .ok summary) (second : Nat) :
    m.run held (first + second) =
      ((m.run held first).machine.run held second).countedFrom summary := by
  rw [run_add, Run.andThen_of_ok h]

theorem steps_of_ok {m : Machine} {held : Keypad} {count : Nat} {summary : Summary}
    (h : (m.run held count).result = .ok summary) : summary.steps = count := by
  have hrun : m.run held count = ⟨(m.run held count).machine, .ok summary⟩ := by
    rw [← h]
  rw [(run_eq_ok hrun).2.2, steps_summarize]

section

variable {m : Machine} {held : Keypad} {first second : Nat} {before : Summary}
  (hfirst : (m.run held first).result = .ok before)

include hfirst

theorem machine_add :
    (m.run held (first + second)).machine =
      ((m.run held first).machine.run held second).machine := by
  rw [run_add_of_ok hfirst, Run.machine_countedFrom]

theorem result_add_of_ok {after : Summary}
    (hsecond : ((m.run held first).machine.run held second).result = .ok after) :
    (m.run held (first + second)).result = .ok (before.append after) := by
  simp [run_add_of_ok hfirst, Run.countedFrom, hsecond]

theorem result_add_of_error {error : RunError}
    (hsecond : ((m.run held first).machine.run held second).result = .error error) :
    (m.run held (first + second)).result =
      .error ⟨first + error.completed, error.cause⟩ := by
  simp [run_add_of_ok hfirst, Run.countedFrom, hsecond, steps_of_ok hfirst]

end

/-! ## The log of a run -/

theorem stepEvents_add (m : Machine) (held : Keypad) (first second : Nat)
    (summary : Summary) :
    stepEvents held (first + second) m = stepEvents held first m ++
      match (runFrom held first summary m).result with
      | .error _ => []
      | .ok _ => stepEvents held second (runFrom held first summary m).machine := by
  induction first generalizing m summary with
  | zero => simp [stepEvents, runFrom]
  | succ first ih =>
      rw [Nat.succ_add]
      simp only [stepEvents, runFrom]
      cases (m.heldStep held).result with
      | error cause => simp
      | ok done =>
          rw [List.append_assoc]
          exact congrArg _ (ih _ _)

theorem stepEvents_add_of_error {m : Machine} {held : Keypad} {first : Nat}
    {error : RunError}
    (h : (m.run held first).result = .error error) (second : Nat) :
    stepEvents held (first + second) m = stepEvents held first m := by
  have hresult : (runFrom held first .empty m).result = .error error := h
  simp [stepEvents_add m held first second .empty, hresult]

theorem stepEvents_add_of_ok {m : Machine} {held : Keypad} {first : Nat}
    {summary : Summary}
    (h : (m.run held first).result = .ok summary) (second : Nat) :
    stepEvents held (first + second) m =
      stepEvents held first m ++ stepEvents held second
      (m.run held first).machine := by
  have hresult : (runFrom held first .empty m).result = .ok summary := h
  rw [stepEvents_add m held first second .empty, hresult]
  rfl

theorem runEvents_of_error {m : Machine} {held : Keypad} {count : Nat}
    {error : RunError} (h : (m.run held count).result = .error error) :
    m.runEvents held count = stepEvents held count m := by
  simp [runEvents, h]

theorem runEvents_of_ok {m : Machine} {held : Keypad} {count : Nat}
    {summary : Summary} (h : (m.run held count).result = .ok summary) :
    m.runEvents held count = stepEvents held count m ++
      [.finished summary.steps summary.frames (m.run held count).machine.pc] := by
  simp [runEvents, h]

/--
Runs compose.  A run of `first + second` steps is a run of `first` steps and then,
if that succeeds, a run of `second` steps of the machine that it left, with the same
keys held.  If the first run fails, the long run is that run, down to its log.
Otherwise the long run leaves the machine of the second one.  If both succeed, steps
and frames are added up, and the last frame is that of the second run if it took
any; the log of each of the three ends with a line of its own.  If the second run
fails, the long one fails for the same cause, with the steps of both counted.
-/
theorem runs_compose (m : Machine) (held : Keypad) (first second : Nat) :
    let start := m.run held first
    let rest := start.machine.run held second
    let whole := m.run held (first + second)
    let reported := stepEvents held first m
    let more := stepEvents held second start.machine
    (∀ error, start.result = .error error →
      whole = start ∧ m.runEvents held (first + second) = m.runEvents held first) ∧
    ∀ before, start.result = .ok before →
      whole.machine = rest.machine ∧
      m.runEvents held first =
        reported ++ [.finished before.steps before.frames start.machine.pc] ∧
      (∀ after, rest.result = .ok after →
        let steps := before.steps + after.steps
        let frames := before.frames + after.frames
        whole.result = .ok ⟨steps, frames,
          if after.lastFrame.isSome then after.lastFrame else before.lastFrame⟩ ∧
        start.machine.runEvents held second =
          more ++ [.finished after.steps after.frames rest.machine.pc] ∧
        m.runEvents held (first + second) =
          reported ++ more ++ [.finished steps frames rest.machine.pc]) ∧
      ∀ error, rest.result = .error error →
        whole.result = .error ⟨first + error.completed, error.cause⟩ ∧
        RunError.chain ⟨first + error.completed, error.cause⟩ =
          ["emulation stopped after " ++ Nat.repr (first + error.completed) ++
            " steps", error.cause.message] ∧
        m.runEvents held (first + second) =
          reported ++ start.machine.runEvents held second := by
  intro start rest whole reported more
  constructor
  · intro error hstart
    have hwhole : whole = start := run_add_of_error hstart second
    refine ⟨hwhole, ?_⟩
    rw [runEvents_of_error (hwhole ▸ hstart), stepEvents_add_of_error hstart,
      runEvents_of_error hstart]
  · intro before hstart
    have hmachine : whole.machine = rest.machine := machine_add hstart
    have hreported : stepEvents held (first + second) m = reported ++ more :=
      stepEvents_add_of_ok hstart second
    refine ⟨hmachine, runEvents_of_ok hstart, ?_, ?_⟩
    · intro after hrest steps frames
      have hresult : whole.result = .ok (before.append after) :=
        result_add_of_ok hstart hrest
      have hlog : m.runEvents held (first + second) =
          stepEvents held (first + second) m ++
              [.finished steps frames whole.machine.pc] :=
        runEvents_of_ok hresult
      refine ⟨?_, runEvents_of_ok hrest, ?_⟩
      · rw [hresult]
        cases hlast : after.lastFrame <;>
          simp [Summary.append, hlast, steps, frames]
      · rw [hlog, hreported, hmachine]
    · intro error hrest
      have hresult := result_add_of_error hstart hrest
      refine ⟨hresult, rfl, ?_⟩
      rw [runEvents_of_error hresult, hreported, runEvents_of_error hrest]

theorem runs_compose_drawn :
    let m :=
      (boot {} (.ofSeed 0)).machine.after
        [.load [0x60, 0x01, 0x00, 0xE0, 0x00, 0xEE]]
    let shown := m.run .released (1 + 1)
    let stopped : RunError := ⟨2, .fault (.stackUnderflow 0x204)⟩
    (m.run .released 1).result = .ok ⟨1, 0, none⟩ ∧
    shown.result = .ok ⟨2, 1, some .blank⟩ ∧
    (shown.machine.run .released 5).result = .error ⟨0, stopped.cause⟩ ∧
    (m.run .released (2 + 5)).result = .error stopped ∧
    m.run .released (7 + 3) = m.run .released 7 := by
  intro m shown stopped
  have hfacts : (m.run .released 1).result = .ok ⟨1, 0, none⟩ ∧
      ((m.run .released 1).machine.run .released 1).result =
        .ok ⟨1, 1, some .blank⟩ ∧
      ((m.run .released 2).machine.run .released 5).result =
          .error ⟨0, stopped.cause⟩ := by
    decide +kernel
  rcases hfacts with ⟨hfirst, hsecond, hfails⟩
  have hshown : shown.result = .ok ⟨2, 1, some .blank⟩ :=
    (((runs_compose m .released 1 1).2 _ hfirst).2.2.1 _ hsecond).1
  have hstopped : (m.run .released (2 + 5)).result = .error stopped :=
    (((runs_compose m .released 2 5).2 _ hshown).2.2.2 _ hfails).1
  exact ⟨hfirst, hshown, hfails, hstopped,
    ((runs_compose m .released 7 3).1 _ hstopped).1⟩

end Machine

end Chip8
