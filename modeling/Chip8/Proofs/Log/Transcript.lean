import Chip8.Proofs.Log.Lines
import Chip8.Proofs.Machine.Statuses

/-!
# Transcripts

The events of a run, taken in order, are moves of the status.  A running machine
parks after it said that it waits, a parked one runs on after it said that a key is
down, and a halted one has nothing to say until it is reset.  Between two resets
this settles the order in which the lines of the log can come.
-/

namespace Chip8

/-- A machine of the first status reports the event and gets the second one. -/
inductive Reports : Status → Event → Status → Prop
  | initialized (s : Status) : Reports s .initialized .running
  | loaded (s : Status) (size : Nat) : Reports s (.loaded size) s
  | executing (pc : UInt16) (opcode : Opcode) (instruction : Instruction) :
      Reports .running (.executing pc opcode instruction) .running
  | waiting (register : Register) :
      Reports .running (.waiting register) (.awaitingKey register)
  | resumed (register : Register) (key : Key) :
      Reports (.awaitingKey register) (.resumed key) .running
  | halted (cause : Fault) : Reports .running (.halted cause) .halted

inductive Transcript : Status → List Event → Status → Prop
  | nil (s : Status) : Transcript s [] s
  | cons {s t u : Status} {event : Event} {events : List Event}
      (hevent : Reports s event t)
      (hrest : Transcript t events u) : Transcript s (event :: events) u

namespace Transcript

theorem append_iff {s u : Status} {first second : List Event} :
    Transcript s (first ++ second) u ↔
      ∃ t, Transcript s first t ∧ Transcript t second u := by
  constructor
  · intro h
    induction first generalizing s with
    | nil => exact ⟨s, .nil s, h⟩
    | cons event first ih =>
        cases h with
        | cons hevent hrest =>
            rcases ih hrest with ⟨t, hfirst, hsecond⟩
            exact ⟨t, .cons hevent hfirst, hsecond⟩
  · rintro ⟨t, hfirst, hsecond⟩
    induction hfirst with
    | nil s => exact hsecond
    | cons hevent _ ih => exact .cons hevent (ih hsecond)

end Transcript

namespace Machine

/-! ## What a command reports -/

theorem waitingEvents_transcript {m : Machine} (h : m.status ≠ .halted) :
    Transcript .running m.waitingEvents m.status := by
  cases hstatus : m.status with
  | running =>
      simp only [waitingEvents, hstatus]
      exact .nil .running
  | awaitingKey register =>
      simp only [waitingEvents, hstatus]
      exact .cons (.waiting register) (.nil _)
  | halted => exact absurd hstatus h

theorem step_transcript (m : Machine) :
    Transcript m.status m.step.events m.step.machine.status := by
  cases m.course with
  | halted hstatus hstep =>
      rw [hstep]
      exact .nil m.status
  | parked register hstatus hkey hstep =>
      rw [hstep, endStep_eq]
      exact .nil m.status
  | resumed register key hstatus hkey hstep =>
      rw [hstep, hstatus]
      exact .cons (.resumed register key) (.nil .running)
  | unreadable cause hstatus hnext hstep =>
      rw [hstep, hstatus]
      exact .cons (.halted cause) (.nil .halted)
  | refused opcode instruction cause hstatus hnext hfault hstep =>
      rw [hstep, hstatus]
      exact .cons (.executing m.pc opcode instruction)
        (.cons (.halted cause) (.nil .halted))
  | executed opcode instruction hstatus hnext hfault hstep =>
      have heffect : (m.effect instruction).status ≠ .halted := by
        rw [effect_eq]
        rcases nextStatus_eq hstatus instruction with
          ⟨x, -, -, hwaits, -⟩ | ⟨-, hruns⟩
        · simp only [hwaits, ne_eq, reduceCtorEq, not_false_eq_true]
        · simp only [hruns, ne_eq, reduceCtorEq, not_false_eq_true]
      have hend : (m.effect instruction).endStep.status =
          (m.effect instruction).status := by
        rw [endStep_eq]
      rw [hstep, hstatus, hend]
      exact .cons (.executing m.pc opcode instruction)
        (waitingEvents_transcript heffect)

theorem events_load (m : Machine) (program : List UInt8) :
    (m.perform (.load program)).events =
      if program.length ≤ Memory.programLimit then [.loaded program.length]
      else [] := by
  simp only [perform, load]
  by_cases hfits : program.length ≤ Memory.programLimit
  · rw [if_pos hfits, if_pos hfits]
  · rw [if_neg hfits, if_neg hfits]

theorem perform_transcript (m : Machine) (command : Command) :
    Transcript m.status (m.perform command).events
    (m.perform command).machine.status := by
  cases command with
  | step => exact m.step_transcript
  | reset => exact .cons (.initialized m.status) (.nil .running)
  | load program =>
      rcases m.perform_load_eq program with ⟨memory, hload⟩
      rw [hload, events_load]
      split
      · exact .cons (.loaded m.status program.length) (.nil m.status)
      · exact .nil m.status
  | _ => exact .nil m.status

end Machine

/-! ## Between two resets -/

namespace Log

/-- The lines come by turns, and the first of them is of the first sort. -/
def InTurn (first second : String → Prop) : List String → Prop
  | [] => True
  | line :: rest => first line ∧ InTurn second first rest

abbrev AboutWaiting (line : String) : Prop := SaysWaiting line ∨ SaysResuming line

/-- What the lines between two resets are like. -/
structure Orderly (segment : List String) : Prop where
  one_error : segment.countP IsError ≤ 1
  error_is_last : ∀ before line after, segment = before ++ line :: after →
    IsError line →
    ∀ other ∈ after, ¬IsTrace other ∧ ¬IsError other
  in_turn : InTurn SaysWaiting SaysResuming (segment.filter AboutWaiting)

/-- How the lines about waiting go on from a status. -/
def Expects : Status → List String → Prop
  | .running => InTurn SaysWaiting SaysResuming
  | .awaitingKey _ => InTurn SaysResuming SaysWaiting
  | .halted => (· = [])

end Log

namespace Transcript

open Log

variable {s t : Status} {events : List Event}

theorem kind_of_halted (h : Transcript s events t) (hs : s = .halted)
    (hreset : ∀ event ∈ events, event.kind ≠ .initialized) :
    ∀ event ∈ events, event.kind = .loaded := by
  induction h with
  | nil => simp
  | cons hevent _ ih =>
      subst hs
      rw [List.forall_mem_cons] at hreset ⊢
      cases hevent with
      | initialized => exact absurd rfl hreset.1
      | loaded _ size => exact ⟨rfl, ih rfl hreset.2⟩

theorem countP_isError_of_loaded (h : ∀ event ∈ events, event.kind = .loaded) :
    (events.map Event.line).countP IsError = 0 := by
  rw [List.countP_eq_zero, List.forall_mem_map]
  intro event hevent
  simp [isError_line, h event hevent]

theorem one_error (h : Transcript s events t)
    (hreset : ∀ event ∈ events, event.kind ≠ .initialized) :
    (events.map Event.line).countP IsError ≤ 1 := by
  induction h with
  | nil => exact Nat.zero_le 1
  | @cons s t u event events hevent hrest ih =>
      rw [List.forall_mem_cons] at hreset
      have hlater := ih hreset.2
      have herror := isError_line event
      rw [List.map_cons, List.countP_cons]
      cases hevent with
      | halted cause =>
          rw [countP_isError_of_loaded (hrest.kind_of_halted rfl hreset.2)]
          split <;> decide
      | _ =>
          rw [if_neg (by simp [herror, Event.kind])]
          exact hlater

theorem error_is_last (h : Transcript s events t)
    (hreset : ∀ event ∈ events, event.kind ≠ .initialized)
    {before after : List String}
    {line : String} (hlines : events.map Event.line = before ++ line :: after)
    (herror : IsError line) : ∀ other ∈ after, ¬IsTrace other ∧ ¬IsError other := by
  rcases List.map_eq_append_iff.mp hlines with ⟨first, rest, rfl, rfl, hrest⟩
  rcases List.map_eq_cons_iff.mp hrest with ⟨event, second, rfl, rfl, rfl⟩
  rcases append_iff.mp h with ⟨u, -, hfrom⟩
  have hkinds : ∀ event ∈ second, event.kind = .loaded := by
    cases hfrom with
    | cons hevent hsecond =>
        rw [isError_line] at herror
        cases hevent with
        | halted cause =>
            exact hsecond.kind_of_halted rfl fun event hmem =>
              hreset event (by simp [hmem])
        | _ => cases herror
  rw [List.forall_mem_map]
  intro other hmem
  simp [isTrace_line, isError_line, hkinds other hmem]

theorem expects (h : Transcript s events t)
    (hreset : ∀ event ∈ events, event.kind ≠ .initialized) :
    Expects s ((events.map Event.line).filter AboutWaiting) := by
  induction h with
  | nil s => cases s <;> simp [Expects, InTurn]
  | @cons s t u event events hevent _ ih =>
      rw [List.forall_mem_cons] at hreset
      have hrest := ih hreset.2
      have hwaiting := saysWaiting_line event
      have hresuming := saysResuming_line event
      have hkeeps : AboutWaiting event.line ↔
          event.kind = .waiting ∨ event.kind = .resumed :=
        or_congr hwaiting hresuming
      rw [List.map_cons, List.filter_cons]
      simp only [decide_eq_true_eq, hkeeps]
      cases hevent with
      | initialized => exact absurd rfl hreset.1
      | loaded _ size => exact hrest
      | executing pc opcode instruction => exact hrest
      | waiting register => exact ⟨hwaiting.mpr rfl, hrest⟩
      | resumed register key => exact ⟨hresuming.mpr rfl, hrest⟩
      | halted cause =>
          have hnone : ((events.map Event.line).filter AboutWaiting) = [] := hrest
          rw [if_neg (by simp [Event.kind]), hnone]
          trivial

theorem orderly (h : Transcript .running events t)
    (hreset : ∀ event ∈ events, event.kind ≠ .initialized) :
    Orderly (events.map Event.line) where
  one_error := h.one_error hreset
  error_is_last _ _ _ hlines herror := h.error_is_last hreset hlines herror
  in_turn := h.expects hreset

theorem orderly_segment (h : Transcript s events t)
    {earlier segment later : List String}
    (hlines : events.map Event.line = earlier ++ initializedLine ::
      (segment ++ later))
    (hreset : initializedLine ∉ segment) : Orderly segment := by
  rcases List.map_eq_append_iff.mp hlines with ⟨first, rest, rfl, rfl, hrest⟩
  rcases List.map_eq_cons_iff.mp hrest with ⟨event, rest, rfl, hevent, hsecond⟩
  rcases List.map_eq_append_iff.mp hsecond with ⟨second, third, rfl, rfl, rfl⟩
  rcases append_iff.mp h with ⟨u, -, hfrom⟩
  have hkinds : ∀ event ∈ second, event.kind ≠ .initialized := by
    intro event hmem hkind
    have hline : event.line = initializedLine :=
      (line_eq_initializedLine event).mpr hkind
    exact hreset (hline ▸ List.mem_map_of_mem hmem)
  rw [line_eq_initializedLine] at hevent
  cases hfrom with
  | cons hreports hrun =>
      cases hreports with
      | initialized =>
          rcases append_iff.mp hrun with ⟨v, hsecond, -⟩
          exact hsecond.orderly hkinds
      | _ => cases hevent

end Transcript

end Chip8
