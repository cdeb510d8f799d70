import Chip8.Event
import Chip8.Proofs.Text.Hex

/-!
# Log lines

A line of the log opens with its level and then with words that tell what kind of
event it is about, so the kind can be told from the line.  A line about an
instruction goes on with the address and the word of the instruction, and both can
be read off it.
-/

namespace Chip8

namespace Event

/-! ## How a line reads -/

theorem line_initialized : Event.initialized.line = "DEBUG emulator initialized" :=
  rfl

theorem line_loaded (size : Nat) :
    (Event.loaded size).line =
      "DEBUG loaded " ++ Nat.repr size ++ " byte program at 0x200" := by
  have hopening : "DEBUG" ++ " " ++ "loaded " = "DEBUG loaded " := rfl
  change "DEBUG" ++ " " ++
    ("loaded " ++ Nat.repr size ++ " byte program at 0x200") = _
  rw [← String.append_assoc, ← String.append_assoc, hopening]

theorem line_executing (pc : UInt16) (opcode : Opcode) (instruction : Instruction) :
    (Event.executing pc opcode instruction).line =
      "TRACE 0x" ++ Hex.padded 3 pc.toNat ++ ": " ++ Hex.padded 4 opcode.toNat ++
        "  " ++ instruction.text := by
  have hopening : "TRACE" ++ " " ++ "0x" = "TRACE 0x" := rfl
  change "TRACE" ++ " " ++
    ("0x" ++ Hex.padded 3 pc.toNat ++ ": " ++ Hex.padded 4 opcode.toNat ++
      "  " ++ instruction.text) = _
  rw [← String.append_assoc, ← String.append_assoc, ← String.append_assoc,
    ← String.append_assoc, ← String.append_assoc, hopening]

theorem line_waiting (register : Register) :
    (Event.waiting register).line =
      "DEBUG waiting for key press into V" ++ Hex.padded 1 register := by
  have hopening : "DEBUG" ++ " " ++ "waiting for key press into V" =
      "DEBUG waiting for key press into V" := rfl
  change "DEBUG" ++ " " ++
    ("waiting for key press into V" ++ Hex.padded 1 register) = _
  rw [← String.append_assoc, hopening]

theorem line_resumed (key : Key) :
    (Event.resumed key).line =
      "DEBUG key " ++ Hex.padded 1 key ++ " pressed, resuming" := by
  have hopening : "DEBUG" ++ " " ++ "key " = "DEBUG key " := rfl
  change "DEBUG" ++ " " ++ ("key " ++ Hex.padded 1 key ++ " pressed, resuming") = _
  rw [← String.append_assoc, ← String.append_assoc, hopening]

theorem line_halted (cause : Fault) :
    (Event.halted cause).line = "ERROR emulator halted: " ++ cause.message := by
  have hopening : "ERROR" ++ " " ++ "emulator halted: " =
      "ERROR emulator halted: " := rfl
  change "ERROR" ++ " " ++ ("emulator halted: " ++ cause.message) = _
  rw [← String.append_assoc, hopening]

theorem line_finished (steps frames : Nat) (pc : UInt16) :
    (Event.finished steps frames pc).line =
      "INFO ran " ++ Nat.repr steps ++ " steps, " ++ Nat.repr frames ++
        " frames, PC at " ++ Hex.literal 3 pc.toNat := by
  have hopening : "INFO" ++ " " ++ "ran " = "INFO ran " := rfl
  change "INFO" ++ " " ++
    ("ran " ++ Nat.repr steps ++ " steps, " ++ Nat.repr frames ++
      " frames, PC at " ++ Hex.literal 3 pc.toNat) = _
  rw [← String.append_assoc, ← String.append_assoc, ← String.append_assoc,
    ← String.append_assoc, ← String.append_assoc, hopening]

inductive Kind where
  | initialized
  | loaded
  | executing
  | waiting
  | resumed
  | halted
  | finished
  deriving DecidableEq

namespace Kind

def all : List Kind :=
  [.initialized, .loaded, .executing, .waiting, .resumed, .halted, .finished]

theorem mem_all (kind : Kind) : kind ∈ all := by
  cases kind <;> simp [all]

instance (P : Kind → Prop) [DecidablePred P] : Decidable (∀ kind, P kind) :=
  decidable_of_iff (∀ kind ∈ all, P kind)
    ⟨fun h kind => h kind kind.mem_all, fun h kind _ => h kind⟩

end Kind

def kind : Event → Kind
  | .initialized => .initialized
  | .loaded _ => .loaded
  | .executing _ _ _ => .executing
  | .waiting _ => .waiting
  | .resumed _ => .resumed
  | .halted _ => .halted
  | .finished _ _ _ => .finished

def Kind.opening : Kind → String
  | .initialized => "DEBUG emulator initialized"
  | .loaded => "DEBUG loaded "
  | .executing => "TRACE 0x"
  | .waiting => "DEBUG waiting for key press into V"
  | .resumed => "DEBUG key "
  | .halted => "ERROR emulator halted: "
  | .finished => "INFO ran "

theorem line_eq_opening (event : Event) :
    ∃ rest, event.line = event.kind.opening ++ rest := by
  cases event with
  | initialized => exact ⟨"", line_initialized.trans String.append_empty.symm⟩
  | waiting register => exact ⟨_, line_waiting register⟩
  | halted cause => exact ⟨_, line_halted cause⟩
  | loaded size => exact ⟨_, (line_loaded size).trans String.append_assoc⟩
  | resumed key => exact ⟨_, (line_resumed key).trans String.append_assoc⟩
  | executing pc opcode instruction =>
      rw [line_executing, String.append_assoc, String.append_assoc,
        String.append_assoc, String.append_assoc]
      exact ⟨_, rfl⟩
  | finished steps frames pc =>
      rw [line_finished, String.append_assoc, String.append_assoc,
        String.append_assoc, String.append_assoc]
      exact ⟨_, rfl⟩

end Event

namespace Log

def Opens (opening line : String) : Prop := opening.toList <+: line.toList

instance (opening line : String) : Decidable (Opens opening line) :=
  inferInstanceAs (Decidable (_ <+: _))

abbrev IsTrace (line : String) : Prop := Opens "TRACE " line

abbrev IsError (line : String) : Prop := Opens "ERROR " line

abbrev SaysWaiting (line : String) : Prop :=
  Opens "DEBUG waiting for key press" line

abbrev SaysResuming (line : String) : Prop := Opens "DEBUG key " line

abbrev initializedLine : String := "DEBUG emulator initialized"

/-! ## Kinds of lines -/

theorem opens_line (event : Event) : Opens event.kind.opening event.line := by
  rcases event.line_eq_opening with ⟨rest, hline⟩
  exact ⟨rest.toList, by rw [hline, String.toList_append]⟩

theorem opens_line_iff {words : String} {kind : Event.Kind}
    (hkind : Opens words kind.opening)
    (hothers : ∀ other : Event.Kind, other ≠ kind →
      ¬(Opens words other.opening ∨ Opens other.opening words)) (event : Event) :
    Opens words event.line ↔ event.kind = kind := by
  constructor
  · intro hwords
    -- Of two openings of one line, one opens the other.
    by_contra hother
    exact hothers event.kind hother
      (List.prefix_or_prefix_of_prefix hwords (opens_line event))
  · rintro rfl
    exact hkind.trans (opens_line event)

theorem isTrace_line (event : Event) :
    IsTrace event.line ↔ event.kind = .executing :=
  opens_line_iff (by decide +kernel) (by decide +kernel) event

theorem isError_line (event : Event) : IsError event.line ↔ event.kind = .halted :=
  opens_line_iff (by decide +kernel) (by decide +kernel) event

theorem saysWaiting_line (event : Event) :
    SaysWaiting event.line ↔ event.kind = .waiting :=
  opens_line_iff (by decide +kernel) (by decide +kernel) event

theorem saysResuming_line (event : Event) :
    SaysResuming event.line ↔ event.kind = .resumed :=
  opens_line_iff (by decide +kernel) (by decide +kernel) event

theorem line_eq_initializedLine (event : Event) :
    event.line = initializedLine ↔ event.kind = .initialized := by
  constructor
  · intro hline
    have hopens : Opens initializedLine event.line := hline ▸ List.prefix_rfl
    exact (opens_line_iff (by decide +kernel) (by decide +kernel) event).mp hopens
  · intro hkind
    cases event with
    | initialized => exact Event.line_initialized
    | _ => cases hkind

/-! ## Lines about instructions -/

theorem toList_executing (pc : UInt16) (opcode : Opcode)
    (instruction : Instruction) :
    (Event.executing pc opcode instruction).line.toList =
      "TRACE 0x".toList ++ ((Hex.padded 3 pc.toNat).toList ++ ':' :: ' ' ::
        ((Hex.padded 4 opcode.toNat).toList ++ ' ' :: ' ' ::
          instruction.text.toList)) := by
  rw [Event.line_executing]
  -- `simp` would try to compute the numbers' texts
  generalize Hex.padded 3 pc.toNat = place
  generalize Hex.padded 4 opcode.toNat = word
  generalize instruction.text = text
  simp

def readInstruction (line : String) : UInt16 × Opcode :=
  let (pc, rest) := Hex.readBefore ':' (line.toList.drop 8)
  let (opcode, _) := Hex.readBefore ' ' (rest.drop 1)
  (UInt16.ofNat pc, UInt16.ofNat opcode)

theorem readInstruction_line (pc : UInt16) (opcode : Opcode)
    (instruction : Instruction) :
    readInstruction (Event.executing pc opcode instruction).line =
      (pc, opcode) := by
  have hcolon : ∀ d, d < 16 → Hex.digit d ≠ ':' := by decide
  have hspace : ∀ d, d < 16 → Hex.digit d ≠ ' ' := by decide
  rw [readInstruction, toList_executing]
  rw [List.drop_left' (by decide), Hex.readBefore_padded hcolon]
  simp only [List.drop_one, List.tail_cons, Hex.readBefore_padded hspace,
    UInt16.ofNat_toNat]

end Log

end Chip8
