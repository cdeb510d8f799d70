import Chip8.Proofs.Machine.CarriedOut

/-!
# Calls and their returns

A call leaves its own address on the stack, on top of the addresses that were
saved before.  No command but a reset takes an address off the stack, except
for a return, which takes the topmost.  So the address of the call stays where
it is, whatever is piled on top of it, until the return that comes back to it.
-/

namespace Chip8

namespace CallStack

theorem getElem?_slots_of_suffix {s : CallStack} {caller : UInt16}
    {older : List UInt16}
    (h : caller :: older <:+ s.saved) : s.slots[older.length]? = some caller := by
  rcases h with ⟨newer, hsaved⟩
  have hdepth : s.depth = newer.length + older.length + 1 := by
    rw [← length_saved, ← hsaved]
    simp
    omega
  have hslot : s.depth - 1 - newer.length = older.length := by omega
  rw [← hslot, ← s.getElem?_saved (by omega), ← hsaved]
  simp

theorem getElem?_slots_of_saved_eq {s s' : CallStack} (h : s'.saved = s.saved)
    {slot : Nat} (hslot : slot < s.depth) : s'.slots[slot]? = s.slots[slot]? := by
  have hdepth : s'.depth = s.depth := by rw [← length_saved, h, length_saved]
  have hsaved := s.getElem?_saved (k := s.depth - 1 - slot) (by omega)
  have hsaved' := s'.getElem?_saved (k := s'.depth - 1 - slot) (by omega)
  have hback : s.depth - 1 - (s.depth - 1 - slot) = slot := by omega
  rw [hdepth, hback, h] at hsaved'
  rw [hback] at hsaved
  rw [← hsaved, ← hsaved']

end CallStack

namespace Machine

/-! ## One command -/

theorem saved_nextCalls_call (m : Machine) (target : Address) :
    m.calls.saved <:+ (m.nextCalls (.call target)).saved := by
  simp only [nextCalls]
  cases hpush : m.calls.push? m.pc with
  | none => exact List.suffix_refl _
  | some calls =>
      rw [Option.getD_some, CallStack.saved_push hpush]
      exact List.suffix_cons _ _

theorem nextCalls_ret {m : Machine} {caller : UInt16} {older : List UInt16}
    (h : m.calls.saved = caller :: older) :
    (m.nextCalls .ret).saved = older ∧ m.nextPc .ret = caller + 2 := by
  simp only [nextCalls, nextPc]
  cases hpop : m.calls.pop? with
  | none =>
      rw [(CallStack.pop?_eq_none_iff _).mp hpop] at h
      cases h
  | some top =>
      rw [CallStack.saved_pop hpop] at h
      cases h
      exact ⟨rfl, rfl⟩

theorem nextCalls_of_other {m : Machine} {instruction : Instruction}
    (hret : instruction ≠ .ret) (hcall : ∀ target, instruction ≠ .call target) :
    m.nextCalls instruction = m.calls := by
  cases instruction with
  | ret => exact absurd rfl hret
  | call target => exact absurd rfl (hcall target)
  | _ => rfl

end Machine

namespace Transition

structure Returns (t : Transition) (caller : UInt16) (older : List UInt16) :
    Prop where
  carriedOut : t.carriedOut = some .ret
  pc : t.after.pc = caller + 2
  saved : t.after.calls.saved = older

theorem keeps_or_returns {t : Transition} (hreset : t.command ≠ .reset)
    {caller : UInt16}
    {older : List UInt16} (hframe : caller :: older <:+ t.before.calls.saved) :
    caller :: older <:+ t.after.calls.saved ∨ t.Returns caller older := by
  cases hcarried : t.carriedOut with
  | none =>
      left
      rwa [calls_of_idle hcarried hreset]
  | some instruction =>
      have hcalls := calls_of_carriedOut hcarried
      by_cases hcall : ∃ target, instruction = .call target
      · left
        rcases hcall with ⟨target, rfl⟩
        rw [hcalls]
        exact hframe.trans (Machine.saved_nextCalls_call _ target)
      · by_cases hret : instruction = .ret
        · subst hret
          cases hsaved : t.before.calls.saved with
          | nil => simp [hsaved] at hframe
          | cons top rest =>
              rcases Machine.nextCalls_ret hsaved with ⟨hrest, hpc⟩
              rw [hsaved, List.suffix_cons_iff] at hframe
              rcases hframe with htop | hbelow
              · right
                cases htop
                exact ⟨hcarried, (pc_of_carriedOut hcarried).trans hpc, by
                  rw [hcalls, hrest]⟩
              · left
                rwa [hcalls, hrest]
        · left
          rw [hcalls, Machine.nextCalls_of_other hret fun target h =>
            hcall ⟨target, h⟩]
          exact hframe

end Transition

namespace Machine

/-! ## Runs -/

/-- At no point of a run so far were there just `depth` saved addresses. -/
def NotBack (m : Machine) (depth : Nat) (past : List Command) : Prop :=
  ∀ earlier, earlier <:+ past → (m.after earlier).calls.depth ≠ depth

theorem frame_of_notBack {m : Machine} {caller : UInt16} {older : List UInt16}
    (hframe : caller :: older <:+ m.calls.saved) {past : List Command}
    (hreset : .reset ∉ past) (hnot : m.NotBack older.length past) :
    caller :: older <:+ (m.after past).calls.saved := by
  induction past with
  | nil => exact hframe
  | cons command earlier ih =>
      have hother : command ≠ .reset := fun h => hreset (h ▸ List.mem_cons_self)
      have hearlier := ih (fun h => hreset (List.mem_cons_of_mem _ h))
        fun past hpast => hnot past (hpast.trans (List.suffix_cons _ _))
      rcases Transition.keeps_or_returns (t := ⟨m.after earlier, command⟩)
        hother hearlier
        with hkept | hreturns
      · exact hkept
      · have hback : (m.after (command :: earlier)).calls.depth = older.length := by
          rw [← CallStack.length_saved]
          exact congrArg List.length hreturns.saved
        exact absurd hback (hnot _ (List.suffix_refl _))

theorem frame_of_call {m : Machine} {target : Address}
    (hcall : Transition.carriedOut ⟨m, .step⟩ = some (.call target)) :
    m.step.machine.calls.saved = m.pc :: m.calls.saved := by
  have hcalls : m.step.machine.calls = _ := Transition.calls_of_carriedOut hcall
  rcases Transition.carriedOut_eq_some_iff.mp hcall with ⟨-, -, -, hfault⟩
  rw [hcalls, nextCalls]
  cases hpush : m.calls.push? m.pc with
  | none =>
      have hfull := (CallStack.push?_eq_none_iff _ _).mp hpush
      simp [fault?, ← CallStack.length_saved, hfull] at hfault
  | some calls => rw [Option.getD_some, CallStack.saved_push hpush]

/--
A call comes back.  As long as the depth of the stack has not been again what it
was before the call, it is greater, and the address of the call is in its slot.
The first command after which the depth is the same again is a step that
returns; it goes on behind the call and leaves the slots below as they were.
-/
theorem call_comes_back {m : Machine} {target : Address}
    (hcall : Transition.carriedOut ⟨m, .step⟩ = some (.call target))
    {past : List Command}
    (hreset : .reset ∉ past) (hnot : m.step.machine.NotBack m.calls.depth past) :
    (m.calls.depth < (m.step.machine.after past).calls.depth ∧
      (m.step.machine.after past).calls.slots[m.calls.depth]? = some m.pc) ∧
    ∀ command, command ≠ .reset →
      (m.step.machine.after (command :: past)).calls.depth = m.calls.depth →
      Transition.carriedOut ⟨m.step.machine.after past, command⟩ = some .ret ∧
      (m.step.machine.after (command :: past)).pc = m.pc + 2 ∧
      ∀ slot, slot < m.calls.depth →
        (m.step.machine.after (command :: past)).calls.slots[slot]? =
          m.calls.slots[slot]? := by
  have hstart : m.pc :: m.calls.saved <:+ m.step.machine.calls.saved :=
    ⟨[], (frame_of_call hcall).symm⟩
  rw [← CallStack.length_saved] at hnot
  have hframe := frame_of_notBack hstart hreset hnot
  constructor
  · have hlength := hframe.length_le
    have hslot := CallStack.getElem?_slots_of_suffix hframe
    rw [List.length_cons] at hlength
    simp only [CallStack.length_saved] at hlength hslot
    exact ⟨hlength, hslot⟩
  · intro command hother hback
    rcases Transition.keeps_or_returns (t := ⟨m.step.machine.after past, command⟩)
      hother hframe
      with hkept | hreturns
    · have hlength := hkept.length_le
      rw [List.length_cons, CallStack.length_saved,
        CallStack.length_saved] at hlength
      exact absurd hback (Nat.ne_of_gt hlength)
    · refine ⟨hreturns.carriedOut, hreturns.pc, ?_⟩
      intro slot hslot
      exact CallStack.getElem?_slots_of_saved_eq hreturns.saved hslot

/-- A call that calls once more and is overwritten before it comes back. -/
theorem call_comes_back_overwritten :
    let m := (boot {} (.ofSeed 0)).machine.after
      [.load [0x22, 0x04, 0x00, 0x00, 0x22, 0x08, 0x00, 0xEE, 0x00, 0xEE]]
    let past : List Command := [.step, .load [0x12, 0x00], .step]
    Transition.carriedOut ⟨m, .step⟩ = some (.call ⟨0x204, by decide⟩) ∧
    m.step.machine.NotBack m.calls.depth past ∧
    (m.step.machine.after past).calls.slots[0]? = some 0x200 ∧
    (m.step.machine.after (.step :: past)).calls.depth = m.calls.depth ∧
    (m.step.machine.after (.step :: past)).pc = 0x202 := by
  intro m past
  have hfacts : Transition.carriedOut ⟨m, .step⟩ = some (.call ⟨0x204, by decide⟩) ∧
      (∀ k, k < 4 →
        (m.step.machine.after (past.drop k)).calls.depth ≠ m.calls.depth) ∧
      (m.step.machine.after (.step :: past)).calls.depth = m.calls.depth := by
    decide +kernel
  rcases hfacts with ⟨hcall, hdepths, hback⟩
  have hnot : m.step.machine.NotBack m.calls.depth past := by
    intro earlier hearlier
    rw [List.suffix_iff_eq_drop.mp hearlier]
    exact hdepths _ (Nat.lt_succ_of_le (Nat.sub_le 3 _))
  rcases call_comes_back hcall (by decide) hnot with ⟨⟨-, hslot⟩, hreturns⟩
  exact ⟨hcall, hnot, hslot, hback, (hreturns .step (by decide) hback).2.1⟩

end Machine

end Chip8
