import Chip8.Proofs.Machine.Bounds
import Chip8.Proofs.Machine.CarriedOut
import Mathlib.Algebra.Ring.Parity

/-!
# Alignment

Nothing keeps the counter even by itself: a jump or a call goes wherever its word
says, and an indexed jump adds a register to that.  But nothing else makes the
counter odd, for everything else moves it by two or four or brings a saved counter
back.  So a machine whose jumps and calls all lead to even addresses stays aligned,
and one that is out of alignment has come to an odd target before.
-/

namespace Chip8

def Instruction.target? (m : Machine) : Instruction → Option Nat
  | .jump target => some target
  | .call target => some target
  | .jumpOffset base => some (base + (m.reg offsetRegister).toNat)
  | _ => none

namespace Transition

def target? (t : Transition) : Option Nat :=
  t.carriedOut.bind fun instruction => instruction.target? t.before

theorem target?_of_carriedOut {t : Transition} {instruction : Instruction}
    (h : t.carriedOut = some instruction) :
    t.target? = instruction.target? t.before := by
  rw [target?, h]
  rfl

end Transition

namespace Machine

/-- The counter is even, and so are the addresses in all slots, in use or not. -/
structure Aligned (m : Machine) : Prop where
  pc_even : Even m.pc.toNat
  slots_even : m.calls.Every fun address => Even address.toNat

theorem aligned_powerOn (dialect : Dialect) (random : RandomSource) :
    (powerOn dialect random).Aligned where
  pc_even := (by decide : Even 0x200)
  slots_even := CallStack.every_empty (by decide)

theorem Aligned.of_eq {m n : Machine} (h : m.Aligned) (hpc : n.pc = m.pc)
    (hcalls : n.calls = m.calls) : n.Aligned :=
  ⟨hpc ▸ h.pc_even, hcalls ▸ h.slots_even⟩

/-! ## Instructions -/

theorem even_add_of_even {pc distance : UInt16} (hpc : Even pc.toNat)
    (hdistance : Even distance.toNat) : Even (pc + distance).toNat := by
  rw [Nat.even_iff] at *
  rw [UInt16.toNat_add]
  omega

theorem toNat_nextPc_of_target {m : Machine} {instruction : Instruction}
    {target : Nat} (h : instruction.target? m = some target) :
    (m.nextPc instruction).toNat = target := by
  cases instruction with
  | jump address | call address =>
      have := address.isLt
      simp only [Instruction.target?, Option.some.injEq] at h
      simp only [nextPc, UInt16.toNat_ofNat']
      omega
  | jumpOffset base =>
      have := base.isLt
      have := (m.reg offsetRegister).toNat_lt
      simp only [Instruction.target?, Option.some.injEq] at h
      simp only [nextPc, UInt16.toNat_add, UInt16.toNat_ofNat',
        UInt8.toNat_toUInt16]
      omega
  | _ => cases h

theorem Aligned.nextPc_of_no_target {m : Machine} (h : m.Aligned)
    {instruction : Instruction} (htarget : instruction.target? m = none) :
    Even (m.nextPc instruction).toNat := by
  have hnext : Even (m.pc + 2).toNat := even_add_of_even h.pc_even (by decide)
  cases instruction with
  | jump | call | jumpOffset => cases htarget
  | ret =>
      simp only [nextPc]
      cases hpop : m.calls.pop? with
      | none => exact h.pc_even
      | some top =>
          have hcaller := (h.slots_even.of_pop hpop).1
          exact even_add_of_even hcaller (by decide)
  | skip condition =>
      simp only [nextPc]
      split
      · exact even_add_of_even h.pc_even (by decide)
      · exact hnext
  | waitKey x =>
      simp only [nextPc]
      split
      · exact h.pc_even
      · exact hnext
  | _ => exact hnext

theorem Aligned.effect {m : Machine} (h : m.Aligned) {instruction : Instruction}
    (htarget : ∀ target, instruction.target? m = some target → Even target) :
    (m.effect instruction).Aligned := by
  rw [effect_eq]
  constructor
  · change Even (m.nextPc instruction).toNat
    cases hgoes : instruction.target? m with
    | none => exact h.nextPc_of_no_target hgoes
    | some target =>
        rw [toNat_nextPc_of_target hgoes]
        exact htarget target hgoes
  · exact every_nextCalls h.pc_even h.slots_even instruction

/-! ## Steps and commands -/

theorem Aligned.step {m : Machine} (h : m.Aligned)
    (htarget : ∀ target, Transition.target? ⟨m, .step⟩ = some target →
      Even target) :
    m.step.machine.Aligned := by
  cases m.course with
  | halted _ hstep =>
      rw [hstep]
      exact h
  | parked _ _ _ hstep =>
      rw [hstep, endStep_eq]
      exact h.of_eq rfl rfl
  | resumed register key _ _ hstep =>
      rw [hstep]
      exact ⟨even_add_of_even h.pc_even (by decide), h.slots_even⟩
  | unreadable _ _ _ hstep =>
      rw [hstep]
      exact h.of_eq rfl rfl
  | refused _ _ _ _ _ _ hstep =>
      rw [hstep]
      exact h.of_eq rfl rfl
  | executed opcode instruction hstatus hnext hfault hstep =>
      have hcarried : Transition.carriedOut ⟨m, .step⟩ = some instruction :=
        Transition.carriedOut_eq_some_iff.mpr ⟨rfl, hstatus,
          ⟨opcode, hnext⟩, hfault⟩
      rw [Transition.target?_of_carriedOut hcarried] at htarget
      rw [hstep, endStep_eq]
      exact (h.effect htarget).of_eq rfl rfl

theorem Aligned.perform {m : Machine} (h : m.Aligned) {command : Command}
    (htarget : ∀ target, Transition.target? ⟨m, command⟩ = some target →
      Even target) :
    (m.perform command).machine.Aligned := by
  by_cases hstep : command = .step
  · subst hstep
    exact h.step htarget
  · by_cases hreset : command = .reset
    · subst hreset
      exact aligned_powerOn m.dialect m.random
    · rcases m.perform_of_other hstep hreset with
        ⟨memory, redraw, keypad, dialect, random, hother⟩
      rw [hother]
      exact h.of_eq rfl rfl

theorem SwitchedOn.aligned {start : Machine} (h : start.SwitchedOn) :
    start.Aligned := by
  rcases h.eq_powerOn with ⟨dialect, seed, memory, rfl⟩
  exact (aligned_powerOn dialect (.ofSeed seed)).of_eq rfl rfl

/-! ## Runs -/

structure LeavesAlignment (t : Transition) (target : Nat) : Prop where
  aligned : t.before.Aligned
  goes : t.target? = some target
  odd : Odd target
  pc : t.after.pc.toNat = target

theorem toNat_pc_of_target {t : Transition} {target : Nat}
    (h : t.target? = some target) :
    t.after.pc.toNat = target := by
  obtain ⟨instruction, hcarried, hgoes⟩ := Option.bind_eq_some_iff.mp h
  rw [Transition.pc_of_carriedOut hcarried]
  exact toNat_nextPc_of_target hgoes

theorem leavesAlignment_of_not_aligned {t : Transition} (h : t.before.Aligned)
    (hafter : ¬t.after.Aligned) : ∃ target, LeavesAlignment t target := by
  cases htarget : t.target? with
  | none =>
      have hkept : t.after.Aligned := by
        apply h.perform
        intro target hgoes
        cases htarget.symm.trans hgoes
      exact absurd hkept hafter
  | some target =>
      refine ⟨target, h, htarget, ?_, toNat_pc_of_target htarget⟩
      rw [← Nat.not_even_iff_odd]
      intro heven
      have hkept : t.after.Aligned := by
        apply h.perform
        intro target' hgoes
        cases htarget.symm.trans hgoes
        exact heven
      exact hafter hkept

theorem exists_leavesAlignment {start : Machine} (hstart : start.SwitchedOn)
    {past : List Command} (h : ¬(start.after past).Aligned) :
    ∃ t ∈ start.history past, ∃ target, LeavesAlignment t target := by
  induction past with
  | nil => exact absurd hstart.aligned h
  | cons command earlier ih =>
      by_cases hearlier : (start.after earlier).Aligned
      · exact ⟨_, .head _, leavesAlignment_of_not_aligned hearlier h⟩
      · rcases ih hearlier with ⟨t, ht, hleaves⟩
        exact ⟨t, .tail _ ht, hleaves⟩

theorem history_subset_of_suffix (start : Machine) {earlier past : List Command}
    (h : earlier <:+ past) : start.history earlier ⊆ start.history past := by
  obtain ⟨later, rfl⟩ := h
  induction later with
  | nil => exact List.Subset.refl _
  | cons command later ih => exact List.subset_cons_of_subset _ ih

/--
Alignment is left by odd targets only.  If every jump and call that a run carries
out leads to an even address, then at every moment of the run the counter and all
sixteen slots are even.  And if the machine is out of alignment, then a jump or a
call of the run took it from alignment to an odd address.
-/
theorem only_odd_targets_misalign {start : Machine} (hstart : start.SwitchedOn)
    (past : List Command) :
    ((∀ t ∈ start.history past, ∀ target ∈ t.target?, Even target) →
      ∀ earlier, earlier <:+ past → (start.after earlier).Aligned) ∧
    (¬(start.after past).Aligned →
      ∃ t ∈ start.history past, ∃ target, LeavesAlignment t target) := by
  refine ⟨?_, exists_leavesAlignment hstart⟩
  intro heven earlier hsuffix
  by_contra hodd
  rcases exists_leavesAlignment hstart hodd with ⟨t, ht, target, hleaves⟩
  have htarget :=
    heven t (history_subset_of_suffix start hsuffix ht) target hleaves.goes
  exact Nat.not_even_iff_odd.mpr hleaves.odd htarget

/-- A call into a subroutine that a load overwrites, and the way back. -/
theorem only_odd_targets_misalign_back :
    let start := (boot {} (.ofSeed 0)).machine
    let past : List Command :=
      [.step, .load [0x22, 0x04, 0x00, 0x00, 0x00, 0xEE], .step, .load [0x22, 0x04]]
    (∀ t ∈ start.history past, ∀ target ∈ t.target?, Even target) ∧
    (start.after past).Aligned ∧ (start.after past).pc = 0x202 := by
  intro start past
  have heven : ∀ t ∈ start.history past, ∀ target ∈ t.target?, Even target := by
    decide +kernel
  have hpc : (start.after past).pc = 0x202 := by decide +kernel
  rcases only_odd_targets_misalign (.bare {} 0) past with ⟨hkept, -⟩
  exact ⟨heven, hkept heven past (List.suffix_refl past), hpc⟩

end Machine

end Chip8
