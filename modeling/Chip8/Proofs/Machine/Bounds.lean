import Chip8.Proofs.Machine.Fields
import Chip8.Proofs.Machine.Past

/-!
# Where the counter can point

An indexed jump may leave memory, but never passes `0x10FE`; the next fetch
fails there.  The bound is kept only together with two others: every saved
address, and the counter of a machine that waits for a key, is the address of a
word that was fetched.
-/

namespace Chip8

namespace CallStack

def Every (s : CallStack) (P : UInt16 → Prop) : Prop :=
  ∀ slot : Fin 16, P s.slots[slot]

section

variable {P : UInt16 → Prop}

theorem every_empty (h : P 0) : empty.Every P := by
  intro slot
  simpa [empty] using h

theorem Every.of_push {s s' : CallStack} {address : UInt16} (h : s.Every P)
    (haddress : P address) (hpush : s.push? address = some s') : s'.Every P := by
  unfold push? at hpush
  split at hpush
  next hroom =>
    cases hpush
    intro slot
    simp only [Fin.getElem_fin, Vector.getElem_set]
    split
    · exact haddress
    · exact h slot
  next => cases hpush

theorem Every.of_pop {s s' : CallStack} {address : UInt16} (h : s.Every P)
    (hpop : s.pop? = some (address, s')) : P address ∧ s'.Every P := by
  unfold pop? at hpop
  split at hpop
  next hused =>
    have hslot : s.depth - 1 < 16 := by have := s.depth_le; omega
    cases hpop
    exact ⟨h ⟨s.depth - 1, hslot⟩, h⟩
  next => cases hpop

end

def Within (s : CallStack) (limit : Nat) : Prop :=
  ∀ slot : Fin 16, s.slots[slot].toNat ≤ limit

theorem within_empty (limit : Nat) : empty.Within limit :=
  every_empty (P := fun address => address.toNat ≤ limit) (Nat.zero_le limit)

theorem Within.of_pop {s s' : CallStack} {address : UInt16} {limit : Nat}
    (h : s.Within limit) (hpop : s.pop? = some (address, s')) :
    address.toNat ≤ limit ∧ s'.Within limit :=
  Every.of_pop (P := fun address => address.toNat ≤ limit) h hpop

end CallStack

namespace Machine

/-- Where a machine can be; `0xFFE` is the address of the last word in memory. -/
structure Bounded (m : Machine) : Prop where
  pc_le : m.pc.toNat ≤ 0x10FE
  slots_le : m.calls.Within 0xFFE
  parked_le : ∀ register, m.status = .awaitingKey register → m.pc.toNat ≤ 0xFFE

theorem bounded_powerOn (dialect : Dialect) (random : RandomSource) :
    (powerOn dialect random).Bounded where
  pc_le := by simp [powerOn]
  slots_le := CallStack.within_empty _
  parked_le := by
    intro register h
    cases h

/-! ## Instructions -/

private theorem moved_le {pc distance : UInt16} (hpc : pc.toNat ≤ 0xFFE)
    (hdistance : distance.toNat ≤ 4) : (pc + distance).toNat ≤ 0x10FE := by
  rw [UInt16.toNat_add]
  omega

theorem nextPc_le {m : Machine} (hpc : m.pc.toNat ≤ 0xFFE)
    (hslots : m.calls.Within 0xFFE)
    (instruction : Instruction) : (m.nextPc instruction).toNat ≤ 0x10FE := by
  cases instruction with
  | ret =>
      simp only [nextPc]
      cases hpop : m.calls.pop? with
      | none => exact Nat.le_trans hpc (by decide)
      | some top => exact moved_le (hslots.of_pop hpop).1 (by decide)
  | jump target | call target =>
      have := target.isLt
      simp only [nextPc, UInt16.toNat_ofNat']
      omega
  | jumpOffset base =>
      have := base.isLt
      have := (m.reg offsetRegister).toNat_lt
      simp only [nextPc, UInt16.toNat_add, UInt16.toNat_ofNat',
        UInt8.toNat_toUInt16]
      omega
  | skip condition =>
      simp only [nextPc]
      split
      · exact moved_le hpc (by decide)
      · exact moved_le hpc (by decide)
  | waitKey x =>
      simp only [nextPc]
      split
      · exact Nat.le_trans hpc (by decide)
      · exact moved_le hpc (by decide)
  | _ => exact moved_le hpc (by decide)

theorem every_nextCalls {P : UInt16 → Prop} {m : Machine} (hpc : P m.pc)
    (hslots : m.calls.Every P) (instruction : Instruction) :
    (m.nextCalls instruction).Every P := by
  cases instruction with
  | ret =>
      simp only [nextCalls]
      cases hpop : m.calls.pop? with
      | none => exact hslots
      | some top => exact (hslots.of_pop hpop).2
  | call target =>
      simp only [nextCalls]
      cases hpush : m.calls.push? m.pc with
      | none => exact hslots
      | some calls => exact hslots.of_push hpc hpush
  | _ => exact hslots

theorem nextPc_of_parked {m : Machine} {instruction : Instruction}
    {register : Register} (hrunning : m.status = .running)
    (h : m.nextStatus instruction = .awaitingKey register) :
    m.nextPc instruction = m.pc := by
  cases instruction with
  | waitKey x =>
      simp only [nextStatus, hrunning] at h
      simp only [nextPc]
      cases hkey : m.keypad.firstPressed with
      | none => rfl
      | some key => simp [hkey] at h
  | _ =>
      simp only [nextStatus, hrunning] at h
      cases h

/-! ## Steps and commands -/

theorem Bounded.tick {m : Machine} (h : m.Bounded) : m.tick.Bounded :=
  ⟨h.pc_le, h.slots_le, h.parked_le⟩

theorem Bounded.endStep {m : Machine} (h : m.Bounded) : m.endStep.Bounded := by
  unfold Machine.endStep
  split
  · exact h.tick
  · exact h

theorem Bounded.effect {m : Machine} (h : m.Bounded) (hpc : m.pc.toNat ≤ 0xFFE)
    (hstatus : m.status = .running) (instruction : Instruction) :
    (m.effect instruction).Bounded := by
  rw [effect_eq]
  constructor
  · exact nextPc_le hpc h.slots_le instruction
  · exact every_nextCalls (P := fun address => address.toNat ≤ 0xFFE) hpc
      h.slots_le instruction
  · intro register hparked
    exact (nextPc_of_parked hstatus hparked) ▸ hpc

theorem Bounded.halt {m : Machine} (h : m.Bounded) :
    { m with status := .halted }.Bounded := by
  refine ⟨h.pc_le, h.slots_le, ?_⟩
  intro register hparked
  cases hparked

theorem Bounded.resume {m : Machine} (h : m.Bounded) {register : Register}
    (hstatus : m.status = .awaitingKey register) (x : Register) (key : Key) :
    { m.takeKey x key with status := .running }.Bounded := by
  have hpc := h.parked_le register hstatus
  refine ⟨?_, h.slots_le, ?_⟩
  · exact moved_le hpc (by decide)
  · intro register hparked
    cases hparked

theorem Bounded.step {m : Machine} (h : m.Bounded) : m.step.machine.Bounded := by
  cases m.course with
  | halted _ hstep =>
      rw [hstep]
      exact h
  | parked _ _ _ hstep =>
      rw [hstep]
      exact h.endStep
  | resumed register key hstatus _ hstep =>
      rw [hstep]
      exact (h.resume hstatus register key).tick
  | unreadable _ _ _ hstep =>
      rw [hstep]
      exact h.halt
  | refused _ _ _ _ _ _ hstep =>
      rw [hstep]
      exact h.halt
  | executed _ instruction hstatus hnext _ hstep =>
      rw [hstep]
      exact (h.effect (nextInstruction_eq_ok hnext).1 hstatus instruction).endStep

theorem Bounded.perform {m : Machine} (h : m.Bounded) (command : Command) :
    (m.perform command).machine.Bounded := by
  cases command with
  | step => exact h.step
  | reset => exact bounded_powerOn m.dialect m.random
  | load program =>
      obtain ⟨memory, hload⟩ := m.perform_load_eq program
      rw [hload]
      exact ⟨h.pc_le, h.slots_le, h.parked_le⟩
  | _ => exact ⟨h.pc_le, h.slots_le, h.parked_le⟩

theorem Reachable.bounded {m : Machine} (h : m.Reachable) : m.Bounded :=
  h.invariant (fun dialect seed => bounded_powerOn dialect (.ofSeed seed))
    (fun _ command hm => hm.perform command)

end Machine

end Chip8
