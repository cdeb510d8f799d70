import Chip8.Proofs.Influence.Lockstep

/-!
# What the random source has influence on

Only one instruction looks at the random source, and it sees no more of a random
byte than its mask lets through.  A mask without a set bit lets nothing through:
then the register is cleared, whatever the byte.  So two machines that differ in
nothing but their sources stay so until a mask with a set bit comes up, and even
then they differ only in the bits that this mask selects.
-/

namespace Chip8

namespace Command

inductive SameButSeeds : Command → Command → Prop
  | same (command : Command) : SameButSeeds command command
  | setSeed (seed seed' : UInt64) : SameButSeeds (.setSeed seed) (.setSeed seed')

end Command

namespace Transition

/-- The transition asks for a random byte and lets some bit of it through. -/
def unmasksRandom (t : Transition) : Bool :=
  match t.carriedOut with
  | some (.random _ mask) => mask ≠ 0
  | _ => false

end Transition

namespace Machine

def withRandom (m : Machine) (source : RandomSource) : Machine :=
  { m with random := source }

def SameButRandom (m n : Machine) : Prop := { m with random := n.random } = n

/-- The machines differ in random source and in masked bits of one register. -/
structure SameButMasked (m n : Machine) (x : Register) (mask : UInt8) : Prop where
  others : { m with registers := n.registers, random := n.random } = n
  registers : ∀ r, r ≠ x → m.reg r = n.reg r
  bits : m.reg x &&& ~~~mask = n.reg x &&& ~~~mask

/-! ## One instruction -/

theorem unseen_withRandom (source : RandomSource) :
    Unseen fun m => m.withRandom source where
  keypad _ := rfl
  status _ := rfl
  dialect _ := rfl
  setReg _ _ _ := rfl
  tick _ := rfl
  resume _ := rfl

theorem effect_withRandom (m : Machine) (source : RandomSource)
    {instruction : Instruction} (h : ∀ x mask, instruction ≠ .random x mask) :
    (m.withRandom source).effect instruction =
      (m.effect instruction).withRandom source := by
  rw [effect_eq, effect_eq]
  cases instruction with
  | random x mask => exact absurd rfl (h x mask)
  | alu op x y => cases op <;> rfl
  | _ => rfl

theorem effect_random (m : Machine) (x : Register) (mask : UInt8) :
    m.effect (.random x mask) =
      { m with
        pc := m.pc + 2
        registers := (m.setReg x (m.random.next.1 &&& mask)).registers
        random := m.random.next.2 } := by
  rw [effect_eq]
  rfl

theorem effect_random_zero (m : Machine) (source : RandomSource) (x : Register) :
    (m.withRandom source).effect (.random x 0) =
      (m.effect (.random x 0)).withRandom source.next.2 := by
  rw [effect_random, effect_random, UInt8.and_zero, UInt8.and_zero]
  rfl

/-! ## One step -/

theorem sameCourse_withRandom (m : Machine) (source : RandomSource) :
    m.SameCourse (m.withRandom source) :=
  ⟨rfl, rfl, rfl, rfl, rfl, fun _ => rfl⟩

theorem step_withRandom {m : Machine} (source : RandomSource)
    (h : Transition.unmasksRandom ⟨m, .step⟩ = false) :
    ∃ left, (m.withRandom source).step =
      { m.step with machine := m.step.machine.withRandom left } := by
  cases (m.sameCourse_withRandom source).abreast with
  | halted hidle hstatus hm hn =>
      rw [hm, hn]
      exact ⟨source, rfl⟩
  | parked register hidle hstatus hm hn =>
      rw [hm, hn]
      exact ⟨source, by rw [(unseen_withRandom source).endStep]⟩
  | resumed register key hidle hm hn =>
      rw [hm, hn]
      exact ⟨source, rfl⟩
  | failed cause events hidle hm hn =>
      rw [hm, hn]
      exact ⟨source, rfl⟩
  | executed opcode instruction hstatus hcarried hm hn =>
      obtain ⟨left, heffect⟩ : ∃ left, (m.withRandom source).effect instruction =
          (m.effect instruction).withRandom left := by
        by_cases hrandom : ∃ x mask, instruction = .random x mask
        · rcases hrandom with ⟨x, mask, rfl⟩
          have hmask : mask = 0 := by
            simpa [Transition.unmasksRandom, hcarried] using h
          subst hmask
          exact ⟨_, m.effect_random_zero source x⟩
        · exact ⟨_, m.effect_withRandom source fun x mask hx =>
            hrandom ⟨x, mask, hx⟩⟩
      rw [hm, hn, heffect]
      exact ⟨left, by rw [(unseen_withRandom left).endStep]; rfl⟩

theorem carriedOut_withRandom {m : Machine} (source : RandomSource)
    {instruction : Instruction}
    (h : Transition.carriedOut ⟨m, .step⟩ = some instruction) :
    Transition.carriedOut ⟨m.withRandom source, .step⟩ = some instruction := by
  rw [Transition.carriedOut_eq_some_iff] at h ⊢
  rcases h with ⟨hcommand, hstatus, hnext, hfault⟩
  exact ⟨hcommand, hstatus, hnext,
    ((m.sameCourse_withRandom source).fault? _).trans hfault⟩

theorem step_of_random {m : Machine} {x : Register} {mask : UInt8}
    (h : Transition.carriedOut ⟨m, .step⟩ = some (.random x mask)) :
    m.step.result = .ok () ∧
      m.step.machine = (m.effect (.random x mask)).tick := by
  have hstatus : m.status = .running := (Transition.carriedOut_eq_some_iff.mp h).2.1
  have hafter : m.step.machine = _ := Transition.after_of_carriedOut h
  refine ⟨Transition.result_of_carriedOut h, ?_⟩
  rw [hafter, endStep, if_pos]
  left
  rw [effect_random]
  exact hstatus

theorem step_withRandom_unmasked {m : Machine} (source : RandomSource)
    {x : Register}
    {mask : UInt8} (h : Transition.carriedOut ⟨m, .step⟩ = some (.random x mask)) :
    m.step.result = (m.withRandom source).step.result ∧
      m.step.machine.SameButMasked (m.withRandom source).step.machine x mask := by
  rcases step_of_random h with ⟨hresult, hmachine⟩
  rcases step_of_random (carriedOut_withRandom source h) with ⟨hresult', hmachine'⟩
  have hreg : ∀ r, m.step.machine.reg r =
      if r = x then m.random.next.1 &&& mask else m.reg r := by
    intro r
    rw [hmachine, effect_random, ← reg_setReg]
    rfl
  have hreg' : ∀ r, (m.withRandom source).step.machine.reg r =
      if r = x then source.next.1 &&& mask else m.reg r := by
    intro r
    rw [hmachine', effect_random, ← reg_setReg]
    rfl
  refine ⟨hresult.trans hresult'.symm, ?_, ?_, ?_⟩
  · rw [hmachine, hmachine', effect_random, effect_random]
    rfl
  · intro r hr
    rw [hreg, hreg', if_neg hr, if_neg hr]
  · rw [hreg, hreg', if_pos rfl, if_pos rfl, UInt8.and_assoc, UInt8.and_assoc,
      UInt8.and_not_self, UInt8.and_zero, UInt8.and_zero]

/-! ## Commands and runs -/

theorem perform_sameButRandom {m n : Machine} {command command' : Command}
    (hcommand : command.SameButSeeds command') (hsame : m.SameButRandom n)
    (hmasked : Transition.unmasksRandom ⟨m, command⟩ = false) :
    (m.perform command).machine.SameButRandom (n.perform command').machine ∧
      (m.perform command).reply = (n.perform command').reply := by
  obtain ⟨source, rfl⟩ : ∃ source, n = m.withRandom source := ⟨n.random, hsame.symm⟩
  cases hcommand with
  | setSeed seed seed' => exact ⟨rfl, rfl⟩
  | same =>
      cases command with
      | step =>
          rcases step_withRandom source hmasked with ⟨left, hstep⟩
          have hperform : (m.withRandom source).perform .step =
              { m.perform .step with
                  machine := (m.perform .step).machine.withRandom left } := by
            simp only [perform, hstep]
          rw [hperform]
          exact ⟨rfl, rfl⟩
      | load program =>
          have hmemory : (m.withRandom source).memory = m.memory := rfl
          rcases perform_load_alike hmemory program with ⟨hreply, memory, hm, hn⟩
          rw [hm, hn]
          exact ⟨rfl, hreply⟩
      | _ => exact ⟨rfl, rfl⟩

/--
Randomness matters only where a mask lets it through.  Two machines that differ in
nothing but their random sources are given the same commands, but for the seeds
that are set.  As long as every mask that comes up is zero, they still differ in
nothing but their sources after every command, and have replied the same.  When
the next step asks for a random byte, it does so in both; then they differ in the
bits of one register that the mask selects, and still in nothing else.
-/
theorem randomness_is_masked {m n : Machine} {past past' : List Command}
    (hsame : { m with random := n.random } = n)
    (hpast : List.Forall₂ Command.SameButSeeds past past')
    (hmasked : ∀ t ∈ m.history past, t.unmasksRandom = false) :
    ({ m.after past with random := (n.after past').random } = n.after past' ∧
      ∀ pair ∈ m.sideBySide n past past',
        { pair.1.after with random := pair.2.after.random } = pair.2.after ∧
        pair.1.response.reply = pair.2.response.reply) ∧
    ∀ x mask, Transition.carriedOut ⟨m.after past, .step⟩ = some (.random x mask) →
      Transition.carriedOut ⟨n.after past', .step⟩ = some (.random x mask) ∧
      (m.after past).step.result = (n.after past').step.result ∧
      (m.after past).step.machine.SameButMasked
        (n.after past').step.machine x mask := by
  have hkeep : ∀ pair ∈ m.sideBySide n past past',
    pair.1.command.SameButSeeds pair.2.command →
      pair.1.before.SameButRandom pair.2.before →
      pair.1.after.SameButRandom pair.2.after ∧
        pair.1.response.reply = pair.2.response.reply := by
    intro pair hmem hcommand hbefore
    exact perform_sameButRandom hcommand hbefore
      (hmasked pair.1 (List.of_mem_zip hmem).1)
  have hruns := lockstep (R := SameButRandom) hpast hsame hkeep
  refine ⟨hruns, ?_⟩
  intro x mask hasks
  have hnow : n.after past' = (m.after past).withRandom (n.after past').random :=
    hruns.1.symm
  rw [hnow]
  exact ⟨carriedOut_withRandom _ hasks, step_withRandom_unmasked _ hasks⟩

theorem randomness_is_masked_nibble :
    let m := (boot {} (.ofSeed 1)).machine.after [.load [0xC2, 0x00, 0xC5, 0x0F]]
    let n := m.setSeed 2
    let past : List Command :=
      [.step, .setSeed 3, .load [0xC2, 0x00, 0xC5, 0x0F], .reset, .step]
    let past' : List Command :=
      [.step, .setSeed 7, .load [0xC2, 0x00, 0xC5, 0x0F], .reset, .step]
    { m with random := n.random } = n ∧
    List.Forall₂ Command.SameButSeeds past past' ∧
    (∀ t ∈ m.history past, t.unmasksRandom = false) ∧
    Transition.carriedOut ⟨m.after past, .step⟩ = some (.random 5 0x0F) ∧
    (m.after past).step.machine.reg 5 ≠ (n.after past').step.machine.reg 5 ∧
    (m.after past).step.machine.SameButMasked (n.after past').step.machine
        5 0x0F := by
  intro m n past past'
  have hsame : { m with random := n.random } = n := rfl
  have hpast : List.Forall₂ Command.SameButSeeds past past' :=
    .cons (.same _) (.cons (.setSeed _ _) (.cons (.same _) (.cons (.same _)
      (.cons (.same _) .nil))))
  have hfacts : (∀ t ∈ m.history past, t.unmasksRandom = false) ∧
      Transition.carriedOut ⟨m.after past, .step⟩ = some (.random 5 0x0F) ∧
      (m.after past).step.machine.reg 5 ≠ (n.after past').step.machine.reg 5 := by
    decide +kernel
  rcases hfacts with ⟨hmasked, hasks, hdiffer⟩
  rcases randomness_is_masked hsame hpast hmasked with ⟨-, hnext⟩
  exact ⟨hsame, hpast, hmasked, hasks, hdiffer, (hnext 5 0x0F hasks).2.2⟩

end Machine

end Chip8
