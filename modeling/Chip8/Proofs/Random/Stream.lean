import Chip8.Proofs.Machine.CarriedOut

/-!
# Random bytes in order

A seed stands for an endless sequence of words, and eight bytes of each word,
the lowest first, make its sequence of bytes.  A seeded source hands out these
bytes in order, each of them once.  Only the instruction that asks for a random
byte takes one, so in a run its number in the sequence is the number of such
instructions carried out since the source was seeded.
-/

namespace Chip8

namespace RandomSource

/-! ## The bytes of a seed -/

/-- Word number `n` of a seed, in plain arithmetic on numbers. -/
def seedWord (seed : UInt64) (n : Nat) : Nat :=
  let state := (seed.toNat + (n + 1) * 0xA0761D6478BD642F) % UInt64.size
  let product := state * (state ^^^ 0xE7037ED1A0B428DB)
  (product / UInt64.size ^^^ product) % UInt64.size

/-- Byte number `k` of a seed: eight bytes of each word, the lowest first. -/
def seedByte (seed : UInt64) (k : Nat) : Nat :=
  seedWord seed (k / 8) >>> (8 * (k % 8)) % 0x100

def stateAfter (seed : UInt64) (words : Nat) : UInt64 :=
  seed + UInt64.ofNat words * increment

/--
The source when the first `k` bytes have been handed out.  It has made one word
for every eight of them that were begun; what is left of the last is its buffer.
-/
def remaining (seed : UInt64) (k : Nat) : RandomSource :=
  let state := stateAfter seed ((k + 7) / 8)
  ⟨state, (List.range' (k % 8) ((8 - k % 8) % 8)).map (byteOf (wordOf state))⟩

theorem stateAfter_succ (seed : UInt64) (words : Nat) :
    stateAfter seed (words + 1) = stateAfter seed words + increment := by
  have hone : UInt64.ofNat 1 * increment = increment := rfl
  rw [stateAfter, stateAfter, UInt64.ofNat_add, UInt64.add_mul, hone,
    UInt64.add_assoc]

theorem toNat_stateAfter (seed : UInt64) (words : Nat) :
    (stateAfter seed words).toNat =
      (seed.toNat + words * 0xA0761D6478BD642F) % UInt64.size := by
  have hincrement : increment.toNat = 0xA0761D6478BD642F := rfl
  simp only [stateAfter, UInt64.toNat_add, UInt64.toNat_mul, UInt64.toNat_ofNat',
    hincrement, Nat.mod_mul_mod, Nat.add_mod_mod]

theorem toNat_wordOf (state : UInt64) :
    (wordOf state).toNat =
      (state.toNat * (state.toNat ^^^ 0xE7037ED1A0B428DB) / UInt64.size ^^^
        state.toNat * (state.toNat ^^^ 0xE7037ED1A0B428DB)) % UInt64.size := by
  have hmask : mask.toNat = 0xE7037ED1A0B428DB := rfl
  simp only [wordOf, UInt64.toNat_xor, UInt64.toNat_ofNat', hmask]
  exact Nat.xor_mod_two_pow.symm

theorem toNat_byteOf (seed : UInt64) (n k : Nat) :
    (byteOf (wordOf (stateAfter seed (n + 1))) k).toNat =
      seedWord seed n >>> (8 * k) % 0x100 := by
  rw [byteOf, UInt8.toNat_ofNat', toNat_wordOf, toNat_stateAfter]
  rfl

theorem ofSeed_eq_remaining (seed : UInt64) : ofSeed seed = remaining seed 0 := by
  have hstate : stateAfter seed 0 = seed := by simp [stateAfter]
  simp [ofSeed, remaining, hstate]

theorem remaining_of_begun (seed : UInt64) (n : Nat) {r : Nat} (hpos : 0 < r)
    (hle : r ≤ 8) :
    remaining seed (8 * n + r) =
      ⟨stateAfter seed (n + 1),
        (List.range' r (8 - r)).map
          (byteOf (wordOf (stateAfter seed (n + 1))))⟩ := by
  have hwords : (8 * n + r + 7) / 8 = n + 1 := by omega
  rw [remaining, hwords]
  rcases Nat.lt_or_eq_of_le hle with hlt | rfl
  · have hposition : (8 * n + r) % 8 = r := by omega
    have hleft : (8 - r) % 8 = 8 - r := by omega
    rw [hposition, hleft]
  · have hleft : (8 - (8 * n + 8) % 8) % 8 = 0 := by omega
    rw [hleft]
    rfl

theorem remaining_of_used_up (seed : UInt64) (n : Nat) :
    remaining seed (8 * n) = ⟨stateAfter seed n, []⟩ := by
  have hwords : (8 * n + 7) / 8 = n := by omega
  have hleft : (8 - 8 * n % 8) % 8 = 0 := by omega
  rw [remaining, hwords, hleft]
  rfl

theorem next_eq (seed : UInt64) (n : Nat) {r : Nat} (hlt : r < 8) :
    (remaining seed (8 * n + r)).next =
      (byteOf (wordOf (stateAfter seed (n + 1))) r,
        remaining seed (8 * n + r + 1)) := by
  rw [Nat.add_assoc, remaining_of_begun seed n (Nat.succ_pos r) hlt]
  rcases Nat.eq_zero_or_pos r with rfl | hpos
  · rw [Nat.add_zero, remaining_of_used_up, next, stateAfter_succ]
  · have hleft : 8 - r = 8 - (r + 1) + 1 := by omega
    rw [remaining_of_begun seed n hpos (Nat.le_of_lt hlt), hleft, List.range'_succ]
    rfl

theorem next_remaining (seed : UInt64) (k : Nat) :
    (remaining seed k).next.1.toNat = seedByte seed k ∧
      (remaining seed k).next.2 = remaining seed (k + 1) := by
  have hnext := next_eq seed (k / 8) (Nat.mod_lt k (by omega))
  rw [Nat.div_add_mod] at hnext
  rw [hnext, toNat_byteOf]
  exact ⟨rfl, rfl⟩

end RandomSource

/-! ## Who takes a byte -/

namespace Transition

def asksRandom (t : Transition) : Bool :=
  match t.carriedOut with
  | some (.random _ _) => true
  | _ => false

theorem random_of_carriedOut {t : Transition} {instruction : Instruction}
    (h : t.carriedOut = some instruction) :
    t.after.random = t.before.nextRandom instruction := by
  rw [after_of_carriedOut h, Machine.endStep_eq, Machine.effect_eq]

theorem random_of_idle {t : Transition} (hidle : t.carriedOut = none)
    (hseed : ∀ seed, t.command ≠ .setSeed seed) :
    t.after.random = t.before.random := by
  obtain ⟨m, command⟩ := t
  cases command with
  | step =>
      rcases idle_step hidle with ⟨pc, registers, delay, sound, status, hstep⟩
      change m.step.machine.random = m.random
      rw [hstep]
  | load program =>
      rcases m.perform_load_eq program with ⟨memory, hload⟩
      rw [after, response, hload]
  | setSeed seed => exact absurd rfl (hseed seed)
  | _ => rfl

theorem random_after (t : Transition) (hseed : ∀ seed, t.command ≠ .setSeed seed) :
    t.after.random =
      if t.asksRandom then t.before.random.next.2 else t.before.random := by
  cases hcarried : t.carriedOut with
  | none => simp [asksRandom, hcarried, random_of_idle hcarried hseed]
  | some instruction =>
      rw [random_of_carriedOut hcarried]
      simp only [asksRandom, hcarried]
      cases instruction with
      | random x mask => rfl
      | _ => rfl

theorem reg_of_random {t : Transition} {x : Register} {mask : UInt8}
    (h : t.carriedOut = some (.random x mask)) :
    t.after.reg x = t.before.random.next.1 &&& mask := by
  rw [after_of_carriedOut h, Machine.endStep_eq, Machine.effect_eq]
  exact Machine.reg_setReg_self t.before x _

end Transition

namespace Machine

theorem random_after_eq (m : Machine) (seed : UInt64) {past : List Command}
    (hseed : ∀ other, .setSeed other ∉ past) :
    ((m.setSeed seed).after past).random =
      .remaining seed
      (((m.setSeed seed).history past).countP Transition.asksRandom) := by
  induction past with
  | nil => exact RandomSource.ofSeed_eq_remaining seed
  | cons command earlier ih =>
      let t : Transition := ⟨(m.setSeed seed).after earlier, command⟩
      have hcommand : ∀ other, command ≠ .setSeed other := by
        rintro other rfl
        exact hseed other List.mem_cons_self
      have hearlier :=
        ih fun other hmem => hseed other (List.mem_cons_of_mem _ hmem)
      have hbefore : t.before.random = _ := hearlier
      have hafter : ((m.setSeed seed).after (command :: earlier)).random = _ :=
        t.random_after hcommand
      rw [hafter, hbefore, (RandomSource.next_remaining seed _).2, history,
        List.countP_cons]
      cases t.asksRandom <;> rfl

/--
Random bytes are handed out in order, once each.  In a run that follows a
seeding, the instruction that asks for a random byte gets the byte of the seed
whose number is the number of such instructions carried out before it, whatever
its mask lets through.  It takes this byte and no other from the source, and no
other instruction and no command but a seeding touches the source.
-/
theorem random_bytes_in_order (m : Machine) (seed : UInt64) (past : List Command)
    (hseed : ∀ other, .setSeed other ∉ past) :
    let here := (m.perform (.setSeed seed)).machine.after past
    let asked :=
      ((m.perform (.setSeed seed)).machine.history past).countP
        Transition.asksRandom
    (∀ x mask, Transition.carriedOut ⟨here, .step⟩ = some (.random x mask) →
      (here.step.machine.reg x).toNat =
      RandomSource.seedByte seed asked &&& mask.toNat ∧
      here.step.machine.random = here.random.next.2) ∧
    ∀ t : Transition, (∀ other, t.command ≠ .setSeed other) →
      (∀ x mask, t.carriedOut ≠ some (.random x mask)) →
          t.after.random = t.before.random := by
  intro here asked
  have hsource : here.random = .remaining seed asked := random_after_eq m seed hseed
  constructor
  · intro x mask hasks
    have hreg : here.step.machine.reg x = here.random.next.1 &&& mask :=
      Transition.reg_of_random hasks
    have hrandom : here.step.machine.random = here.random.next.2 :=
      Transition.random_of_carriedOut hasks
    refine ⟨?_, hrandom⟩
    rw [hreg, hsource, UInt8.toNat_and, (RandomSource.next_remaining seed asked).1]
  · intro t hother hasks
    have hnot : t.asksRandom = false := by
      unfold Transition.asksRandom
      split
      next x mask hcarried => exact absurd hcarried (hasks x mask)
      next => rfl
    rw [t.random_after hother, hnot]
    rfl

theorem random_bytes_in_order_ninth :
    let seeded := ((boot {} (.ofSeed 0)).machine.perform (.setSeed 42)).machine
    let past : List Command :=
      .load [0xC3, 0x0F] :: .reset :: (List.replicate 9 .step ++
      [.load [0xC0, 0x00, 0xC0, 0xFF, 0xC1, 0x00, 0xC1, 0xFF, 0xC2, 0xFF, 0xC2,
        0x0F, 0xC2, 0x01, 0xC2, 0xFE]])
    let here := seeded.after past
    (∀ other, .setSeed other ∉ past) ∧
    Transition.carriedOut ⟨here, .step⟩ = some (.random 3 0x0F) ∧
    RandomSource.seedByte 42 8 = 0xD2 ∧
    (here.step.machine.reg 3).toNat = 0xD2 &&& 0x0F := by
  intro seeded past here
  have hseed : ∀ other, .setSeed other ∉ past := by simp [past]
  have hfacts : Transition.carriedOut ⟨here, .step⟩ = some (.random 3 0x0F) ∧
      (seeded.history past).countP Transition.asksRandom = 8 := by
    decide +kernel
  have hbyte : RandomSource.seedByte 42 8 = 0xD2 := by decide
  rcases hfacts with ⟨hasks, hasked⟩
  rcases random_bytes_in_order (boot {} (.ofSeed 0)).machine 42 past hseed with
    ⟨hdrawn, -⟩
  have hreg := (hdrawn 3 0x0F hasks).1
  rw [hasked, hbyte] at hreg
  exact ⟨hseed, hasks, hbyte, hreg⟩

end Machine

end Chip8
