import Chip8.Machine.Load

/-!
# Reading a program from a source

However a source hands out its bytes, whoever reads it up to a limit ends with
the same: the bytes it holds, as far as the limit, or its failure, if that comes
before the end of the bytes and before the limit.  So a machine that is switched
on with a program from a source depends on the bytes alone.
-/

namespace Chip8

namespace ByteSource

def contents (source : ByteSource) (limit : Nat) : Except String (List UInt8) :=
  match source.breakdown with
  | none => .ok (source.pending.take limit)
  | some breakdown =>
      if breakdown.after < limit ∧ breakdown.after ≤ source.pending.length
      then .error breakdown.reason
      else .ok (source.pending.take limit)

/--
All ways to read a source up to a limit, in portions of any size.  A read gets at
least one byte if there is one, and at most as many as are left, wanted and to be
had before the breakdown.
-/
inductive Reading : Nat → ByteSource → Except String (List UInt8) → Prop
  | enough (source : ByteSource) : Reading 0 source (.ok [])
  | ended {limit : Nat} {source : ByteSource} (hpending : source.pending = [])
      (hopen : ∀ breakdown, source.breakdown = some breakdown →
        0 < breakdown.after) :
      Reading limit source (.ok [])
  | broken {limit : Nat} {source : ByteSource} {reason : String}
      (hlimit : 0 < limit)
      (hbroken : source.breakdown = some ⟨0, reason⟩) :
        Reading limit source (.error reason)
  | portion {limit count : Nat} {source : ByteSource}
      {result : Except String (List UInt8)}
      (hcount : 0 < count) (hwanted : count ≤ limit)
      (hleft : count ≤ source.pending.length)
      (hopen : ∀ breakdown, source.breakdown = some breakdown →
        count ≤ breakdown.after)
      (hrest : Reading (limit - count) (source.drop count) result) :
      Reading limit source (result.map fun rest =>
        source.pending.take count ++ rest)

/-! ## Every reading ends the same -/

theorem contents_drop {source : ByteSource} {limit count : Nat}
    (hwanted : count ≤ limit) (hleft : count ≤ source.pending.length)
    (hopen : ∀ breakdown, source.breakdown = some breakdown →
      count ≤ breakdown.after) :
    ((source.drop count).contents (limit - count)).map
        (fun rest => source.pending.take count ++ rest) =
          source.contents limit := by
  have htake : source.pending.take count ++ (source.pending.drop count).take
    (limit - count) =
      source.pending.take limit := by
    rw [← List.take_add, Nat.add_sub_cancel' hwanted]
  obtain ⟨pending, portion, breakdown⟩ := source
  cases breakdown with
  | none => simp only [contents, drop, Option.map_none, Except.map, htake]
  | some breakdown =>
      have hafter := hopen breakdown rfl
      have hsame : breakdown.after - count < limit - count ∧
            breakdown.after - count ≤ (pending.drop count).length ↔
          breakdown.after < limit ∧ breakdown.after ≤ pending.length := by
        rw [List.length_drop]
        simp only at hleft
        omega
      simp only [contents, drop, Option.map_some, hsame]
      split
      · rfl
      · simp only [Except.map, htake]

theorem Reading.eq_contents {limit : Nat} {source : ByteSource}
    {result : Except String (List UInt8)} (h : Reading limit source result) :
    result = source.contents limit := by
  induction h with
  | enough source =>
      unfold contents
      cases source.breakdown <;> simp
  | @ended limit source hpending hopen =>
      unfold contents
      cases hbreakdown : source.breakdown with
      | none => simp [hpending]
      | some breakdown =>
          have hlater : ¬breakdown.after ≤ 0 :=
            Nat.not_le.mpr (hopen breakdown hbreakdown)
          simp [hpending, hlater]
  | broken hlimit hbroken => simp [contents, hbroken, hlimit]
  | portion _ hwanted hleft hopen _ ih => rw [ih, contents_drop hwanted hleft hopen]

/-! ## The loop is one of the readings -/

theorem read_eq_error {source : ByteSource} {wanted : Nat} {reason : String}
    (h : source.read wanted = .error reason) :
    source.breakdown = some ⟨0, reason⟩ := by
  unfold read at h
  split at h
  next hbreakdown =>
    cases h
    exact hbreakdown
  next => cases h

theorem read_eq_ok {source remaining : ByteSource} {wanted : Nat}
    {bytes : List UInt8} (h : source.read wanted = .ok (bytes, remaining)) :
    bytes = source.pending.take (source.allowance wanted) ∧
      remaining = source.drop bytes.length ∧
      ∀ breakdown, source.breakdown = some breakdown → 0 < breakdown.after := by
  unfold read at h
  split at h
  next => cases h
  next hopen =>
    cases h
    refine ⟨rfl, rfl, ?_⟩
    rintro ⟨after, reason⟩ hbreakdown
    refine Nat.pos_of_ne_zero ?_
    rintro rfl
    exact hopen reason hbreakdown

def portioned (source : ByteSource) (wanted : Nat) : Nat :=
  match source.portion with
  | none => wanted
  | some portion => min wanted portion

theorem allowance_eq (source : ByteSource) (wanted : Nat) :
    source.allowance wanted =
      match source.breakdown with
      | none => source.portioned wanted
      | some breakdown => min (source.portioned wanted) breakdown.after := rfl

theorem portioned_le (source : ByteSource) (wanted : Nat) :
    source.portioned wanted ≤ wanted := by
  unfold portioned
  split
  next => exact Nat.le_refl wanted
  next => exact Nat.min_le_left _ _

theorem portioned_pos {source : ByteSource} {wanted : Nat} (hwanted : 0 < wanted)
    (hportion : source.portion ≠ some 0) : 0 < source.portioned wanted := by
  unfold portioned
  split
  next => exact hwanted
  next portion hsome =>
    refine Nat.lt_min.mpr ⟨hwanted, Nat.pos_of_ne_zero ?_⟩
    rintro rfl
    exact hportion hsome

theorem allowance_le (source : ByteSource) (wanted : Nat) :
    source.allowance wanted ≤ wanted ∧
      ∀ breakdown, source.breakdown = some breakdown →
        source.allowance wanted ≤ breakdown.after := by
  have hportioned := source.portioned_le wanted
  rw [allowance_eq]
  cases source.breakdown with
  | none => exact ⟨hportioned, by rintro breakdown ⟨⟩⟩
  | some breakdown =>
      refine ⟨Nat.le_trans (Nat.min_le_left _ _) hportioned, ?_⟩
      rintro _ ⟨⟩
      exact Nat.min_le_right _ _

theorem allowance_pos {source : ByteSource} {wanted : Nat} (hwanted : 0 < wanted)
    (hportion : source.portion ≠ some 0)
    (hopen : ∀ breakdown, source.breakdown = some breakdown → 0 < breakdown.after) :
    0 < source.allowance wanted := by
  have hportioned := portioned_pos hwanted hportion
  rw [allowance_eq]
  cases hbreakdown : source.breakdown with
  | none => exact hportioned
  | some breakdown => exact Nat.lt_min.mpr ⟨hportioned, hopen breakdown hbreakdown⟩

theorem reading_of_read {source remaining : ByteSource} {limit : Nat}
    {bytes : List UInt8} {result : Except String (List UInt8)}
    (hread : source.read limit = .ok (bytes, remaining)) (hbytes : bytes ≠ [])
    (hrest : Reading (limit - bytes.length) remaining result) :
    Reading limit source (result.map fun rest => bytes ++ rest) := by
  rcases read_eq_ok hread with ⟨htake, rfl, -⟩
  rcases source.allowance_le limit with ⟨hwanted, hopen⟩
  have hfront : source.pending.take bytes.length = bytes :=
    (List.prefix_iff_eq_take.mp (htake ▸ List.take_prefix _ _)).symm
  have hallowed : bytes.length ≤ source.allowance limit :=
    htake ▸ List.length_take_le _ _
  have hleft : bytes.length ≤ source.pending.length :=
    htake ▸ List.length_take_le' _ _
  have hportion := Reading.portion (List.length_pos_iff.mpr hbytes)
    (Nat.le_trans hallowed hwanted) hleft
    (fun breakdown hbreakdown => Nat.le_trans hallowed (hopen breakdown hbreakdown))
      hrest
  rwa [hfront] at hportion

theorem reading_of_read_nil {source remaining : ByteSource} {limit : Nat}
    (hlimit : 0 < limit) (hportion : source.portion ≠ some 0)
    (hread : source.read limit = .ok ([], remaining)) :
    Reading limit source (.ok []) := by
  rcases read_eq_ok hread with ⟨htake, -, hopen⟩
  refine .ended ?_ hopen
  rcases List.take_eq_nil_iff.mp htake.symm with hzero | hpending
  · exact absurd hzero (Nat.ne_of_gt (allowance_pos hlimit hportion hopen))
  · exact hpending

theorem portion_of_read {source remaining : ByteSource} {wanted : Nat}
    {bytes : List UInt8} (hread : source.read wanted = .ok (bytes, remaining)) :
    remaining.portion = source.portion := by
  rcases read_eq_ok hread with ⟨-, rfl, -⟩
  rfl

theorem reading_readUpTo (limit : Nat) (source : ByteSource)
    (hportion : source.portion ≠ some 0) :
    Reading limit source (source.readUpTo limit) := by
  -- Every read keeps the size of the portions, so none but the last gets nothing.
  fun_induction readUpTo limit source with
  | case1 source => exact .enough source
  | case2 limit source hlimit reason hread =>
      exact .broken (Nat.pos_of_ne_zero hlimit) (read_eq_error hread)
  | case3 limit source hlimit remaining hread =>
      exact reading_of_read_nil (Nat.pos_of_ne_zero hlimit) hportion hread
  | case4 limit source hlimit byte rest remaining hread reason hmore ih =>
      have hrest := ih (portion_of_read hread ▸ hportion)
      rw [hmore] at hrest
      exact reading_of_read hread (by simp) hrest
  | case5 limit source hlimit byte rest remaining hread more hmore ih =>
      have hrest := ih (portion_of_read hread ▸ hportion)
      rw [hmore] at hrest
      exact reading_of_read hread (by simp) hrest

theorem readUpTo_eq_contents (limit : Nat) {source : ByteSource}
    (hportion : source.portion ≠ some 0) :
    source.readUpTo limit = source.contents limit :=
  (reading_readUpTo limit source hportion).eq_contents

/-! ## Breaking down in time -/

/-- The source breaks down by the end of its bytes, and before a reader stops. -/
def BreaksBefore (source : ByteSource) (limit : Nat) : Prop :=
  ∃ breakdown, source.breakdown = some breakdown ∧
    breakdown.after ≤ source.pending.length ∧ breakdown.after < limit

theorem contents_of_breakdown {source : ByteSource} {limit : Nat}
    {breakdown : Breakdown} (hbreakdown : source.breakdown = some breakdown)
    (hleft : breakdown.after ≤ source.pending.length)
    (hlimit : breakdown.after < limit) :
    source.contents limit = .error breakdown.reason := by
  simp [contents, hbreakdown, hleft, hlimit]

theorem contents_of_not_breaksBefore {source : ByteSource} {limit : Nat}
    (h : ¬source.BreaksBefore limit) :
    source.contents limit = .ok (source.pending.take limit) := by
  unfold contents
  split
  next => rfl
  next breakdown hbreakdown =>
    rw [if_neg]
    rintro ⟨hlimit, hleft⟩
    exact h ⟨breakdown, hbreakdown, hleft, hlimit⟩

end ByteSource

/-! ## Switching on -/

namespace Machine

theorem bootFrom_of_breakdown {source : ByteSource} {breakdown : Breakdown}
    (hportion : source.portion ≠ some 0)
    (hbreakdown : source.breakdown = some breakdown)
    (hleft : breakdown.after ≤ source.pending.length)
    (hlimit : breakdown.after ≤ Memory.programLimit) (dialect : Dialect)
    (random : RandomSource) :
    bootFrom source dialect random = .error (.unreadable breakdown.reason) := by
  rw [bootFrom, ByteSource.readUpTo_eq_contents _ hportion,
    ByteSource.contents_of_breakdown hbreakdown hleft (Nat.lt_succ_of_le hlimit)]

theorem bootFrom_of_too_large {source : ByteSource}
    (hportion : source.portion ≠ some 0)
    (hbreaks : ¬source.BreaksBefore (Memory.programLimit + 1))
    (hlarge : Memory.programLimit < source.pending.length) (dialect : Dialect)
    (random : RandomSource) :
    bootFrom source dialect random =
      .error (.tooLarge (Memory.programLimit + 1)) := by
  have hlength : (source.pending.take (Memory.programLimit + 1)).length =
      Memory.programLimit + 1 := List.length_take_of_le hlarge
  rw [bootFrom, ByteSource.readUpTo_eq_contents _ hportion,
    ByteSource.contents_of_not_breaksBefore hbreaks]
  simp only [load, hlength]
  rfl

theorem bootFrom_of_fits {source : ByteSource} (hportion : source.portion ≠ some 0)
    (hbreaks : ¬source.BreaksBefore (Memory.programLimit + 1))
    (hfits : source.pending.length ≤ Memory.programLimit) (dialect : Dialect)
    (random : RandomSource) :
    bootFrom source dialect random =
      .ok ⟨{ powerOn dialect random with
          memory := Memory.powerOn.store Memory.programStart source.pending },
        [.initialized, .loaded source.pending.length]⟩ := by
  have htake : source.pending.take (Memory.programLimit + 1) = source.pending :=
    List.take_of_length_le (Nat.le_succ_of_le hfits)
  rw [bootFrom, ByteSource.readUpTo_eq_contents _ hportion,
    ByteSource.contents_of_not_breaksBefore hbreaks, htake]
  simp only [load, if_pos hfits]
  rfl

/--
What becomes of a machine that is switched on with a program from a source is
settled by the bytes of the source and the point where it breaks down, and not by
the portions that it hands out.  A breakdown counts if it comes no later than the
end of the bytes and before one byte more than fits is read; without it, a
program that does not fit is refused as one of 3585 bytes, however long it is,
and any other is found in the memory of a machine that is otherwise as it is at
power-on.  Reading in portions that change from read to read ends no differently.
-/
theorem boot_depends_on_bytes {source : ByteSource}
    (hportion : source.portion ≠ some 0)
    (dialect : Dialect) (random : RandomSource) :
    (∀ breakdown, source.breakdown = some breakdown →
      breakdown.after ≤ source.pending.length → breakdown.after ≤ 3584 →
      bootFrom source dialect random = .error (.unreadable breakdown.reason)) ∧
    ((∀ breakdown, source.breakdown = some breakdown →
        ¬(breakdown.after ≤ source.pending.length ∧ breakdown.after ≤ 3584)) →
      (3584 < source.pending.length →
        bootFrom source dialect random = .error (.tooLarge 3585) ∧
        LoadError.message (.tooLarge 3585) =
          "program has 3585 bytes, but only 3584 fit in memory") ∧
      (source.pending.length ≤ 3584 → ∃ memory : Memory,
        bootFrom source dialect random =
          .ok ⟨{ powerOn dialect random with memory := memory },
            [.initialized, .loaded source.pending.length]⟩ ∧
        ∀ a, memory.read a =
          if h : 0x200 ≤ a ∧ a < 0x200 + source.pending.length then
            source.pending[a - 0x200]
          else (powerOn dialect random).memory.read a)) ∧
    (∀ other : ByteSource, other.pending = source.pending →
      other.breakdown = source.breakdown →
      other.portion ≠ some 0 →
      bootFrom other dialect random = bootFrom source dialect random) ∧
    ∀ result, source.Reading 3585 result → result = source.readUpTo 3585 := by
  refine ⟨?_, ?_, ?_, ?_⟩
  · intro breakdown hbreakdown hleft hlimit
    exact bootFrom_of_breakdown hportion hbreakdown hleft hlimit dialect random
  · intro hnone
    have hbreaks : ¬source.BreaksBefore (Memory.programLimit + 1) := by
      rintro ⟨breakdown, hbreakdown, hleft, hlimit⟩
      exact hnone breakdown hbreakdown ⟨hleft, Nat.le_of_lt_succ hlimit⟩
    constructor
    · intro hlarge
      exact ⟨bootFrom_of_too_large hportion hbreaks hlarge dialect random, rfl⟩
    · intro hfits
      refine ⟨_, bootFrom_of_fits hportion hbreaks hfits dialect random, ?_⟩
      intro a
      rw [Memory.read_store]
      by_cases hcovered : 0x200 ≤ a ∧ a < 0x200 + source.pending.length
      · have hcell : a < 4096 := by omega
        rw [dif_pos ⟨hcovered.1, hcovered.2, hcell⟩, dif_pos hcovered]
      · rw [dif_neg fun hstored => hcovered ⟨hstored.1, hstored.2.1⟩,
          dif_neg hcovered]
        rfl
  · intro other hpending hbreakdown hother
    have hcontents : other.contents = source.contents := by
      funext limit
      rw [ByteSource.contents, ByteSource.contents, hpending, hbreakdown]
    rw [bootFrom, bootFrom, ByteSource.readUpTo_eq_contents _ hportion,
      ByteSource.readUpTo_eq_contents _ hother, hcontents]
  · intro result hreading
    rw [hreading.eq_contents, ByteSource.readUpTo_eq_contents 3585 hportion]

/-- A breakdown counts at the end of the longest program, and not a byte later. -/
theorem boot_depends_on_bytes_at_limit :
    let whole : ByteSource :=
      ⟨List.replicate 3584 0xAA, some 7, some ⟨3584, "broken source"⟩⟩
    let large : ByteSource :=
      ⟨List.replicate 5000 0xAA, some 7, some ⟨3585, "broken source"⟩⟩
    (whole.portion ≠ some 0 ∧ large.portion ≠ some 0) ∧
    bootFrom whole {} (.ofSeed 0) = .error (.unreadable "broken source") ∧
    bootFrom large {} (.ofSeed 0) = .error (.tooLarge 3585) := by
  intro whole large
  have hwhole : whole.portion ≠ some 0 := by simp [whole]
  have hlarge : large.portion ≠ some 0 := by simp [large]
  have hlength : whole.pending.length = 3584 ∧ large.pending.length = 5000 := by
    simp only [whole, large, List.length_replicate, and_self]
  rcases boot_depends_on_bytes hwhole {} (.ofSeed 0) with ⟨hbroken, -⟩
  rcases boot_depends_on_bytes hlarge {} (.ofSeed 0) with ⟨-, hrefused, -⟩
  refine ⟨⟨hwhole, hlarge⟩, ?_, ?_⟩
  · exact hbroken ⟨3584, "broken source"⟩ rfl (Nat.le_of_eq hlength.1.symm)
      (Nat.le_refl _)
  · have hnone : ∀ breakdown, large.breakdown = some breakdown →
        ¬(breakdown.after ≤ large.pending.length ∧ breakdown.after ≤ 3584) := by
      rintro breakdown ⟨⟩ ⟨-, hlimit⟩
      exact absurd hlimit (by decide)
    exact ((hrefused hnone).1 (by rw [hlength.2]; decide)).1

end Machine

end Chip8
