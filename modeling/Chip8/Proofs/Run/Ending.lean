import Chip8.Proofs.Influence.Random
import Chip8.Proofs.Run.Rounds

/-!
# How runs end

Either every round of a run succeeds, or one of them is the first to fail.  The
random source has no part in it while no mask lets anything of it through: another
source leads to the same ending, and to a machine that differs in its source only.
-/

namespace Chip8.Machine

theorem succeeds_or_fails (m : Machine) (held : Keypad) (count : Nat) :
    (∀ round, round < count → (m.atStep held round).step.result = .ok ()) ∨
    ∃ round cause, round < count ∧
      (∀ earlier, earlier < round → (m.atStep held earlier).step.result = .ok ()) ∧
      (m.atStep held round).step.result = .error cause := by
  induction count with
  | zero =>
      left
      intro round hround
      cases hround
  | succ count ih =>
      rcases ih with hsucceed | ⟨round, cause, hround, hearlier, hfail⟩
      · cases hlast : (m.atStep held count).step.result with
        | error cause =>
            exact .inr ⟨count, cause, Nat.lt_succ_self count, hsucceed, hlast⟩
        | ok done =>
            left
            intro round hround
            rcases Nat.lt_succ_iff_lt_or_eq.mp hround with hbefore | rfl
            · exact hsucceed round hbefore
            · exact hlast
      · exact .inr ⟨round, cause, Nat.lt_succ_of_lt hround, hearlier, hfail⟩

theorem run_eq_ok {m final : Machine} {held : Keypad} {count : Nat}
    {summary : Summary} (h : m.run held count = ⟨final, .ok summary⟩) :
    (∀ round, round < count → (m.atStep held round).step.result = .ok ()) ∧
      final = m.rounds held count ∧ summary = m.summarize held count := by
  rcases m.succeeds_or_fails held count with
    hsucceed | ⟨round, cause, hround, hearlier, hfail⟩
  · rw [run_of_succeeds hsucceed] at h
    cases h
    exact ⟨hsucceed, rfl, rfl⟩
  · rw [run_of_fails hround hearlier hfail] at h
    cases h

end Chip8.Machine
