/-
LibRe.Lib.First — the first position of a property.

`First P len p q` says that a search from `p` ends at `q`: at the first position
from `p` on that has the property, or at `len` when there is none. A loop that
searches is proved by the rules for one position and for four.
-/
import Mathlib.Tactic

namespace LibRe

/-- The search from `p` ends at `q`. -/
structure First (P : Nat → Prop) (len p q : Nat) : Prop where
  ge : p ≤ q
  le : q ≤ len
  none : ∀ k, p ≤ k → k < q → ¬ P k
  found : q < len → P q

variable {P : Nat → Prop} {len p q : Nat}

theorem First.here (h : P p) (hp : p ≤ len) : First P len p p :=
  ⟨le_refl _, hp, fun _ hk hlt => absurd hk (Nat.not_le.mpr hlt), fun _ => h⟩

theorem First.end_of_none (hp : p ≤ len) (h : ∀ k, p ≤ k → ¬ P k) : First P len p len :=
  ⟨hp, le_refl _, fun k hk _ => h k hk, fun hlt => absurd hlt (lt_irrefl _)⟩

/-- A position without the property is passed. -/
theorem First.step (h : ¬ P p) (hrest : First P len (p + 1) q) : First P len p q := by
  refine ⟨le_trans (Nat.le_succ p) hrest.ge, hrest.le, fun k hk hlt => ?_, hrest.found⟩
  by_cases heq : k = p
  · rw [heq]
    exact h
  · exact hrest.none k (by omega) hlt

/-- A search ends at one position only. -/
theorem First.unique {q' : Nat} (h : First P len p q) (h' : First P len p q') : q = q' := by
  rcases lt_trichotomy q q' with hlt | heq | hlt
  · exact absurd (h.found (lt_of_lt_of_le hlt h'.le)) (h'.none q h.ge hlt)
  · exact heq
  · exact absurd (h'.found (lt_of_lt_of_le hlt h.le)) (h.none q' h'.ge hlt)

end LibRe
