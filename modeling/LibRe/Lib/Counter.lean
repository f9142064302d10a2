/-
LibRe.Lib.Counter — a counter seen through its low digits.

A sender counts without bound and shows the count modulo `2 * w`. A receiver
that knows a count `h` near the sender's count `i` can tell from the two
remainders whether `i` is in the same epoch (the same quotient), the next or
the one before: `epoch_cases` gives the three cases with what holds of the
remainders in each, and the three conditions exclude each other.
-/
import Mathlib.Tactic

namespace LibRe.Counter

variable {w h i : Nat}

/-- A count at most `w` ahead is not two epochs ahead. -/
theorem div_le_succ_of_le_add (hw : 0 < w) (ahead : i ≤ h + w) : i / (2 * w) ≤ h / (2 * w) + 1 := by
  have hle : i / (2 * w) ≤ (h + 2 * w) / (2 * w) := Nat.div_le_div_right (by omega)
  rwa [Nat.add_div_right h (by omega)] at hle

/-- Two counts that are at most `w` apart, `i` ahead or less than `w` behind:
the epochs and what the remainders show of them. -/
theorem epoch_cases (hw : 0 < w) (ahead : i ≤ h + w) (behind : h < i + w) :
    (i / (2 * w) = h / (2 * w) ∧ i % (2 * w) ≤ h % (2 * w) + w ∧ h % (2 * w) < i % (2 * w) + w) ∨
    (i / (2 * w) = h / (2 * w) + 1 ∧ i % (2 * w) + w ≤ h % (2 * w)) ∨
    (i / (2 * w) + 1 = h / (2 * w) ∧ h % (2 * w) + w < i % (2 * w)) := by
  have hup := div_le_succ_of_le_add hw ahead
  have hdown := div_le_succ_of_le_add hw (le_of_lt behind)
  have hi := Nat.div_add_mod i (2 * w)
  have hh := Nat.div_add_mod h (2 * w)
  rcases lt_trichotomy (i / (2 * w)) (h / (2 * w)) with hlt | heq | hgt
  · have hq : i / (2 * w) + 1 = h / (2 * w) := by omega
    rw [← hq, mul_add, mul_one] at hh
    exact .inr (.inr ⟨hq, by omega⟩)
  · rw [heq] at hi
    exact .inl ⟨heq, by omega, by omega⟩
  · have hq : i / (2 * w) = h / (2 * w) + 1 := by omega
    rw [hq, mul_add, mul_one] at hi
    exact .inr (.inl ⟨hq, by omega⟩)

end LibRe.Counter
