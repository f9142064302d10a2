/-
LibRe.Lib.SlidingWindow — a sliding window over the natural numbers that lets
each number pass at most once.

The window remembers the highest number that has passed (`top`) and one bit
for each of the `w` numbers up to it. A number above `top` passes and moves the
window; a number inside the window passes when its bit is clear; a number below
the window is refused, because nothing is remembered about it any more.

`Refused` is the one predicate the results are about: the numbers the window
would turn away now. `check_eq_none_iff` says that it is exactly that, and
`refused_check_iff` how it changes when a number passes.
-/
import Mathlib.Data.Nat.Bitwise
import Mathlib.Tactic

namespace LibRe.SlidingWindow

/-- The highest number passed so far, and the bits of the numbers up to it:
bit `k` stands for `top - k`. -/
structure Window where
  top : Nat
  bits : Nat
  deriving DecidableEq, Repr

variable {w : Nat} {win win' : Window} {i j : Nat}

/-- One number offered to a window of width `w`: the window after it when it
passes, `none` when it is refused. -/
def check (w : Nat) (win : Window) (i : Nat) : Option Window :=
  if win.top < i then
    some ⟨i, if i - win.top < w then (win.bits <<< (i - win.top) ||| 1) % 2 ^ w else 1⟩
  else if w ≤ win.top - i then none
  else if win.bits.testBit (win.top - i) then none
  else some ⟨win.top, win.bits ||| 1 <<< (win.top - i)⟩

/-- The numbers the window turns away: those behind it and those marked in it. -/
def Refused (w : Nat) (win : Window) (i : Nat) : Prop :=
  i ≤ win.top ∧ (w ≤ win.top - i ∨ win.bits.testBit (win.top - i) = true)

/-- What one offer can do, with every guard. -/
theorem check_cases (h : check w win i = some win') :
    (win.top < i ∧ i - win.top < w ∧
        win' = ⟨i, (win.bits <<< (i - win.top) ||| 1) % 2 ^ w⟩) ∨
    (win.top < i ∧ w ≤ i - win.top ∧ win' = ⟨i, 1⟩) ∨
    (i ≤ win.top ∧ win.top - i < w ∧ win.bits.testBit (win.top - i) = false ∧
        win' = ⟨win.top, win.bits ||| 1 <<< (win.top - i)⟩) := by
  unfold check at h
  split at h
  · rename_i hlt
    by_cases hw : i - win.top < w
    · simp only [hw, if_true, Option.some.injEq] at h
      exact .inl ⟨hlt, hw, h.symm⟩
    · simp only [hw, if_false, Option.some.injEq] at h
      exact .inr (.inl ⟨hlt, by omega, h.symm⟩)
  · split at h
    · cases h
    split at h
    · cases h
    · rename_i h1 h2 h3
      simp only [Option.some.injEq] at h
      exact .inr (.inr ⟨by omega, by omega, by simpa using h3, h.symm⟩)

/-- The window refuses exactly the numbers behind it or marked in it. -/
theorem check_eq_none_iff : check w win i = none ↔ Refused w win i := by
  unfold check Refused
  by_cases hlt : win.top < i
  · simp [hlt]
  · have hle : i ≤ win.top := by omega
    by_cases hw : w ≤ win.top - i
    · simp [hlt, hw, hle]
    · simp [hlt, hw, hle]

/-- Behind a number that passes, that number is refused and those that the window has left
behind, besides those that were refused before. -/
theorem refused_check_iff (hw : 0 < w) (h : check w win i = some win') :
    Refused w win' j ↔ j = i ∨ Refused w win j ∨ j + w ≤ win'.top := by
  have hone := @Nat.testBit_one_eq_true_iff_self_eq_zero
  rcases check_cases h with ⟨hlt, hd, rfl⟩ | ⟨hlt, hd, rfl⟩ | ⟨hle, hd, hclear, rfl⟩
  · -- a bit has moved up by the distance the top moved
    have hshift : j ≤ win.top → i - j - (i - win.top) = win.top - j := by omega
    simp only [Refused, Nat.testBit_mod_two_pow, Nat.testBit_or, Nat.testBit_shiftLeft]
    by_cases hj : j ≤ win.top
    · rw [hshift hj]
      generalize win.bits.testBit (win.top - j) = b
      cases b <;> simp [hone] <;> omega
    · simp [hone]
      omega
  · simp [Refused, hone]
    omega
  · simp only [Refused, Nat.testBit_or, Nat.testBit_shiftLeft]
    generalize win.bits.testBit (win.top - j) = b
    cases b <;> simp [hone] <;> omega

end LibRe.SlidingWindow
