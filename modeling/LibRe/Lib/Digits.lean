/-
LibRe.Lib.Digits — numbers as text.

The decimal digits of a number are the bytes of `Nat.toDigits`; reading them from the left
gives the number back. Nothing here mentions a format.
-/
import Mathlib.Tactic

namespace LibRe.Digits

open List

/-- A decimal digit. -/
def isDigit (c : UInt8) : Bool := 48 ≤ c && c ≤ 57

/-- The digits of a number. -/
def decimal (n : Nat) : List UInt8 := (Nat.toDigits 10 n).map fun c => UInt8.ofNat c.toNat

/-- The number that digits stand for, from the left. -/
def ofDecimal (xs : List UInt8) (init : Nat) : Nat :=
  xs.foldl (fun n c => 10 * n + (c.toNat - 48)) init

theorem isDigit_ofNat_toNat {c : Char} (h : c.isDigit = true) :
    isDigit (UInt8.ofNat c.toNat) = true ∧ (UInt8.ofNat c.toNat).toNat = c.toNat := by
  have hrange : 48 ≤ c.toNat ∧ c.toNat ≤ 57 := by
    simp only [Char.isDigit, Bool.and_eq_true, decide_eq_true_eq] at h
    exact ⟨h.1, h.2⟩
  have hnat : (UInt8.ofNat c.toNat).toNat = c.toNat := by
    simp
    omega
  refine ⟨?_, hnat⟩
  simp only [isDigit, Bool.and_eq_true, decide_eq_true_eq, UInt8.le_iff_toNat_le, hnat]
  exact hrange

theorem isDigit_of_mem_decimal {n : Nat} {c : UInt8} (h : c ∈ decimal n) : isDigit c = true := by
  obtain ⟨d, hd, rfl⟩ := List.mem_map.mp h
  exact (isDigit_ofNat_toNat (Nat.isDigit_of_mem_toDigits (by decide) (by decide) hd)).1

theorem decimal_ne_nil (n : Nat) : decimal n ≠ [] := by
  intro h
  have hpos := @Nat.length_toDigits_pos 10 n
  rw [map_eq_nil_iff.mp h] at hpos
  exact lt_irrefl 0 hpos

/-- Digits are read back as the number they were made of. -/
theorem ofDecimal_decimal (n : Nat) : ofDecimal (decimal n) 0 = n := by
  have hback : ∀ (cs : List Char) (init : Nat), (∀ c ∈ cs, c.isDigit = true) →
      ofDecimal (cs.map fun c => UInt8.ofNat c.toNat) init = Nat.ofDigitChars 10 cs init := by
    intro cs
    induction cs with
    | nil => exact fun init _ => rfl
    | cons c cs ih =>
      intro init hdigits
      have hc := (isDigit_ofNat_toNat (hdigits c mem_cons_self)).2
      have hrest := ih (10 * init + (c.toNat - 48)) fun d hd => hdigits d (mem_cons_of_mem c hd)
      simp only [ofDecimal, map_cons, foldl_cons, hc] at hrest ⊢
      exact hrest
  rw [decimal, hback _ 0 fun c hc => Nat.isDigit_of_mem_toDigits (by decide) (by decide) hc]
  exact Nat.ofDigitChars_toDigits (by decide) (by decide)

/-- Digits in front count more. -/
theorem ofDecimal_init (xs : List UInt8) : ∀ init : Nat, ofDecimal xs init = init * 10 ^ xs.length +
    ofDecimal xs 0 := by
  induction xs with
  | nil => exact fun init => (mul_one init).symm
  | cons c xs ih =>
    intro init
    have hhead : ∀ n, ofDecimal (c :: xs) n = ofDecimal xs (10 * n + (c.toNat - 48)) := fun _ => rfl
    rw [hhead, hhead, ih (10 * init + (c.toNat - 48)), ih (10 * 0 + (c.toNat - 48)),
      length_cons, pow_succ]
    ring

end LibRe.Digits
