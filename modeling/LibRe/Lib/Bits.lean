/-
LibRe.Lib.Bits — byte strings as bit strings.

The bits of a byte come highest first, and so do the digits of a number
(`ofBits`). `takeBits` is the reader over a bit string: a number of `n` bits, or
zero and nothing taken when there are not as many.
-/
import Mathlib.Data.Nat.Bitwise
import Mathlib.Tactic

namespace LibRe.Bits

open List

/-- The bits of a byte. -/
def byteBits (b : UInt8) : List Bool := (List.range 8).map fun i => b.toNat.testBit (7 - i)

/-- The bits of a byte string. -/
def bitsOfBytes : List UInt8 → List Bool
  | [] => []
  | b :: bs => byteBits b ++ bitsOfBytes bs

/-- The number whose digits are the bits, behind the digits of `x`. -/
def ofBitsFrom (x : Nat) : List Bool → Nat
  | [] => x
  | b :: bs => ofBitsFrom (2 * x + b.toNat) bs

/-- The number whose digits are the bits. -/
def ofBits (bs : List Bool) : Nat := ofBitsFrom 0 bs

/-- A number of `n` bits from the front, and the bits behind it. -/
def takeBits (n : Nat) (bs : List Bool) : Nat × List Bool :=
  if bs.length < n then (0, bs) else (ofBits (bs.take n), bs.drop n)

@[simp] theorem length_bitsOfBytes (bs : List UInt8) : (bitsOfBytes bs).length = 8 * bs.length := by
  induction bs with
  | nil => rfl
  | cons b bs ih =>
    simp [bitsOfBytes, byteBits]
    omega

/-- The bit at a position. -/
theorem getElem?_bitsOfBytes (bs : List UInt8) : ∀ {pos : Nat}, pos < 8 * bs.length →
    (bitsOfBytes bs)[pos]? = some ((bs.getD (pos / 8) 0).toNat.testBit (7 - pos % 8)) := by
  induction bs with
  | nil => exact fun h => absurd h (Nat.not_lt_zero _)
  | cons b bs ih =>
    intro pos hpos
    have hbyte : (byteBits b).length = 8 := by rw [byteBits, length_map, length_range]
    rw [bitsOfBytes]
    by_cases hfirst : pos < 8
    · rw [getElem?_append_left (by omega), byteBits, getElem?_map,
        getElem?_range hfirst, Option.map_some, Nat.div_eq_of_lt hfirst, Nat.mod_eq_of_lt hfirst]
      rfl
    · rw [length_cons] at hpos
      have hdiv : pos / 8 = (pos - 8) / 8 + 1 := by omega
      have hmod : pos % 8 = (pos - 8) % 8 := by omega
      rw [getElem?_append_right (by omega), hbyte, ih (by omega), hdiv, hmod, getD_cons_succ]

theorem ofBitsFrom_lt (bs : List Bool) : ∀ {x n : Nat}, x < 2 ^ n →
    ofBitsFrom x bs < 2 ^ (n + bs.length) := by
  induction bs with
  | nil => exact fun h => h
  | cons b bs ih =>
    intro x n h
    have hnext : 2 * x + b.toNat < 2 ^ (n + 1) := by
      have hbit := b.toNat_le
      omega
    have hrest := ih hnext
    rwa [add_assoc, add_comm 1] at hrest

theorem ofBits_lt (bs : List Bool) : ofBits bs < 2 ^ bs.length := by
  have h := ofBitsFrom_lt bs (show 0 < 2 ^ 0 by decide)
  rwa [zero_add] at h

theorem takeBits_lt (n : Nat) (bs : List Bool) : (takeBits n bs).1 < 2 ^ n := by
  unfold takeBits
  split
  · exact Nat.two_pow_pos n
  · grind [ofBits_lt, length_take]

theorem takeBits_of_le {n : Nat} {bs : List Bool} (h : n ≤ bs.length) :
    takeBits n bs = (ofBits (bs.take n), bs.drop n) := if_neg (by omega)

/-! ## Writing -/

/-- The `n` lowest digits of a number, highest first. -/
def numBits : Nat → Nat → List Bool
  | 0, _ => []
  | n + 1, v => v.testBit n :: numBits n v

@[simp] theorem length_numBits (n v : Nat) : (numBits n v).length = n := by
  induction n with
  | zero => rfl
  | succ n ih => rw [numBits, length_cons, ih]

theorem ofBitsFrom_numBits (n v : Nat) : ∀ x : Nat, ofBitsFrom x (numBits n v) = x * 2 ^ n +
    v % 2 ^ n := by
  induction n with
  | zero =>
    intro x
    rw [Nat.pow_zero, Nat.mod_one, mul_one]
    rfl
  | succ n ih =>
    intro x
    have hmod : v % 2 ^ (n + 1) = v % 2 ^ n + 2 ^ n * (v.testBit n).toNat := by
      rw [pow_succ, Nat.mod_mul, Nat.toNat_testBit]
    rw [numBits, ofBitsFrom, ih, hmod, pow_succ]
    ring

/-- What was written is read. -/
theorem takeBits_numBits {n v : Nat} (h : v < 2 ^ n) (rest : List Bool) :
    takeBits n (numBits n v ++ rest) = (v, rest) := by
  rw [takeBits_of_le (by rw [length_append, length_numBits]; omega),
    take_left' (length_numBits n v), drop_left' (length_numBits n v), ofBits, ofBitsFrom_numBits,
    Nat.mod_eq_of_lt h, zero_mul, zero_add]

/-- The lowest digit comes last. -/
theorem numBits_succ (n v : Nat) : numBits (n + 1) v = numBits n (v / 2) ++ numBits 1 v := by
  induction n with
  | zero => rfl
  | succ n ih =>
    rw [numBits, ih, Nat.testBit_succ]
    rfl

/-- A bit of a byte string is changed by changing one byte. -/
theorem bitsOfBytes_set {bs : List UInt8} {pos : Nat} {x : UInt8} {bit : Bool}
    (hpos : pos < 8 * bs.length)
    (hx : ∀ k < 8, x.toNat.testBit k = if k = 7 - pos % 8 then bit
      else (bs.getD (pos / 8) 0).toNat.testBit k) :
    bitsOfBytes (bs.set (pos / 8) x) = (bitsOfBytes bs).set pos bit := by
  refine ext_getElem? fun i => ?_
  rw [getElem?_set, length_bitsOfBytes]
  by_cases hi : i < 8 * bs.length
  · rw [getElem?_bitsOfBytes _ (by rw [length_set]; exact hi), getElem?_bitsOfBytes _ hi]
    by_cases hbyte : i / 8 = pos / 8
    · have hget : (bs.set (pos / 8) x).getD (i / 8) 0 = x := by
        grind
      rw [hget, hx _ (by omega), hbyte]
      by_cases hbit : pos = i
      · rw [if_pos (by rw [hbit]), if_pos hbit, if_pos hpos]
      · rw [if_neg (by omega), if_neg hbit]
    · simp [Ne.symm, hbyte]
      omega
  · simp_all

theorem bitsOfBytes_append (xs ys : List UInt8) :
    bitsOfBytes (xs ++ ys) = bitsOfBytes xs ++ bitsOfBytes ys := by
  induction xs with
  | nil => rfl
  | cons x xs ih => rw [cons_append, bitsOfBytes, ih, bitsOfBytes, append_assoc]

end LibRe.Bits
