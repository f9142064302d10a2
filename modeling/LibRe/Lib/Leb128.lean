/-
LibRe.Lib.Leb128 — numbers in groups of seven bits.

The little-endian base-128 format: every byte holds seven bits of the number,
and all bytes but the last have their highest bit set. Encoder and decoder take
the number of groups they may use, as a loop over a machine word does; for a
number that fits, `decode_encode` is the round trip and `length_encode` gives
the length as a logarithm.
-/
import Mathlib.Tactic

namespace LibRe.Leb128

/-- The number of groups of a number. -/
def groups (v : Nat) : Nat := Nat.log 128 v + 1

/-- The groups of a number, at most `n + 1` of them. -/
def encode : Nat → Nat → List UInt8
  | 0, v => [UInt8.ofNat v]
  | n + 1, v =>
    if v ≥ 128 then UInt8.ofNat (128 + v % 128) :: encode n (v / 128) else [UInt8.ofNat v]

/-- A number from the front of a byte list, of at most `n` groups, and the bytes
behind it. A number that has more is cut there; a list that ends too early has
none. -/
def decode : Nat → List UInt8 → Option (Nat × List UInt8)
  | 0, bs => some (0, bs)
  | _ + 1, [] => none
  | n + 1, b :: bs =>
    if b.toNat < 128 then some (b.toNat, bs)
    else (decode n bs).map fun r => (b.toNat % 128 + 128 * r.1, r.2)

variable {v : Nat}

theorem groups_of_lt (h : v < 128) : groups v = 1 := by
  rw [groups, Nat.log_of_lt h]

theorem groups_of_ge (h : 128 ≤ v) : groups v = groups (v / 128) + 1 := by
  rw [groups, groups, Nat.log_of_one_lt_of_le (by decide) h]

theorem groups_mono {v' : Nat} (h : v ≤ v') : groups v ≤ groups v' :=
  Nat.succ_le_succ (Nat.log_mono_right h)

/-- The number of groups in terms of the number. -/
theorem groups_le_div (v : Nat) : groups v ≤ v / 128 + 1 := by
  by_cases h : v < 128
  · rw [groups_of_lt h]
    omega
  · have hne : v / 128 ≠ 0 := by omega
    have hlog := Nat.log_lt_self 128 hne
    rw [groups_of_ge (by omega), groups]
    omega

/-- Taking as many bytes away from a number as it has groups costs one group at most. -/
theorem groups_le_groups_sub {w : Nat} (h : v < w + groups v) : groups v ≤ groups w + 1 := by
  by_cases hv : v < 128
  · rw [groups_of_lt hv]
    omega
  have hdiv : v / 128 ≤ w := by
    have hle := groups_le_div v
    omega
  have hmono := groups_mono hdiv
  rw [groups_of_ge (by omega)]
  omega

/-- The length of an encoded number. -/
theorem length_encode (n : Nat) : ∀ {v : Nat}, v < 128 ^ (n + 1) → (encode n v).length =
    groups v := by
  induction n with
  | zero =>
    intro v h
    rw [groups_of_lt (by simpa using h)]
    rfl
  | succ n ih =>
    intro v h
    by_cases hv : v ≥ 128
    · have hlt : v / 128 < 128 ^ (n + 1) := by
        omega
      rw [encode, if_pos hv, List.length_cons, ih hlt, groups_of_ge hv]
    · simp_all [groups_of_lt, if_neg, encode]

theorem decode_last (m : Nat) (h : v < 128) (rest : List UInt8) :
    decode (m + 1) (UInt8.ofNat v :: rest) = some (v, rest) := by
  have hval : (UInt8.ofNat v).toNat = v := by
    simp
    omega
  rw [decode, hval, if_pos h]

/-- The round trip, for a number that fits the groups of both sides. -/
theorem decode_encode (n : Nat) : ∀ {m v : Nat} (rest : List UInt8), v < 128 ^ (n + 1) →
    v < 128 ^ (m + 1) → decode (m + 1) (encode n v ++ rest) = some (v, rest) := by
  induction n with
  | zero =>
    intro m v rest h _
    exact decode_last m (by simpa using h) rest
  | succ n ih =>
    intro m v rest h hm
    by_cases hv : v ≥ 128
    · have hlt : ∀ k, v < 128 ^ (k + 1 + 1) → v / 128 < 128 ^ (k + 1) := by
        omega
      have hbyte : (UInt8.ofNat (128 + v % 128)).toNat = 128 + v % 128 := by
        simp
        omega
      cases m with
      | zero =>
        omega
      | succ m =>
        rw [encode, if_pos hv, List.cons_append, decode, hbyte, if_neg (by omega),
          ih rest (hlt n h) (hlt m hm), Option.map_some]
        have hsum : (128 + v % 128) % 128 + 128 * (v / 128) = v := by omega
        rw [hsum]
    · rw [encode, if_neg hv]
      exact decode_last m (by omega) rest

end LibRe.Leb128
