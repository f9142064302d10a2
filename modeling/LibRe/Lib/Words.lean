/-
LibRe.Lib.Words — numbers of any width in network order.

`ofBe` reads all bytes of a list as one number; `hexBytes` of `LibRe.Lib.Bytes`
writes the lowest bytes of a number. The fields of a wire format that are three
or eight bytes wide, and those in the other byte order, are read and written
with these.
-/
import LibRe.Lib.Bytes

namespace LibRe.Bytes

open List

/-- The number whose bytes are `xs`, highest first. -/
def ofBe (xs : Bytes) : Nat := xs.foldl (fun n b => n * 256 + b.toNat) 0

@[simp] theorem ofBe_concat (xs : Bytes) (b : UInt8) :
    ofBe (xs ++ [b]) = ofBe xs * 256 + b.toNat := by
  simp [ofBe]

theorem ofBe_lt (xs : Bytes) : ofBe xs < 256 ^ xs.length := by
  induction xs using List.reverseRecOn with
  | nil => decide
  | append_singleton xs b ih =>
    have hb : b.toNat < 256 := b.toNat_lt
    rw [ofBe_concat, length_append, length_singleton, pow_succ]
    omega

@[simp] theorem length_hexBytes (n v : Nat) : (hexBytes n v).length = n := by
  simp [hexBytes]

/-- The lowest byte comes last. -/
theorem hexBytes_succ (n v : Nat) :
    hexBytes (n + 1) v = hexBytes n (v / 256) ++ [UInt8.ofNat v] := by
  have hinit : ∀ i ∈ List.range n,
      UInt8.ofNat (v / 256 ^ (n + 1 - 1 - i)) = UInt8.ofNat (v / 256 / 256 ^ (n - 1 - i)) := by
    intro i hi
    have hlt := mem_range.mp hi
    have hexp : n + 1 - 1 - i = 1 + (n - 1 - i) := by omega
    rw [hexp, pow_add, Nat.pow_one, Nat.div_div_eq_div_mul]
  rw [hexBytes, range_succ, map_append, map_congr_left hinit, hexBytes]
  simp

/-- Reading back what was written. -/
theorem ofBe_hexBytes (n v : Nat) : ofBe (hexBytes n v) = v % 256 ^ n := by
  induction n generalizing v with
  | zero => simp [hexBytes, ofBe, Nat.mod_one]
  | succ n ih =>
    simp [hexBytes_succ, Nat.pow_succ', Nat.mod_mul, ih]
    omega

end LibRe.Bytes
