/-
LibRe.Lib.Bytes — byte lists as wire formats see them.

Three things every packet format of the library needs and Mathlib does not
have: big-endian words of two and four bytes with their inverses, a block
copied over part of a byte list (`overwrite`), and a byte list masked with a
key stream (`maskWith`), which is its own inverse.

Nothing here mentions a protocol.
-/
import Mathlib.Tactic

namespace LibRe

/-- A byte string. -/
abbrev Bytes := List UInt8

namespace Bytes

open List

variable {xs : Bytes} {α : Type} {i : Nat}

/-! ## Big-endian words -/

/-- A 16-bit word in network order. -/
def be16 (v : UInt16) : Bytes :=
  [UInt8.ofNat (v.toNat / 256), UInt8.ofNat v.toNat]

/-- A 32-bit word in network order. -/
def be32 (v : UInt32) : Bytes :=
  [UInt8.ofNat (v.toNat / 16777216), UInt8.ofNat (v.toNat / 65536),
   UInt8.ofNat (v.toNat / 256), UInt8.ofNat v.toNat]

/-- The 16-bit word at the front of a byte list, zero when it is too short. -/
def ofBe16 : Bytes → UInt16
  | a :: b :: _ => UInt16.ofNat (a.toNat * 256 + b.toNat)
  | _ => 0

/-- The 32-bit word at the front of a byte list, zero when it is too short. -/
def ofBe32 : Bytes → UInt32
  | a :: b :: c :: d :: _ =>
    UInt32.ofNat (a.toNat * 16777216 + b.toNat * 65536 + c.toNat * 256 + d.toNat)
  | _ => 0

/-- The lowest `n` bytes of a number, in the order its hexadecimal form has. -/
def hexBytes (n v : Nat) : Bytes :=
  (List.range n).map fun i => UInt8.ofNat (v / 256 ^ (n - 1 - i))

@[simp] theorem length_be16 (v : UInt16) : (be16 v).length = 2 := rfl

@[simp] theorem length_be32 (v : UInt32) : (be32 v).length = 4 := rfl

/-- Reading back a 16-bit word, whatever follows it. -/
theorem ofBe16_be16_append (v : UInt16) (rest : Bytes) : ofBe16 (be16 v ++ rest) = v := by
  have hv : v.toNat < 65536 := v.toNat_lt
  apply UInt16.toNat_inj.mp
  simp only [be16, ofBe16, cons_append, nil_append, UInt16.toNat_ofNat', UInt8.toNat_ofNat']
  omega

/-- Reading back a 32-bit word, whatever follows it. -/
theorem ofBe32_be32_append (v : UInt32) (rest : Bytes) : ofBe32 (be32 v ++ rest) = v := by
  have hv : v.toNat < 4294967296 := v.toNat_lt
  apply UInt32.toNat_inj.mp
  simp only [be32, ofBe32, cons_append, nil_append, UInt32.toNat_ofNat', UInt8.toNat_ofNat']
  omega

/-- Network order is injective on 32-bit words. -/
theorem be32_injective {v w : UInt32} (h : be32 v = be32 w) : v = w := by
  rw [← ofBe32_be32_append v [], ← ofBe32_be32_append w [], h]

/-- Network order is injective on 16-bit words. -/
theorem be16_injective {v w : UInt16} (h : be16 v = be16 w) : v = w := by
  rw [← ofBe16_be16_append v [], ← ofBe16_be16_append w [], h]

/-- A 32-bit read looks at four bytes only. -/
theorem ofBe32_append (h : 4 ≤ xs.length) (rest : Bytes) :
    ofBe32 (xs ++ rest) = ofBe32 xs := by
  match xs, h with
  | a :: b :: c :: d :: t, _ => rfl

/-- A 16-bit read looks at two bytes only. -/
theorem ofBe16_append (h : 2 ≤ xs.length) (rest : Bytes) :
    ofBe16 (xs ++ rest) = ofBe16 xs := by
  match xs, h with
  | a :: b :: t, _ => rfl

/-- Two bytes are the word they spell. -/
theorem be16_ofBe16 (h : xs.length = 2) : be16 (ofBe16 xs) = xs := by
  match xs, h with
  | [a, b], _ =>
    have ha : a.toNat < 256 := a.toNat_lt
    have hb : b.toNat < 256 := b.toNat_lt
    have hword : (ofBe16 [a, b]).toNat = a.toNat * 256 + b.toNat := by
      simp [ofBe16]
      omega
    have hhigh : (a.toNat * 256 + b.toNat) / 256 = a.toNat := by omega
    rw [be16, hword, hhigh, UInt8.ofNat_toNat]
    congr 2
    apply UInt8.toNat_inj.mp
    rw [UInt8.toNat_ofNat']
    omega

/-! ## Copying a block over part of a list -/

/-- `xs` copied over `l` from position `i` on. -/
def overwrite {α : Type} (l : List α) (i : Nat) (xs : List α) : List α :=
  l.take i ++ xs ++ l.drop (i + xs.length)

variable {l : List α}

theorem length_overwrite {xs : List α}
    (h : i + xs.length ≤ l.length) : (overwrite l i xs).length = l.length := by
  simp [overwrite]
  omega

/-- Copying right behind a prefix appends to that prefix. -/
theorem take_overwrite_end {xs : List α} (h : i + xs.length ≤ l.length) :
    (overwrite l i xs).take (i + xs.length) = l.take i ++ xs := by
  have hi : (l.take i).length = i := by rw [length_take]; omega
  have hlen : (l.take i ++ xs).length = i + xs.length := by rw [length_append, hi]
  rw [overwrite, ← hlen, take_left]

/-- A copy inside a prefix commutes with taking the prefix. -/
theorem take_overwrite_inside {n : Nat} {xs : List α} (h : i + xs.length ≤ n) (hn : n ≤ l.length) :
    (overwrite l i xs).take n = overwrite (l.take n) i xs := by
  have hi : min i n = i := by omega
  have hlen : (l.take i ++ xs).length = i + xs.length := by
    rw [length_append, length_take]; omega
  rw [overwrite, overwrite, take_append, hlen, take_of_length_le (by omega),
    take_take, hi, drop_take]

/-- What stands behind a copy stays behind it. -/
theorem overwrite_append_right {xs : List α} (h : i + xs.length ≤ l.length) (ys : List α) :
    overwrite l i xs ++ ys = overwrite (l ++ ys) i xs := by
  simp [drop_append_of_le_length, overwrite, h]
  omega

theorem drop_overwrite {xs : List α} (h : i ≤ l.length) :
    (overwrite l i xs).drop (i + xs.length) = l.drop (i + xs.length) := by
  have hlen : (l.take i ++ xs).length = i + xs.length := by
    rw [length_append, length_take_of_le h]
  rw [overwrite, ← hlen, drop_left]

/-- Copying a block over a block of the same length replaces it. -/
theorem overwrite_append (pre old rest xs : List α) (h : xs.length = old.length) :
    overwrite (pre ++ old ++ rest) pre.length xs = pre ++ xs ++ rest := by
  simp [overwrite, h]

/-! ## Masking with a key stream -/

/-- Each byte xored with the key-stream byte at its position. -/
def maskWith (ks : Nat → UInt8) (xs : Bytes) : Bytes :=
  xs.mapIdx (fun i b => b ^^^ ks i)

@[simp] theorem length_maskWith (ks : Nat → UInt8) (xs : Bytes) :
    (maskWith ks xs).length = xs.length := by
  simp [maskWith]

/-- Masking twice with one key stream gives the bytes back. -/
theorem maskWith_maskWith (ks : Nat → UInt8) (xs : Bytes) :
    maskWith ks (maskWith ks xs) = xs := by
  apply ext_getElem
  · simp
  · simp [UInt8.xor_assoc, maskWith]

/-- Two byte lists xored position by position. -/
def xorBytes (xs ys : Bytes) : Bytes := List.zipWith (· ^^^ ·) xs ys

/-- Xoring with a fixed block is injective in the other one. -/
theorem xorBytes_right_injective {ks ys : Bytes} (hx : xs.length = ks.length)
    (hy : ys.length = ks.length) (h : xorBytes ks xs = xorBytes ks ys) : xs = ys := by
  induction ks generalizing xs ys with
  | nil =>
    simp_all
  | cons k ks ih =>
    match xs, ys with
    | x :: xs, y :: ys =>
      simp only [xorBytes, zipWith_cons_cons, List.cons.injEq] at h
      have hxy : x = y := (UInt8.xor_right_inj k).mp h.1
      rw [hxy, ih (by simpa using hx) (by simpa using hy) h.2]

theorem length_xorBytes (xs ys : Bytes) :
    (xorBytes xs ys).length = min xs.length ys.length := by
  simp [xorBytes]

/-! ## Reading at an offset -/

section

variable {c c' : Bytes} {k n : Nat} (h : c'.take n = c.take n)
include h

/-- What is read from `j` bytes at an offset inside a common front is the same. -/
theorem read_drop_congr {f : Bytes → α} {j : Nat} (hf : ∀ l, f l = f (l.take j))
    (hk : k + j ≤ n) : f (c'.drop k) = f (c.drop k) := by
  have hcut : ∀ l : Bytes, (l.drop k).take j = ((l.take n).drop k).take j := by
    intro l
    rw [drop_take, take_take, min_eq_left (by omega)]
  rw [hf, hcut c', h, ← hcut, ← hf]

theorem ofBe16_drop_congr (hk : k + 2 ≤ n) : ofBe16 (c'.drop k) = ofBe16 (c.drop k) :=
  read_drop_congr h (by rintro (_ | ⟨_, _ | _⟩) <;> rfl) hk

theorem ofBe32_drop_congr (hk : k + 4 ≤ n) : ofBe32 (c'.drop k) = ofBe32 (c.drop k) :=
  read_drop_congr h (by rintro (_ | ⟨_, _ | ⟨_, _ | ⟨_, _ | _⟩⟩⟩) <;> rfl) hk

theorem headD_drop_congr (hk : k + 1 ≤ n) : (c'.drop k).headD 0 = (c.drop k).headD 0 :=
  read_drop_congr h (f := (·.headD 0)) (by rintro (_ | _) <;> rfl) hk

end

end Bytes

end LibRe
