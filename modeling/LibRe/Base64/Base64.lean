/-
LibRe.Base64.Base64 — base64 (`src/base64/b64.c`).

Three bytes are four characters. The encoder fills the last group up with `=`, the URL
variant leaves it short, and the decoder takes both. Before it decodes it asks for room
for the groups of four characters only, so what a short group at the end stands for may
not fit any more.

Translation notes. The parts of a group have no bits in common, so `|` is a sum. The value
of `=` is one bit, which the shifts move out of the word or to a place of its own. The
handler that prints does not fail.
-/
import Mathlib.Data.FinEnum
import LibRe.Fmt.Str
import LibRe.Mbuf.Mbuf

namespace LibRe.Base64

open List

/-! ## Encoding -/

/-- `b64_table` -/
def b64Table : Bytes :=
  asciiBytes "ABCDEFGHIJKLMNOPQRSTUVWXYZabcdefghijklmnopqrstuvwxyz0123456789+/"

/-- `b64url_table` -/
def b64urlTable : Bytes :=
  asciiBytes "ABCDEFGHIJKLMNOPQRSTUVWXYZabcdefghijklmnopqrstuvwxyz0123456789-_"

/-- `b64_table[v & 0x3f]` -/
def symbol (table : Bytes) (v : Nat) : UInt8 := table.getD (v % 64) 0

/-- Three bytes in one word. -/
def group (a b c : UInt8) : Nat := a.toNat * 65536 + b.toNat * 256 + c.toNat

/-- The loop of both encoders; `pad` stands for a byte that is missing. -/
def encodeLoop (table pad : Bytes) : Bytes → Bytes
  | [] => []
  | [a] =>
    let v := group a 0 0
    symbol table (v / 2 ^ 18) :: symbol table (v / 2 ^ 12) :: (pad ++ pad)
  | [a, b] =>
    let v := group a b 0
    symbol table (v / 2 ^ 18) :: symbol table (v / 2 ^ 12) :: symbol table (v / 2 ^ 6) :: pad
  | a :: b :: c :: inp =>
    let v := group a b c
    symbol table (v / 2 ^ 18) :: symbol table (v / 2 ^ 12) :: symbol table (v / 2 ^ 6) ::
      symbol table v ::
      encodeLoop table pad inp

/-- `base64_encode` -/
def base64Encode (inp : Bytes) (olen : Nat) : Except Errno Bytes :=
  if olen < 4 * ((inp.length + 2) / 3) then .error .EOVERFLOW
    else .ok (encodeLoop b64Table [61] inp)

/-- `base64url_encode` -/
def base64urlEncode (inp : Bytes) (olen : Nat) : Except Errno Bytes :=
  if olen < 4 * ((inp.length + 2) / 3) then .error .EOVERFLOW
    else .ok (encodeLoop b64urlTable [] inp)

/-- `base64_print`, with a buffer of 256 characters: what is printed. -/
def base64Print (ptr : Bytes) : Except Errno Bytes :=
  if ptr.length = 0 then .ok []
  else
    match base64Encode (ptr.take 192) 256 with
    | .error err => .error err
    | .ok text => (base64Print (ptr.drop 192)).map (text ++ ·)
termination_by ptr.length
decreasing_by
  rw [length_drop]
  omega

/-! ## Decoding -/

/-- `b64val` -/
def b64val (c : UInt8) : Nat :=
  if 65 ≤ c ∧ c ≤ 90 then c.toNat - 65
  else if 97 ≤ c ∧ c ≤ 122 then c.toNat - 97 + 26
  else if 48 ≤ c ∧ c ≤ 57 then c.toNat - 48 + 52
  else if c = 43 ∨ c = 45 then 62
  else if c = 47 ∨ c = 95 then 63
  else if c = 61 then 2 ^ 24
  else 0

/-- The bytes of one group. -/
def decodeGroup (v0 v1 v2 v3 : Nat) : Bytes :=
  let v := v0 * 2 ^ 18 % 2 ^ 32 + v1 * 2 ^ 12 % 2 ^ 32 + v2 * 2 ^ 6 + v3
  UInt8.ofNat (v / 65536) :: ((if v / 2 ^ 30 % 2 = 0 then [UInt8.ofNat (v / 256)] else []) ++
    if v / 2 ^ 24 % 2 = 0 then [UInt8.ofNat v] else [])

/-- The loop of `base64_decode`. -/
def decodeLoop : Bytes → Bytes
  | c0 :: c1 :: c2 :: c3 :: inp =>
    decodeGroup (b64val c0) (b64val c1) (b64val c2) (b64val c3) ++ decodeLoop inp
  | [c0, c1, c2] => decodeGroup (b64val c0) (b64val c1) (b64val c2) (2 ^ 24)
  | [c0, c1] => decodeGroup (b64val c0) (b64val c1) (2 ^ 24) (2 ^ 24)
  | _ => []

/-- `base64_decode`: the bytes that are written to `out`. -/
def base64Decode (inp : Bytes) (olen : Nat) : Except Errno Bytes :=
  if olen < 3 * (inp.length / 4) then .error .EOVERFLOW else .ok (decodeLoop inp)

/-! ## Reading back -/

variable {table pad : Bytes}

theorem b64val_pad : b64val 61 = 2 ^ 24 := rfl

theorem b64val_symbol (ht : table = b64Table ∨ table = b64urlTable) (v : Nat) :
    b64val (symbol table v) = v % 64 := by
  have hall : b64Table.map b64val = range 64 ∧ b64urlTable.map b64val = range 64 := by
    decide +kernel
  have htable : table.map b64val = range 64 := by
    rcases ht with rfl | rfl
    · exact hall.1
    · exact hall.2
  have hget : (table.map b64val)[v % 64]? = some (v % 64) := by simp [htable, Nat.mod_lt]
  rw [getElem?_map, Option.map_eq_some_iff] at hget
  obtain ⟨c, hc, hv⟩ := hget
  rw [symbol, getD_eq_getElem?_getD, hc]
  exact hv

/-- The bytes of four characters with the digits `d`; `p` and `q` say that the last ones are `=`. -/
theorem decodeGroup_eq {d0 d1 d2 d3 p q : Nat} (h0 : d0 < 64) (h1 : d1 < 64) (h2 : d2 < 64)
    (h3 : d3 < 64) (hp : p < 2) (hq : q < 2) (p0 p1 : Nat) :
    decodeGroup (d0 + p0 * 2 ^ 24) (d1 + p1 * 2 ^ 24) (d2 + p * 2 ^ 24) (d3 + q * 2 ^ 24) =
      UInt8.ofNat (d0 * 4 + d1 / 16) :: ((if p = 0 then [UInt8.ofNat (d1 * 16 + d2 / 4)] else []) ++
        if q = 0 then [UInt8.ofNat (d2 * 64 + d3)] else []) := by
  have hsum : (d0 + p0 * 2 ^ 24) * 2 ^ 18 % 2 ^ 32 + (d1 + p1 * 2 ^ 24) * 2 ^ 12 % 2 ^ 32 +
      (d2 + p * 2 ^ 24) * 2 ^ 6 +
      (d3 + q * 2 ^ 24) = d0 * 2 ^ 18 + d1 * 2 ^ 12 + d2 * 2 ^ 6 + d3 + p * 2 ^ 30 +
        q * 2 ^ 24 := by
    omega
  unfold decodeGroup
  simp only [hsum]
  generalize hv : d0 * 2 ^ 18 + d1 * 2 ^ 12 + d2 * 2 ^ 6 + d3 + p * 2 ^ 30 + q * 2 ^ 24 = v
  have hbits : v / 2 ^ 30 % 2 = p ∧ v / 2 ^ 24 % 2 = q := by omega
  have hbytes : UInt8.ofNat (v / 65536) = UInt8.ofNat (d0 * 4 + d1 / 16) ∧
      UInt8.ofNat (v / 256) = UInt8.ofNat (d1 * 16 + d2 / 4) ∧
      UInt8.ofNat v = UInt8.ofNat (d2 * 64 + d3) := by
    refine ⟨UInt8.toNat_inj.mp ?_, UInt8.toNat_inj.mp ?_, UInt8.toNat_inj.mp ?_⟩ <;> simp <;> omega
  simp only [hbits, hbytes]

/-- The characters of a group give its bytes back. -/
theorem decodeGroup_group (a b c : UInt8) {p q : Nat} (hp : p < 2) (hq : q < 2) :
    decodeGroup (group a b c / 2 ^ 18 % 64) (group a b c / 2 ^ 12 % 64)
        (group a b c / 2 ^ 6 % 64 + p * 2 ^ 24) (group a b c % 64 + q * 2 ^ 24) =
      a :: ((if p = 0 then [b] else []) ++ if q = 0 then [c] else []) := by
  have ha := a.toNat_lt
  have hb := b.toNat_lt
  have hc := c.toNat_lt
  have hmod : ∀ n, n % 64 < 64 := fun n => Nat.mod_lt n (by decide)
  have hbytes : UInt8.ofNat (group a b c / 2 ^ 18 % 64 * 4 + group a b c / 2 ^ 12 % 64 / 16) = a ∧
      UInt8.ofNat (group a b c / 2 ^ 12 % 64 * 16 + group a b c / 2 ^ 6 % 64 / 4) = b ∧
      UInt8.ofNat (group a b c / 2 ^ 6 % 64 * 64 + group a b c % 64) = c := by
    refine ⟨UInt8.toNat_inj.mp ?_, UInt8.toNat_inj.mp ?_, UInt8.toNat_inj.mp ?_⟩ <;>
      simp [group] <;> omega
  obtain ⟨h0, h1, h2⟩ := hbytes
  have hgroup := decodeGroup_eq (hmod (group a b c / 2 ^ 18)) (hmod (group a b c / 2 ^ 12))
    (hmod (group a b c / 2 ^ 6)) (hmod (group a b c)) hp hq 0 0
  rw [zero_mul, add_zero, add_zero, h0, h1, h2] at hgroup
  exact hgroup

/-- What was encoded is decoded, with padding and without. -/
theorem decodeLoop_encodeLoop (ht : table = b64Table ∨ table = b64urlTable)
    (hpad : pad = [61] ∨ pad = []) :
    ∀ inp, decodeLoop (encodeLoop table pad inp) = inp
  | [] => rfl
  | [a] => by
    have hgroup := decodeGroup_group a 0 0 (p := 1) (q := 1) (by decide) (by decide)
    have hzero : group a 0 0 / 2 ^ 6 % 64 = 0 ∧ group a 0 0 % 64 = 0 := by
      simp only [group, UInt8.toNat_zero]
      omega
    rw [hzero.1, hzero.2, zero_add, one_mul] at hgroup
    rcases hpad with rfl | rfl <;> simp only [encodeLoop, decodeLoop, cons_append, nil_append,
      b64val_symbol ht, b64val_pad]
    · exact (append_nil _).trans hgroup
    · exact hgroup
  | [a, b] => by
    have hgroup := decodeGroup_group a b 0 (p := 0) (q := 1) (by decide) (by decide)
    have hzero : group a b 0 % 64 = 0 := by
      simp only [group, UInt8.toNat_zero]
      omega
    rw [hzero, zero_add, one_mul, zero_mul, add_zero] at hgroup
    rcases hpad with rfl | rfl <;> simp only [encodeLoop, decodeLoop, b64val_symbol ht, b64val_pad]
    · exact (append_nil _).trans hgroup
    · exact hgroup
  | a :: b :: c :: inp => by
    have hgroup := decodeGroup_group a b c (p := 0) (q := 0) (by decide) (by decide)
    rw [encodeLoop, decodeLoop, decodeLoop_encodeLoop ht hpad inp]
    simp only [b64val_symbol ht]
    exact congrArg (· ++ inp) hgroup

theorem length_encodeLoop_le (hpad : pad.length ≤ 1) :
    ∀ inp, (encodeLoop table pad inp).length ≤ 4 * ((inp.length + 2) / 3)
  | [] => le_refl _
  | [a] | [a, b] => by
    simp [encodeLoop]
    omega
  | a :: b :: c :: inp => by
    have hrest := length_encodeLoop_le hpad inp
    simp only [encodeLoop, length_cons]
    omega

/-- Whole groups are encoded one by one. -/
theorem encodeLoop_append (ys : Bytes) :
    ∀ xs, xs.length % 3 = 0 → encodeLoop table pad (xs ++ ys) = encodeLoop table pad xs ++
      encodeLoop table pad ys
  | [], _ => rfl
  | [a], h | [a, b], h => by simp at h
  | a :: b :: c :: xs, h => by
    have hxs : xs.length % 3 = 0 := by
      simp only [length_cons] at h
      omega
    simp only [cons_append, encodeLoop, encodeLoop_append ys xs hxs]

theorem base64Print_eq (ptr : Bytes) : base64Print ptr = .ok (encodeLoop b64Table [61] ptr) := by
  induction hn : ptr.length using Nat.strong_induction_on generalizing ptr with
  | h n ih =>
    rw [base64Print]
    split
    · next hzero => rw [length_eq_zero_iff.mp hzero]; rfl
    have hfits : ¬ 256 < 4 * (((ptr.take 192).length + 2) / 3) := by
      rw [length_take]
      omega
    have hrest := ih (ptr.drop 192).length (by rw [length_drop]; omega) (ptr.drop 192) rfl
    rw [base64Encode, if_neg hfits]
    simp only [hrest, Except.map]
    by_cases hlong : 192 ≤ ptr.length
    · rw [← encodeLoop_append _ _ (by simp [hlong]), take_append_drop]
    · rw [take_of_length_le (by omega), drop_eq_nil_of_le (by omega), encodeLoop, append_nil]

/-- With enough room both encodings are read back, and what is printed is the text of one
call of the encoder. -/
theorem base64_reads_back (inp : Bytes) {olen room : Nat}
    (holen : 4 * ((inp.length + 2) / 3) ≤ olen) (hroom : 3 * ((inp.length + 2) / 3) ≤ room) :
    ∃ text url, base64Encode inp olen = .ok text ∧ base64urlEncode inp olen = .ok url ∧
      base64Decode text room = .ok inp ∧ base64Decode url room = .ok inp ∧
      base64Print inp = .ok text := by
  have htext : (encodeLoop b64Table [61] inp).length ≤ _ := length_encodeLoop_le (by simp) inp
  have hurl : (encodeLoop b64urlTable [] inp).length ≤ _ := length_encodeLoop_le (by simp) inp
  refine ⟨_, _, if_neg (by omega), if_neg (by omega), ?_, ?_, base64Print_eq inp⟩
  · rw [base64Decode, if_neg (by omega), decodeLoop_encodeLoop (.inl rfl) (.inl rfl)]
  · rw [base64Decode, if_neg (by omega), decodeLoop_encodeLoop (.inr rfl) (.inr rfl)]

/-- Sixty-six groups and two bytes, which are printed in two parts. -/
theorem base64_reads_back_long :
    let inp := (range 200).map UInt8.ofNat
    ∃ text url, base64Encode inp 268 = .ok text ∧ base64urlEncode inp 268 = .ok url ∧
      base64Decode text 201 = .ok inp ∧ base64Decode url 201 = .ok inp ∧
      base64Print inp = .ok text :=
  base64_reads_back _ (by simp) (by simp)

/-! ## Room -/

/-- The number of bytes a text stands for: three for each group of four characters, less
one for each `=` in the last two places, and one or two for what is left. -/
def standsFor : Bytes → Nat
  | _ :: _ :: c2 :: c3 :: inp =>
    1 + (if c2 = 61 then 0 else 1) + (if c3 = 61 then 0 else 1) + standsFor inp
  | [_, _, c2] => 1 + if c2 = 61 then 0 else 1
  | [_, _] => 1
  | _ => 0

/-- The value of a character: six bits, or the bit of `=`. -/
theorem b64val_eq (c : UInt8) : ∃ d < 64, b64val c = d + (if c = 61 then 1 else 0) * 2 ^ 24 := by
  revert c
  decide +kernel

theorem length_decodeGroup (c0 c1 c2 c3 : UInt8) :
    (decodeGroup (b64val c0) (b64val c1) (b64val c2) (b64val c3)).length =
      1 + (if c2 = 61 then 0 else 1) + if c3 = 61 then 0 else 1 := by
  obtain ⟨d0, hd0, h0⟩ := b64val_eq c0
  obtain ⟨d1, hd1, h1⟩ := b64val_eq c1
  obtain ⟨d2, hd2, h2⟩ := b64val_eq c2
  obtain ⟨d3, hd3, h3⟩ := b64val_eq c3
  have hbit : ∀ c : UInt8, (if c = 61 then 1 else 0) < 2 := fun c => by split <;> decide
  rw [h0, h1, h2, h3, decodeGroup_eq hd0 hd1 hd2 hd3 (hbit c2) (hbit c3)]
  by_cases hc2 : c2 = 61 <;> by_cases hc3 : c3 = 61 <;> simp [hc2, hc3]

theorem length_decodeLoop : ∀ inp, (decodeLoop inp).length = standsFor inp
  | c0 :: c1 :: c2 :: c3 :: inp => by
    rw [decodeLoop, length_append, length_decodeGroup, length_decodeLoop inp, standsFor]
  | [c0, c1, c2] =>
    by simpa [b64val_pad, decodeLoop, standsFor] using length_decodeGroup c0 c1 c2 61
  | [c0, c1] => by simpa [b64val_pad, decodeLoop, standsFor] using length_decodeGroup c0 c1 61 61
  | [_] | [] => rfl

/-- At most `*olen` bytes are written if and only if there is room for all that the text
stands for, or too little room even for the groups of four. -/
theorem decode_fits_iff (inp : Bytes) (olen : Nat) :
    (∀ out, base64Decode inp olen = .ok out → out.length ≤ olen) ↔
      standsFor inp ≤ olen ∨ olen < 3 * (inp.length / 4) := by
  rw [base64Decode, ← length_decodeLoop]
  split
  · next hless => exact iff_of_true (fun _ h => nomatch h) (.inr hless)
  · next hless => simp [hless]

/-- Two characters stand for a byte, for which no room is asked. -/
theorem decode_writes_too_much : ¬ ∀ (inp : Bytes) (olen : Nat) (out : Bytes),
    base64Decode inp olen = .ok out → out.length ≤ olen := by
  intro h
  have hlen := h [81, 81] 0 _ rfl
  rw [length_decodeLoop] at hlen
  exact absurd hlen (by decide)

end LibRe.Base64
