/-
LibRe.H264.Getbit — the bit reader (`src/h264/getbit.c`).

The reader has a buffer, a position and an end, both counted in bits; the end is
inside the buffer. What it reads is described by `Getbit.bits`, the bit string
between position and end, and the reader `takeBits` over bit strings.

`1 << 31` is what compilers make of it; from 32 on the shift is a fault.
-/
import LibRe.Lib.Bits
import LibRe.Lib.Checked
import LibRe.Mbuf.Mbuf

namespace LibRe

open Bits Checked List

/-- `struct getbit`. -/
structure Getbit where
  buf : Bytes
  pos : Nat
  end_ : Nat
  end_le : end_ ≤ 8 * buf.length
  deriving DecidableEq, Repr

/-- `getbit_init(gb, buf, 8 * sz)`. -/
def getbitInit (buf : Bytes) : Getbit :=
  { buf, pos := 0, end_ := 8 * buf.length, end_le := le_refl _ }

/-- `getbit_get_left`. -/
def getbitGetLeft (gb : Getbit) : Nat := if gb.end_ > gb.pos then gb.end_ - gb.pos else 0

/-- `get_bit`. -/
def getBit (gb : Getbit) : Nat × Getbit :=
  if gb.pos ≥ gb.end_ then (0, gb)
  else
    (((gb.buf.getD (gb.pos >>> 3) 0).toNat >>> (7 - (gb.pos &&& 7))) &&& 1,
      { gb with pos := gb.pos + 1 })

/-- The first loop of `get_ue_golomb`: every round reads one of the bits that are left. -/
def golombZeros : Nat → Nat → Getbit → Except Errno Nat × Getbit
  | 0, _, gb => (.error .EBADMSG, gb)
  | left + 1, zeros, gb =>
    if getbitGetLeft gb < 1 then (.error .EBADMSG, gb)
    else
      let (bit, gb) := getBit gb
      if bit = 0 then golombZeros left (zeros + 1) gb else (.ok zeros, gb)

/-- The second loop of `get_ue_golomb`. -/
def golombInfo : Nat → Nat → Getbit → Except Errno Nat × Getbit
  | 0, info, gb => (.ok info, gb)
  | i + 1, info, gb =>
    if getbitGetLeft gb < 1 then (.error .EBADMSG, gb)
    else
      let (bit, gb) := getBit gb
      golombInfo i (info ||| bit <<< i) gb

/-- `get_ue_golomb`. -/
def getUeGolomb (gb : Getbit) : Except Fault (Except Errno Nat × Getbit) :=
  match golombZeros (getbitGetLeft gb) 0 gb with
  | (.error e, gb) => .ok (.error e, gb)
  | (.ok zeros, gb) => do
    let info ← shiftLeft 1 zeros
    let (info, gb) := golombInfo zeros info gb
    return (info.map (· - 1), gb)

/-- The loop of `get_bits`. -/
def getBitsLoop : Nat → Nat → Getbit → Nat × Getbit
  | 0, x, gb => (x, gb)
  | n + 1, x, gb =>
    let (bit, gb) := getBit gb
    getBitsLoop n ((2 * x + bit) % 2 ^ 32) gb

/-- `get_bits`. -/
def getBits (gb : Getbit) (n : Nat) : Nat × Getbit :=
  if getbitGetLeft gb < n then (0, gb) else getBitsLoop n 0 gb

/-- The loop of `getbit_read_ns`: 32 rounds are enough for an `unsigned`. -/
def nsWidth : Nat → Nat → Nat → Nat
  | 0, _, w => w
  | n + 1, x, w => if x ≠ 0 then nsWidth n (x >>> 1) (w + 1) else w

/-- `getbit_read_ns`. -/
def getbitReadNs (gb : Getbit) (n : Nat) : Except Fault (Nat × Getbit) :=
  let w := nsWidth 32 n 0
  match shiftLeft 1 w with
  | .error f => .error f
  | .ok p =>
    let m := p - n
    let (v, gb) := getBits gb (w - 1)
    if v < m then .ok (v, gb)
    else
      let (extraBit, gb) := getBits gb 1
      .ok ((v <<< 1) - m + extraBit, gb)

/-! ## The reader on bit strings -/

/-- The bits that are left. -/
def Getbit.bits (gb : Getbit) : List Bool := ((bitsOfBytes gb.buf).take gb.end_).drop gb.pos

variable {gb : Getbit}

theorem length_bits (gb : Getbit) : gb.bits.length = gb.end_ - gb.pos := by
  simp [Getbit.end_le, Getbit.bits]

theorem getbitGetLeft_eq (gb : Getbit) : getbitGetLeft gb = gb.bits.length := by
  rw [length_bits, getbitGetLeft]
  split <;> omega

theorem getbitInit_bits (buf : Bytes) : (getbitInit buf).bits = bitsOfBytes buf :=
  take_of_length_le (by rw [length_bitsOfBytes]; exact le_refl _)

/-- A bit that is there. -/
theorem getBit_cons {b : Bool} {bs : List Bool} (h : gb.bits = b :: bs) :
    ∃ gb', getBit gb = (b.toNat, gb') ∧ gb'.bits = bs := by
  have hlen := length_bits gb
  rw [h, length_cons] at hlen
  have hle := gb.end_le
  have hmask : gb.pos &&& 7 = gb.pos % 8 := Nat.and_two_pow_sub_one_eq_mod gb.pos 3
  have hget : gb.bits[0]? = some ((gb.buf.getD (gb.pos / 8) 0).toNat.testBit (7 - gb.pos % 8)) := by
    rw [Getbit.bits, getElem?_drop, add_zero, getElem?_take_of_lt (by omega),
      getElem?_bitsOfBytes _ (by omega)]
  rw [h, getElem?_cons_zero, Option.some.injEq] at hget
  refine ⟨{ gb with pos := gb.pos + 1 }, ?_, ?_⟩
  · rw [getBit, if_neg (by omega), hmask, Nat.shiftRight_eq_div_pow gb.pos 3,
      Nat.and_one_is_mod, hget, Nat.toNat_testBit, Nat.shiftRight_eq_div_pow]
  · have htail : { gb with pos := gb.pos + 1 }.bits = gb.bits.drop 1 := by
      rw [Getbit.bits, Getbit.bits, drop_drop]
    rw [htail, h, drop_one, tail_cons]

theorem getBitsLoop_eq (bs : List Bool) : ∀ {x k : Nat} {gb : Getbit} {rest : List Bool},
    gb.bits = bs ++ rest → x < 2 ^ k → k + bs.length ≤ 32 →
    ∃ gb', getBitsLoop bs.length x gb = (ofBitsFrom x bs, gb') ∧ gb'.bits = rest := by
  induction bs with
  | nil => exact fun h _ _ => ⟨_, rfl, h⟩
  | cons b bs ih =>
    intro x k gb rest h hx hk
    rw [length_cons] at hk
    obtain ⟨gb₁, hbit, hrest⟩ := getBit_cons h
    have hnext : 2 * x + b.toNat < 2 ^ (k + 1) := by
      have hb := b.toNat_le
      omega
    have hfits : 2 * x + b.toNat < 2 ^ 32 :=
      lt_of_lt_of_le hnext (Nat.pow_le_pow_right (by decide) (by omega))
    rw [length_cons, getBitsLoop, hbit]
    simp only [Nat.mod_eq_of_lt hfits]
    exact ih hrest hnext (by omega)

variable {n : Nat}

/-- `get_bits`, for a number of bits that an `unsigned` holds. -/
theorem getBits_eq (hn : n ≤ 32) (gb : Getbit) :
    ∃ gb', getBits gb n = ((takeBits n gb.bits).1, gb') ∧ gb'.bits = (takeBits n gb.bits).2 := by
  rw [getBits, getbitGetLeft_eq, takeBits]
  by_cases h : gb.bits.length < n
  · simp [h]
  have hlen : (gb.bits.take n).length = n := by
    simp
    omega
  have hsplit : gb.bits = gb.bits.take n ++ gb.bits.drop n := (take_append_drop n _).symm
  have hloop := getBitsLoop_eq (gb.bits.take n) hsplit (show 0 < 2 ^ 0 by decide) (by omega)
  rw [hlen] at hloop
  rw [if_neg h, if_neg h]
  exact hloop

theorem shiftLeft_one (h : n < 32) : shiftLeft 1 n = .ok (2 ^ n) := by
  rw [shiftLeft, if_pos h, Nat.shiftLeft_eq, one_mul,
    Nat.mod_eq_of_lt (Nat.pow_lt_pow_right (by decide) h)]

/-! ## Exp-Golomb codes -/

/-- The number of the Exp-Golomb code at the front, and the bits behind the code:
zeros, and behind them one digit more, of the number's successor. -/
def golomb (bs : List Bool) : Option (Nat × List Bool) :=
  let zeros := bs.idxOf true
  let info := bs.drop (zeros + 1)
  if 2 * zeros < bs.length then some (ofBitsFrom 1 (info.take zeros) - 1, info.drop zeros)
  else none

theorem golombZeros_eq (bs : List Bool) : ∀ {gb : Getbit} (zeros : Nat), gb.bits = bs →
    ∃ gb', gb'.bits = bs.drop (bs.idxOf true + 1) ∧ golombZeros bs.length zeros gb =
      (if true ∈ bs then .ok (zeros + bs.idxOf true) else .error .EBADMSG, gb') := by
  induction bs with
  | nil => exact fun _ h => ⟨_, h, rfl⟩
  | cons b bs ih =>
    intro gb zeros h
    obtain ⟨gb₁, hbit, hrest⟩ := getBit_cons h
    rw [length_cons, golombZeros, hbit, getbitGetLeft_eq, h, if_neg (by simp)]
    cases b with
    | true => exact ⟨gb₁, by simpa using hrest, by simp⟩
    | false =>
      obtain ⟨gb', hbits, hloop⟩ := ih (zeros + 1) hrest
      refine ⟨gb', by simpa using hbits, ?_⟩
      simp [hloop, add_assoc, add_comm 1]

theorem golombInfo_eq (n : Nat) : ∀ (x : Nat) (gb : Getbit),
    (∃ gb', golombInfo n (2 ^ n * x) gb = (.error .EBADMSG, gb')) ∨ n ≤ gb.bits.length ∧
    ∃ gb', golombInfo n (2 ^ n * x) gb = (.ok (ofBitsFrom x (gb.bits.take n)), gb') ∧
      gb'.bits = gb.bits.drop n := by
  induction n with
  | zero => exact fun x gb => .inr ⟨Nat.zero_le _, gb, by simp [golombInfo, ofBitsFrom], rfl⟩
  | succ n ih =>
    intro x gb
    rw [golombInfo, getbitGetLeft_eq]
    cases h : gb.bits with
    | nil => exact .inl ⟨gb, rfl⟩
    | cons b bs =>
      obtain ⟨gb₁, hbit, rfl⟩ := getBit_cons h
      -- the digits behind the next one are still zero
      have hor : 2 ^ (n + 1) * x ||| b.toNat <<< n = 2 ^ n * (2 * x + b.toNat) := by
        have hlt : b.toNat * 2 ^ n < 2 ^ (n + 1) := by cases b <;> simp [pow_succ]
        rw [Nat.shiftLeft_eq, ← Nat.two_pow_add_eq_or_of_lt hlt]
        ring
      simpa [hbit, hor, ofBitsFrom] using ih (2 * x + b.toNat) gb₁

/-- `get_ue_golomb` returns an error, or the number of the code and the reader
behind the code, unless the code has 32 zeros or more: then it shifts by more
than the width of the type. -/
theorem getUeGolomb_exact_iff (gb : Getbit) :
    (∃ r gb', getUeGolomb gb = .ok (r, gb') ∧
      ∀ v, r = .ok v → v < 2 ^ 32 ∧ golomb gb.bits = some (v, gb'.bits)) ↔
    (true ∈ gb.bits → gb.bits.idxOf true < 32) := by
  obtain ⟨gb₁, hrest, hzeros⟩ := golombZeros_eq gb.bits 0 rfl
  rw [getUeGolomb, getbitGetLeft_eq, hzeros, zero_add]
  generalize hz : gb.bits.idxOf true = z at hrest
  by_cases hone : true ∈ gb.bits
  · by_cases hlt : z < 32
    · have hinfo := golombInfo_eq z 1 gb₁
      rw [mul_one] at hinfo
      rcases hinfo with ⟨gb', hinfo⟩ | ⟨hle, gb', hinfo, hbits⟩
      · simp_all [shiftLeft_one, Except.map]
      have hlen : (gb₁.bits.take z).length = z := by simp [hle]
      have hval := ofBitsFrom_lt (gb₁.bits.take z) (show 1 < 2 ^ 1 by decide)
      have hpow : 2 ^ (1 + z) ≤ 2 ^ 32 := Nat.pow_le_pow_right (by decide) (by omega)
      rw [hlen] at hval
      have hin := idxOf_lt_length_of_mem hone
      rw [hrest, length_drop] at hle
      simp_all [shiftLeft_one, golomb, Except.map]
      omega
    · simp [hone, hlt, shiftLeft]
  · simp [hone]

/-- Thirty-two zeros, a one, and the thirty-two digits behind it. -/
theorem getUeGolomb_shift : ¬ ∀ gb : Getbit, ∃ r gb', getUeGolomb gb = .ok (r, gb') ∧
    ∀ v, r = .ok v → v < 2 ^ 32 ∧ golomb gb.bits = some (v, gb'.bits) := by
  intro h
  obtain ⟨r, gb', hrun, -⟩ := h (getbitInit [0, 0, 0, 0, 0x80, 0, 0, 0, 0])
  have hshift : getUeGolomb (getbitInit [0, 0, 0, 0, 0x80, 0, 0, 0, 0]) = .error (.shift 32) := rfl
  rw [hshift] at hrun
  cases hrun

/-! ## Non-symmetric numbers -/

/-- A number below `n` from the front, and the bits behind it. -/
def takeNs (n : Nat) (bs : List Bool) : Nat × List Bool :=
  let w := Nat.log2 n + 1
  let m := 2 ^ w - n
  let (v, bs) := takeBits (w - 1) bs
  if v < m then (v, bs)
  else
    let (extraBit, bs) := takeBits 1 bs
    (2 * v - m + extraBit, bs)

theorem nsWidth_eq (k : Nat) : ∀ {n : Nat} (w : Nat), 0 < n → n < 2 ^ k →
    nsWidth k n w = w + (Nat.log2 n + 1) := by
  induction k with
  | zero =>
    omega
  | succ k ih =>
    intro n w hpos h
    rw [nsWidth, if_pos (by omega), Nat.shiftRight_one, Nat.log2_def]
    by_cases hn : n ≥ 2
    · grind
    · have hhalf : n / 2 = 0 := by omega
      rw [if_neg hn, hhalf]
      cases k <;> rfl

theorem takeNs_lt (hpos : 0 < n) (bs : List Bool) : (takeNs n bs).1 < n := by
  generalize hw : Nat.log2 n = w
  have hlow : 2 ^ w ≤ n := hw ▸ Nat.log2_self_le (by omega)
  have hv := takeBits_lt w bs
  have he := takeBits_lt 1 (takeBits w bs).2
  unfold takeNs
  simp only [hw, Nat.add_sub_cancel]
  split
  · omega
  · omega

/-- The width of the numbers below `n`, and its power of two in 32 bits. -/
theorem nsWidth_shift {w : Nat} (hpos : 0 < n) (hn : n < 2 ^ 31) (hw : Nat.log2 n = w) :
    w < 31 ∧ nsWidth 32 n 0 = w + 1 ∧ 2 ^ (w + 1) < 2 ^ 32 ∧ shiftLeft 1 (w + 1) =
      .ok (2 ^ (w + 1)) := by
  have hwlt : w < 31 := hw ▸ (Nat.log2_lt (by omega)).mpr hn
  have hpow : 2 ^ (w + 1) < 2 ^ 32 := Nat.pow_lt_pow_right (by decide) (by omega)
  refine ⟨hwlt, ?_, hpow, shiftLeft_one (by omega)⟩
  rw [nsWidth_eq 32 0 hpos (lt_trans hn (by decide)), hw, zero_add]

/-- `getbit_read_ns`, for the numbers of the descriptor. -/
theorem getbitReadNs_eq (hpos : 0 < n) (hn : n < 2 ^ 31) (gb : Getbit) :
    ∃ gb', getbitReadNs gb n = .ok ((takeNs n gb.bits).1, gb') ∧
    gb'.bits = (takeNs n gb.bits).2 := by
  generalize hw : Nat.log2 n = w
  obtain ⟨hwlt, hwidth, -, hshift⟩ := nsWidth_shift hpos hn hw
  obtain ⟨gb₁, hv, hbits⟩ := getBits_eq (show w ≤ 32 by omega) gb
  obtain ⟨gb₂, he, hbits₂⟩ := getBits_eq (show 1 ≤ 32 by decide) gb₁
  rw [hbits] at he hbits₂
  rw [getbitReadNs, takeNs]
  simp only [hwidth, hshift, hw, Nat.add_sub_cancel, hv, he]
  split
  · exact ⟨gb₁, rfl, hbits⟩
  · simp [Nat.shiftLeft_eq, mul_comm, hbits₂]

end LibRe
