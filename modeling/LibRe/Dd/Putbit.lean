/-
LibRe.Dd.Putbit — the bit writer (`src/dd/putbit.c`).

Bits are put one after the other into the memory of a buffer, which is doubled when it is
full. `Wrote` says which bits are there; `Writes` is the rule for the functions over it:
whatever was written before, these bits come behind it.

Translation notes. The bytes that `mbuf_resize` adds are whatever `fresh` says. That there
is no more memory is not modelled, so writing a bit has no error. Storing into a buffer
without memory is a fault.
-/
import LibRe.H264.Getbit

namespace LibRe

open Bits Checked List

/-- `struct putbit`, with the memory and the end of its buffer. -/
structure Putbit where
  buf : Bytes
  end_ : Nat
  bitPos : Nat
  deriving DecidableEq, Repr

/-- `putbit_init` -/
def putbitInit (buf : Bytes) (end_ : Nat) : Putbit :=
  { buf := List.replicate buf.length 0, end_, bitPos := 0 }

/-- The bytes up to the end of the buffer. -/
def Putbit.bytes (pb : Putbit) : Bytes := pb.buf.take pb.end_

section

-- the bytes that memory of the given size gets when it is doubled
variable (fresh : Nat → Nat → UInt8)

/-- `putbit_one` -/
def putbitOne (bit : Bool) (pb : Putbit) : Run Errno Putbit :=
  let bytePos := pb.bitPos >>> 3
  let buf := if bytePos ≥ pb.buf.length then pb.buf ++ (List.range pb.buf.length).map
    (fresh pb.buf.length) else pb.buf
  let bitPos : UInt8 := 1 <<< (7 - UInt8.ofNat (pb.bitPos &&& 7))
  let p := buf.getD bytePos 0
  if bytePos < buf.length then
    .ok (none, {
      buf := buf.set bytePos (if bit then p ||| bitPos else p &&& ~~~bitPos)
      bitPos := pb.bitPos + 1
      end_ := (pb.bitPos + 1 + 7) >>> 3 })
  else .error (.index buf.length bytePos)

/-- `putbit_write` -/
def putbitWrite (count val : Nat) (pb : Putbit) : Run Errno Putbit :=
  if count > 32 then .ok (some .EINVAL, pb)
  else forLoop (fun i => putbitOne fresh ((val >>> (count - i - 1)) &&& 1 != 0)) count 0 pb

/-- `putbit_write_ns` -/
def putbitWriteNs (n v : Nat) (pb : Putbit) : Run Errno Putbit :=
  let w := nsWidth 32 n 0
  match shiftLeft 1 w with
  | .error f => .error f
  | .ok p =>
    let m := (p + 2 ^ 32 - n) % 2 ^ 32
    if v < m then putbitWrite fresh ((w + (2 ^ 32 - 1)) % 2 ^ 32) v pb
      else putbitWrite fresh w (v + m) pb

end

/-! ## What was written -/

/-- The bits are those that were written so far, and there is some memory. -/
structure Wrote (bs : List Bool) (pb : Putbit) : Prop where
  pos : pb.bitPos = bs.length
  room : 0 < pb.buf.length ∧ bs.length ≤ 8 * pb.buf.length
  bits : (bitsOfBytes pb.buf).take bs.length = bs
  last : bs ≠ [] → pb.end_ = (bs.length + 7) / 8

/-- The function writes the bits. -/
def Writes (f : Putbit → Run Errno Putbit) (bs : List Bool) : Prop :=
  ∀ front pb, Wrote front pb → ∃ pb', f pb = .ok (none, pb') ∧ Wrote (front ++ bs) pb'

variable {fresh : Nat → Nat → UInt8}

theorem wrote_init {buf : Bytes} (h : 0 < buf.length) (end_ : Nat) :
    Wrote [] (putbitInit buf end_) where
  pos := rfl
  room := ⟨by rw [putbitInit, length_replicate]; exact h, Nat.zero_le _⟩
  bits := rfl
  last h := absurd rfl h

/-- Bit `r` of a byte, from the left, is set or cleared. -/
theorem testBit_masked (p : UInt8) (bit : Bool) {r k : Nat} (hr : r < 8) (hk : k < 8) :
    (if bit then p ||| 1 <<< (7 - UInt8.ofNat r)
      else p &&& ~~~(1 <<< (7 - UInt8.ofNat r))).toNat.testBit k =
      if k = 7 - r then bit else p.toNat.testBit k := by
  have hmask : ∀ r k : Fin 8, ((1 : UInt8) <<< (7 - UInt8.ofNat r.val)).toNat.testBit k.val =
      decide (k.val = 7 - r.val) ∧
      (~~~((1 : UInt8) <<< (7 - UInt8.ofNat r.val))).toNat.testBit k.val =
        !decide (k.val = 7 - r.val) := by decide +kernel
  obtain ⟨hset, hclear⟩ := hmask ⟨r, hr⟩ ⟨k, hk⟩
  cases bit with
  | true =>
    rw [if_pos rfl, UInt8.toNat_or, Nat.testBit_or, hset]
    by_cases h : k = 7 - r <;> simp [h]
  | false =>
    rw [if_neg Bool.false_ne_true, UInt8.toNat_and, Nat.testBit_and, hclear]
    by_cases h : k = 7 - r <;> simp [h]

theorem writes_one (bit : Bool) : Writes (putbitOne fresh bit) [bit] := by
  intro front pb h
  -- the memory in which there is room for the bit
  obtain ⟨buf, hbuf, hroom, htake⟩ : ∃ buf,
      (if pb.bitPos >>> 3 ≥ pb.buf.length then pb.buf ++ (range pb.buf.length).map
        (fresh pb.buf.length) else pb.buf) = buf ∧
        front.length < 8 * buf.length ∧ (bitsOfBytes buf).take front.length = front := by
    have hpos := h.pos
    have hbits := h.bits
    have hfits := h.room
    rw [Nat.shiftRight_eq_div_pow]
    by_cases hfull : pb.bitPos / 2 ^ 3 ≥ pb.buf.length
    · refine ⟨_, if_pos hfull, ?_, ?_⟩
      · simp
        omega
      · simp_all [bitsOfBytes_append, take_append_of_le_length]
    · exact ⟨_, if_neg hfull, by omega, hbits⟩
  have hbyte : pb.bitPos >>> 3 = front.length / 8 := by rw [h.pos, Nat.shiftRight_eq_div_pow]
  have hmask : pb.bitPos &&& 7 = front.length % 8 := by
    rw [h.pos]; exact Nat.and_two_pow_sub_one_eq_mod _ 3
  generalize hx : (if bit then buf.getD (front.length / 8) 0 ||| 1 <<<
    (7 - UInt8.ofNat (front.length % 8))
      else buf.getD (front.length / 8) 0 &&& ~~~(1 <<< (7 - UInt8.ofNat (front.length % 8)))) = x
  have hset : bitsOfBytes (buf.set (front.length / 8) x) =
      (bitsOfBytes buf).set front.length bit := by
    refine bitsOfBytes_set hroom fun k hk => ?_
    rw [← hx]
    exact testBit_masked _ bit (Nat.mod_lt _ (by decide)) hk
  have hrun : putbitOne fresh bit pb =
      .ok (none, { buf := buf.set (front.length / 8) x, end_ := (pb.bitPos + 1 + 7) >>> 3,
                   bitPos := pb.bitPos + 1 }) := by
    rw [putbitOne, hbuf, hbyte, hmask, if_pos (by omega), hx]
  refine ⟨_, hrun, ?_, ?_, ?_, ?_⟩
  · grind [Wrote.pos]
  · simp
    omega
  · rw [hset, length_append, length_singleton, take_add_one,
      getElem?_set_self (by rw [length_bitsOfBytes]; exact hroom),
      take_set_of_le (le_refl _), htake]
    rfl
  · simp
    omega

theorem Writes.andThen {f g : Putbit → Run Errno Putbit} {bs bs' : List Bool} (hf : Writes f bs)
    (hg : Writes g bs') :
    Writes (fun pb => andThen (f pb) g) (bs ++ bs') := by
  intro front pb h
  obtain ⟨pb₁, hrun, h₁⟩ := hf front pb h
  obtain ⟨pb₂, hrun₂, h₂⟩ := hg _ pb₁ h₁
  refine ⟨pb₂, ?_, by rwa [← append_assoc]⟩
  beta_reduce
  rw [hrun, andThen_none, hrun₂]

theorem writes_none : Writes (fun pb => .ok (none, pb)) [] := by
  intro front pb h
  exact ⟨pb, rfl, by rwa [append_nil]⟩

theorem writes_forLoop {body : Nat → Putbit → Run Errno Putbit} {bs : Nat → List Bool} (n : Nat) :
    ∀ i : Nat,
    (∀ j, i ≤ j → j < i + n → Writes (body j) (bs j)) → Writes (forLoop body n i)
    ((range' i n).flatMap bs) := by
  induction n with
  | zero => exact fun i _ => writes_none
  | succ n ih =>
    intro i h
    exact (h i (le_refl _) (by omega)).andThen (ih (i + 1) fun j hj hlt =>
      h j (by omega) (by omega))

theorem flatMap_numBits (val : Nat) (n : Nat) : ∀ i : Nat,
    (range' i n).flatMap (fun j => [(val >>> (i + n - j - 1)) &&& 1 != 0]) = numBits n val := by
  induction n with
  | zero => exact fun i => rfl
  | succ n ih =>
    intro i
    have hnext : i + (n + 1) = i + 1 + n := by omega
    have hshift : i + 1 + n - i - 1 = n := by omega
    rw [range'_succ, flatMap_cons, hnext, ih (i + 1), hshift, numBits,
      Nat.testBit_eq_decide_div_mod_eq, Nat.shiftRight_eq_div_pow, Nat.and_one_is_mod]
    have hbit : (val / 2 ^ n % 2 != 0) = decide (val / 2 ^ n % 2 = 1) := by
      rcases Nat.mod_two_eq_zero_or_one (val / 2 ^ n) with h | h <;> rw [h] <;> rfl
    rw [hbit]
    rfl

theorem writes_num {count : Nat} (h : count ≤ 32) (val : Nat) : Writes (putbitWrite fresh count val)
    (numBits count val) := by
  have hloop : Writes (forLoop (fun i => putbitOne fresh ((val >>> (0 + count - i - 1)) &&& 1 != 0))
      count 0) (numBits count val) := by
    rw [← flatMap_numBits val count 0]
    exact writes_forLoop count 0 fun j _ _ => writes_one _
  rw [zero_add] at hloop
  intro front pb hpb
  rw [putbitWrite, if_neg (by omega)]
  exact hloop front pb hpb

/-- The bytes hold the bits, and less than a byte behind them. -/
theorem Wrote.bytes {bs : List Bool} {pb : Putbit} (h : Wrote bs pb) (hne : bs ≠ []) :
    pb.bytes.length = (bs.length + 7) / 8 ∧ ∃ pad, bitsOfBytes pb.bytes = bs ++ pad := by
  have hroom := h.room
  have hlen : pb.bytes.length = (bs.length + 7) / 8 := by
    grind [last, Putbit.bytes]
  have hsplit : bitsOfBytes pb.buf = bitsOfBytes pb.bytes ++ bitsOfBytes (pb.buf.drop pb.end_) := by
    rw [← bitsOfBytes_append, Putbit.bytes, take_append_drop]
  have hbits := h.bits
  rw [hsplit, take_append_of_le_length (by rw [length_bitsOfBytes, hlen]; omega)] at hbits
  refine ⟨hlen, (bitsOfBytes pb.bytes).drop bs.length, ?_⟩
  conv_rhs => rw [← hbits]
  rw [length_take, min_eq_left (by rw [length_bitsOfBytes, hlen]; omega), take_append_drop]

/-! ## Non-symmetric numbers -/

/-- A number below `n`. -/
def nsBits (n v : Nat) : List Bool :=
  let w := Nat.log2 n + 1
  let m := 2 ^ w - n
  if v < m then numBits (w - 1) v else numBits w (v + m)

theorem writes_ns {n : Nat} (hpos : 0 < n) (hn : n < 2 ^ 31) (v : Nat) :
    Writes (putbitWriteNs fresh n v) (nsBits n v) := by
  generalize hw : Nat.log2 n = w
  obtain ⟨hwlt, hwidth, hpow, hshift⟩ := nsWidth_shift hpos hn hw
  have hhigh : n < 2 ^ (w + 1) := hw ▸ Nat.lt_log2_self
  have hm : (2 ^ (w + 1) + 2 ^ 32 - n) % 2 ^ 32 = 2 ^ (w + 1) - n := by omega
  have hless : (w + 1 + (2 ^ 32 - 1)) % 2 ^ 32 = w := by omega
  intro front pb hpb
  rw [putbitWriteNs, nsBits]
  simp only [hwidth, hshift, hm, hless, hw, Nat.add_sub_cancel]
  split
  · exact writes_num (by omega) v front pb hpb
  · exact writes_num (by omega) _ front pb hpb

/-- What was written is read. -/
theorem takeNs_nsBits {n v : Nat} (h : v < n) (rest : List Bool) :
    takeNs n (nsBits n v ++ rest) = (v, rest) := by
  generalize hw : Nat.log2 n = w
  have hhigh : n < 2 ^ (w + 1) := hw ▸ Nat.lt_log2_self
  rw [takeNs, nsBits]
  simp only [hw, Nat.add_sub_cancel, pow_succ]
  by_cases hsmall : v < 2 ^ w * 2 - n
  · rw [if_pos hsmall, takeBits_numBits (by omega)]
    exact if_pos hsmall
  have hbit : numBits 1 (v + (2 ^ w * 2 - n)) = numBits 1 ((v + (2 ^ w * 2 - n)) % 2) := by
    simp [numBits]
  rw [if_neg hsmall, numBits_succ, append_assoc, takeBits_numBits (by omega), hbit]
  rw [if_neg (by omega), takeBits_numBits (by omega)]
  exact Prod.ext (by dsimp only; omega) rfl

end LibRe
