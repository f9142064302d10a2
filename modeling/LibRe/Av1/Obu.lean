/-
LibRe.Av1.Obu — AV1 Open Bitstream Units (`src/av1/obu.c`) and the aggregation
header of their RTP packets (`src/av1/depack.c`).

Sizes are natural numbers. A size that was read has at most eight groups of
seven bits, so nothing the packetizer computes from it leaves 64 bits. The loop
of the encoder runs at most nine times for a 64-bit value, which is its bound
here.
-/
import Mathlib.Data.FinEnum
import LibRe.Lib.Leb128
import LibRe.Mbuf.MbufTheorems

namespace LibRe.AV1

open Leb128 List Nat

/-! ## Types of units

The type is a field of four bits, and not all of its values have a name. -/

/-- `AV1_OBU_SEQUENCE_HEADER`. -/
def obuSequenceHeader : UInt8 := 1

/-- `AV1_OBU_FRAME_HEADER`. -/
def obuFrameHeader : UInt8 := 3

/-- `AV1_OBU_TILE_GROUP`. -/
def obuTileGroup : UInt8 := 4

/-- `AV1_OBU_METADATA`. -/
def obuMetadata : UInt8 := 5

/-- `AV1_OBU_FRAME`. -/
def obuFrame : UInt8 := 6

/-- `AV1_OBU_REDUNDANT_FRAME_HEADER`. -/
def obuRedundantFrameHeader : UInt8 := 7

/-- `obu_allowed_rtp`. -/
def obuAllowedRtp (type : UInt8) : Bool :=
  type == obuSequenceHeader || type == obuFrameHeader || type == obuMetadata || type == obuFrame ||
    type == obuRedundantFrameHeader || type == obuTileGroup

/-! ## Numbers -/

/-- The loop of `av1_leb128_encode`. -/
def leb128EncodeLoop : Nat → Mbuf → Nat → Mbuf
  | 0, mb, value => mbufWriteU8 mb (UInt8.ofNat value)
  | n + 1, mb, value =>
    if value ≥ 0x80 then
      leb128EncodeLoop n (mbufWriteU8 mb (UInt8.ofNat (0x80 ||| (value &&& 0x7f)))) (value >>> 7)
    else mbufWriteU8 mb (UInt8.ofNat value)

/-- `av1_leb128_encode`. -/
def av1Leb128Encode (mb : Mbuf) (value : Nat) : Mbuf := leb128EncodeLoop 9 mb value

/-- The loop of `av1_leb128_decode`, with `n` rounds left. -/
def leb128DecodeLoop : Nat → Nat → Nat → Mbuf → Except Errno (Nat × Mbuf)
  | 0, _, ret, mb => .ok (ret, mb)
  | n + 1, i, ret, mb =>
    if mbufGetLeft mb < 1 then .error .EBADMSG
    else
      let (byte, mb) := mbufReadU8 mb
      let ret := ret ||| ((byte.toNat &&& 0x7f) <<< (i * 7))
      if byte &&& 0x80 == 0 then .ok (ret, mb) else leb128DecodeLoop n (i + 1) ret mb

/-- `av1_leb128_decode`. -/
def av1Leb128Decode (mb : Mbuf) : Except Errno (Nat × Mbuf) := leb128DecodeLoop 8 0 0 mb

/-! ## Headers -/

/-- `struct av1_obu_hdr`. -/
structure ObuHdr where
  type : UInt8
  x : Bool
  s : Bool
  size : Nat
  deriving DecidableEq, Repr

/-- `av1_obu_decode`. -/
def av1ObuDecode (mb : Mbuf) : Except Errno (ObuHdr × Mbuf) :=
  if mbufGetLeft mb < 1 then .error .EBADMSG
  else
    let (val, mb) := mbufReadU8 mb
    let f := (val >>> 7) &&& 0x1 == 1
    let type := (val >>> 3) &&& 0xf
    let x := (val >>> 2) &&& 0x1 == 1
    let s := (val >>> 1) &&& 0x1 == 1
    if f then .error .EBADMSG
    else if x then .error .ENOTSUP
    else if s then
      match av1Leb128Decode mb with
      | .error e => .error e
      | .ok (size, mb) =>
        if size > mbufGetLeft mb then .error .EBADMSG
        else .ok ({ type, x, s, size }, mb)
    else .ok ({ type, x, s, size := mbufGetLeft mb }, mb)

/-- `struct av1_aggr_hdr`. -/
structure AggrHdr where
  z : Bool
  y : Bool
  w : UInt8
  n : Bool
  deriving DecidableEq, Repr

/-- `av1_aggr_hdr_decode`. -/
def av1AggrHdrDecode (mb : Mbuf) : Except Errno (AggrHdr × Mbuf) :=
  if mbufGetLeft mb < 1 then .error .EBADMSG
  else
    let (v, mb) := mbufReadU8 mb
    .ok ({ z := (v >>> 7) &&& 0x1 == 1, y := (v >>> 6) &&& 0x1 == 1, w := (v >>> 4) &&& 0x3
           n := (v >>> 3) &&& 0x1 == 1 }, mb)

/-! ## The loops against the format -/

theorem shiftRight_seven (v : Nat) : v >>> 7 = v / 128 := shiftRight_eq_div_pow v 7

theorem and_mask_seven (v : Nat) : v &&& 0x7f = v % 128 := and_two_pow_sub_one_eq_mod v 7

theorem or_high_bit {v : Nat} (h : v < 128) : 0x80 ||| v = 128 + v :=
  (two_pow_add_eq_or_of_lt (show v < 2 ^ 7 from h) 1).symm

/-- The test of the highest bit. -/
theorem and_high_bit (b : UInt8) : (b &&& 0x80 == 0) = decide (b.toNat < 128) := by
  revert b
  decide +kernel

/-- One more group, or-ed in above the bits that are there. -/
theorem or_shifted {ret i v : Nat} (h : ret < 2 ^ (i * 7)) :
    ret ||| v <<< (i * 7) = ret + 2 ^ (i * 7) * v := by
  rw [Nat.shiftLeft_eq, mul_comm v, Nat.or_comm, ← Nat.two_pow_add_eq_or_of_lt h, add_comm]

theorem group_lt {ret i : Nat} (h : ret < 2 ^ (i * 7)) (v : Nat) :
    ret + 2 ^ (i * 7) * (v % 128) < 2 ^ ((i + 1) * 7) := by
  have hpow : 2 ^ ((i + 1) * 7) = 2 ^ (i * 7) * 128 := by
    rw [Nat.add_mul, Nat.pow_add]
  have hmod : v % 128 < 128 := Nat.mod_lt _ (by decide)
  nlinarith [Nat.two_pow_pos (i * 7)]

variable {mb : Mbuf}

/-- What every write of a byte keeps, the encoder keeps for the groups of the value. -/
theorem leb128EncodeLoop_writes {P : Bytes → Mbuf → Prop}
    (hwrite : ∀ {front mb} (b : UInt8), P front mb → P (front ++ [b]) (mbufWriteU8 mb b))
    (n : Nat) :
    ∀ {front : Bytes} {mb : Mbuf} (value : Nat), P front mb →
      P (front ++ encode n value) (leb128EncodeLoop n mb value) := by
  induction n with
  | zero => exact fun value h => hwrite _ h
  | succ n ih =>
    intro front mb value h
    by_cases hv : value ≥ 128
    · rw [leb128EncodeLoop, if_pos hv, shiftRight_seven, and_mask_seven,
        or_high_bit (by omega), encode, if_pos hv, append_cons]
      exact ih _ (hwrite _ h)
    · rw [leb128EncodeLoop, if_neg hv, encode, if_neg hv]
      exact hwrite _ h

/-- The encoder appends the groups of the value. -/
theorem leb128EncodeLoop_bytes (n value : Nat) (h : mb.pos = mb.end_) :
    (leb128EncodeLoop n mb value).bytes = mb.bytes ++ encode n value ∧
    (leb128EncodeLoop n mb value).pos = (leb128EncodeLoop n mb value).end_ := by
  refine leb128EncodeLoop_writes (P := fun front mb => mb.bytes = front ∧ mb.pos = mb.end_) ?_ n
    value ⟨rfl, h⟩
  rintro _ mb b ⟨rfl, h⟩
  refine ⟨mbufWriteMem_bytes h [b], ?_⟩
  rw [mbufWriteU8, mbufWriteMem_end h, mbufWriteMem_pos, h]

/-- What it wrote stands before the rest of the buffer, wherever the writer stood. -/
theorem left_av1Leb128Encode (mb : Mbuf) (value : Nat) :
    (mbufSetPos (av1Leb128Encode mb value) mb.pos).left =
      encode 9 value ++ (av1Leb128Encode mb value).left := by
  have hne : encode 9 value ≠ [] := by
    rw [encode]
    split <;> simp
  obtain ⟨⟨-, hupto⟩, hend⟩ := leb128EncodeLoop_writes
    (P := fun front m => Behind front m ∧ (front = mb.upto mb.pos ∨ m.pos ≤ m.end_))
    (fun b h => ⟨h.1.write [b], .inr (mbufWriteMem_pos_le _ _)⟩) 9 value ⟨behind_self mb, .inl rfl⟩
  have hle := hend.resolve_left (by simpa using hne)
  refine left_of_bytes (a := mb.upto mb.pos) ?_ (length_upto _ _).symm
  rw [mbufSetPos_bytes, bytes_eq_take_append_left, av1Leb128Encode, ← upto_of_le hle, hupto,
    append_assoc]

/-- The decoder reads them back. -/
theorem leb128DecodeLoop_eq (n : Nat) : ∀ (i : Nat) {ret v : Nat} {rest : Bytes} {mb : Mbuf},
    ret < 2 ^ (i * 7) → decode n mb.left = some (v, rest) →
    ∃ mb', leb128DecodeLoop n i ret mb = .ok (ret + 2 ^ (i * 7) * v, mb') ∧ mb'.left = rest := by
  induction n with
  | zero =>
    intro i ret v rest mb _ h
    obtain ⟨rfl, rfl⟩ := h
    exact ⟨mb, rfl, rfl⟩
  | succ n ih =>
    intro i ret v rest mb hret h
    cases hl : mb.left with
    | nil =>
      rw [hl] at h
      cases h
    | cons b bs =>
      rw [hl, decode] at h
      have hread : mbufReadU8 mb = (b, mbufAdvance mb 1) := by
        rw [mbufReadU8_ok (by rw [hl, length_cons]; omega), hl, headD_cons]
      have hleft : (mbufAdvance mb 1).left = bs := by rw [mbufAdvance_left, hl, drop_one, tail_cons]
      have hsome : ¬ mbufGetLeft mb < 1 := by
        simp [mbufGetLeft_eq, hl]
      rw [leb128DecodeLoop, if_neg hsome, hread]
      simp only [and_mask_seven, or_shifted hret, and_high_bit, decide_eq_true_eq]
      by_cases hb : b.toNat < 128
      · rw [if_pos hb] at h ⊢
        obtain ⟨rfl, rfl⟩ := h
        rw [Nat.mod_eq_of_lt hb]
        exact ⟨_, rfl, hleft⟩
      · rw [if_neg hb] at h ⊢
        obtain ⟨⟨v', rest'⟩, hdec, heq⟩ := Option.map_eq_some_iff.mp h
        obtain ⟨rfl, rfl⟩ := heq
        have hpow : 2 ^ ((i + 1) * 7) = 2 ^ (i * 7) * 128 := by
          rw [Nat.add_mul, Nat.pow_add]
        obtain ⟨mb', hloop, hrest⟩ := ih (i + 1) (group_lt hret _) (by rw [hleft]; exact hdec)
        refine ⟨mb', ?_, hrest⟩
        rw [hloop, hpow]
        ring_nf

/-- Reading a number takes at least one byte, of those that are there, and the number
has seven bits for every round. -/
theorem leb128DecodeLoop_left (n : Nat) : ∀ (i : Nat) {ret v : Nat} {mb mb' : Mbuf},
    leb128DecodeLoop n i ret mb = .ok (v, mb') →
    (∃ k ≤ mb.left.length, mb' = mbufAdvance mb k ∧ (0 < n → 0 < k)) ∧
      (ret < 2 ^ (i * 7) → v < 2 ^ ((i + n) * 7)) := by
  induction n with
  | zero =>
    intro i ret v mb mb' h
    obtain ⟨rfl, rfl⟩ := h
    exact ⟨⟨0, zero_le _, rfl, fun h => absurd h (lt_irrefl 0)⟩, id⟩
  | succ n ih =>
    intro i ret v mb mb' h
    by_cases hshort : mbufGetLeft mb < 1
    · simp_all [leb128DecodeLoop]
    rw [mbufGetLeft_eq] at hshort
    rw [leb128DecodeLoop, mbufGetLeft_eq, if_neg hshort, mbufReadU8_ok (by omega)] at h
    simp only [] at h
    have hgroup : ret < 2 ^ (i * 7) →
        ret ||| ((mb.left.headD 0).toNat &&& 0x7f) <<< (i * 7) < 2 ^ ((i + 1) * 7) := by
      intro hret
      rw [or_shifted hret, and_mask_seven]
      exact group_lt hret _
    split at h
    · simp only [Except.ok.injEq, Prod.mk.injEq] at h
      refine ⟨⟨1, by omega, h.2.symm, fun _ => one_pos⟩, fun hret => ?_⟩
      rw [← h.1]
      exact lt_of_lt_of_le (hgroup hret) (Nat.pow_le_pow_right (by decide) (by omega))
    · obtain ⟨⟨k, hle, hk, -⟩, hlt⟩ := ih (i + 1) h
      rw [mbufAdvance_left, length_drop] at hle
      rw [add_right_comm] at hlt
      refine ⟨⟨1 + k, by omega, ?_, fun _ => by omega⟩, fun hret => hlt (hgroup hret)⟩
      rw [hk, mbufAdvance_advance]

theorem av1Leb128Decode_encode {n : Nat} {rest : Bytes}
    (hl : mb.left = encode 9 n ++ rest) (hn : n < 128 ^ 8) :
    ∃ mb', av1Leb128Decode mb = .ok (n, mb') ∧ mb'.left = rest := by
  have hdec : decode 8 mb.left = some (n, rest) := by
    rw [hl]
    exact decode_encode 9 rest (lt_of_lt_of_le hn (by decide)) hn
  obtain ⟨mb', hloop, hrest⟩ := leb128DecodeLoop_eq 8 0 (show 0 < 2 ^ (0 * 7) by decide) hdec
  refine ⟨mb', ?_, hrest⟩
  rw [av1Leb128Decode, hloop]
  simp

/-- A number that was written is read back, up to where the writer stands, just when
it fits the eight groups of the decoder. The encoder writes up to ten. -/
theorem leb128_read_back_iff (mb : Mbuf) (value : UInt64) :
    (∃ mb', av1Leb128Decode (mbufSetPos (av1Leb128Encode mb value.toNat) mb.pos) =
        .ok (value.toNat, mb') ∧
        mb'.left = (av1Leb128Encode mb value.toNat).left) ↔
      value < 0x100000000000000 := by
  constructor
  · rintro ⟨mb', hdec, -⟩
    exact (leb128DecodeLoop_left 8 0 hdec).2 (by decide)
  · exact av1Leb128Decode_encode (left_av1Leb128Encode mb value.toNat)

/-- The first number of nine groups. -/
theorem nine_groups_not_read_back : ¬ ∀ value : UInt64, ∃ mb',
    av1Leb128Decode (mbufSetPos (av1Leb128Encode mbufInit value.toNat) 0) =
      .ok (value.toNat, mb') := by
  intro h
  obtain ⟨mb', hdec⟩ := h 0x100000000000000
  exact absurd ((leb128DecodeLoop_left 8 0 hdec).2 (by decide)) (by decide)

/-- What `av1_obu_decode` accepts: the header and the size field are behind the
position, the payload is in the buffer. -/
theorem av1ObuDecode_ok {hdr : ObuHdr} {mb' : Mbuf} (h : av1ObuDecode mb = .ok (hdr, mb')) :
    ∃ k ≤ mb.left.length, mb' = mbufAdvance mb k ∧ hdr.size ≤ mb'.left.length ∧
      (if hdr.s then 2 ≤ k else k = 1) := by
  unfold av1ObuDecode at h
  by_cases hshort : mbufGetLeft mb < 1
  · simp_all
  have hone : 1 ≤ mb.left.length := by
    grind [mbufGetLeft_eq]
  rw [if_neg hshort, mbufReadU8_ok hone] at h
  simp only [] at h
  split at h
  · cases h
  split at h
  · cases h
  split at h
  · split at h
    · cases h
    rename_i size mb₁ hdec
    split at h
    · cases h
    obtain ⟨rfl, rfl⟩ := h
    obtain ⟨⟨k, hle, hk, hpos⟩, -⟩ := leb128DecodeLoop_left 8 0 hdec
    rw [mbufAdvance_left, length_drop] at hle
    refine ⟨1 + k, by omega, by rw [hk, mbufAdvance_advance], ?_, ?_⟩
    · simp_all [mbufGetLeft_eq]
    · grind
  · obtain ⟨rfl, rfl⟩ := h
    refine ⟨1, hone, rfl, ?_, ?_⟩
    · rw [mbufGetLeft_eq]
    · simp_all

end LibRe.AV1
