/-
LibRe.Srtp.Index — the packet index of an RTP stream.

A stream holds a roll-over counter and the highest sequence number, which
together are a 48-bit count. `stream_cases` reads a sequence number against
that count: the packet is of the same roll-over, the next or the one before,
and the difference of the sequence numbers tells which.

The receiver's index goes through a signed 32-bit roll-over counter
(`srtp_get_index`), the sender's does not. Below 2^47 they are the same number;
above, the receiver's has its upper sixteen bits set.
-/
import LibRe.Lib.Counter
import LibRe.Srtp.Run

namespace LibRe.SRTP

open Bytes Counter

variable {strm : SrtpStream} {seq : UInt16}

/-- The count a stream stands at. -/
def streamCount (strm : SrtpStream) : Nat := strm.roc.toNat * 65536 + strm.sL.toNat

/-- The receiver's index for a roll-over counter and a sequence number. -/
def recvIndex (roc : UInt32) (seq : UInt16) : UInt64 :=
  seq.toUInt64 + roc.toInt32.toInt64.toUInt64 * 65536

/-! ## The index as a number -/

theorem toNat_sendIndex (roc : UInt32) (seq : UInt16) :
    (sendIndex roc seq).toNat = roc.toNat * 65536 + seq.toNat := by
  have hroc : roc.toNat < 4294967296 := roc.toNat_lt
  have hseq : seq.toNat < 65536 := seq.toNat_lt
  have h65536 : (65536 : UInt64).toNat = 65536 := rfl
  rw [sendIndex, UInt64.toNat_add, UInt64.toNat_mul, UInt32.toNat_toUInt64, UInt16.toNat_toUInt64,
    h65536]
  omega

/-- The sign extension of a 32-bit word to 64 bits. -/
theorem toNat_signExtend (roc : UInt32) :
    roc.toInt32.toInt64.toUInt64.toNat
      = if roc.toNat < 2147483648 then roc.toNat else roc.toNat + 18446744069414584320 := by
  have hint : roc.toInt32.toInt64.toInt = roc.toBitVec.toInt := Int32.toInt_toInt64 _
  have hnat : roc.toInt32.toInt64.toUInt64.toNat
      = (roc.toInt32.toInt64.toInt % 18446744073709551616).toNat := by
    have hcond : roc.toInt32.toInt64.toInt = if 2 * roc.toInt32.toInt64.toUInt64.toNat < 2 ^ 64
        then (roc.toInt32.toInt64.toUInt64.toNat : Int)
        else (roc.toInt32.toInt64.toUInt64.toNat : Int) - 2 ^ 64 :=
      BitVec.toInt_eq_toNat_cond _
    have hlt : roc.toInt32.toInt64.toUInt64.toNat < 18446744073709551616 := UInt64.toNat_lt _
    rw [hcond]
    split <;> omega
  have hcond : roc.toBitVec.toInt = if 2 * roc.toNat < 2 ^ 32 then (roc.toNat : Int)
      else (roc.toNat : Int) - 2 ^ 32 := BitVec.toInt_eq_toNat_cond _
  have hlt : roc.toNat < 4294967296 := roc.toNat_lt
  rw [hnat, hint, hcond]
  split <;> split <;> omega

theorem toNat_recvIndex (roc : UInt32) (seq : UInt16) :
    (recvIndex roc seq).toNat
      = if roc.toNat < 2147483648 then roc.toNat * 65536 + seq.toNat
        else roc.toNat * 65536 + seq.toNat + 18446462598732840960 := by
  have hroc : roc.toNat < 4294967296 := roc.toNat_lt
  have hseq : seq.toNat < 65536 := seq.toNat_lt
  have h65536 : (65536 : UInt64).toNat = 65536 := rfl
  rw [recvIndex, UInt64.toNat_add, UInt64.toNat_mul, UInt16.toNat_toUInt64, toNat_signExtend,
    h65536]
  split <;> omega

/-! ## Roll-overs -/

/-- `srtp_get_index` after the checks of `srtp_decrypt`: the roll-over counter of
the stream is the packet's, so its own rule never applies. -/
theorem srtpGetIndex_rollOver (h : seqDiff strm.sL seq ≤ 32768) :
    srtpGetIndex (rollOver strm seq).roc (rollOver strm seq).sL seq
      = recvIndex (rollOver strm seq).roc seq := by
  have hsL : strm.sL.toNat < 65536 := strm.sL.toNat_lt
  have hcond : ((rollOver strm seq).sL.toNat < 32768 →
        ¬ (seq.toNat : Int) - ((rollOver strm seq).sL.toNat : Int) > 32768) ∧
      (¬ (rollOver strm seq).sL.toNat < 32768 →
        ¬ ((rollOver strm seq).sL.toNat : Int) - 32768 > (seq.toNat : Int)) := by
    unfold rollOver seqDiff at *
    split
    · simp
      omega
    · constructor <;> intro _ <;> omega
  unfold srtpGetIndex recvIndex
  by_cases hlow : (rollOver strm seq).sL.toNat < 32768
  · simp only [hlow, hcond.1 hlow, if_true, if_false]
  · simp only [hlow, hcond.2 hlow, if_false]

theorem roc_eq_div (strm : SrtpStream) : strm.roc.toNat = streamCount strm / 65536 := by
  have hsL : strm.sL.toNat < 65536 := strm.sL.toNat_lt
  unfold streamCount
  omega

theorem sL_eq_mod (strm : SrtpStream) : strm.sL.toNat = streamCount strm % 65536 := by
  simp [streamCount]

variable {h i : Nat}

section

variable (hcount : streamCount strm = h) (hseq : seq.toNat = i % 65536)
  (ahead : i ≤ h + 32768) (behind : h < i + 32768)
include hcount hseq ahead behind

/-- A packet near the count of a stream: the same roll-over, the next, or the one
before. -/
theorem stream_cases :
    (i / 65536 = h / 65536 ∧ seqDiff strm.sL seq ≤ 32768 ∧ -32768 < seqDiff strm.sL seq) ∨
    (i / 65536 = h / 65536 + 1 ∧ seqDiff strm.sL seq ≤ -32768) ∨
    (i / 65536 + 1 = h / 65536 ∧ 32768 < seqDiff strm.sL seq) := by
  have hsL := sL_eq_mod strm
  unfold seqDiff
  rcases epoch_cases (by decide) ahead behind with ⟨hq, h1, h2⟩ | ⟨hq, h1⟩ | ⟨hq, h1⟩
  · omega
  · omega
  · omega

variable (hold : seqDiff strm.sL seq ≤ 32768) (hfit : i < 281474976710656)
include hold hfit

/-- The roll-over step for a packet of the same or the next roll-over leaves the
packet's own roll-over counter, as long as that fits into its 32 bits. -/
theorem roc_rollOver : (rollOver strm seq).roc.toNat = i / 65536 := by
  have hroc := roc_eq_div strm
  rcases stream_cases hcount hseq ahead behind with ⟨hq, -, hgt⟩ | ⟨hq, hle⟩ | ⟨-, hgt⟩
  · grind [rollOver]
  · simp [rollOver, hle]
    omega
  · omega

/-- The highest number after the packet: the stream stands at the higher of its
old count and the packet's. -/
theorem streamCount_raiseSeq (replay : Replay) :
    streamCount (raiseSeq { rollOver strm seq with replayRtp := replay } seq) = max i h := by
  have hroc := roc_rollOver hcount hseq ahead behind hold hfit
  have hsL := sL_eq_mod strm
  have hval : streamCount (raiseSeq { rollOver strm seq with replayRtp := replay } seq)
      = (rollOver strm seq).roc.toNat * 65536 + max seq.toNat (rollOver strm seq).sL.toNat := by
    unfold raiseSeq streamCount
    simp only [gt_iff_lt, UInt16.lt_iff_toNat_lt]
    split
    · rw [max_eq_left (by omega)]
    · rw [max_eq_right (by omega)]
  rcases stream_cases hcount hseq ahead behind with ⟨hq, -, hgt⟩ | ⟨hq, hle⟩ | ⟨-, hgt⟩
  · grind [rollOver]
  · have hzero : (rollOver strm seq).sL.toNat = 0 := by
      simp [rollOver, hle]
    omega
  · omega

end

end LibRe.SRTP
