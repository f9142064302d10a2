/-
LibRe.H264.Nal — H.264 packetization (`src/h264/nal.c`).

A pointer into the buffer is its offset; `base` is the address of the buffer,
which decides where the scanner is aligned. The end of the buffer is its length.
Sizes are of type `size_t`: a difference is taken modulo 2^64 (`subSize`).

The packet handler is called with an offset and a size; `Packet` keeps these and
not the bytes, which need not exist. What the handler returns is or-ed into the
return value and changes nothing else; it is left out. Loops whose end is not
plain get a bound on their rounds, and `none` stands for a call that does not
return within it.
-/
import LibRe.Lib.Bytes

namespace LibRe.H264

/-- Subtraction of `size_t`. -/
def subSize (a b : Nat) : Nat := (a + 2 ^ 64 - b) % 2 ^ 64

/-- `p[0]`, at an offset. -/
def byteAt (buf : Bytes) (p : Nat) : UInt8 := buf.getD p 0

/-- `p[0] == 0 && p[1] == 0 && p[2] == 1` -/
def startcodeAt (buf : Bytes) (p : Nat) : Bool :=
  byteAt buf p == 0 && byteAt buf (p + 1) == 0 && byteAt buf (p + 2) == 1

/-! ## The scanner -/

/-- The four bytes at an offset as a little-endian word. -/
def wordAt (buf : Bytes) (p : Nat) : UInt32 :=
  UInt32.ofNat ((byteAt buf p).toNat + (byteAt buf (p + 1)).toNat * 2 ^ 8 +
    (byteAt buf (p + 2)).toNat * 2 ^ 16 + (byteAt buf (p + 3)).toNat * 2 ^ 24)

/-- The last loop of `h264_find_startcode_int`: the bytes behind the last word. -/
def scanTail (buf : Bytes) : Nat → Nat → Nat
  | 0, _ => buf.length
  | n + 1, p =>
    if p + 3 < buf.length then if startcodeAt buf p then p else scanTail buf n (p + 1)
    else buf.length

/-- The second loop: words with a zero byte are looked at. -/
def scanWords (buf : Bytes) : Nat → Nat → Nat
  | 0, p => scanTail buf (buf.length - p) p
  | n + 1, p =>
    if p + 6 < buf.length then
      let x := wordAt buf p
      if (x - 0x01010101) &&& ~~~x &&& 0x80808080 != 0 then
        if byteAt buf (p + 1) == 0 && byteAt buf p == 0 && byteAt buf (p + 2) == 1 then p
        else if byteAt buf (p + 1) == 0 && byteAt buf (p + 2) == 0 && byteAt buf (p + 3) ==
          1 then p + 1
        else if byteAt buf (p + 3) == 0 && byteAt buf (p + 2) == 0 && byteAt buf (p + 4) ==
          1 then p + 2
        else if byteAt buf (p + 3) == 0 && byteAt buf (p + 4) == 0 && byteAt buf (p + 5) ==
          1 then p + 3
        else scanWords buf n (p + 4)
      else scanWords buf n (p + 4)
    else scanTail buf (buf.length - p) p

/-- The first loop: up to the next aligned address, which is `n` bytes away. -/
def scanHead (buf : Bytes) : Nat → Nat → Nat
  | 0, p => scanWords buf (buf.length - p) p
  | n + 1, p =>
    if p + 3 < buf.length then if startcodeAt buf p then p else scanHead buf n (p + 1)
    else scanWords buf (buf.length - p) p

/-- `h264_find_startcode_int`. -/
def h264FindStartcodeInt (base : Nat) (buf : Bytes) (p : Nat) : Nat :=
  scanHead buf (4 - (base + p) % 4) p

/-- `h264_find_startcode`. -/
def h264FindStartcode (base : Nat) (buf : Bytes) (p : Nat) : Nat :=
  let out := h264FindStartcodeInt base buf p
  if p < out ∧ out < buf.length ∧ byteAt buf (out - 1) = 0 then out - 1 else out

/-! ## Packets -/

/-- A call of the packet handler. -/
structure Packet where
  marker : Bool
  rtpTs : UInt64
  hdr : Bytes
  off : Nat
  size : Nat
  deriving DecidableEq, Repr

/-- `H264_NALU_FU_A`. -/
def naluFuA : UInt8 := 28

/-- The loop of `h264_nal_send` over the fragments, and the last one behind it. -/
def fragmentLoop (rtpTs : UInt64) (fuInd : UInt8) (sz : Nat) (last marker : Bool) :
    (n : Nat) → (fuHdr : UInt8) → (off size : Nat) → Option (List Packet)
  | 0, _, _, _ => none
  | n + 1, fuHdr, off, size =>
    if size > sz then
      (fragmentLoop rtpTs fuInd sz last marker n (fuHdr &&& ~~~((1 : UInt8) <<< (7 : UInt8)))
        (off + sz) (size - sz)).map
        ({ marker := false, rtpTs, hdr := [fuInd, fuHdr], off, size := sz } :: ·)
    else
      let fuHdr := if last then fuHdr ||| (1 : UInt8) <<< (6 : UInt8) else fuHdr
      some [{ marker := marker && last, rtpTs, hdr := [fuInd, fuHdr], off, size }]

/-- `h264_nal_send`. With fragments of one byte at least there are `size` of them
at most. -/
def h264NalSend (first last marker : Bool) (hdr : UInt8) (rtpTs : UInt64) (off size maxsz : Nat) :
    Option (List Packet) :=
  if first && last && decide (size ≤ maxsz) then
    some [{ marker, rtpTs, hdr := [hdr], off, size }]
  else
    let type := hdr &&& 0x1f
    let nri := hdr &&& 0x60
    fragmentLoop rtpTs (nri ||| naluFuA) (subSize maxsz 2) last marker (size + 1)
      (if first then (1 : UInt8) <<< (7 : UInt8) ||| type else type) off size

/-- `while (!*(r++));` -/
def skipZeros (buf : Bytes) : Nat → Nat → Option Nat
  | 0, _ => none
  | n + 1, r => if byteAt buf r = 0 then skipZeros buf n (r + 1) else some (r + 1)

section Packetize

variable (base : Nat) (rtpTs : UInt64) (buf : Bytes) (pktsize : Nat)

/-- One round of `h264_packetize`: the packets of the NAL unit behind the start
code at `r`, and where the next start code is. -/
def packetizeNal (r : Nat) : Option (List Packet × Nat) :=
  (skipZeros buf buf.length r).bind fun r =>
    let r1 := h264FindStartcode base buf r
    (h264NalSend true true (decide (r1 ≥ buf.length)) (byteAt buf r) rtpTs (r + 1)
      (subSize r1 (r + 1)) pktsize).map fun packets => (packets, r1)

/-- The loop of `h264_packetize`. -/
def packetizeLoop : Nat → Nat → Option (List Packet)
  | 0, _ => none
  | n + 1, r =>
    if r < buf.length then
      match packetizeNal base rtpTs buf pktsize r with
      | none => none
      | some (packets, r1) => (packetizeLoop n r1).map (packets ++ ·)
    else some []

/-- `h264_packetize`. Every NAL unit takes a byte of the buffer. -/
def h264Packetize : Option (List Packet) :=
  packetizeLoop base rtpTs buf pktsize (buf.length + 1) (h264FindStartcode base buf 0)

end Packetize

end LibRe.H264
