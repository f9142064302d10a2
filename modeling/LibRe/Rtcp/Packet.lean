/-
LibRe.Rtcp.Packet — RTCP packets (`src/rtp/pkt.c`, `fb.c`, `sdes.c`, `rr.c`, and
`rtcp_recv_handler` of `rtp.c`).

Translation notes. A buffer that is read is the list of the bytes left in it. `signed
int lost:24` is a `BitVec 24`. A reference to a part of the buffer that has been read
(`mbuf_alloc_ref`) is the bytes of this part; the deltas of a transport-wide feedback
message are a reference to bytes that have not been read, and stay one (`Ref`). In
`rtcp_rtpfb_twcc_decode` the size that is skipped wraps around when the status chunks
are longer than the packet, to a number no buffer has; that is the error it leads to.
Out of memory is not modelled.
-/
import LibRe.Mbuf.Read

namespace LibRe.Rtcp

open Bytes Reader Read

/-! ## Messages -/

/-- `enum rtcp_type` -/
inductive RtcpType where
  | FIR | NACK | SR | RR | SDES | BYE | APP | RTPFB | PSFB | XR | AVB
  deriving DecidableEq, Repr

def RtcpType.code : RtcpType → UInt8
  | .FIR => 192
  | .NACK => 193
  | .SR => 200
  | .RR => 201
  | .SDES => 202
  | .BYE => 203
  | .APP => 204
  | .RTPFB => 205
  | .PSFB => 206
  | .XR => 207
  | .AVB => 208

def rtcpType (pt : UInt8) : Option RtcpType :=
  [.FIR, .NACK, .SR, .RR, .SDES, .BYE, .APP, .RTPFB, .PSFB, .XR, .AVB].find? fun t => t.code = pt

/-- `RTCP_VERSION` -/
def rtcpVersion : Nat := 2

/-- `RTCP_RTPFB_GNACK` -/
def rtpfbGnack : Nat := 1

/-- `RTCP_RTPFB_TWCC` -/
def rtpfbTwcc : Nat := 15

/-- `RTCP_PSFB_PLI` -/
def psfbPli : Nat := 1

/-- `RTCP_PSFB_SLI` -/
def psfbSli : Nat := 2

/-- `RTCP_PSFB_FIR` -/
def psfbFir : Nat := 4

/-- `RTCP_PSFB_AFB` -/
def psfbAfb : Nat := 15

/-- `RTCP_XR_RRTR` -/
def xrRrtr : UInt8 := 4

/-- `RTCP_XR_DLRR` -/
def xrDlrr : UInt8 := 5

/-- `RTCP_SDES_END` -/
def sdesEnd : UInt8 := 0

/-- `struct rtcp_hdr` -/
structure RtcpHdr where
  version : Nat
  p : Nat
  count : Nat
  pt : UInt8
  length : Nat
  deriving DecidableEq, Repr

/-- `struct rtcp_rr` -/
structure RtcpRr where
  ssrc : UInt32
  fraction : UInt8
  lost : BitVec 24
  lastSeq : UInt32
  jitter : UInt32
  lsr : UInt32
  dlsr : UInt32
  deriving DecidableEq, Repr

/-- The sender information of a sender report. -/
structure SenderInfo where
  ssrc : UInt32
  ntpSec : UInt32
  ntpFrac : UInt32
  rtpTs : UInt32
  psent : UInt32
  osent : UInt32
  deriving DecidableEq, Repr

/-- `struct rtcp_sdes_item` -/
structure SdesItem where
  type : UInt8
  data : Bytes
  deriving DecidableEq, Repr

/-- `struct rtcp_sdes` -/
structure Sdes where
  src : UInt32
  itemv : List SdesItem
  deriving DecidableEq, Repr

/-- `struct gnack` -/
structure Gnack where
  pid : UInt16
  blp : UInt16
  deriving DecidableEq, Repr

/-- `struct sli` -/
structure Sli where
  first : Nat
  number : Nat
  picid : Nat
  deriving DecidableEq, Repr

/-- `struct fir_rfc5104` -/
structure FirRfc5104 where
  ssrc : UInt32
  seqN : UInt8
  deriving DecidableEq, Repr

/-- A reference into the buffer: its size, and the bytes that were left in the buffer
where it begins. -/
structure Ref where
  left : Nat
  size : Nat
  deriving DecidableEq, Repr

/-- `struct twcc` -/
structure Twcc where
  seq : UInt16
  count : UInt16
  reftime : UInt32
  fbcount : UInt8
  chunks : Bytes
  deltas : Ref
  deriving DecidableEq, Repr

/-- The feedback control information. -/
inductive Fci where
  | gnackv (v : List Gnack)
  | twccv (v : Twcc)
  | pli
  | sliv (v : List Sli)
  | firv (v : List FirRfc5104)
  | afb (bytes : Bytes)
  | unknown
  deriving DecidableEq, Repr

/-- The block of an extended report. -/
inductive XrBlock where
  | rrtrb (ntpMsw ntpLsw : UInt32)
  | dlrrb (ssrc lrr dlrr : UInt32)
  | unknown
  deriving DecidableEq, Repr

/-- The union of `struct rtcp_msg`. -/
inductive Body where
  | sr (info : SenderInfo) (rrv : List RtcpRr)
  | rr (ssrc : UInt32) (rrv : List RtcpRr)
  | sdes (sdesv : List Sdes)
  | bye (srcv : List UInt32) (reason : Option Bytes)
  | app (src : UInt32) (name : Bytes) (data : Bytes)
  | fir (ssrc : UInt32)
  | nack (ssrc : UInt32) (fsn blp : UInt16)
  | fb (ssrcPacket ssrcMedia : UInt32) (n : Nat) (fci : Fci)
  | xr (ssrc : UInt32) (bt : UInt8) (blockLen : UInt16) (rb : XrBlock)
  | unknown
  deriving DecidableEq, Repr

/-- `struct rtcp_msg` -/
structure RtcpMsg where
  hdr : RtcpHdr
  body : Body
  deriving DecidableEq, Repr

/-! ## Decoding -/

/-- `rtcp_hdr_decode` -/
def rtcpHdrDecode : Reader UInt8 Errno RtcpHdr :=
  checked 4 fun xs =>
    { version := (xs.headD 0).toNat / 64, p := (xs.headD 0).toNat / 32 % 2
      count := (xs.headD 0).toNat % 32, pt := (xs.drop 1).headD 0
      length := (ofBe16 (xs.drop 2)).toNat }

/-- `rtcp_rr_decode` -/
def rtcpRrDecode : Reader UInt8 Errno RtcpRr :=
  checked 24 fun xs =>
    let w := ofBe32 (xs.drop 4)
    { ssrc := ofBe32 xs, fraction := UInt8.ofNat (w.toNat / 2 ^ 24), lost := BitVec.ofNat 24 w.toNat
      lastSeq := ofBe32 (xs.drop 8), jitter := ofBe32 (xs.drop 12), lsr := ofBe32 (xs.drop 16)
      dlsr := ofBe32 (xs.drop 20) }

/-- An item behind its type, and the `others`; nothing more behind the end mark. -/
def sdesItem (others : Reader UInt8 Errno (List SdesItem)) (type : UInt8) :
    Reader UInt8 Errno (List SdesItem) :=
  if type = sdesEnd then give []
  else
    need .EBADMSG 1 (andThen readU8 fun length => andThen (checked length.toNat id) fun data =>
      andThen others fun items => give (⟨type, data⟩ :: items))

/-- The loop over the items of `rtcp_sdes_decode`. -/
def sdesItems : Nat → Reader UInt8 Errno (List SdesItem)
  | 0 => give []
  | fuel + 1 => fun xs =>
    if xs.length < 1 then .ok ([], xs) else andThen readU8 (sdesItem (sdesItems fuel)) xs

variable (start : Nat) (hdr : RtcpHdr) (n : Nat)

/-- `rtcp_sdes_decode`, with `start` bytes left. -/
def sdesDecodeFrom : Reader UInt8 Errno Sdes :=
  andThen (checked 4 ofBe32) fun src => andThen (sdesItems start) fun items =>
    andThen (slurp start) fun _ => give ⟨src, items⟩

/-- `rtcp_sdes_decode` -/
def rtcpSdesDecode : Reader UInt8 Errno Sdes := byLength sdesDecodeFrom

/-- The packets a status chunk is about, and the bytes of their deltas. -/
def twccChunk (chunk i : Nat) : Nat × Nat :=
  if chunk / 0x8000 % 2 = 1 then
    if chunk / 0x4000 % 2 = 1 then
      (min i 7, ((List.range (min i 7)).map fun j => chunk / 4 ^ (6 - j) % 4).sum)
    else (min i 14, ((List.range (min i 14)).map fun j => chunk / 2 ^ (13 - j) % 2).sum)
  else (min i (chunk % 0x2000), min i (chunk % 0x2000) * (chunk / 0x2000 % 4))

/-- The loop over the status chunks: the bytes of all deltas. -/
def twccChunks : Nat → Nat → Reader UInt8 Errno Nat
  | _, 0 => give 0
  | 0, _ + 1 => fail .EBADMSG
  | fuel + 1, i + 1 =>
    andThen (checked 2 ofBe16) fun chunk =>
      andThen (twccChunks fuel (i + 1 - (twccChunk chunk.toNat (i + 1)).1)) fun sz =>
        give ((twccChunk chunk.toNat (i + 1)).2 + sz)

/-- The first eight bytes of a transport-wide feedback message. -/
def twccInfo (xs : Bytes) : Twcc :=
  let w := ofBe32 (xs.drop 4)
  { seq := ofBe16 xs, count := ofBe16 (xs.drop 2), reftime := w >>> 8
    fbcount := UInt8.ofNat w.toNat, chunks := [], deltas := ⟨0, 0⟩ }

/-- `rtcp_rtpfb_twcc_decode` behind the status chunks: `sz` bytes of deltas, and the
position behind the packet, whose status chunks have `chunkBytes`. -/
def twccDeltas (info : Twcc) (chunkBytes : Bytes) (sz : Nat) :
    Reader UInt8 Errno Twcc := fun zs =>
  if zs.length < sz then .error .EBADMSG
  else if n * 4 < 8 + chunkBytes.length then .error .EBADMSG
  else if zs.length < n * 4 - 8 - chunkBytes.length then .error .EBADMSG
  else
    .ok ({ info with chunks := chunkBytes, deltas := ⟨zs.length, sz⟩ },
      zs.drop (n * 4 - 8 - chunkBytes.length))

/-- `rtcp_rtpfb_twcc_decode` -/
def rtcpRtpfbTwccDecode : Reader UInt8 Errno Twcc :=
  andThen (checked 8 twccInfo) fun info =>
    if info.count = 0 ∨ info.count > 32768 then fail .EBADMSG
    else
      andThen (consumed (byLength fun left => twccChunks left info.count.toNat)) fun (chunks, sz) =>
        twccDeltas n info chunks sz

/-- One entry of a generic NACK. -/
def gnackEntry : Reader UInt8 Errno Gnack := checked 4 fun xs => ⟨ofBe16 xs, ofBe16 (xs.drop 2)⟩

/-- One entry of a slice loss indication. -/
def sliEntry : Reader UInt8 Errno Sli :=
  checked 4 fun xs =>
    let v := (ofBe32 xs).toNat
    ⟨v / 2 ^ 19 % 2 ^ 13, v / 2 ^ 6 % 2 ^ 13, v % 2 ^ 6⟩

/-- One entry of a full intra request. -/
def firEntry : Reader UInt8 Errno FirRfc5104 :=
  checked 8 fun xs => ⟨ofBe32 xs, (xs.drop 4).headD 0⟩

/-- `rtcp_rtpfb_decode` -/
def rtcpRtpfbDecode : Reader UInt8 Errno Fci :=
  if hdr.count = rtpfbGnack then
    need .EBADMSG (n * 4) (andThen (times n gnackEntry) fun v => give (.gnackv v))
  else if hdr.count = rtpfbTwcc then
    need .EBADMSG 8 (andThen (rtcpRtpfbTwccDecode n) fun v => give (.twccv v))
  else give .unknown

/-- `rtcp_psfb_decode`: the number of entries, and the entries. -/
def rtcpPsfbDecode : Reader UInt8 Errno (Nat × Fci) :=
  if hdr.count = psfbPli then give (n, .pli)
  else if hdr.count = psfbSli then
    need .EBADMSG (n * 4) (andThen (times n sliEntry) fun v => give (n, .sliv v))
  else if hdr.count = psfbAfb then andThen (checked (n * 4) id) fun bytes => give (n, .afb bytes)
  else if hdr.count = psfbFir then
    need .EBADMSG (n / 2 * 8) (andThen (times (n / 2) firEntry) fun v => give (n / 2, .firv v))
  else give (n, .unknown)

/-- `case RTCP_XR:` -/
def xrDecode : Reader UInt8 Errno Body :=
  andThen (checked 4 ofBe32) fun ssrc => andThen readU8 fun bt => andThen readU8 fun _ =>
    andThen readU16 fun blockLen =>
      if bt = xrRrtr then
        if blockLen ≠ 2 then fail .EBADMSG
        else
          andThen readU32 fun msw => andThen readU32 fun lsw =>
            give (.xr ssrc bt blockLen (.rrtrb msw lsw))
      else if bt = xrDlrr then
        if blockLen ≠ 3 then fail .EBADMSG
        else
          andThen readU32 fun src => andThen readU32 fun lrr => andThen readU32 fun dlrr =>
            give (.xr ssrc bt blockLen (.dlrrb src lrr dlrr))
      else give (.xr ssrc bt blockLen .unknown)

/-- `case RTCP_BYE:` -/
def byeDecode (count rem : Nat) : Reader UInt8 Errno Body :=
  need .EBADMSG (4 * count) (andThen (times count (checked 4 ofBe32)) fun srcv =>
    if rem > 4 * count then
      andThen readU8 fun len => andThen (checked len.toNat id) fun reason =>
        give (.bye srcv (some reason))
    else give (.bye srcv none))

/-- `case RTCP_APP:` -/
def appDecode (rem : Nat) : Reader UInt8 Errno Body :=
  andThen (checked 8 fun xs => (ofBe32 xs, (xs.drop 4).take 4)) fun (src, name) =>
    if rem > 8 then andThen (checked (rem - 8) id) fun data => give (.app src name data)
    else give (.app src name [])

/-- The two sources of a feedback message. -/
def fbSources : Reader UInt8 Errno (UInt32 × UInt32) :=
  checked 8 fun xs => (ofBe32 xs, ofBe32 (xs.drop 4))

/-- `switch (msg->hdr.pt)` -/
def bodyDecode : Reader UInt8 Errno Body :=
  match rtcpType hdr.pt with
  | some .SR =>
    andThen (checked 24 fun xs =>
      { ssrc := ofBe32 xs, ntpSec := ofBe32 (xs.drop 4), ntpFrac := ofBe32 (xs.drop 8)
        rtpTs := ofBe32 (xs.drop 12), psent := ofBe32 (xs.drop 16), osent :=
          ofBe32 (xs.drop 20) }) fun info =>
      andThen (times hdr.count rtcpRrDecode) fun rrv => give (.sr info rrv)
  | some .RR =>
    andThen (checked 4 ofBe32) fun ssrc =>
      andThen (times hdr.count rtcpRrDecode) fun rrv => give (.rr ssrc rrv)
  | some .SDES => andThen (times hdr.count rtcpSdesDecode) fun sdesv => give (.sdes sdesv)
  | some .BYE => byeDecode hdr.count (4 * hdr.length)
  | some .APP => appDecode (4 * hdr.length)
  | some .FIR => andThen (checked 4 ofBe32) fun ssrc => give (.fir ssrc)
  | some .NACK =>
    checked 8 fun xs => .nack (ofBe32 xs) (ofBe16 (xs.drop 4)) (ofBe16 (xs.drop 6))
  | some .RTPFB =>
    if hdr.length < 2 then fail .EBADMSG
    else
      andThen fbSources fun (packet, media) =>
        andThen (rtcpRtpfbDecode hdr (hdr.length - 2)) fun fci =>
          give (.fb packet media (hdr.length - 2) fci)
  | some .PSFB =>
    if hdr.length < 2 then fail .EBADMSG
    else
      andThen fbSources fun (packet, media) =>
        andThen (rtcpPsfbDecode hdr (hdr.length - 2)) fun (n, fci) => give (.fb packet media n fci)
  | some .XR => xrDecode
  | _ => andThen (checked (4 * hdr.length) fun _ => ()) fun _ => give .unknown

/-- `rtcp_decode`, with `start` bytes left. -/
def rtcpDecodeFrom : Reader UInt8 Errno RtcpMsg :=
  andThen rtcpHdrDecode fun hdr =>
    if hdr.version ≠ rtcpVersion then fail .EBADMSG
    else
      need .EBADMSG (4 * hdr.length) (andThen (bodyDecode hdr) fun body =>
        andThen (slurp start) fun _ => give ⟨hdr, body⟩)

/-- `rtcp_decode` -/
def rtcpDecode : Reader UInt8 Errno RtcpMsg := byLength rtcpDecodeFrom

/-- The loop of `rtcp_recv_handler`: the messages, and where they were found. -/
def rtcpRecvLoop : Nat → Nat → Bytes → List (Nat × RtcpMsg)
  | 0, _, _ => []
  | fuel + 1, pos, xs =>
    match rtcpDecode xs with
    | .error _ => []
    | .ok (msg, rest) => (pos, msg) :: rtcpRecvLoop fuel (pos + (xs.length - rest.length)) rest

/-- `rtcp_recv_handler` -/
def rtcpRecvHandler (xs : Bytes) : List (Nat × RtcpMsg) := rtcpRecvLoop xs.length 0 xs

end LibRe.Rtcp
