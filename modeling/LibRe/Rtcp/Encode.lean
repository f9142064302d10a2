/-
LibRe.Rtcp.Encode — writing RTCP packets (`rtcp_vencode` of `src/rtp/pkt.c`, and the
encode handlers of `sdes.c`, `rr.c`, `fb.c` and `rtcp.c`).

The header is written last: its length field is the number of words that were written
behind it. The variable arguments of `rtcp_encode` are a `VArgs`, which also says the
packet type; a `Message` is a packet of the types that the decoder gives back field by
field, with the arguments it is encoded from and the body it is decoded to.

Translation notes. What an encode handler does is the bytes that it writes, or the error
code it returns; the handler of a picture-loss indication is NULL, and that of a slice
loss indication is the application's. A string is the bytes before its NUL. A packet is
written at the end of the buffer, so encoding gives the bytes that are appended.
-/
import LibRe.Rtcp.Packet

namespace LibRe.Rtcp

open Bytes

/-! ## Encode handlers -/

/-- Zeros up to the next multiple of four. -/
def padding (n : Nat) : Bytes := List.replicate ((4 - n % 4) % 4) 0

/-- `rtcp_rr_encode` -/
def rtcpRrEncode (rr : RtcpRr) : Bytes :=
  be32 rr.ssrc ++ be32 (UInt32.ofNat (rr.fraction.toNat * 2 ^ 24 + rr.lost.toNat)) ++
    be32 rr.lastSeq ++ be32 rr.jitter ++ be32 rr.lsr ++ be32 rr.dlsr

/-- The loop over the items of `rtcp_sdes_encode`; an item that is NULL is left out. -/
def sdesItemsEncode : List (UInt8 × Option Bytes) → Except Errno Bytes
  | [] => .ok []
  | (_, none) :: items => sdesItemsEncode items
  | (type, some v) :: items =>
    if v.length > 255 then .error .EINVAL
    else
      match sdesItemsEncode items with
      | .error err => .error err
      | .ok bytes => .ok (type :: UInt8.ofNat v.length :: v ++ bytes)

/-- `rtcp_sdes_encode` -/
def rtcpSdesEncode (src : UInt32) (items : List (UInt8 × Option Bytes)) :
    Except Errno Bytes :=
  if items.length = 0 then .error .EINVAL
  else
    match sdesItemsEncode items with
    | .error err => .error err
    | .ok bytes => .ok (be32 src ++ bytes ++ sdesEnd :: padding (4 + bytes.length + 1))

/-- `rtcp_rtpfb_gnack_encode` -/
def rtcpRtpfbGnackEncode (fci : Gnack) : Bytes := be16 fci.pid ++ be16 fci.blp

/-- A slice loss indication as one word. -/
def sliEncode (fci : Sli) : Bytes :=
  be32 (UInt32.ofNat (fci.first * 2 ^ 19 + fci.number * 2 ^ 6 + fci.picid))

/-- `encode_fir_rfc5104_fci` -/
def encodeFirRfc5104Fci (fci : FirRfc5104) : Bytes := be32 fci.ssrc ++ [fci.seqN, 0, 0, 0]

/-! ## Packets -/

/-- What an encode handler writes; nothing if it is NULL. -/
abbrev Ench := Except Errno Bytes

/-- The variable arguments of `rtcp_encode`. -/
inductive VArgs where
  | SR (info : SenderInfo) (ench : Ench)
  | RR (ssrc : UInt32) (ench : Ench)
  | SDES (ench : Ench)
  | BYE (srcv : List UInt32) (reason : Option Bytes)
  | APP (src : UInt32) (name : Bytes) (data : Option Bytes)
  | FIR (ssrc : UInt32)
  | NACK (ssrc : UInt32) (fsn blp : UInt16)
  | RTPFB (packet media : UInt32) (ench : Ench)
  | PSFB (packet media : UInt32) (ench : Ench)
  | XR (ssrc : UInt32) (ench : Ench)
  | AVB

def VArgs.type : VArgs → RtcpType
  | .SR .. => .SR
  | .RR .. => .RR
  | .SDES .. => .SDES
  | .BYE .. => .BYE
  | .APP .. => .APP
  | .FIR .. => .FIR
  | .NACK .. => .NACK
  | .RTPFB .. => .RTPFB
  | .PSFB .. => .PSFB
  | .XR .. => .XR
  | .AVB => .AVB

/-- `switch (type)` of `rtcp_vencode`: what is written behind the header. -/
def bodyEncode (count : Nat) : VArgs → Except Errno Bytes
  | .SR info ench =>
    ench.map fun bytes =>
      be32 info.ssrc ++ be32 info.ntpSec ++ be32 info.ntpFrac ++ be32 info.rtpTs ++
        be32 info.psent ++ be32 info.osent ++ bytes
  | .RR ssrc ench => ench.map fun bytes => be32 ssrc ++ bytes
  | .SDES ench => ench
  | .BYE srcv reason =>
    .ok ((srcv.take count).flatMap be32 ++
      match reason with
      | some reason => UInt8.ofNat reason.length :: reason
      | none => [])
  | .APP src name data =>
    match data with
    | some data =>
      if data.length % 4 ≠ 0 then .error .EBADMSG else .ok (be32 src ++ name.take 4 ++ data)
    | none => .ok (be32 src ++ name.take 4)
  | .FIR ssrc => .ok (be32 ssrc)
  | .NACK ssrc fsn blp => .ok (be32 ssrc ++ be16 fsn ++ be16 blp)
  | .RTPFB packet media ench => ench.map fun bytes => be32 packet ++ be32 media ++ bytes
  | .PSFB packet media ench => ench.map fun bytes => be32 packet ++ be32 media ++ bytes
  | .XR ssrc ench => ench.map fun bytes => be32 ssrc ++ bytes
  | .AVB => .error .EINVAL

/-- `rtcp_hdr_encode`, with the casts of its arguments. -/
def rtcpHdrEncode (count : Nat) (type : RtcpType) (length : Nat) : Bytes :=
  [UInt8.ofNat (rtcpVersion * 64) ||| UInt8.ofNat count, type.code] ++ be16 (UInt16.ofNat length)

/-- The body with its padding, behind a header with the words it has. -/
def framed (count : Nat) (type : RtcpType) (body : Bytes) : Bytes :=
  rtcpHdrEncode count type ((body ++ padding body.length).length / 4) ++ body ++ padding body.length

/-- `rtcp_vencode` -/
def rtcpVencode (count : Nat) (args : VArgs) : Except Errno Bytes :=
  (bodyEncode count args).map (framed count args.type)

/-! ## Messages -/

/-- The arguments of one call of `rtcp_sdes_encode`. -/
structure SdesArgs where
  src : UInt32
  items : List (UInt8 × Option Bytes)
  deriving DecidableEq, Repr

/-- The handler of a source description, with a call for each chunk. -/
def sdesEncodeAll : List SdesArgs → Ench
  | [] => .ok []
  | args :: others =>
    match rtcpSdesEncode args.src args.items with
    | .error err => .error err
    | .ok bytes => (sdesEncodeAll others).map (bytes ++ ·)

/-- A packet to be encoded. Where the count is not the number of elements or the format,
it is a field. -/
inductive Message where
  | sr (info : SenderInfo) (rrv : List RtcpRr)
  | rr (ssrc : UInt32) (rrv : List RtcpRr)
  | sdes (chunks : List SdesArgs)
  | bye (srcv : List UInt32) (reason : Option Bytes)
  | app (count : Nat) (src : UInt32) (name : Bytes) (data : Option Bytes)
  | fir (count : Nat) (ssrc : UInt32)
  | nack (count : Nat) (ssrc : UInt32) (fsn blp : UInt16)
  | gnack (packet media : UInt32) (v : List Gnack)
  | pli (packet media : UInt32)
  | sli (packet media : UInt32) (v : List Sli)
  | firRfc5104 (packet media : UInt32) (v : List FirRfc5104)
  deriving DecidableEq, Repr

def Message.count : Message → Nat
  | .sr _ rrv => rrv.length
  | .rr _ rrv => rrv.length
  | .sdes chunks => chunks.length
  | .bye srcv _ => srcv.length
  | .app count .. => count
  | .fir count _ => count
  | .nack count .. => count
  | .gnack .. => rtpfbGnack
  | .pli .. => psfbPli
  | .sli .. => psfbSli
  | .firRfc5104 .. => psfbFir

/-- The arguments `rtcp_encode` is called with. -/
def Message.args : Message → VArgs
  | .sr info rrv => .SR info (.ok (rrv.flatMap rtcpRrEncode))
  | .rr ssrc rrv => .RR ssrc (.ok (rrv.flatMap rtcpRrEncode))
  | .sdes chunks => .SDES (sdesEncodeAll chunks)
  | .bye srcv reason => .BYE srcv reason
  | .app _ src name data => .APP src name data
  | .fir _ ssrc => .FIR ssrc
  | .nack _ ssrc fsn blp => .NACK ssrc fsn blp
  | .gnack packet media v => .RTPFB packet media (.ok (v.flatMap rtcpRtpfbGnackEncode))
  | .pli packet media => .PSFB packet media (.ok [])
  | .sli packet media v => .PSFB packet media (.ok (v.flatMap sliEncode))
  | .firRfc5104 packet media v => .PSFB packet media (.ok (v.flatMap encodeFirRfc5104Fci))

/-- The items that are not NULL. -/
def SdesArgs.sdes (args : SdesArgs) : Sdes where
  src := args.src
  itemv := args.items.filterMap fun item => item.2.map fun v => ⟨item.1, v⟩

/-- What the message says, as the decoder returns it. -/
def Message.body : Message → Body
  | .sr info rrv => .sr info rrv
  | .rr ssrc rrv => .rr ssrc rrv
  | .sdes chunks => .sdes (chunks.map SdesArgs.sdes)
  | .bye srcv reason => .bye srcv reason
  | .app _ src name data => .app src name (data.getD [])
  | .fir _ ssrc => .fir ssrc
  | .nack _ ssrc fsn blp => .nack ssrc fsn blp
  | .gnack packet media v => .fb packet media v.length (.gnackv v)
  | .pli packet media => .fb packet media 0 .pli
  | .sli packet media v => .fb packet media v.length (.sliv v)
  | .firRfc5104 packet media v => .fb packet media v.length (.firv v)

def Message.encode (msg : Message) : Except Errno Bytes := rtcpVencode msg.count msg.args

/-- The packets of a compound, one call of `rtcp_encode` after the other. -/
def encodeAll : List Message → Except Errno Bytes
  | [] => .ok []
  | msg :: msgs =>
    match msg.encode with
    | .error err => .error err
    | .ok bytes => (encodeAll msgs).map (bytes ++ ·)

end LibRe.Rtcp
