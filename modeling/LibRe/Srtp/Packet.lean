/-
LibRe.Srtp.Packet — SRTP and SRTCP on whole packets.

What the four functions of `src/srtp/` are for, said without buffers: a packet
is a byte list, a session is its `View`, and a call is a function of the two.
`Receipt` is what comes out. `LibRe.Srtp.PacketTheorems` proves that the
functions on buffers do this and nothing else, so that results about runs of
packets can be proved here.
-/
import LibRe.Srtp.Srtcp

namespace LibRe.SRTP

open Bytes

/-- What a call does, on packets. `out` counts only without an error. -/
structure Receipt where
  err : Option Errno
  view : View
  ix : Option UInt64
  checks : List TagCheck
  out : Bytes

/-- A call that is refused before it has an index. -/
def Receipt.early (e : Errno) (view : View) : Receipt :=
  { err := some e, view, ix := none, checks := [], out := [] }

/-- The verdict of a receiver on the protected part of a packet. -/
structure Verdict where
  err : Option Errno
  strm : SrtpStream
  checks : List TagCheck
  plain : Bytes

variable (K : Crypto) (v : View) (c : Comp)

variable (ssrc : UInt32) (ix : UInt64) (strm : SrtpStream)

/-- Payload to ciphertext and back. -/
def crypt (data : Bytes) : Bytes :=
  match c.aes, c.mode with
  | some key, .ctr => aesCtr K key (srtpIvCalc c.kS ssrc ix) data
  | some key, .gcm => aesGcm K key (srtpIvCalcGcm c.kS ssrc ix) data
  | none, _ => data

/-- The tag of Galois counter mode, empty in counter mode. -/
def gcmTagOf (aad ct : Bytes) :
    Bytes :=
  match c.aes, c.mode with
  | some key, .gcm => (K.gcmTag key (srtpIvCalcGcm c.kS ssrc ix) aad ct).val
  | _, _ => []

/-- The HMAC tag, empty for a component without one. -/
def hmacTagOf (data : Bytes) : Bytes :=
  match c.hmac with
  | some key => (K.hmacSha1 key data).val.take c.tagLen
  | none => []

/-! ## RTP -/

/-- The tag behind an RTP packet: of one kind or the other. -/
def rtpTag (ssrc roc : UInt32) (ix : UInt64) (hdr ct : Bytes) :
    Bytes :=
  gcmTagOf K c ssrc ix hdr ct ++ hmacTagOf K c (hdr ++ (ct ++ be32 roc))

/-- The length of that tag. -/
def rtpTagLen : Nat :=
  match c.mode with
  | .ctr => c.tagLen
  | .gcm => gcmTagLen

/-- The record of the check of that tag. -/
def rtpCheck (ssrc roc : UInt32) (ix : UInt64) (hdr ct tag : Bytes) :
    TagCheck :=
  match c.hmac with
  | some key =>
    .hmac key (hdr ++ (ct ++ be32 roc)) (hmacTagOf K c (hdr ++ (ct ++ be32 roc))) tag
  | none =>
    .gcm (c.aes.getD []) (srtpIvCalcGcm c.kS ssrc ix) hdr ct (gcmTagOf K c ssrc ix hdr ct) tag

/-- The replay check that follows a tag check, with what the packet holds. -/
def rtpVerdict (tagOk : Bool) (ix : UInt64) (strm : SrtpStream) (checks : List TagCheck)
    (plain : Bytes) : Verdict :=
  if tagOk then
    match srtpReplayCheck strm.replayRtp ix with
    | none => { err := some .EALREADY, strm, checks, plain := [] }
    | some replay =>
      { err := none, strm := { strm with replayRtp := replay }, checks
        plain }
  else { err := some .EAUTH, strm, checks, plain := [] }

/-- The receiver on what stands behind the RTP header: length, tag, replay, in
this order. -/
def rtpOpen (hdr rest : Bytes) :
    Verdict :=
  if rest.length < rtpTagLen c then
    { err := some .EBADMSG, strm, checks := [], plain := [] }
  else
    let ct := rest.take (rest.length - rtpTagLen c)
    let tag := rest.drop (rest.length - rtpTagLen c)
    rtpVerdict (rtpTag K c strm.ssrc strm.roc ix hdr ct == tag) ix strm
      [rtpCheck K c strm.ssrc strm.roc ix hdr ct tag] (crypt K c strm.ssrc ix ct)

/-- The SSRC and the sequence number of an RTP packet. -/
def rtpSsrc (pkt : Bytes) : UInt32 := (headerOf pkt).ssrc

/-- The sequence number of an RTP packet. -/
def rtpSeq (pkt : Bytes) : UInt16 := (headerOf pkt).seq

/-- The index a sender uses. -/
def sendIndex (roc : UInt32) (seq : UInt16) : UInt64 := 65536 * roc.toUInt64 + seq.toUInt64

/-- An SRTP packet. -/
def rtpSealed (ssrc roc : UInt32) (ix : UInt64) (hdr payload : Bytes) :
    Bytes :=
  let ct := crypt K c ssrc ix payload
  hdr ++ (ct ++ rtpTag K c ssrc roc ix hdr ct)

/-- A sender on a packet cut behind its header; `strm` is its stream. -/
def sendOn (seq : UInt16) (strm : SrtpStream) (hdr payload : Bytes) :
    Receipt :=
  let strm := rollOver strm seq
  let ix := sendIndex strm.roc seq
  { err := none, view := v.update (raiseSeq strm seq), ix := some ix, checks := []
    out := rtpSealed K v.rtp strm.ssrc strm.roc ix hdr payload }

/-- `srtp_encrypt` on packets. -/
def rtpSend (pkt : Bytes) : Receipt :=
  if pkt.length < headerLen pkt then .early .EBADMSG v
  else if ¬ v.HasRoom (rtpSsrc pkt) then .early .ENOSR v
  else
    sendOn K v (rtpSeq pkt) (latchSeq (v.streamOf (rtpSsrc pkt)) (rtpSeq pkt))
      (pkt.take (headerLen pkt)) (pkt.drop (headerLen pkt))

/-- A receiver on a packet cut behind its header; `strm` is its stream. -/
def receiveOn (seq : UInt16) (strm : SrtpStream) (hdr rest : Bytes) :
    Receipt :=
  if seqDiff strm.sL seq > 32768 then .early .ETIMEDOUT (v.update strm)
  else
    let strm := rollOver strm seq
    let ix := srtpGetIndex strm.roc strm.sL seq
    let r := rtpOpen K v.rtp ix strm hdr rest
    match r.err with
    | some e =>
      { err := some e, view := v.update r.strm, ix := some ix, checks := r.checks, out := [] }
    | none =>
      { err := none, view := v.update (raiseSeq r.strm seq), ix := some ix
        checks := r.checks, out := hdr ++ r.plain }

/-- `srtp_decrypt` on packets. -/
def rtpReceive (pkt : Bytes) : Receipt :=
  if pkt.length < headerLen pkt then .early .EBADMSG v
  else if ¬ v.HasRoom (rtpSsrc pkt) then .early .ENOSR v
  else
    receiveOn K v (rtpSeq pkt) (latchSeq (v.streamOf (rtpSsrc pkt)) (rtpSeq pkt))
      (pkt.take (headerLen pkt)) (pkt.drop (headerLen pkt))

/-! ## RTCP -/

/-- The SSRC of an RTCP packet. -/
def rtcpSsrc (pkt : Bytes) : UInt32 := ofBe32 (pkt.drop 4)

/-- An SRTCP packet up to its HMAC tag. -/
def rtcpSealed (ssrc ix : UInt32) (hdr payload : Bytes) :
    Bytes :=
  let ct := crypt K c ssrc ix.toUInt64 payload
  hdr ++ (ct ++ (gcmTagOf K c ssrc ix.toUInt64 (hdr ++ be32 (eIndex true ix)) ct
    ++ be32 (eIndex c.aes.isSome ix)))

/-- `srtcp_encrypt` on packets. -/
def rtcpSend (pkt : Bytes) : Receipt :=
  if pkt.length < 8 then .early .EBADMSG v
  else if ¬ v.HasRoom (rtcpSsrc pkt) then .early .ENOSR v
  else
    let strm := nextRtcpIndex (v.streamOf (rtcpSsrc pkt))
    let body := rtcpSealed K v.rtcp (rtcpSsrc pkt) strm.rtcpIndex (pkt.take 8) (pkt.drop 8)
    { err := none, view := v.update strm, ix := some strm.rtcpIndex.toUInt64, checks := []
      out := body ++ hmacTagOf K v.rtcp body }

/-- The HMAC check of an SRTCP packet, with the replay check behind it. -/
def rtcpOpenHmac (ix : UInt32) (strm : SrtpStream) (data tag : Bytes) :
    Verdict :=
  match c.hmac with
  | none => { err := none, strm, checks := [], plain := [] }
  | some key =>
    let checks := [TagCheck.hmac key data (hmacTagOf K c data) tag]
    if hmacTagOf K c data ≠ tag then
      { err := some .EAUTH, strm, checks, plain := [] }
    else
      match srtpReplayCheck strm.replayRtcp ix.toUInt64 with
      | none => { err := some .EALREADY, strm, checks, plain := [] }
      | some replay =>
        { err := none, strm := { strm with replayRtcp := replay }, checks
          plain := [] }

/-- The cipher of an SRTCP packet with the E-bit, with the tag check of Galois
counter mode. -/
def rtcpOpenAes (ssrc ix : UInt32) (ep : Bool) (strm : SrtpStream)
    (hdr payload eix : Bytes) : Verdict :=
  match c.aes, ep, c.mode with
  | some _, true, .ctr =>
    { err := none, strm, checks := [], plain := crypt K c ssrc ix.toUInt64 payload }
  | some key, true, .gcm =>
    if payload.length < gcmTagLen then
      { err := some .EBADMSG, strm, checks := [], plain := [] }
    else
      let ct := payload.take (payload.length - gcmTagLen)
      let tag := payload.drop (payload.length - gcmTagLen)
      let tagCalc := gcmTagOf K c ssrc ix.toUInt64 (hdr ++ eix) ct
      let checks :=
        [TagCheck.gcm key (srtpIvCalcGcm c.kS ssrc ix.toUInt64) (hdr ++ eix) ct tagCalc tag]
      if tagCalc ≠ tag then
        { err := some .EAUTH, strm, checks, plain := [] }
      else
        { err := none, strm, checks
          plain := crypt K c ssrc ix.toUInt64 ct }
  | _, _, _ => { err := none, strm, checks := [], plain := payload }

/-- The receiver on a packet cut into header, payload, E-bit with index, and
HMAC tag. -/
def rtcpOpen (hdr payload eix tag : Bytes) : Verdict :=
  let ix := eIx (ofBe32 eix)
  let r := rtcpOpenHmac K c ix strm (hdr ++ (payload ++ eix)) tag
  match r.err with
  | some _ => r
  | none =>
    let r' := rtcpOpenAes K c ssrc ix (eBit (ofBe32 eix)) r.strm hdr payload eix
    { r' with checks := r.checks ++ r'.checks }

/-- A receiver on a packet cut behind its header; `strm` is its stream. -/
def rtcpReceiveOn (hdr rest : Bytes) : Receipt :=
  if rest.length < 4 + v.rtcp.tagLen then .early .EBADMSG (v.update strm)
  else
    let n := rest.length - (4 + v.rtcp.tagLen)
    let eix := (rest.drop n).take 4
    let r := rtcpOpen K v.rtcp ssrc strm hdr (rest.take n) eix (rest.drop (n + 4))
    { err := r.err, view := v.update r.strm, ix := some (eIx (ofBe32 eix)).toUInt64
      checks := r.checks, out := hdr ++ r.plain }

/-- `srtcp_decrypt` on packets. -/
def rtcpReceive (pkt : Bytes) : Receipt :=
  if pkt.length < 8 then .early .EBADMSG v
  else if ¬ v.HasRoom (rtcpSsrc pkt) then .early .ENOSR v
  else
    rtcpReceiveOn K v (rtcpSsrc pkt) (v.streamOf (rtcpSsrc pkt)) (pkt.take 8) (pkt.drop 8)

end LibRe.SRTP
