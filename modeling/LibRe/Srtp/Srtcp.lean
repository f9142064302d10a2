/-
LibRe.Srtp.Srtcp — SRTCP packets (`srtcp_encrypt`, `srtcp_decrypt` in
`src/srtp/srtcp.c`), step by step on the buffer like `LibRe.Srtp.Srtp`.
-/
import LibRe.Srtp.Srtp

namespace LibRe.SRTP

open Bytes

variable (K : Crypto) (srtp : Srtp) (rtcp : Comp) (start : Nat) (mb : Mbuf)

/-- `get_rtcp_ssrc`. -/
def getRtcpSsrc : Except Errno (UInt32 × Mbuf) :=
  if mbufGetLeft mb < 8 then .error .EBADMSG
  else .ok (mbufReadU32 (mbufAdvance mb 4))

/-- The step of the SRTCP index. -/
def nextRtcpIndex (strm : SrtpStream) : SrtpStream :=
  { strm with rtcpIndex := (strm.rtcpIndex + 1) &&& 0x7fffffff }

/-- The E-bit and the SRTCP index in one word. -/
def eIndex (ep : Bool) (ix : UInt32) : UInt32 := (if ep then 0x80000000 else 0) ||| ix

/-- The E-bit of that word. -/
def eBit (v : UInt32) : Bool := (v >>> 31) &&& 1 == 1

/-- The SRTCP index of that word. -/
def eIx (v : UInt32) : UInt32 := v &&& 0x7fffffff

/-- The cipher of `srtcp_encrypt`, with the E-bit it asks for. -/
def rtcpEncryptAes (ssrc ix : UInt32) (mb : Mbuf) :
    Bool × Mbuf :=
  match rtcp.aes, rtcp.mode with
  | some key, .ctr =>
    let iv := srtpIvCalc rtcp.kS ssrc ix.toUInt64
    (true, mb.store mb.pos (aesCtr K key iv mb.left))
  | some key, .gcm =>
    let iv := srtpIvCalcGcm rtcp.kS ssrc ix.toUInt64
    -- the RTCP header and the index are associated data
    let aad := mb.slice start mb.pos ++ be32 (eIndex true ix)
    let ct := aesGcm K key iv mb.left
    let tag := K.gcmTag key iv aad ct
    let mb := mb.store mb.pos ct
    (true, mbufWriteMem (mbufSetPos mb mb.end_) tag.val)
  | none, _ => (false, mb)

/-- The tag of `srtcp_encrypt`. -/
def rtcpEncryptHmac : Option Errno × Mbuf :=
  match rtcp.hmac with
  | none => (none, mb)
  | some key =>
    let mb := mbufSetPos mb start
    match hmacDigest K key mb.left with
    | .error e => (some e, mb)
    | .ok tag => (none, mbufWriteMem (mbufSetPos mb mb.end_) (tag.take rtcp.tagLen))

/-- The part of `srtcp_encrypt` behind `stream_get`. -/
def rtcpEncryptStream (ssrc : UInt32) (strm : SrtpStream) (mb : Mbuf) : Outcome :=
  let strm := nextRtcpIndex strm
  let srtp := srtp.put strm
  let ix := strm.rtcpIndex
  let (ep, mb) := rtcpEncryptAes K srtp.rtcp start ssrc ix mb
  -- append E-bit and SRTCP-index
  let mb := mbufWriteU32 (mbufSetPos mb mb.end_) (eIndex ep ix)
  match rtcpEncryptHmac K srtp.rtcp start mb with
  | (some e, mb) =>
    { err := some e, srtp, mb, ix := some ix.toUInt64, checks := [] }
  | (none, mb) =>
    { err := none, srtp, mb := mbufSetPos mb start, ix := some ix.toUInt64
      checks := [] }

/-- `srtcp_encrypt`. -/
def srtcpEncrypt : Outcome :=
  let start := mb.pos
  match getRtcpSsrc mb with
  | .error e => .early e srtp mb
  | .ok (ssrc, mb) =>
    match streamGet srtp ssrc with
    | .error e => .early e srtp mb
    | .ok (strm, srtp) => rtcpEncryptStream K srtp start ssrc strm mb

/-- The tag check of `srtcp_decrypt`, with the replay check behind it; the
position is right behind E-bit and index. -/
def rtcpDecryptHmac (ix : UInt32) (strm : SrtpStream) (mb : Mbuf) : Stage :=
  match rtcp.hmac with
  | none => { err := none, strm, mb, checks := [] }
  | some key =>
    let tagStart := mb.pos
    if rtcp.tagLen > shaDigestLength then
      { err := some .ERANGE, strm, mb, checks := [] }
    else
      match mbufReadMem mb rtcp.tagLen with
      | .error e => { err := some e, strm, mb, checks := [] }
      | .ok (tagPkt, mb) =>
        let mb := mbufSetEnd (mbufSetPos mb start) tagStart
        match hmacDigest K key mb.left with
        | .error e => { err := some e, strm, mb, checks := [] }
        | .ok tag =>
          let tagCalc := tag.take rtcp.tagLen
          let checks := [TagCheck.hmac key mb.left tagCalc tagPkt]
          if tagCalc ≠ tagPkt then
            { err := some .EAUTH, strm, mb, checks }
          else
            match srtpReplayCheck strm.replayRtcp ix.toUInt64 with
            | none => { err := some .EALREADY, strm, mb, checks }
            | some replay =>
              { err := none, strm := { strm with replayRtcp := replay }, mb
                checks }

/-- The cipher of `srtcp_decrypt`, for a packet with the E-bit. -/
def rtcpDecryptAes (start pldStart eixStart : Nat) (ssrc ix : UInt32)
    (ep : Bool) (strm : SrtpStream) (mb : Mbuf) : Stage :=
  match rtcp.aes, ep, rtcp.mode with
  | some key, true, .ctr =>
    let mb := mbufSetPos mb pldStart
    let iv := srtpIvCalc rtcp.kS ssrc ix.toUInt64
    { err := none, strm, mb := mb.store mb.pos (aesCtr K key iv mb.left), checks := [] }
  | some key, true, .gcm =>
    let iv := srtpIvCalcGcm rtcp.kS ssrc ix.toUInt64
    -- the RTCP header and the index are associated data
    let aad := mb.slice start pldStart ++ mb.slice eixStart (eixStart + 4)
    let mb := mbufSetPos mb pldStart
    if mbufGetLeft mb < gcmTagLen then
      { err := some .EBADMSG, strm, mb, checks := [] }
    else
      let tagStart := mb.end_ - gcmTagLen
      let ct := mb.slice pldStart tagStart
      let tagPkt := mb.slice tagStart (tagStart + gcmTagLen)
      let mb := mb.store mb.pos (aesGcm K key iv ct)
      let tagCalc := (K.gcmTag key iv aad ct).val
      let checks := [TagCheck.gcm key iv aad ct tagCalc tagPkt]
      if tagCalc ≠ tagPkt then
        { err := some .EAUTH, strm, mb, checks }
      else { err := none, strm, mb := mbufSetEnd mb tagStart, checks }
  | _, _, _ => { err := none, strm, mb, checks := [] }

/-- The part of `srtcp_decrypt` behind E-bit and index. -/
def rtcpDecryptBody (start pldStart eixStart : Nat) (ssrc ix : UInt32)
    (ep : Bool) (strm : SrtpStream) (mb : Mbuf) : Stage :=
  let r := rtcpDecryptHmac K rtcp start ix strm mb
  match r.err with
  | some _ => r
  | none =>
    let mb := mbufSetEnd r.mb eixStart
    let r' := rtcpDecryptAes K rtcp start pldStart eixStart ssrc ix ep r.strm mb
    { r' with checks := r.checks ++ r'.checks }

/-- The part of `srtcp_decrypt` behind `stream_get`. -/
def rtcpDecryptStream (ssrc : UInt32) (strm : SrtpStream) (mb : Mbuf) : Outcome :=
  let rtcp := srtp.rtcp
  let pldStart := mb.pos
  if mbufGetLeft mb < 4 + rtcp.tagLen then .early .EBADMSG srtp mb
  else
    let eixStart := mb.end_ - (4 + rtcp.tagLen)
    let (v, mb) := mbufReadU32 (mbufSetPos mb eixStart)
    let ep := eBit v
    let ix := eIx v
    let r := rtcpDecryptBody K rtcp start pldStart eixStart ssrc ix ep strm mb
    match r.err with
    | some e =>
      { err := some e, srtp := srtp.put r.strm, mb := r.mb, ix := some ix.toUInt64
        checks := r.checks }
    | none =>
      { err := none, srtp := srtp.put r.strm, mb := mbufSetPos r.mb start
        ix := some ix.toUInt64, checks := r.checks }

/-- `srtcp_decrypt`. -/
def srtcpDecrypt : Outcome :=
  let start := mb.pos
  match getRtcpSsrc mb with
  | .error e => .early e srtp mb
  | .ok (ssrc, mb) =>
    match streamGet srtp ssrc with
    | .error e => .early e srtp mb
    | .ok (strm, srtp) => rtcpDecryptStream K srtp start ssrc strm mb

end LibRe.SRTP
