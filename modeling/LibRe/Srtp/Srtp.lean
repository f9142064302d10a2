/-
LibRe.Srtp.Srtp — SRTP packets (`srtp_encrypt`, `srtp_decrypt` in
`src/srtp/srtp.c`, `srtp_get_index` in `src/srtp/misc.c`).

The two functions follow the source step by step on the buffer. What a call
leaves behind is an `Outcome`: the return code, the session, the buffer, and
two records of what went on inside that the caller does not see, the packet
index and the authentication tags that were compared.
-/
import LibRe.Srtp.Session
import LibRe.Rtp.Header

namespace LibRe.SRTP

open Bytes

/-- A tag a receiver computed and compared with the packet's. -/
inductive TagCheck where
  | hmac (key data tagCalc tagPkt : Bytes)
  | gcm (key iv aad ct tagCalc tagPkt : Bytes)
  deriving DecidableEq, Repr

/-- What a call leaves behind. -/
structure Outcome where
  err : Option Errno
  srtp : Srtp
  mb : Mbuf
  ix : Option UInt64
  checks : List TagCheck

/-- A call that stops before it has an index. -/
def Outcome.early (e : Errno) (srtp : Srtp) (mb : Mbuf) : Outcome :=
  { err := some e, srtp, mb, ix := none, checks := [] }

/-- `seq_diff`. -/
def seqDiff (x y : UInt16) : Int := (y.toNat : Int) - (x.toNat : Int)

/-- The step of the roll-over counter, as both directions do it. -/
def rollOver (strm : SrtpStream) (seq : UInt16) : SrtpStream :=
  if seqDiff strm.sL seq ≤ -32768 then { strm with roc := strm.roc + 1, sL := 0 } else strm

/-- The step of the highest sequence number, at the end of both directions. -/
def raiseSeq (strm : SrtpStream) (seq : UInt16) : SrtpStream :=
  if seq > strm.sL then { strm with sL := seq } else strm

/-! ## Sending -/

variable (K : Crypto) (srtp : Srtp) (comp : Comp) (start : Nat) (ix : UInt64)

/-- The cipher of `srtp_encrypt`. -/
def encryptAes (ssrc : UInt32) (ix : UInt64) (mb : Mbuf) :
    Mbuf :=
  match comp.aes, comp.mode with
  | some key, .ctr =>
    mb.store mb.pos (aesCtr K key (srtpIvCalc comp.kS ssrc ix) mb.left)
  | some key, .gcm =>
    let iv := srtpIvCalcGcm comp.kS ssrc ix
    -- the RTP header is associated data
    let aad := mb.slice start mb.pos
    let ct := aesGcm K key iv mb.left
    let tag := K.gcmTag key iv aad ct
    let mb := mb.store mb.pos ct
    mbufWriteMem (mbufSetPos mb mb.end_) tag.val
  | none, _ => mb

/-- The tag of `srtp_encrypt`: the roll-over counter stands behind the packet
while the digest is taken. -/
def encryptHmac (roc : UInt32) (mb : Mbuf) :
    Option Errno × Mbuf :=
  match comp.hmac with
  | none => (none, mb)
  | some key =>
    let tagStart := mb.end_
    let mb := mbufWriteU32 (mbufSetPos mb tagStart) roc
    let mb := mbufSetPos mb start
    match hmacDigest K key mb.left with
    | .error e => (some e, mb)
    | .ok tag =>
      let mb := mbufSetEnd (mbufSetPos mb tagStart) tagStart
      (none, mbufWriteMem mb (tag.take comp.tagLen))

/-- The part of `srtp_encrypt` behind `stream_get_seq`. -/
def encryptStream (seq : UInt16) (strm : SrtpStream) (mb : Mbuf) : Outcome :=
  let strm := rollOver strm seq
  let ix := 65536 * strm.roc.toUInt64 + seq.toUInt64
  let mb := encryptAes K srtp.rtp start strm.ssrc ix mb
  match encryptHmac K srtp.rtp start strm.roc mb with
  | (some e, mb) =>
    { err := some e, srtp := srtp.put strm, mb, ix := some ix, checks := [] }
  | (none, mb) =>
    { err := none, srtp := srtp.put (raiseSeq strm seq), mb := mbufSetPos mb start
      ix := some ix, checks := [] }

/-- `srtp_encrypt`. -/
def srtpEncrypt (mb : Mbuf) : Outcome :=
  let start := mb.pos
  match rtpHdrDecode mb with
  | (.error e, mb) => .early e srtp mb
  | (.ok hdr, mb) =>
    match streamGetSeq srtp hdr.ssrc hdr.seq with
    | .error e => .early e srtp mb
    | .ok (strm, srtp) => encryptStream K srtp start hdr.seq strm mb

/-! ## Receiving -/

/-- `srtp_get_index`. The roll-over counter goes through an `int`, which
extends its sign. -/
def srtpGetIndex (roc : UInt32) (sL seq : UInt16) : UInt64 :=
  let v : UInt32 :=
    if sL.toNat < 32768 then
      if (seq.toNat : Int) - (sL.toNat : Int) > 32768 then roc - 1 else roc
    else
      if (sL.toNat : Int) - 32768 > (seq.toNat : Int) then roc + 1 else roc
  seq.toUInt64 + v.toInt32.toInt64.toUInt64 * 65536

/-- What a stage of a receiver leaves behind. -/
structure Stage where
  err : Option Errno
  strm : SrtpStream
  mb : Mbuf
  checks : List TagCheck

/-- The buffer with its tag cut off and the roll-over counter in its place,
ready for the digest. -/
def rocForTag (mb : Mbuf) (tagStart : Nat) (roc : UInt32) (start : Nat) : Mbuf :=
  let mb := mbufSetEnd (mbufSetPos mb tagStart) tagStart
  let mb := mbufWriteU32 mb roc
  mbufSetPos mb start

/-- The tag check of `srtp_decrypt`, with the replay check behind it. -/
def decryptHmac (strm : SrtpStream) (mb : Mbuf) : Stage :=
  match comp.hmac with
  | none => { err := none, strm, mb, checks := [] }
  | some key =>
    if mbufGetLeft mb < comp.tagLen then
      { err := some .EBADMSG, strm, mb, checks := [] }
    else
      let pldStart := mb.pos
      let tagStart := mb.end_ - comp.tagLen
      match mbufReadMem (mbufSetPos mb tagStart) comp.tagLen with
      | .error e =>
        { err := some e, strm, mb := mbufSetPos mb tagStart, checks := [] }
      | .ok (tagPkt, mb) =>
        let mb := rocForTag mb tagStart strm.roc start
        match hmacDigest K key mb.left with
        | .error e => { err := some e, strm, mb, checks := [] }
        | .ok tag =>
          let data := mb.left
          let tagCalc := tag.take comp.tagLen
          let mb := mbufSetEnd (mbufSetPos mb pldStart) tagStart
          let checks := [TagCheck.hmac key data tagCalc tagPkt]
          if tagCalc ≠ tagPkt then
            { err := some .EAUTH, strm, mb, checks }
          else
            match srtpReplayCheck strm.replayRtp ix with
            | none => { err := some .EALREADY, strm, mb, checks }
            | some replay =>
              { err := none, strm := { strm with replayRtp := replay }, mb
                checks }

/-- The cipher of `srtp_decrypt`; in Galois counter mode with its tag check
and the replay check behind it. -/
def decryptAes (strm : SrtpStream) (mb : Mbuf) : Stage :=
  match comp.aes, comp.mode with
  | some key, .ctr =>
    let iv := srtpIvCalc comp.kS strm.ssrc ix
    { err := none, strm, mb := mb.store mb.pos (aesCtr K key iv mb.left), checks := [] }
  | some key, .gcm =>
    let iv := srtpIvCalcGcm comp.kS strm.ssrc ix
    -- the RTP header is associated data
    let aad := mb.slice start mb.pos
    if mbufGetLeft mb < gcmTagLen then
      { err := some .EBADMSG, strm, mb, checks := [] }
    else
      let tagStart := mb.end_ - gcmTagLen
      let ct := mb.slice mb.pos tagStart
      let tagPkt := mb.slice tagStart (tagStart + gcmTagLen)
      let mb := mb.store mb.pos (aesGcm K key iv ct)
      let tagCalc := (K.gcmTag key iv aad ct).val
      let checks := [TagCheck.gcm key iv aad ct tagCalc tagPkt]
      if tagCalc ≠ tagPkt then
        { err := some .EAUTH, strm, mb, checks }
      else
        let mb := mbufSetEnd mb tagStart
        match srtpReplayCheck strm.replayRtp ix with
        | none => { err := some .EALREADY, strm, mb, checks }
        | some replay =>
          { err := none, strm := { strm with replayRtp := replay }, mb
            checks }
  | none, _ => { err := none, strm, mb, checks := [] }

/-- The part of `srtp_decrypt` behind the index. -/
def decryptBody (strm : SrtpStream) (mb : Mbuf) : Stage :=
  let r := decryptHmac K comp start ix strm mb
  match r.err with
  | some _ => r
  | none =>
    let r' := decryptAes K comp start ix r.strm r.mb
    { r' with checks := r.checks ++ r'.checks }

/-- The part of `srtp_decrypt` behind `stream_get_seq`. The roll-over counter
is in the session before the tag is looked at. -/
def decryptStream (seq : UInt16) (strm : SrtpStream) (mb : Mbuf) : Outcome :=
  if seqDiff strm.sL seq > 32768 then .early .ETIMEDOUT srtp mb
  else
    let strm := rollOver strm seq
    let ix := srtpGetIndex strm.roc strm.sL seq
    let r := decryptBody K srtp.rtp start ix strm mb
    match r.err with
    | some e =>
      { err := some e, srtp := srtp.put r.strm, mb := r.mb, ix := some ix
        checks := r.checks }
    | none =>
      { err := none, srtp := srtp.put (raiseSeq r.strm seq), mb := mbufSetPos r.mb start
        ix := some ix, checks := r.checks }

/-- `srtp_decrypt`. -/
def srtpDecrypt (mb : Mbuf) : Outcome :=
  let start := mb.pos
  match rtpHdrDecode mb with
  | (.error e, mb) => .early e srtp mb
  | (.ok hdr, mb) =>
    match streamGetSeq srtp hdr.ssrc hdr.seq with
    | .error e => .early e srtp mb
    | .ok (strm, srtp) => decryptStream K srtp start hdr.seq strm mb

end LibRe.SRTP
