/-
LibRe.Stun.Msg — STUN messages (`src/stun/msg.c`, `src/stun/hdr.c`).

A message is a header and attributes. Behind the attributes may stand a
MESSAGE-INTEGRITY, the keyed hash of everything before it, and a FINGERPRINT, the
checksum of everything before it. Both are taken over a header whose length already
counts the attribute itself and nothing behind it, so the encoder writes the header up
to three times, and `stun_msg_chk_mi` writes it back to what it was for the hash.

Translation notes. HMAC-SHA1 and CRC-32 are functions (`Digests`). A decoded message
refers to the buffer, and the checks write to both; they take and return the two.
Differences of positions are `size_t`, so `2 ^ 64` stands in front of them. A position before the
start of the memory, which only a length field that has overflowed leads to, is the failing write it
ends in. -/
import LibRe.Stun.Attr

namespace LibRe.Stun

open Bytes Reader Read

/-! ## The header -/

/-- `enum stun_method` -/
inductive StunMethod where
  | BINDING | ALLOCATE | REFRESH | SEND | DATA | CREATEPERM | CHANBIND
  deriving DecidableEq, Repr

def StunMethod.code : StunMethod → UInt16
  | .BINDING => 0x001
  | .ALLOCATE => 0x003
  | .REFRESH => 0x004
  | .SEND => 0x006
  | .DATA => 0x007
  | .CREATEPERM => 0x008
  | .CHANBIND => 0x009

/-- `enum stun_msg_class` -/
inductive StunClass where
  | REQUEST | INDICATION | SUCCESS_RESP | ERROR_RESP
  deriving DecidableEq, Repr

def StunClass.code : StunClass → UInt16
  | .REQUEST => 0
  | .INDICATION => 1
  | .SUCCESS_RESP => 2
  | .ERROR_RESP => 3

/-- `STUN_TYPE` -/
def stunType (method cls : UInt16) : UInt16 :=
  (method &&& 0x0f80) <<< 2 ||| (method &&& 0x0070) <<< 1 ||| (method &&& 0x000f) <<< 0 |||
    (cls &&& 0x2) <<< 7 ||| (cls &&& 0x1) <<< 4

/-- `STUN_CLASS` -/
def stunClass (type : UInt16) : UInt16 := (type >>> 7 ||| type >>> 4) &&& 0x3

/-- `STUN_METHOD` -/
def stunMethod (type : UInt16) : UInt16 :=
  (type &&& 0x3e00) >>> 2 ||| (type &&& 0x00e0) >>> 1 ||| (type &&& 0x000f)

/-- `struct stun_hdr` -/
structure StunHdr where
  type : UInt16
  len : UInt16
  cookie : UInt32
  tid : Bytes
  deriving DecidableEq, Repr

/-- `STUN_HEADER_SIZE` -/
def stunHeaderSize : Nat := 20

/-- `MI_SIZE` -/
def miSize : Nat := 24

/-- `FP_SIZE` -/
def fpSize : Nat := 8

/-- What `stun_hdr_encode` writes. -/
def hdrBytes (hdr : StunHdr) : Bytes :=
  be16 (hdr.type &&& 0x3fff) ++ be16 hdr.len ++ be32 hdr.cookie ++ hdr.tid

/-- `stun_hdr_encode` -/
def stunHdrEncode (mb : Mbuf) (hdr : StunHdr) : Mbuf := mbufWriteMem mb (hdrBytes hdr)

/-- `stun_hdr_decode` -/
def stunHdrDecode : Reader UInt8 Errno StunHdr :=
  andThen (checked stunHeaderSize fun xs =>
    { type := ofBe16 xs, len := ofBe16 (xs.drop 2), cookie := ofBe32 (xs.drop 4),
      tid := xs.drop 8 }) fun hdr =>
    if hdr.type &&& 0xc000 ≠ 0 then fail .EBADMSG
    else if hdr.len &&& 0x3 ≠ 0 then fail .EBADMSG
    else need .EBADMSG hdr.len.toNat (give hdr)

/-! ## Encoding -/

/-- The functions of `src/hmac` and `src/crc32` that messages rest on. -/
structure Digests where
  hmacSha1 : Bytes → Bytes → { t : Bytes // t.length = 20 }
  crc32 : Bytes → UInt32

variable (D : Digests) (key : Option Bytes) (padding : UInt8) (mb : Mbuf)

/-- `fingerprint` -/
def fingerprint (buf : Bytes) : UInt32 := D.crc32 buf ^^^ 0x5354554e

/-- A transaction ID. -/
structure Tid where
  bytes : Bytes
  length_eq : bytes.length = 12

/-- `struct stun_errcode` -/
structure StunErrcode where
  code : UInt16
  reason : Bytes
  deriving DecidableEq, Repr

/-- The loop over the attributes; a value that is NULL is left out. -/
def attrsEncode (tid : Bytes) (padding : UInt8) :
    List (UInt16 × Option AttrArg) → Mbuf → Except Errno Mbuf
  | [], mb => .ok mb
  | (_, none) :: args, mb => attrsEncode tid padding args mb
  | (type, some v) :: args, mb =>
    match stunAttrEncode mb type v (some tid) padding with
    | .error err => .error err
    | .ok mb => attrsEncode tid padding args mb

/-- The error code, which is encoded first. -/
def errcodeEncode (ec : Option StunErrcode) (padding : UInt8) (mb : Mbuf) : Except Errno Mbuf :=
  match ec with
  | some ec =>
    stunAttrEncode mb StunAttrib.ERR_CODE.code (.val (.errCode ec.code ec.reason)) none padding
  | none => .ok mb

/-- The position `n` bytes before `p`, as a step of the encoder. -/
def stepBack (p n : Nat) : Except Errno Mbuf :=
  if p < n then .error .ENOMEM else .ok (mbufSetPos mb (p - n))

/-- `if (key)`: the header is written for this length, and the message begins at `start`. -/
def addIntegrity (start : Nat) (len : UInt16) (mb : Mbuf) : Except Errno Mbuf :=
  match key with
  | none => .ok mb
  | some key =>
    let mac := D.hmacSha1 key (mbufSetPos mb start).left
    match stepBack mb (start + stunHeaderSize + len.toNat) miSize with
    | .error err => .error err
    | .ok mb =>
      stunAttrEncode mb StunAttrib.MSG_INTEGRITY.code (.val (.msgIntegrity mac.val)) none padding

/-- `if (fp)`, with the length that counts the attribute in the header. -/
def fingerprintUnder (start : Nat) (hdr : StunHdr) (mb : Mbuf) :
    Except Errno Mbuf :=
  let mb := stunHdrEncode (mbufSetPos mb start) hdr
  let fprnt := fingerprint D (mbufSetPos mb start).left
  match stepBack mb (start + stunHeaderSize + hdr.len.toNat) fpSize with
  | .error err => .error err
  | .ok mb => stunAttrEncode mb StunAttrib.FINGERPRINT.code (.val (.uint32 fprnt)) none padding

/-- `hdr.len` for a message that ends at the position, with a trailer of `n` bytes. -/
def msgLen (start n : Nat) : UInt16 := UInt16.ofNat (mb.pos + 2 ^ 64 - start - stunHeaderSize + n)

/-- `if (fp)` -/
def addFingerprint (start : Nat) (hdr : StunHdr) (mb : Mbuf) :
    Except Errno Mbuf :=
  fingerprintUnder D padding start { hdr with len := msgLen mb start fpSize } mb

/-- `stun_msg_vencode` behind the attributes, with the header it writes first. -/
def finishUnder (hdr : StunHdr) (key : Option Bytes) (fp : Bool)
    (padding : UInt8) (start : Nat) (mb : Mbuf) : Except Errno Mbuf :=
  let mi := if key.isSome then miSize else 0
  let mb := stunHdrEncode (mbufSetPos mb start) hdr
  let mb := mbufSetPos mb (mb.pos + hdr.len.toNat - mi)
  match addIntegrity D key padding start hdr.len mb with
  | .error err => .error err
  | .ok mb => if fp then addFingerprint D padding start hdr mb else .ok mb

/-- `stun_msg_vencode` behind the attributes. -/
def finishMsg (type : UInt16) (tid : Tid) (key : Option Bytes) (fp : Bool)
    (padding : UInt8) (start : Nat) (mb : Mbuf) : Except Errno Mbuf :=
  finishUnder D
    { type, len := msgLen mb start (if key.isSome then miSize else 0), cookie := magicCookie
      tid := tid.bytes }
    key fp padding start mb

/-- `stun_msg_vencode` -/
def stunMsgVencode (method cls : UInt16) (tid : Tid)
    (ec : Option StunErrcode) (key : Option Bytes) (fp : Bool) (padding : UInt8)
    (args : List (UInt16 × Option AttrArg)) : Except Errno Mbuf :=
  match errcodeEncode ec padding (mbufAdvance mb stunHeaderSize) with
  | .error err => .error err
  | .ok mb' =>
    match attrsEncode tid.bytes padding args mb' with
    | .error err => .error err
    | .ok mb' => finishMsg D (stunType method cls) tid key fp padding mb.pos mb'

/-! ## Decoding -/

/-- `struct stun_msg`, without the buffer. -/
structure StunMsg where
  hdr : StunHdr
  attrl : List StunAttr
  start : Nat
  deriving DecidableEq, Repr

/-- `while (mbuf_get_left(mb) - extra >= 4)`; the difference of the sizes wraps around. -/
def attrsDecode (tid : Bytes) (extra : Nat) : Nat → Reader UInt8 Errno (List StunAttr)
  | 0 => give []
  | fuel + 1 => fun xs =>
    if extra ≤ xs.length ∧ xs.length - extra < 4 then .ok ([], xs)
    else
      andThen (stunAttrDecode tid) (fun attr =>
        andThen (attrsDecode tid extra fuel) fun attrl => give (attr :: attrl)) xs

/-- `stun_msg_decode`; the position of the buffer is left where it is. -/
def stunMsgDecode : Except Errno StunMsg :=
  match stunHdrDecode mb.left with
  | .error err => .error err
  | .ok (hdr, xs) =>
    match attrsDecode hdr.tid (xs.length - hdr.len.toNat) xs.length xs with
    | .error err => .error err
    | .ok (attrl, _) => .ok { hdr, attrl, start := mb.pos }

/-- `ua` of `stun_msg_decode`: the attributes that are not known and must be. -/
def unknownAttrs (msg : StunMsg) : List UInt16 :=
  ((msg.attrl.map StunAttr.type).filter fun type => attrKind type = .other ∧
    type < 0x8000).take typevSize

/-- `stun_msg_attr` -/
def stunMsgAttr (msg : StunMsg) (type : StunAttrib) : Option StunAttr :=
  msg.attrl.find? fun attr => attr.type = type.code

/-! ## The checks -/

/-- A decoded message and the buffer it refers to. -/
abbrev Held := StunMsg × Mbuf

/-- The header written again with another length, and the position back at the start. -/
def rewriteLen (s : Held) (len : UInt16) : Held :=
  let hdr := { s.1.hdr with len }
  ({ s.1 with hdr }, mbufSetPos (stunHdrEncode s.2 hdr) s.2.pos)

/-- `stun_msg_chk_mi` -/
def stunMsgChkMi (key : Bytes) (s : Held) : Option Errno × Held :=
  match stunMsgAttr s.1 .MSG_INTEGRITY with
  | none => (some .EPROTO, s)
  | some mi =>
    let s : Held := (s.1, mbufSetPos s.2 s.1.start)
    let fp := (stunMsgAttr s.1 .FINGERPRINT).isSome
    let s := if fp then rewriteLen s (s.1.hdr.len - UInt16.ofNat fpSize) else s
    let hmac := D.hmacSha1 key
      (s.2.slice s.2.pos (s.2.pos + (stunHeaderSize + s.1.hdr.len.toNat - miSize)))
    let s := if fp then rewriteLen s (s.1.hdr.len + UInt16.ofNat fpSize) else s
    (if mi.v = .msgIntegrity hmac.val then none else some .EBADMSG, s)

/-- `stun_msg_chk_fingerprint` -/
def stunMsgChkFingerprint (s : Held) : Option Errno × Held :=
  match stunMsgAttr s.1 .FINGERPRINT with
  | none => (some .EPROTO, s)
  | some fp =>
    let s : Held := (s.1, mbufSetPos s.2 s.1.start)
    let fprnt := fingerprint D
      (s.2.slice s.2.pos (s.2.pos + (stunHeaderSize + s.1.hdr.len.toNat - fpSize)))
    (if fp.v = .uint32 fprnt then none else some .EBADMSG, s)

/-- One of the two checks. -/
inductive Check where
  | mi (key : Bytes)
  | fingerprint
  deriving DecidableEq, Repr

def runCheck : Check → Held → Option Errno × Held
  | .mi key, s => stunMsgChkMi D key s
  | .fingerprint, s => stunMsgChkFingerprint D s

/-- Checks in any order: their answers, and the message and the buffer behind them. -/
def runChecks (D : Digests) : List Check → Held → List (Option Errno) × Held
  | [], s => ([], s)
  | check :: checks, s =>
    let (err, s) := runCheck D check s
    let (errs, s) := runChecks D checks s
    (err :: errs, s)

end LibRe.Stun
