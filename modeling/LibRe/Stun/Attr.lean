/-
LibRe.Stun.Attr — STUN attributes and addresses (`src/stun/attr.c`, `src/stun/addr.c`).

An attribute is a type, a length and a value with padding up to a multiple of four.
What the value is, and how it is written, depends on the type; types with the same
branch in both `switch` statements are one `AttrKind`.

Translation notes. The `void` pointer to a value is an `AttrValue`; a value of another
kind than the type asks for would be read as something it is not, and is refused here.
`AttrArg.self` is the buffer itself as its own data (`mb == mbd`). An attribute is
written with one write; the source writes the four bytes in front of the value last.
After an error the buffer is of no use, and the encoder gives the error code alone.
Strings and reasons are the bytes before their NUL; data that is decoded is its bytes.
-/
import LibRe.Mbuf.Read
import LibRe.Sa.Sa

namespace LibRe.Stun

open Bytes Reader Read

/-! ## Attributes -/

/-- `enum stun_attrib` -/
inductive StunAttrib where
  | MAPPED_ADDR | CHANGE_REQ | USERNAME | MSG_INTEGRITY | ERR_CODE | UNKNOWN_ATTR
  | CHANNEL_NUMBER | LIFETIME | XOR_PEER_ADDR | DATA | REALM | NONCE | XOR_RELAY_ADDR
  | REQ_ADDR_FAMILY | EVEN_PORT | REQ_TRANSPORT | DONT_FRAGMENT | XOR_MAPPED_ADDR
  | RSV_TOKEN | PRIORITY | USE_CAND | PADDING | RESP_PORT
  | SOFTWARE | ALT_SERVER | FINGERPRINT | CONTROLLED | CONTROLLING | RESP_ORIGIN | OTHER_ADDR
  deriving DecidableEq, Repr

def StunAttrib.code : StunAttrib → UInt16
  | .MAPPED_ADDR => 0x0001
  | .CHANGE_REQ => 0x0003
  | .USERNAME => 0x0006
  | .MSG_INTEGRITY => 0x0008
  | .ERR_CODE => 0x0009
  | .UNKNOWN_ATTR => 0x000a
  | .CHANNEL_NUMBER => 0x000c
  | .LIFETIME => 0x000d
  | .XOR_PEER_ADDR => 0x0012
  | .DATA => 0x0013
  | .REALM => 0x0014
  | .NONCE => 0x0015
  | .XOR_RELAY_ADDR => 0x0016
  | .REQ_ADDR_FAMILY => 0x0017
  | .EVEN_PORT => 0x0018
  | .REQ_TRANSPORT => 0x0019
  | .DONT_FRAGMENT => 0x001a
  | .XOR_MAPPED_ADDR => 0x0020
  | .RSV_TOKEN => 0x0022
  | .PRIORITY => 0x0024
  | .USE_CAND => 0x0025
  | .PADDING => 0x0026
  | .RESP_PORT => 0x0027
  | .SOFTWARE => 0x8022
  | .ALT_SERVER => 0x8023
  | .FINGERPRINT => 0x8028
  | .CONTROLLED => 0x8029
  | .CONTROLLING => 0x802a
  | .RESP_ORIGIN => 0x802b
  | .OTHER_ADDR => 0x802c

def StunAttrib.all : List StunAttrib :=
  [.MAPPED_ADDR, .CHANGE_REQ, .USERNAME, .MSG_INTEGRITY, .ERR_CODE, .UNKNOWN_ATTR, .CHANNEL_NUMBER,
    .LIFETIME, .XOR_PEER_ADDR, .DATA, .REALM, .NONCE, .XOR_RELAY_ADDR, .REQ_ADDR_FAMILY, .EVEN_PORT,
    .REQ_TRANSPORT, .DONT_FRAGMENT, .XOR_MAPPED_ADDR, .RSV_TOKEN, .PRIORITY, .USE_CAND, .PADDING,
    .RESP_PORT, .SOFTWARE, .ALT_SERVER, .FINGERPRINT, .CONTROLLED, .CONTROLLING, .RESP_ORIGIN,
    .OTHER_ADDR]

/-- The branches of `switch (type)`. -/
inductive AttrKind where
  | addr | xorAddr | changeReq | str | msgIntegrity | errCode | unknownAttr | uint16 | uint32
  | mb | uint8 | evenPort | noValue | uint64 | other
  deriving DecidableEq, Repr

def StunAttrib.kind : StunAttrib → AttrKind
  | .MAPPED_ADDR | .ALT_SERVER | .RESP_ORIGIN | .OTHER_ADDR => .addr
  | .XOR_PEER_ADDR | .XOR_RELAY_ADDR | .XOR_MAPPED_ADDR => .xorAddr
  | .CHANGE_REQ => .changeReq
  | .USERNAME | .REALM | .NONCE | .SOFTWARE => .str
  | .MSG_INTEGRITY => .msgIntegrity
  | .ERR_CODE => .errCode
  | .UNKNOWN_ATTR => .unknownAttr
  | .CHANNEL_NUMBER | .RESP_PORT => .uint16
  | .LIFETIME | .PRIORITY | .FINGERPRINT => .uint32
  | .DATA | .PADDING => .mb
  | .REQ_ADDR_FAMILY | .REQ_TRANSPORT => .uint8
  | .EVEN_PORT => .evenPort
  | .DONT_FRAGMENT | .USE_CAND => .noValue
  | .RSV_TOKEN | .CONTROLLED | .CONTROLLING => .uint64

def attrKind (type : UInt16) : AttrKind :=
  match StunAttrib.all.find? fun t => t.code = type with
  | some t => t.kind
  | none => .other

/-- The union of `struct stun_attr`. -/
inductive AttrValue where
  | sa (sa : Sa)
  | changeReq (ip port : Bool)
  | str (str : Bytes)
  | msgIntegrity (mac : Bytes)
  | errCode (code : UInt16) (reason : Bytes)
  | unknownAttr (typev : List UInt16)
  | uint16 (v : UInt16)
  | uint32 (v : UInt32)
  | mb (data : Bytes)
  | uint8 (v : UInt8)
  | evenPort (r : Bool)
  | noValue
  | uint64 (v : UInt64)
  deriving DecidableEq, Repr

/-- `struct stun_attr` -/
structure StunAttr where
  type : UInt16
  v : AttrValue
  deriving DecidableEq, Repr

/-! ## Addresses -/

/-- `STUN_MAGIC_COOKIE` -/
def magicCookie : UInt32 := 0x2112a442

/-- `in6_xor_tid` -/
def in6XorTid (in6 tid : Bytes) : Bytes := xorBytes in6 ([0x21, 0x12, 0xa4, 0x42] ++ tid)

variable (addr : Sa) (tid : Option Bytes)

/-- The port and the addresses, xored unless `tid` is NULL. -/
def xorPort (port : UInt16) : UInt16 :=
  if tid.isSome then port ^^^ 0x2112 else port

def xorIn (addr : UInt32) : UInt32 :=
  if tid.isSome then addr ^^^ magicCookie else addr

def xorIn6 (addr6 : Bytes) : Bytes :=
  match tid with
  | some tid => in6XorTid addr6 tid
  | none => addr6

/-- `stun_addr_encode` -/
def stunAddrEncode : Except Errno Bytes :=
  match addr with
  | .unspec => .error .EAFNOSUPPORT
  | .inet addr port => .ok ([0, 1] ++ be16 (xorPort tid port) ++ be32 (xorIn tid addr))
  | .inet6 addr port =>
    .ok ([0, 2] ++ be16 (xorPort tid port) ++ xorIn6 tid (hexBytes 16 addr.toNat))

/-- `stun_addr_decode` -/
def stunAddrDecode : Reader UInt8 Errno Sa :=
  andThen (checked 4 fun xs => ((xs.drop 1).headD 0, ofBe16 (xs.drop 2))) fun (family, port) =>
    if family = 1 then
      andThen (checked 4 ofBe32) fun addr => give (.inet (xorIn tid addr) (xorPort tid port))
    else if family = 2 then
      andThen (checked 16 id) fun addr6 =>
        give (.inet6 (BitVec.ofNat 128 (ofBe (xorIn6 tid addr6))) (xorPort tid port))
    else fail .EAFNOSUPPORT

/-! ## Encoding -/

/-- The value of an attribute, by the branch of its type. -/
def valueEncode (kind : AttrKind) (v : AttrValue) (tid : Option Bytes) :
    Except Errno Bytes :=
  match kind, v with
  | .addr, .sa addr => stunAddrEncode addr none
  | .xorAddr, .sa addr => stunAddrEncode addr tid
  | .changeReq, .changeReq ip port =>
    .ok (be32 (UInt32.ofNat (ip.toNat * 4 + port.toNat * 2)))
  | .str, .str str => .ok str
  | .msgIntegrity, .msgIntegrity mac => .ok (mac.take 20)
  | .errCode, .errCode code reason =>
    .ok ([0, 0, UInt8.ofNat (code.toNat / 100), UInt8.ofNat (code.toNat % 100)] ++ reason)
  | .unknownAttr, .unknownAttr typev => .ok (typev.flatMap be16)
  | .uint16, .uint16 v => .ok (be16 v ++ [0, 0])
  | .uint32, .uint32 v => .ok (be32 v)
  | .mb, .mb data => .ok data
  | .uint8, .uint8 v => .ok [v, 0, 0, 0]
  | .evenPort, .evenPort r => .ok [UInt8.ofNat (r.toNat * 128)]
  | .noValue, .noValue => .ok []
  | .uint64, .uint64 v => .ok (hexBytes 8 v.toNat)
  | _, _ => .error .EINVAL

/-- The bytes up to the next multiple of four. -/
def paddingBytes (padding : UInt8) (len : Nat) : Bytes := List.replicate ((4 - len % 4) % 4) padding

/-- An attribute with the value `bytes`. -/
def attrBytes (type : UInt16) (bytes : Bytes) (padding : UInt8) : Bytes :=
  be16 type ++ be16 (UInt16.ofNat bytes.length) ++ bytes ++ paddingBytes padding bytes.length

/-- The value that is passed to `stun_attr_encode`. -/
inductive AttrArg where
  | val (v : AttrValue)
  | self
  deriving DecidableEq, Repr

/-- The branch `mb == mbd`: what stands behind the header up to the end is the value. The
length is a `size_t`, and wraps around if nothing stands there. -/
def encodeSelf (mb : Mbuf) (type : UInt16) (padding : UInt8) : Mbuf :=
  let len := mb.end_ + 2 ^ 64 - (mb.pos + 4)
  let mb' := mbufWriteMem mb (be16 type ++ be16 (UInt16.ofNat len))
  mbufWriteMem (mbufSetPos mb' mb.end_) (paddingBytes padding len)

/-- `stun_attr_encode` -/
def stunAttrEncode (mb : Mbuf) (type : UInt16) (v : AttrArg) (tid : Option Bytes)
    (padding : UInt8) : Except Errno Mbuf :=
  match v with
  | .self => if attrKind type = .mb then .ok (encodeSelf mb type padding) else .error .EINVAL
  | .val v =>
    match valueEncode (attrKind type) v tid with
    | .error err => .error err
    | .ok bytes => .ok (mbufWriteMem mb (attrBytes type bytes padding))

/-! ## Decoding -/

/-- `RE_ARRAY_SIZE(attr->v.unknown_attr.typev)` -/
def typevSize : Nat := 8

/-- The value of an attribute of `len` bytes, by the branch of its type. -/
def valueDecode (kind : AttrKind) (len : Nat) (tid : Option Bytes) :
    Reader UInt8 Errno AttrValue :=
  match kind with
  | .addr => andThen (stunAddrDecode none) fun addr => give (.sa addr)
  | .xorAddr => andThen (stunAddrDecode tid) fun addr => give (.sa addr)
  | .changeReq =>
    if len ≠ 4 then fail .EBADMSG
    else andThen readU32 fun n => give (.changeReq (n.toNat / 4 % 2 = 1) (n.toNat / 2 % 2 = 1))
  | .str => andThen (checked len id) fun str => give (.str str)
  | .msgIntegrity =>
    if len ≠ 20 then fail .EBADMSG
    else andThen (fields .EOVERFLOW 20 id) fun mac => give (.msgIntegrity mac)
  | .errCode =>
    if len < 4 then fail .EBADMSG
    else
      andThen (checked 2 fun _ => ()) fun _ => andThen readU8 fun hundreds =>
        andThen readU8 fun code =>
        andThen (checked (len - 4) id) fun reason =>
          give (.errCode (UInt16.ofNat (hundreds.toNat % 8 * 100 + code.toNat)) reason)
  | .unknownAttr =>
    andThen (times (len / 2) readU16) fun typev => give (.unknownAttr (typev.take typevSize))
  | .uint16 => if len < 2 then fail .EBADMSG else andThen readU16 fun v => give (.uint16 v)
  | .uint32 => if len ≠ 4 then fail .EBADMSG else andThen readU32 fun v => give (.uint32 v)
  | .mb => andThen (checked len id) fun data => give (.mb data)
  | .uint8 => if len < 1 then fail .EBADMSG else andThen readU8 fun v => give (.uint8 v)
  | .evenPort =>
    if len < 1 then fail .EBADMSG else andThen readU8 fun b => give (.evenPort (b.toNat / 128 = 1))
  | .noValue => if len > 0 then fail .EBADMSG else give .noValue
  | .uint64 => if len ≠ 8 then fail .EBADMSG else andThen readU64 fun v => give (.uint64 v)
  | .other => andThen (checked len fun _ => ()) fun _ => give .noValue

/-- `stun_attr_decode` -/
def stunAttrDecode (tid : Bytes) : Reader UInt8 Errno StunAttr :=
  andThen (checked 4 fun xs => (ofBe16 xs, (ofBe16 (xs.drop 2)).toNat)) fun (type, len) =>
    need .EBADMSG len (byLength fun start =>
      andThen (valueDecode (attrKind type) len (some tid)) fun v =>
        andThen (slurp start) fun _ => give ⟨type, v⟩)

end LibRe.Stun
