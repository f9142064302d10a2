/-
LibRe.Bfcp.Msg — messages of the Binary Floor Control Protocol (`src/bfcp/attr.c`,
`src/bfcp/msg.c`).

A message is a header and a tree of attributes: some types of attributes hold further
attributes behind their value. The length of an attribute counts its sub-attributes with
their padding, so the writer goes back to patch it when they are written. The reader of a
grouped attribute moves the end of the buffer for as long as it reads the sub-attributes.

Translation notes. An attribute is one constructor for each member of `union bfcp_union`
that its type selects, so a value always fits its type; sub-attributes of a type that is
not grouped, encode handlers and values that are NULL are left out. Out-of-memory is not
modelled. The position behind an attribute is `start + len` also when `len` was cut to
eight bits, as the sum of `size_t` wraps around.
-/
import LibRe.Fmt.Str
import LibRe.Mbuf.Read

namespace LibRe.Bfcp

open Bytes Reader Read

/-! ## Attributes -/

/-- The types of `enum bfcp_attrib` whose value is a number. -/
inductive IdAttrib where
  | BENEFICIARY_ID | FLOOR_ID | FLOOR_REQUEST_ID
  deriving DecidableEq, Repr

def IdAttrib.code : IdAttrib → UInt8
  | .BENEFICIARY_ID => 1
  | .FLOOR_ID => 2
  | .FLOOR_REQUEST_ID => 3

/-- The types whose value is a string. -/
inductive StrAttrib where
  | ERROR_INFO | PART_PROV_INFO | STATUS_INFO | USER_DISP_NAME | USER_URI
  deriving DecidableEq, Repr

def StrAttrib.code : StrAttrib → UInt8
  | .ERROR_INFO => 7
  | .PART_PROV_INFO => 8
  | .STATUS_INFO => 9
  | .USER_DISP_NAME => 12
  | .USER_URI => 13

/-- The grouped types. -/
inductive GroupAttrib where
  | BENEFICIARY_INFO | FLOOR_REQ_INFO | REQUESTED_BY_INFO | FLOOR_REQ_STATUS | OVERALL_REQ_STATUS
  deriving DecidableEq, Repr

def GroupAttrib.code : GroupAttrib → UInt8
  | .BENEFICIARY_INFO => 14
  | .FLOOR_REQ_INFO => 15
  | .REQUESTED_BY_INFO => 16
  | .FLOOR_REQ_STATUS => 17
  | .OVERALL_REQ_STATUS => 18

/-- `BFCP_PRIORITY`, `BFCP_REQUEST_STATUS`, `BFCP_ERROR_CODE`, `BFCP_SUPPORTED_ATTRS` and
`BFCP_SUPPORTED_PRIMS` -/
def priorityCode : UInt8 := 4
def requestStatusCode : UInt8 := 5
def errorCodeCode : UInt8 := 6
def supportedAttrsCode : UInt8 := 10
def supportedPrimsCode : UInt8 := 11

/-- `struct bfcp_attr`; the types of supported attributes have seven bits, a priority has
three. -/
inductive BfcpAttr where
  | id (type : IdAttrib) (mand : Bool) (v : UInt16)
  | priority (mand : Bool) (v : BitVec 3)
  | reqstatus (mand : Bool) (status qpos : UInt8)
  | errcode (mand : Bool) (code : UInt8) (details : Bytes)
  | str (type : StrAttrib) (mand : Bool) (s : CStr)
  | supattr (mand : Bool) (attrv : List (BitVec 7))
  | supprim (mand : Bool) (primv : Bytes)
  | group (type : GroupAttrib) (mand : Bool) (v : UInt16) (attrl : List BfcpAttr)
  | unknown (type : UInt8) (mand : Bool)

/-- `attr->type` -/
def BfcpAttr.type : BfcpAttr → UInt8
  | .id type .. => type.code
  | .priority .. => priorityCode
  | .reqstatus .. => requestStatusCode
  | .errcode .. => errorCodeCode
  | .str type .. => type.code
  | .supattr .. => supportedAttrsCode
  | .supprim .. => supportedPrimsCode
  | .group type .. => type.code
  | .unknown type _ => type

/-- `attr->mand` -/
def BfcpAttr.mand : BfcpAttr → Bool
  | .id _ mand _ | .priority mand _ | .reqstatus mand .. | .errcode mand .. | .str _ mand _
  | .supattr mand _
  | .supprim mand _ | .group _ mand .. | .unknown _ mand => mand

/-! ## Encoding -/

/-- `switch (type)` of `attr_encode`: the value that is written. -/
def BfcpAttr.value : BfcpAttr → Except Errno Bytes
  | .id _ _ v | .group _ _ v _ => .ok (be16 v)
  | .priority _ v => .ok [UInt8.ofNat v.toNat <<< 5, 0]
  | .reqstatus _ status qpos => .ok [status, qpos]
  | .errcode _ code details => .ok (code :: details)
  | .str _ _ s => .ok s.bytes
  | .supattr _ attrv => .ok (attrv.map fun type => UInt8.ofNat type.toNat <<< 1)
  | .supprim _ primv => .ok primv
  | .unknown .. => .error .EINVAL

/-- `(type<<1) | (mand ? 1 : 0)` -/
def typeByte (type : UInt8) (mand : Bool) : UInt8 := type <<< 1 ||| if mand then 1 else 0

/-- Zeros up to a multiple of four. -/
def padding (n : Nat) : Bytes := List.replicate ((4 - n % 4) % 4) 0

/-- `attr_encode` -/
def attrEncode (mb : Mbuf) (attr : BfcpAttr) : Except Errno Mbuf :=
  let start := mb.pos
  match attr.value with
  | .error err => .error err
  | .ok value =>
    let mb := mbufWriteMem (mbufAdvance mb 2) value
    let len := UInt8.ofNat (mb.pos - start)
    let mb := mbufWriteMem (mbufSetPos mb start) [typeByte attr.type attr.mand, len]
    let mb := mbufSetPos mb (start + len.toNat)
    .ok (mbufWriteMem mb (padding len.toNat))

/-- `update total length for grouped attributes` -/
def patchLength (start : Nat) (mb : Mbuf) : Mbuf :=
  mbufSetPos (mbufWriteMem (mbufSetPos mb (start + 1)) [UInt8.ofNat (mb.pos - start)]) mb.pos

mutual

/-- An attribute with its sub-attributes. -/
def attrVencode : BfcpAttr → Mbuf → Except Errno Mbuf
  | .group type mand v attrl, mb =>
    match attrEncode mb (.group type mand v []) with
    | .error err => .error err
    | .ok mb' =>
      if attrl.isEmpty then .ok mb'
      else
        match bfcpAttrsVencode attrl mb' with
        | .error err => .error err
        | .ok mb'' => .ok (patchLength mb.pos mb'')
  | attr, mb => attrEncode mb attr

/-- `bfcp_attrs_vencode` -/
def bfcpAttrsVencode : List BfcpAttr → Mbuf → Except Errno Mbuf
  | [], mb => .ok mb
  | attr :: attrs, mb =>
    match attrVencode attr mb with
    | .error err => .error err
    | .ok mb => bfcpAttrsVencode attrs mb

end

/-- What `bfcp_msg_encode` is given for the header. -/
structure Header where
  ver : UInt8
  r : Bool
  prim : UInt8
  confid : UInt32
  tid : UInt16
  userid : UInt16
  deriving DecidableEq, Repr

/-- What `hdr_encode` writes. -/
def hdrEncode (hdr : Header) (len : UInt16) : Bytes :=
  [hdr.ver <<< 5 ||| (if hdr.r then (1 : UInt8) else 0) <<< 4, hdr.prim] ++ be16 len ++
    be32 hdr.confid ++ be16 hdr.tid ++ be16 hdr.userid

/-- `bfcp_msg_encode` -/
def bfcpMsgEncode (mb : Mbuf) (hdr : Header) (attrs : List BfcpAttr) : Except Errno Mbuf :=
  let start := mb.pos
  match bfcpAttrsVencode attrs (mbufAdvance mb 12) with
  | .error err => .error err
  | .ok mb =>
    let len := mb.pos - start - 12
    let mb := mbufWriteMem (mbufSetPos mb start) (hdrEncode hdr (UInt16.ofNat (len / 4)))
    .ok (mbufAdvance mb len)

/-! ## Decoding -/

/-- `struct bfcp_unknown_attr`: the types of mandatory attributes that are not known. -/
abbrev Unknown := Bytes

/-- `uma->typev[uma->typec++] = attr->type<<1`, if there is room. -/
def Unknown.note (uma : Unknown) (type : UInt8) : Unknown :=
  if uma.length < 16 then uma ++ [type <<< 1] else uma

/-- Types of attributes by their value. -/
inductive Kind where
  | id (type : IdAttrib)
  | priority | reqstatus | errcode
  | str (type : StrAttrib)
  | supattr | supprim
  | group (type : GroupAttrib)
  | unknown

/-- `switch (attr->type)` of `attr_decode` -/
def kind (type : UInt8) : Kind :=
  match type.toNat with
  | 1 => .id .BENEFICIARY_ID
  | 2 => .id .FLOOR_ID
  | 3 => .id .FLOOR_REQUEST_ID
  | 4 => .priority
  | 5 => .reqstatus
  | 6 => .errcode
  | 7 => .str .ERROR_INFO
  | 8 => .str .PART_PROV_INFO
  | 9 => .str .STATUS_INFO
  | 10 => .supattr
  | 11 => .supprim
  | 12 => .str .USER_DISP_NAME
  | 13 => .str .USER_URI
  | 14 => .group .BENEFICIARY_INFO
  | 15 => .group .FLOOR_REQ_INFO
  | 16 => .group .REQUESTED_BY_INFO
  | 17 => .group .FLOOR_REQ_STATUS
  | 18 => .group .OVERALL_REQ_STATUS
  | _ => .unknown

/-- A decoder of attributes, which notes what it does not know. -/
abbrev AttrReader (α : Type) := Unknown → Reader UInt8 Errno (α × Unknown)

/-- The cases of `attr_decode`, for `len` bytes behind the header of the attribute. -/
def valueDecode (attrsDecode : AttrReader (List BfcpAttr)) (type : UInt8) (mand : Bool)
    (len : Nat) : AttrReader BfcpAttr :=
  fun uma =>
    match kind type with
    | .id id =>
      if len < 2 then fail .EBADMSG else andThen readU16 fun v => give (.id id mand v, uma)
    | .priority =>
      if len < 2 then fail .EBADMSG
      else andThen readU8 fun b => andThen readU8 fun _ =>
        give (.priority mand (BitVec.ofNat 3 (b >>> 5).toNat), uma)
    | .reqstatus =>
      if len < 2 then fail .EBADMSG
      else andThen readU8 fun status => andThen readU8 fun qpos =>
        give (.reqstatus mand status qpos, uma)
    | .errcode =>
      if len < 1 then fail .EBADMSG
      else andThen readU8 fun code => andThen (fields .EOVERFLOW (len - 1) id) fun details =>
        give (.errcode mand code details, uma)
    | .str str => andThen (fields .EOVERFLOW len CStr.ofMem) fun s => give (.str str mand s, uma)
    | .supattr =>
      andThen (times len readU8) fun attrv =>
        give (.supattr mand (attrv.map fun b : UInt8 => BitVec.ofNat 7 (b >>> 1).toNat), uma)
    | .supprim => andThen (times len readU8) fun primv => give (.supprim mand primv, uma)
    | .group group =>
      if len < 2 then fail .EBADMSG
      else
        andThen readU16 fun v => andThen (within .EINVAL (len - 2) (attrsDecode uma)) fun sub =>
          give (.group group mand v sub.1, sub.2)
    | .unknown =>
      andThen (fields .EOVERFLOW len id) fun _ =>
        give (.unknown type mand, if mand then uma.note type else uma)

/-- `attr_decode` -/
def attrDecode (attrsDecode : AttrReader (List BfcpAttr)) : AttrReader BfcpAttr := fun uma =>
  byLength fun start =>
    andThen (checked 2 fun xs => (xs.headD 0, (xs.drop 1).headD 0)) fun b =>
      if b.2 < 2 then fail .EBADMSG
      else
        need .EBADMSG (b.2.toNat - 2) (andThen (valueDecode attrsDecode (b.1 >>> 1) (b.1 &&& 1 = 1)
          (b.2.toNat - 2) uma) fun attr =>
          andThen (slurp start) fun _ => give attr)

/-- The loop of `bfcp_attrs_decode`. Every attribute takes bytes, and what a grouped one
holds is shorter than the attribute, so the number of bytes bounds the calls. -/
def attrsLoop : Nat → AttrReader (List BfcpAttr)
  | 0, uma => give ([], uma)
  | n + 1, uma => fun xs =>
    if xs.length < 2 then .ok (([], uma), xs)
    else
      andThen (attrDecode (attrsLoop n) uma) (fun attr => andThen (attrsLoop n attr.2) fun attrs =>
        give (attr.1 :: attrs.1, attrs.2)) xs

/-- `bfcp_attrs_decode` -/
def bfcpAttrsDecode (len : Nat) (uma : Unknown) : Reader UInt8 Errno (List BfcpAttr × Unknown) :=
  within .EINVAL len (attrsLoop len uma)

/-- `struct bfcp_msg` -/
structure BfcpMsg where
  hdr : Header
  f : Bool
  len : UInt16
  attrl : List BfcpAttr
  uma : Unknown

/-- `hdr_decode` -/
def hdrDecode : Reader UInt8 Errno (Header × Bool × UInt16) :=
  andThen (fields .ENODATA 12 fun xs =>
    ({ ver := xs.headD 0 >>> 5
       r := (xs.headD 0 >>> 4) &&& 1 = 1
       prim := (xs.drop 1).headD 0
       confid := ofBe32 (xs.drop 4)
       tid := ofBe16 (xs.drop 8)
       userid := ofBe16 (xs.drop 10) : Header },
     ((xs.headD 0 >>> 3) &&& 1 = 1 : Bool), ofBe16 (xs.drop 2))) fun hdr =>
    if hdr.1.ver ≠ 1 ∧ hdr.1.ver ≠ 2 then fail .EBADMSG
    -- fragmentation not supported
    else if hdr.2.1 then fail .ENOSYS
    else need .ENODATA (4 * hdr.2.2.toNat) (give hdr)

/-- `bfcp_msg_decode` -/
def bfcpMsgDecode : Reader UInt8 Errno BfcpMsg :=
  andThen hdrDecode fun hdr => andThen (bfcpAttrsDecode (4 * hdr.2.2.toNat) []) fun attrs =>
    give { hdr := hdr.1, f := hdr.2.1, len := hdr.2.2, attrl := attrs.1, uma := attrs.2 }

end LibRe.Bfcp
