/-
LibRe.Rtmp.Amf — the Action Message Format of RTMP (`src/rtmp/amf_enc.c`,
`src/rtmp/amf_dec.c`).

Values are written with their type in front. An object or an ECMA array is a list of keys
and values that an empty key and an end marker close; a strict array has its length in
front and no keys. The decoder puts the values into ordered dictionaries, with the index
as the key where there is none.

Translation notes. The variable arguments of the encoder are a tree; a key is there for
containers that have keys, and may be NULL. What an encoder has written stays in the
buffer when it fails, so it gives the bytes together with the error. A number is its
64-bit pattern. Counts are below `2 ^ 32`, as they are `unsigned` in the source.
-/
import LibRe.Lib.Digits
import LibRe.Mbuf.Read
import LibRe.Odict.Odict

namespace LibRe.Rtmp.Amf

open Bytes Reader Digits

/-- The containers of `enum rtmp_amf_type`. -/
inductive Container where
  | ROOT | OBJECT | ECMA_ARRAY | STRICT_ARRAY
  deriving DecidableEq, Repr

/-- `container_has_key` -/
def Container.hasKey : Container → Bool
  | .OBJECT | .ECMA_ARRAY => true
  | .STRICT_ARRAY | .ROOT => false

mutual

/-- A value to encode. -/
inductive AmfArg where
  | number (v : UInt64)
  | boolean (b : Bool)
  | string (str : Option CStr)
  | null
  | container (type : Container) (args : AmfArgs)

/-- The arguments of `rtmp_amf_vencode_object`. -/
inductive AmfArgs where
  | nil
  | cons (key : Option CStr) (v : AmfArg) (rest : AmfArgs)

end

/-- `propc` -/
def AmfArgs.count : AmfArgs → Nat
  | .nil => 0
  | .cons _ _ rest => rest.count + 1

/-! ## Encoding -/

/-- What was written, and the error that was returned. -/
abbrev Written := Bytes × Option Errno

/-- One call after the other, up to the first error. -/
def Written.followedBy (a b : Written) : Written :=
  match a.2 with
  | some _ => a
  | none => (a.1 ++ b.1, b.2)

/-- `rtmp_amf_encode_key` -/
def rtmpAmfEncodeKey (key : CStr) : Written :=
  if key.bytes.length > 65535 then ([], some .EOVERFLOW)
  else (be16 (UInt16.ofNat key.bytes.length) ++ key.bytes, none)

/-- `rtmp_amf_encode_number` -/
def rtmpAmfEncodeNumber (v : UInt64) : Written := (0x00 :: hexBytes 8 v.toNat, none)

/-- `rtmp_amf_encode_boolean` -/
def rtmpAmfEncodeBoolean (b : Bool) : Written := ([0x01, if b then 1 else 0], none)

/-- `rtmp_amf_encode_string` -/
def rtmpAmfEncodeString : Option CStr → Written
  | none => ([], some .EINVAL)
  | some str =>
    if str.bytes.length > 65535 then ([], some .EOVERFLOW)
    else (0x02 :: be16 (UInt16.ofNat str.bytes.length) ++ str.bytes, none)

/-- `rtmp_amf_encode_null` -/
def rtmpAmfEncodeNull : Written := ([0x05], none)

/-- `rtmp_amf_encode_object_start` and `rtmp_amf_encode_array_start` -/
def containerStart (propc : Nat) : Container → Bytes
  | .ROOT => []
  | .OBJECT => [0x03]
  | .ECMA_ARRAY => 0x08 :: be32 (UInt32.ofNat propc)
  | .STRICT_ARRAY => 0x0a :: be32 (UInt32.ofNat propc)

/-- `rtmp_amf_encode_object_end` -/
def objectEnd : Bytes := [0, 0, 0x09]

/-- The key of an argument, if the container has keys. -/
def keyWritten (container : Container) (key : Option CStr) : Written :=
  if container.hasKey then
    match key with
    | none => ([], some .EINVAL)
    | some key => rtmpAmfEncodeKey key
  else ([], none)

/-- `rtmp_amf_vencode_object`, around what is written for the arguments. -/
def vencodeContainer (container : Container) (propc : Nat) (props : Written) : Written :=
  if propc = 0 then ([], some .EINVAL)
  else
    Written.followedBy (containerStart propc container, none)
      (props.followedBy (if container.hasKey then objectEnd else [], none))

mutual

/-- `switch (type)` of `rtmp_amf_vencode_object` -/
def encodeArg : AmfArg → Written
  | .number v => rtmpAmfEncodeNumber v
  | .boolean b => rtmpAmfEncodeBoolean b
  | .string str => rtmpAmfEncodeString str
  | .null => rtmpAmfEncodeNull
  | .container .ROOT _ => ([], some .ENOTSUP)
  | .container type args => vencodeContainer type args.count (encodeArgs type args)

/-- The loop of `rtmp_amf_vencode_object`. -/
def encodeArgs (container : Container) : AmfArgs → Written
  | .nil => ([], none)
  | .cons key v rest =>
    (keyWritten container key).followedBy ((encodeArg v).followedBy (encodeArgs container rest))

end

/-- `rtmp_amf_vencode_object` -/
def rtmpAmfVencodeObject (container : Container) (args : AmfArgs) : Written :=
  vencodeContainer container args.count (encodeArgs container args)

/-! ## Decoding -/

/-- A decoder that adds entries to a dictionary. -/
abbrev DictReader := Odict → Reader UInt8 Errno Odict

/-- `re_snprintf(ix, sizeof(ix), "%u", i)` -/
def index (i : Nat) : CStr where
  bytes := decimal i
  no_nul h := absurd (isDigit_of_mem_decimal h) (by decide)

/-- The next byte. -/
def byte : Reader UInt8 Errno UInt8 := fields .ENODATA 1 (·.headD 0)

/-- A string behind its length. -/
def lenString (len : Nat) : Reader UInt8 Errno CStr := fields .ENODATA len CStr.ofMem

/-- `amf_decode_object`; every entry takes bytes, so their number bounds the loop. -/
def amfDecodeObject (value : CStr → DictReader) : Nat → DictReader
  | 0, dict => give dict
  | n + 1, dict => fun xs =>
    if xs.length = 0 then .ok (dict, xs)
    else
      andThen (fields .ENODATA 2 ofBe16) (fun len =>
        if len = 0 then andThen byte fun val => if val = 0x09 then give dict else fail .EBADMSG
        else andThen (lenString len.toNat) fun key => andThen (value key dict) fun dict =>
          amfDecodeObject value n dict) xs

/-- The loop over the elements of a strict array: `n` are left, the next has the index `i`. -/
def amfDecodeElements (value : CStr → DictReader) : Nat → Nat → DictReader
  | 0, _, object => give object
  | n + 1, i, object =>
    andThen (value (index i) object) fun object => amfDecodeElements value n (i + 1) object

/-- `amf_decode_value`. A value inside another one is shorter, so the number of bytes
bounds the depth. -/
def amfDecodeValue : Nat → CStr → DictReader
  | 0, _, _ => fail .ENODATA
  | n + 1, key, dict =>
    andThen byte fun type =>
      match type.toNat with
      | 0x00 =>
        andThen (fields .ENODATA 8 ofBe) fun i =>
          give (odictEntryAdd key (.double (UInt64.ofNat i)) dict)
      | 0x01 => andThen byte fun b => give (odictEntryAdd key (.bool (b != 0)) dict)
      | 0x02 =>
        andThen (fields .ENODATA 2 ofBe16) fun len => andThen (lenString len.toNat) fun str =>
          give (odictEntryAdd key (.string str) dict)
      | 0x05 => give (odictEntryAdd key .null dict)
      | 0x08 =>
        -- the length of an ECMA array is ignored
        andThen (fields .ENODATA 4 ofBe32) fun _ =>
          andThen (byLength fun left => amfDecodeObject (amfDecodeValue n) left .nil) fun object =>
            give (odictEntryAdd key (.object object) dict)
      | 0x03 =>
        andThen (byLength fun left => amfDecodeObject (amfDecodeValue n) left .nil) fun object =>
          give (odictEntryAdd key (.object object) dict)
      | 0x0a =>
        andThen (fields .ENODATA 4 ofBe32) fun len =>
          if len.toNat = 0 ∨ len.toNat > 65536 then fail .EPROTO
          else
            andThen (amfDecodeElements (amfDecodeValue n) len.toNat 0 .nil) fun object =>
              give (odictEntryAdd key (.array object) dict)
      | _ => fail .EPROTO

/-- The loop of `rtmp_amf_decode`. -/
def amfDecodeRoot (value : CStr → DictReader) : Nat → Nat → DictReader
  | 0, _, msg => give msg
  | n + 1, ix, msg => fun xs =>
    if xs.length = 0 then .ok (msg, xs)
    else andThen (value (index ix) msg) (fun msg => amfDecodeRoot value n (ix + 1) msg) xs

/-- `rtmp_amf_decode` -/
def rtmpAmfDecode : Reader UInt8 Errno Odict :=
  byLength fun left => amfDecodeRoot (amfDecodeValue left) left 0 .nil

end LibRe.Rtmp.Amf
