/-
LibRe.Dns.Rr — DNS resource records (`src/dns/rr.c`, `src/dns/cstr.c`).

A record has an owner name, a fixed header and the data of its type. The
encoder writes the header with whatever `rdlen` the record carries, writes the
data, and goes back to fill in how long that was. The decoder reads the data by
type; the declared `rdlen` only has to be there.

Translation notes. The `type` of `struct dnsrr` selects the member of its union,
so both are one `Rdata`. `err |= …` collects the errors of the writers, of which
only the name encoder has any, always EINVAL. The loop over the pieces of a TXT
string has fuel (`none` when it runs out), because it does not always end.
Strings that are read end at the first NUL, as every C reader sees them.
-/
import LibRe.Dns.Dname

namespace LibRe.Dns

open Bytes

/-! ## Records -/

/-- The types with data that is looked at (`DNS_TYPE_…`). -/
inductive RrType where
  | A | NS | CNAME | SOA | PTR | MX | TXT | AAAA | SRV | NAPTR
  deriving DecidableEq, Repr

def RrType.code : RrType → UInt16
  | .A => 0x0001
  | .NS => 0x0002
  | .CNAME => 0x0005
  | .SOA => 0x0006
  | .PTR => 0x000c
  | .MX => 0x000f
  | .TXT => 0x0010
  | .AAAA => 0x001c
  | .SRV => 0x0021
  | .NAPTR => 0x0023

/-- The type of a code, when it is one of these. -/
def RrType.ofCode (code : UInt16) : Option RrType :=
  [A, NS, CNAME, SOA, PTR, MX, TXT, AAAA, SRV, NAPTR].find? (·.code == code)

/-- The union `rdata` of `struct dnsrr` with the `type` that selects its member. -/
inductive Rdata where
  | a (addr : UInt32)
  | ns (nsdname : Bytes)
  | cname (cname : Bytes)
  | soa (mname rname : Bytes) (serial refresh retry expire ttlmin : UInt32)
  | ptr (ptrdname : Bytes)
  | mx (pref : UInt16) (exchange : Bytes)
  | txt (data : Bytes)
  | aaaa (addr : Bytes) (length_addr : addr.length = 16)
  | srv (pri weight port : UInt16) (target : Bytes)
  | naptr (order pref : UInt16) (flags services regexp replace : Bytes)
  | other (type : UInt16) (unknown : RrType.ofCode type = none)
  deriving DecidableEq, Repr

def Rdata.type : Rdata → UInt16
  | .a .. => RrType.A.code
  | .ns .. => RrType.NS.code
  | .cname .. => RrType.CNAME.code
  | .soa .. => RrType.SOA.code
  | .ptr .. => RrType.PTR.code
  | .mx .. => RrType.MX.code
  | .txt .. => RrType.TXT.code
  | .aaaa .. => RrType.AAAA.code
  | .srv .. => RrType.SRV.code
  | .naptr .. => RrType.NAPTR.code
  | .other type _ => type

/-- `struct dnsrr`. -/
structure Dnsrr where
  name : Bytes
  dnsclass : UInt16
  ttl : Int
  rdlen : UInt16
  rdata : Rdata
  deriving DecidableEq, Repr

/-! ## Encoding -/

variable (rdlen : UInt16) (start : Nat) (mb : Mbuf)

/-- `dns_cstr_encode`. -/
def dnsCstrEncode (str : Bytes) : Mbuf :=
  let len := UInt8.ofNat str.length
  mbufWriteMem (mbufWriteU8 mb len) (str.take len.toNat)

/-- The loop over the pieces of a TXT string. -/
def txtEncodeLoop : Nat → Mbuf → Bytes → Option Mbuf
  | 0, _, _ => none
  | fuel + 1, mb, data =>
    let slen := min (UInt8.ofNat data.length) 0xff
    let mb := mbufWriteMem (mbufWriteU8 mb slen) (data.take slen.toNat)
    let data := data.drop slen.toNat
    if data.length > 0 then txtEncodeLoop fuel mb data else some mb

/-- A step whose error is added to the ones before it, as in `err |= f(…)`. -/
def orErr (r : Option Errno × Msg) (f : Msg → Option Errno × Msg) : Option Errno × Msg :=
  let (err, m) := r
  let (err', m) := f m
  (err <|> err', m)

/-- The `switch` of `dns_rr_encode`. -/
def rdataEncode (fuel : Nat) (m : Msg) (rdata : Rdata) (start : Nat) :
    Option (Option Errno × Msg) :=
  match rdata with
  | .a addr => some (none, m.write (be32 addr))
  | .ns nsdname => some (dnsDnameEncode m nsdname start true)
  | .cname cname => some (dnsDnameEncode m cname start true)
  | .soa mname rname serial refresh retry expire ttlmin =>
    let r := dnsDnameEncode m mname start true
    let r := orErr r fun m => dnsDnameEncode m rname start true
    some (orErr r fun m =>
      (none, ((((m.write (be32 serial)).write (be32 refresh)).write (be32 retry)).write
        (be32 expire)).write (be32 ttlmin)))
  | .ptr ptrdname => some (dnsDnameEncode m ptrdname start true)
  | .mx pref exchange => some (dnsDnameEncode (m.write (be16 pref)) exchange start true)
  | .txt data => (txtEncodeLoop fuel m.mb data).map fun mb => (none, { m with mb })
  | .aaaa addr _ => some (none, m.write addr)
  | .srv pri weight port target =>
    let m := ((m.write (be16 pri)).write (be16 weight)).write (be16 port)
    some (dnsDnameEncode m target start false)
  | .naptr order pref flags services regexp replace =>
    let m := (m.write (be16 order)).write (be16 pref)
    let mb := dnsCstrEncode (dnsCstrEncode (dnsCstrEncode m.mb flags) services) regexp
    some (dnsDnameEncode { m with mb } replace start false)
  | .other .. => some (some .EINVAL, m)

/-- `(uint32_t)((rr->ttl > ttl_offs) ? (rr->ttl - ttl_offs) : 0)` -/
def encodeTtl (ttl ttlOffs : Int) : UInt32 :=
  UInt32.ofInt (if ttl > ttlOffs then ttl - ttlOffs else 0)

/-- The part of `dns_rr_encode` in front of the data. -/
def rrHeaderEncode (m : Msg) (rr : Dnsrr) (ttlOffs : Int) (start : Nat) : Option Errno × Msg :=
  orErr (dnsDnameEncode m rr.name start true) fun m =>
    (none, (((m.write (be16 rr.rdata.type)).write (be16 rr.dnsclass)).write
      (be32 (encodeTtl rr.ttl ttlOffs))).write (be16 rr.rdlen))

/-- `dns_rr_encode`. -/
def dnsRrEncode (fuel : Nat) (m : Msg) (rr : Dnsrr) (ttlOffs : Int) (start : Nat) :
    Option (Option Errno × Msg) :=
  let (err, m) := rrHeaderEncode m rr ttlOffs start
  let startRdata := m.mb.pos
  (rdataEncode fuel m rr.rdata start).map fun (err', m) =>
    let len := m.mb.pos - startRdata
    if len > 0xffff then (some .EOVERFLOW, m)
    else
      let mb := mbufWriteU16 (mbufSetPos m.mb (startRdata - 2)) (UInt16.ofNat len)
      (err <|> err', { m with mb := mbufAdvance mb len })

/-! ## Decoding -/

/-- `mbuf_strdup`. -/
def mbufStrdup (len : Nat) (mb : Mbuf) : Except Errno (Bytes × Mbuf) :=
  mbufReadMem mb len >>= fun r => .ok (cString r.1, r.2)

/-- The length in front of a string, which has to be there. -/
def cstrLen : Except Errno (UInt8 × Mbuf) :=
  if mbufGetLeft mb < 1 then .error .EINVAL else .ok (mbufReadU8 mb)

/-- The string of that length. -/
def cstrBody (len : UInt8) (mb : Mbuf) : Except Errno (Bytes × Mbuf) :=
  if mbufGetLeft mb < len.toNat then .error .EBADMSG else mbufStrdup len.toNat mb

/-- `dns_cstr_decode`. -/
def dnsCstrDecode : Except Errno (Bytes × Mbuf) :=
  cstrLen mb >>= fun r => cstrBody r.1 r.2

/-- The loop over the pieces of a TXT string of `rdlen` bytes. Every round takes
at least one of them, so that many rounds are enough. -/
def txtDecodeLoop : Nat → Nat → Bytes → Mbuf → Except Errno (Bytes × Mbuf)
  | 0, _, data, mb => .ok (data, mb)
  | fuel + 1, rdlen, data, mb =>
    if rdlen > 0 then
      let (len, mb) := mbufReadU8 mb
      let rdlen := rdlen - 1
      if len.toNat > rdlen then .error .EINVAL
      else
        match mbufReadMem mb len.toNat with
        | .error err => .error err
        | .ok (str, mb) => txtDecodeLoop fuel (rdlen - len.toNat) (data ++ str) mb
    else .ok (data, mb)

/-- Case `DNS_TYPE_A`. -/
def decodeA : Except Errno (Rdata × Mbuf) :=
  if rdlen ≠ 4 then .error .EINVAL
  else
    let (addr, mb) := mbufReadU32 mb
    .ok (.a addr, mb)

/-- Cases `DNS_TYPE_NS`, `DNS_TYPE_CNAME` and `DNS_TYPE_PTR`. -/
def decodeName (f : Bytes → Rdata) (mb : Mbuf) : Except Errno (Rdata × Mbuf) :=
  dnsDnameDecode start mb >>= fun r => .ok (f r.1, r.2)

/-- The five counters of a SOA record. -/
def decodeSoaFields (mname rname : Bytes) (mb : Mbuf) : Except Errno (Rdata × Mbuf) :=
  if mbufGetLeft mb < 20 then .error .EINVAL
  else
    let (serial, mb) := mbufReadU32 mb
    let (refresh, mb) := mbufReadU32 mb
    let (retry, mb) := mbufReadU32 mb
    let (expire, mb) := mbufReadU32 mb
    let (ttlmin, mb) := mbufReadU32 mb
    .ok (.soa mname rname serial refresh retry expire ttlmin, mb)

/-- Case `DNS_TYPE_SOA`. -/
def decodeSoa : Except Errno (Rdata × Mbuf) :=
  dnsDnameDecode start mb >>= fun r =>
    dnsDnameDecode start r.2 >>= fun r' => decodeSoaFields r.1 r'.1 r'.2

/-- The preference of an MX record. -/
def decodeMxPref : Except Errno (UInt16 × Mbuf) :=
  if mbufGetLeft mb < 2 then .error .EINVAL else .ok (mbufReadU16 mb)

/-- Case `DNS_TYPE_MX`. -/
def decodeMx : Except Errno (Rdata × Mbuf) :=
  decodeMxPref mb >>= fun r => decodeName start (.mx r.1) r.2

/-- Case `DNS_TYPE_TXT`. -/
def decodeTxt : Except Errno (Rdata × Mbuf) :=
  txtDecodeLoop rdlen.toNat rdlen.toNat [] mb >>= fun r => .ok (.txt (cString r.1), r.2)

/-- Case `DNS_TYPE_AAAA`. -/
def decodeAaaa : Except Errno (Rdata × Mbuf) :=
  if rdlen ≠ 16 then .error .EINVAL
  else
    match mbufReadMem mb 16 with
    | .error err => .error err
    | .ok (addr, mb) => if h : addr.length = 16 then .ok (.aaaa addr h, mb) else .error .EINVAL

/-- The three numbers of a SRV record. -/
def decodeSrvFields : Except Errno ((UInt16 × UInt16 × UInt16) × Mbuf) :=
  if mbufGetLeft mb < 6 then .error .EINVAL
  else
    let (pri, mb) := mbufReadU16 mb
    let (weight, mb) := mbufReadU16 mb
    let (port, mb) := mbufReadU16 mb
    .ok ((pri, weight, port), mb)

/-- Case `DNS_TYPE_SRV`. -/
def decodeSrv : Except Errno (Rdata × Mbuf) :=
  decodeSrvFields mb >>= fun r => decodeName start (.srv r.1.1 r.1.2.1 r.1.2.2) r.2

/-- The two numbers of a NAPTR record. -/
def decodeNaptrFields : Except Errno ((UInt16 × UInt16) × Mbuf) :=
  if mbufGetLeft mb < 4 then .error .EINVAL
  else
    let (order, mb) := mbufReadU16 mb
    let (pref, mb) := mbufReadU16 mb
    .ok ((order, pref), mb)

/-- Case `DNS_TYPE_NAPTR`. -/
def decodeNaptr : Except Errno (Rdata × Mbuf) :=
  decodeNaptrFields mb >>= fun r =>
    dnsCstrDecode r.2 >>= fun flags =>
      dnsCstrDecode flags.2 >>= fun services =>
        dnsCstrDecode services.2 >>= fun regexp =>
          decodeName start (.naptr r.1.1 r.1.2 flags.1 services.1 regexp.1) regexp.2

/-- The `switch` of `dns_rr_decode`, on the type of a code. -/
def rdataSwitch (type rdlen : UInt16) :
    (t : Option RrType) → RrType.ofCode type = t → Mbuf → Except Errno (Rdata × Mbuf)
  | some .A, _ => decodeA rdlen
  | some .NS, _ => decodeName start .ns
  | some .CNAME, _ => decodeName start .cname
  | some .SOA, _ => decodeSoa start
  | some .PTR, _ => decodeName start .ptr
  | some .MX, _ => decodeMx start
  | some .TXT, _ => decodeTxt rdlen
  | some .AAAA, _ => decodeAaaa rdlen
  | some .SRV, _ => decodeSrv start
  | some .NAPTR, _ => decodeNaptr start
  | none, h => fun mb => .ok (.other type h, mbufAdvance mb rdlen.toNat)

/-- The part of `dns_rr_decode` behind the header: the check that `rdlen` bytes
are there, and the `switch`. -/
def rdataDecode (type rdlen : UInt16) (mb : Mbuf) : Except Errno (Rdata × Mbuf) :=
  if mbufGetLeft mb < rdlen.toNat then .error .EINVAL
  else rdataSwitch start type rdlen (RrType.ofCode type) rfl mb

/-- The fixed header of a record. -/
structure RrHeader where
  type : UInt16
  dnsclass : UInt16
  ttl : UInt32
  rdlen : UInt16
  deriving DecidableEq, Repr

/-- The ten bytes behind the owner name. -/
def rrHeaderDecode : Except Errno (RrHeader × Mbuf) :=
  if mbufGetLeft mb < 10 then .error .EINVAL
  else
    let (type, mb) := mbufReadU16 mb
    let (dnsclass, mb) := mbufReadU16 mb
    let (ttl, mb) := mbufReadU32 mb
    let (rdlen, mb) := mbufReadU16 mb
    .ok (⟨type, dnsclass, ttl, rdlen⟩, mb)

/-- `dns_rr_decode`. -/
def dnsRrDecode : Except Errno (Dnsrr × Mbuf) :=
  dnsDnameDecode start mb >>= fun name =>
    rrHeaderDecode name.2 >>= fun hdr =>
      rdataDecode start hdr.1.type hdr.1.rdlen hdr.2 >>= fun rdata =>
        .ok (⟨name.1, hdr.1.dnsclass, hdr.1.ttl.toNat, hdr.1.rdlen, rdata.1⟩, rdata.2)

end LibRe.Dns
