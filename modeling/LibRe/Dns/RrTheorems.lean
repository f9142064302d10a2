/-
LibRe.Dns.RrTheorems — what the record encoder writes.

Records written one after another into one message are read back by the
decoder, with the TTL reduced and with the length of their data in `rdlen`
(`encoded_records_decode`). Names come back up to letter case and the dot at
the end: a pointer leads to the spelling that was written first.

The `rdlen` of a record is filled in behind its data. Seen from the end, the
message is the one in which it stood there from the beginning, and the step
that wrote the data is a step of that message too (`Writes.replace`).
-/
import LibRe.Dns.Message
import LibRe.Dns.RrLayout

namespace LibRe.Dns

open Bytes Layout List Option

variable {s : Bytes} {ttlOffs : Int}

/-! ## Records that can be written, and what is read back -/

/-- A string that is a domain name. -/
def ValidName (s : Bytes) : Prop := ∃ n : DomainName, n.text = s

/-- A character string: at most 255 bytes. -/
def ValidString (s : Bytes) : Prop := s.length ≤ 255 ∧ (0 : UInt8) ∉ s

/-- Data of a supported type, with valid names and strings. -/
def ValidRdata : Rdata → Prop
  | .a _ => True
  | .ns nsdname => ValidName nsdname
  | .cname cname => ValidName cname
  | .soa mname rname .. => ValidName mname ∧ ValidName rname
  | .ptr ptrdname => ValidName ptrdname
  | .mx _ exchange => ValidName exchange
  | .txt data => ValidString data
  | .aaaa .. => True
  | .srv _ _ _ target => ValidName target
  | .naptr _ _ flags services regexp replace =>
    ValidString flags ∧ ValidString services ∧ ValidString regexp ∧ ValidName replace
  | .other .. => False

/-- The name that is read back for a name: the same up to letter case and a dot at the end. -/
def SameName (s t : Bytes) : Prop := lower t = stripDot (lower s)

/-- Data that is the same up to its names. -/
inductive SameRdata : Rdata → Rdata → Prop where
  | a (addr : UInt32) : SameRdata (.a addr) (.a addr)
  | ns {s t : Bytes} (h : SameName s t) : SameRdata (.ns s) (.ns t)
  | cname {s t : Bytes} (h : SameName s t) : SameRdata (.cname s) (.cname t)
  | soa {s t s' t' : Bytes} (h : SameName s t) (h' : SameName s' t')
      (serial refresh retry expire ttlmin : UInt32) :
      SameRdata (.soa s s' serial refresh retry expire ttlmin)
        (.soa t t' serial refresh retry expire ttlmin)
  | ptr {s t : Bytes} (h : SameName s t) : SameRdata (.ptr s) (.ptr t)
  | mx (pref : UInt16) {s t : Bytes} (h : SameName s t) : SameRdata (.mx pref s) (.mx pref t)
  | txt (data : Bytes) : SameRdata (.txt data) (.txt data)
  | aaaa (addr : Bytes) (hlen : addr.length = 16) :
      SameRdata (.aaaa addr hlen) (.aaaa addr hlen)
  | srv (pri weight port : UInt16) {s t : Bytes} (h : SameName s t) :
      SameRdata (.srv pri weight port s) (.srv pri weight port t)
  | naptr (order pref : UInt16) (flags services regexp : Bytes) {s t : Bytes} (h : SameName s t) :
      SameRdata (.naptr order pref flags services regexp s)
        (.naptr order pref flags services regexp t)

/-- A record that can be encoded with a TTL offset: valid names and strings, and
an offset that does not exceed the TTL and leaves one that fits its field. -/
structure ValidRr (ttlOffs : Int) (rr : Dnsrr) : Prop where
  name : ValidName rr.name
  rdata : ValidRdata rr.rdata
  offs_le : ttlOffs ≤ rr.ttl
  fits : rr.ttl - ttlOffs < 2 ^ 32

/-- The record that is read back for a record. -/
structure SameRr (ttlOffs : Int) (rr rr' : Dnsrr) : Prop where
  name : SameName rr.name rr'.name
  dnsclass : rr'.dnsclass = rr.dnsclass
  ttl : rr'.ttl = rr.ttl - ttlOffs
  rdata : SameRdata rr.rdata rr'.rdata

variable {start : Nat} {m m' m'' : Msg} {S T : Bytes → Prop}

/-- A name is written and read back. -/
theorem writes_name (comp : Bool) (hv : ValidName s) (hp : m.mb.pos ≤ m.mb.end_)
    (hs : start ≤ m.mb.pos) :
    ∃ m', dnsDnameEncode m s start comp = (none, m') ∧ m'.mb.pos ≤ m.mb.pos + 256 ∧
      Writes start m m' (fun W =>
        ∃ t, nameLayout start W m.mb.pos m'.mb.pos t ∧ SameName s t) := by
  obtain ⟨n, rfl⟩ := hv
  obtain ⟨m', hrun, hlen, hwrites⟩ := dnsDnameEncode_writes comp n hp hs
  refine ⟨m', hrun, hlen, hwrites.mono fun W h => ?_⟩
  obtain ⟨t, hlayout, hlow⟩ := h
  refine ⟨t, hlayout, ?_⟩
  rw [SameName, DomainName.text, stripDot_lower_nameText n.valid, hlow]
  rfl

/-- A string is written and read back. -/
theorem writes_cstr (start : Nat) (hv : ValidString s) (hp : m.mb.pos ≤ m.mb.end_) :
    (dnsCstrEncode m.mb s).pos = m.mb.pos + 1 + s.length ∧
      Writes start m { m with mb := dnsCstrEncode m.mb s } (fun W =>
        cstrLayout W m.mb.pos (m.mb.pos + 1 + s.length) s) := by
  have hlen : (UInt8.ofNat s.length).toNat = s.length := by
    have := hv.1
    rw [UInt8.toNat_ofNat']
    omega
  have htake : s.take (UInt8.ofNat s.length).toNat = s := by
    simp [hlen]
  obtain ⟨hpos, hwrites⟩ := writes_blocks start hp [[UInt8.ofNat s.length], s]
  have heq : [[UInt8.ofNat s.length], s].foldl Msg.write m =
      { m with mb := dnsCstrEncode m.mb s } := by
    rw [dnsCstrEncode, htake]
    rfl
  rw [heq] at hpos hwrites
  refine ⟨?_, hwrites.mono fun W h => ?_⟩
  · grind
  simp only [flatten_cons, flatten_nil, append_nil] at h
  obtain ⟨hhead, hbody⟩ := append_prefix_drop.mp h
  refine ⟨UInt8.ofNat s.length, m.mb.pos + 1, ⟨_, ⟨rfl, rfl, hhead⟩, rfl⟩, s, ?_,
    cString_of_no_nul hv.2⟩
  exact ⟨hlen.symm, by rw [hlen], hbody⟩

/-! ## The data of a record -/

/-- The type of data, when it is a supported one. -/
def Rdata.rrType : Rdata → Option RrType
  | .a .. => some .A
  | .ns .. => some .NS
  | .cname .. => some .CNAME
  | .soa .. => some .SOA
  | .ptr .. => some .PTR
  | .mx .. => some .MX
  | .txt .. => some .TXT
  | .aaaa .. => some .AAAA
  | .srv .. => some .SRV
  | .naptr .. => some .NAPTR
  | .other .. => none

theorem ofCode_type (rdata : Rdata) : RrType.ofCode rdata.type = rdata.rrType := by
  cases rdata with
  | other type unknown => exact unknown
  | _ => rfl

/-- The data from `p` to `q` is read as this data, up to its names. -/
def RdataIs (start p q : Nat) (rdata : Rdata) (W : Bytes) : Prop :=
  ∃ rdata', switchLayout start rdata.type (UInt16.ofNat (q - p)) rdata.rrType (ofCode_type rdata)
    W p q rdata' ∧ SameRdata rdata rdata'

/-- The data was written, and is read back as this data. -/
def RdataWritten (start : Nat) (m : Msg) (rdata : Rdata) (run : Option (Option Errno × Msg)) :
    Prop :=
  ∃ m', run = some (none, m') ∧ m'.mb.pos ≤ m.mb.pos + 2000 ∧
    Writes start m m' (RdataIs start m.mb.pos m'.mb.pos rdata)

/-- The cut of a length to a byte comes before the limit of 255. -/
theorem min_ff : ∀ x : UInt8, min x 0xff = x := by decide +kernel

variable {rr : Dnsrr} {data : Bytes}

/-- A TXT string of more than 255 bytes is cut to a multiple of 256, and that never gets shorter. -/
theorem txtEncodeLoop_long (fuel : Nat) (mb : Mbuf) (h : 255 < data.length) :
    txtEncodeLoop fuel mb data = none := by
  induction fuel generalizing mb data with
  | zero => rfl
  | succ fuel ih =>
    have hlong : 255 < (data.drop (min (UInt8.ofNat data.length) 0xff).toNat).length := by
      rw [min_ff, length_drop, UInt8.toNat_ofNat']
      omega
    rw [txtEncodeLoop]
    simp only [if_pos (Nat.zero_lt_of_lt hlong)]
    exact ih _ hlong

/-- Words that were written are read back. -/
theorem soaFields_be (t t' : Bytes) (serial refresh retry expire ttlmin : UInt32) :
    soaFields t t' [be32 serial, be32 refresh, be32 retry, be32 expire, be32 ttlmin].flatten =
      .soa t t' serial refresh retry expire ttlmin := by
  show Rdata.soa t t' (ofBe32 (be32 serial ++ _)) (ofBe32 (be32 refresh ++ _))
    (ofBe32 (be32 retry ++ _)) (ofBe32 (be32 expire ++ _)) (ofBe32 (be32 ttlmin ++ [])) = _
  simp only [ofBe32_be32_append]

theorem headerFields_be (type dnsclass rdlen : UInt16) (ttl : UInt32) :
    headerFields [be16 type, be16 dnsclass, be32 ttl, be16 rdlen].flatten =
      ⟨type, dnsclass, ttl, rdlen⟩ := by
  show RrHeader.mk (ofBe16 (be16 type ++ _)) (ofBe16 (be16 dnsclass ++ _)) (ofBe32 (be32 ttl ++ _))
    (ofBe16 (be16 rdlen ++ [])) = _
  simp only [ofBe16_be16_append, ofBe32_be32_append]

theorem srvFields_be (pri weight port : UInt16) :
    srvFields [be16 pri, be16 weight, be16 port].flatten = (pri, weight, port) := by
  show (ofBe16 (be16 pri ++ _), ofBe16 (be16 weight ++ _), ofBe16 (be16 port ++ [])) = _
  simp only [ofBe16_be16_append]

theorem naptrFields_be (order pref : UInt16) :
    naptrFields [be16 order, be16 pref].flatten = (order, pref) := by
  show (ofBe16 (be16 order ++ _), ofBe16 (be16 pref ++ [])) = _
  simp only [ofBe16_be16_append]

section Types

variable (hp : m.mb.pos ≤ m.mb.end_) (hs : start ≤ m.mb.pos) (fuel : Nat)

include hp

theorem writes_a (addr : UInt32) : RdataWritten start m (.a addr)
    (some (none, m.write (be32 addr))) := by
  obtain ⟨-, hwrites⟩ := writes_blocks start hp [be32 addr]
  have hpos : (m.write (be32 addr)).mb.pos = m.mb.pos + 4 := rfl
  refine ⟨_, rfl, by omega, hwrites.mono fun W h => ⟨.a addr, ⟨?_, be32 addr, ?_, ?_⟩, .a addr⟩⟩
  · simp [hpos]
  · exact ⟨rfl, hpos, by simpa using h⟩
  · exact congrArg Rdata.a (by simpa using ofBe32_be32_append addr [])

theorem writes_aaaa {addr : Bytes} (hlen : addr.length = 16) :
    RdataWritten start m (.aaaa addr hlen) (some (none, m.write addr)) := by
  obtain ⟨-, hwrites⟩ := writes_blocks start hp [addr]
  have hpos : (m.write addr).mb.pos = m.mb.pos + 16 := congrArg (m.mb.pos + ·) hlen
  refine ⟨_, rfl, by omega, hwrites.mono fun W h => ⟨.aaaa addr hlen, ⟨?_, addr, hlen, ?_, rfl⟩,
    .aaaa addr hlen⟩⟩
  · simp [hpos]
  · exact ⟨hlen, hpos, by simpa using h⟩

/-- A TXT string of at most 255 bytes is one piece. -/
theorem writes_txt (hv : ValidString data) :
    RdataWritten start m (.txt data) (rdataEncode (fuel + 1) m (.txt data) start) := by
  have hle := hv.1
  have hlen : (UInt8.ofNat data.length).toNat = data.length := by
    simp
    omega
  have hrun : txtEncodeLoop (fuel + 1) m.mb data =
      some (mbufWriteMem (mbufWriteU8 m.mb (UInt8.ofNat data.length)) data) := by
    simp [txtEncodeLoop, min_ff, hlen]
  have hpos : (mbufWriteMem (mbufWriteU8 m.mb (UInt8.ofNat data.length)) data).pos =
      m.mb.pos + (1 + data.length) := (add_assoc _ _ _)
  obtain ⟨-, hwrites⟩ := writes_blocks start hp [[UInt8.ofNat data.length], data]
  refine ⟨{ m with mb := _ }, by rw [rdataEncode, hrun]; rfl, le_of_eq_of_le hpos (by omega),
    hwrites.mono fun W h => ?_⟩
  simp only [flatten_cons, flatten_nil, append_nil] at h
  have hrdlen : (UInt16.ofNat (m.mb.pos + (1 + data.length) - m.mb.pos)).toNat =
      1 + data.length := by
    simp
    omega
  show RdataIs start m.mb.pos (mbufWriteMem (mbufWriteU8 m.mb _) data).pos _ W
  rw [hpos]
  refine ⟨.txt data, ⟨_, data, ⟨?_, by rw [hrdlen], h⟩, ?_, ?_⟩, .txt data⟩
  · simp
    omega
  · have hone := Pieces.cons hlen.symm .nil
    rwa [append_nil] at hone
  · rw [cString_of_no_nul hv.2]

include hs

/-- Data that is a name behind some numbers. -/
theorem writes_numbers_name (hv : ValidName s) (comp : Bool) (nums : List Bytes)
    (hnums : nums.flatten.length ≤ 6)
    (f : Bytes → Rdata) (hsame : ∀ {t}, SameName s t → SameRdata (f s) (f t))
    (hlayout : ∀ {W : Bytes} {p q t}, nums.flatten <+: W.drop p →
      nameLayout start W (p + nums.flatten.length) q t →
      switchLayout start (f s).type (UInt16.ofNat (q - p)) (f s).rrType (ofCode_type (f s)) W
        p q (f t)) :
    RdataWritten start m (f s) (some (dnsDnameEncode (nums.foldl Msg.write m) s start comp)) := by
  obtain ⟨hpos1, h1⟩ := writes_blocks start hp nums
  obtain ⟨m2, hrun2, hlen2, h2⟩ := writes_name comp hv h1.pos_le (le_trans hs (h1.pos_mono hp))
  refine ⟨m2, congrArg some hrun2, by omega, (h1.trans hp h2).mono fun W h => ?_⟩
  obtain ⟨hnum, t, ht, hst⟩ := h
  exact ⟨f t, hlayout hnum (hpos1 ▸ ht), hsame hst⟩

theorem writes_soa {s' : Bytes} (hv : ValidName s) (hv' : ValidName s')
    (serial refresh retry expire ttlmin : UInt32) :
    RdataWritten start m (.soa s s' serial refresh retry expire ttlmin)
      (rdataEncode fuel m (.soa s s' serial refresh retry expire ttlmin) start) := by
  obtain ⟨m1, hrun1, hlen1, h1⟩ := writes_name true hv hp hs
  have hs1 := le_trans hs (h1.pos_mono hp)
  obtain ⟨m2, hrun2, hlen2, h2⟩ := writes_name true hv' h1.pos_le hs1
  obtain ⟨hpos3, h3⟩ := writes_blocks start h2.pos_le
    [be32 serial, be32 refresh, be32 retry, be32 expire, be32 ttlmin]
  refine ⟨_, ?_, ?_, ((h1.trans hp h2).trans hp h3).mono fun W h => ?_⟩
  · simp [rdataEncode, orErr, hrun1, hrun2]
  · grind [length_be32]
  · obtain ⟨⟨⟨t, ht, hst⟩, ⟨t', ht', hst'⟩⟩, hnum⟩ := h
    refine ⟨.soa t t' serial refresh retry expire ttlmin, ?_,
      .soa hst hst' serial refresh retry expire ttlmin⟩
    exact ⟨t, _, ht, t', _, ht', _, ⟨rfl, hpos3, hnum⟩, soaFields_be t t' _ _ _ _ _⟩

theorem writes_naptr (order pref : UInt16) {flags services regexp : Bytes} (hf : ValidString flags)
    (hse : ValidString services) (hr : ValidString regexp) (hv : ValidName s) :
    RdataWritten start m (.naptr order pref flags services regexp s)
      (rdataEncode fuel m (.naptr order pref flags services regexp s) start) := by
  obtain ⟨hpos1, h1⟩ := writes_blocks start hp [be16 order, be16 pref]
  obtain ⟨hpos2, h2⟩ := writes_cstr start hf h1.pos_le
  obtain ⟨hpos3, h3⟩ := writes_cstr start hse h2.pos_le
  obtain ⟨hpos4, h4⟩ := writes_cstr start hr h3.pos_le
  have h14 := ((h1.trans hp h2).trans hp h3).trans hp h4
  obtain ⟨m5, hrun5, hlen5, h5⟩ :=
    writes_name false hv h4.pos_le (le_trans hs (h14.pos_mono hp))
  refine ⟨m5, congrArg some hrun5, ?_, (h14.trans hp h5).mono fun W h => ?_⟩
  · have l1 := hf.1
    have l2 := hse.1
    have l3 := hr.1
    simp only [flatten_cons, flatten_nil, length_append, length_be16, length_nil] at hpos1
    simp only at hpos2 hpos3 hpos4 hlen5
    omega
  · obtain ⟨⟨⟨⟨hnum, c1⟩, c2⟩, c3⟩, t, ht, hst⟩ := h
    rw [← hpos2] at c1
    rw [← hpos3] at c2
    rw [← hpos4] at c3
    exact ⟨.naptr order pref flags services regexp t,
      ⟨(order, pref), _, ⟨_, ⟨rfl, hpos1, hnum⟩, naptrFields_be order pref⟩,
        flags, _, c1, services, _, c2, regexp, _, c3, t, ht, rfl⟩,
      .naptr order pref flags services regexp hst⟩

/-- The data of a record is written and read back. -/
theorem rdataEncode_writes {rdata : Rdata} (hv : ValidRdata rdata) :
    RdataWritten start m rdata (rdataEncode (fuel + 1) m rdata start) := by
  cases rdata with
  | a addr => exact writes_a hp addr
  | ns s => exact writes_numbers_name hp hs hv true [] (by simp) .ns .ns fun _ ht => ⟨_, ht, rfl⟩
  | cname s =>
    exact writes_numbers_name hp hs hv true [] (by simp) .cname .cname fun _ ht => ⟨_, ht, rfl⟩
  | soa => exact writes_soa hp hs _ hv.1 hv.2 ..
  | ptr s => exact writes_numbers_name hp hs hv true [] (by simp) .ptr .ptr fun _ ht => ⟨_, ht, rfl⟩
  | mx pref s =>
    exact writes_numbers_name hp hs hv true [be16 pref] (by simp [be16]) (.mx pref) (.mx pref)
      fun hnum ht =>
      ⟨pref, _, ⟨_, ⟨rfl, rfl, hnum⟩, ofBe16_be16_append pref []⟩, _, ht, rfl⟩
  | txt data => exact writes_txt hp fuel hv
  | aaaa addr hlen => exact writes_aaaa hp hlen
  | srv pri weight port s =>
    exact writes_numbers_name hp hs hv false [be16 pri, be16 weight, be16 port] (by simp [be16])
      (.srv pri weight port) (.srv pri weight port) fun hnum ht =>
      ⟨(pri, weight, port), _, ⟨_, ⟨rfl, rfl, hnum⟩, srvFields_be pri weight port⟩, _, ht, rfl⟩
  | naptr => exact writes_naptr hp hs _ _ _ hv.1 hv.2.1 hv.2.2.1 hv.2.2.2
  | other => exact hv.elim

end Types

/-! ## A record -/

/-- A field `b` in front of what a step wrote is filled in afterwards: it is as if
it had been there from the beginning. -/
theorem Writes.patch {m1 m2 m3 : Msg} {a b : Bytes} (c : Bytes) (hp1 : m1.mb.pos ≤ m1.mb.end_)
    (hp2 : m2.mb.pos ≤ m2.mb.end_) (hw2 : m2.mb.written = m1.mb.written ++ (a ++ b))
    (ht2 : m2.htDname = m1.htDname) (hc : c.length = b.length) (h3 : Writes start m2 m3 S) :
    let mb := mbufAdvance (mbufWriteMem (mbufSetPos m3.mb (m2.mb.pos - b.length)) c)
      (m3.mb.pos - m2.mb.pos)
    mb.pos = m3.mb.pos ∧
      Writes start m1 { m3 with mb } (fun W => a ++ c <+: W.drop m1.mb.pos ∧ S W) := by
  obtain ⟨hp3, w, hw3, hall⟩ := h3
  have hlen1 := length_written hp1
  have hlen2 := length_written hp2
  have hlen3 := length_written hp3
  rw [hw2, length_append, length_append] at hlen2
  have hplace : (m1.mb.written ++ a).length = m2.mb.pos - b.length := by
    simp
    omega
  have hwlen : w.length = m3.mb.pos - m2.mb.pos := by
    grind
  have hsplit : m3.mb.written = (m1.mb.written ++ a) ++ (b ++ w) := by
    simp [hw3, hw2]
  obtain ⟨hpos, hle, hwritten⟩ := rewrite_written hp3 hsplit hc
  rw [hplace, hwlen] at hpos hle hwritten
  refine ⟨hpos, hle, a ++ c ++ w, ?_, fun W hpre hright => ?_⟩
  · simp [hwritten]
  obtain ⟨hhdr, hrest⟩ := append_prefix_drop.mp hpre
  have hstart : m1.mb.pos + (a ++ c).length = m2.mb.pos := by
    simp
    omega
  obtain ⟨hright', hS⟩ := hall W (hstart ▸ hrest) (ht2.symm ▸ hright)
  exact ⟨hright', hhdr, hS⟩

theorem encodeTtl_toNat {ttl : Int} (hle : ttlOffs ≤ ttl) (hfits : ttl - ttlOffs < 2 ^ 32) :
    ((encodeTtl ttl ttlOffs).toNat : Int) = ttl - ttlOffs := by
  have hval : (if ttl > ttlOffs then ttl - ttlOffs else 0) = ttl - ttlOffs := by
    omega
  rw [encodeTtl, hval, UInt32.ofInt, UInt32.toNat_ofNat']
  omega

/-- The part of the message from `p` to `q`, with the data from `r` on, is read
back as this record. -/
def RrIs (start p r q : Nat) (ttlOffs : Int) (rr : Dnsrr) (W : Bytes) : Prop :=
  ∃ rr', rrLayout start W p q rr' ∧ SameRr ttlOffs rr rr' ∧ rr'.rdlen.toNat = q - r

/-- The fixed header of a record, in the blocks it is written in. -/
def headerBlocks (rr : Dnsrr) (ttlOffs : Int) (rdlen : UInt16) : List Bytes :=
  [be16 rr.rdata.type, be16 rr.dnsclass, be32 (encodeTtl rr.ttl ttlOffs), be16 rdlen]

/-- The type of the data selects its layout. -/
theorem switchLayout_type (start : Nat) (rdata : Rdata) (rdlen : UInt16) :
    switchLayout start rdata.type rdlen (RrType.ofCode rdata.type) rfl =
      switchLayout start rdata.type rdlen rdata.rrType (ofCode_type rdata) := by
  have hgen : ∀ t (h : RrType.ofCode rdata.type = t),
      switchLayout start rdata.type rdlen (RrType.ofCode rdata.type) rfl =
        switchLayout start rdata.type rdlen t h := by
    grind
  exact hgen _ _

/-- Name, header and data make a record. -/
theorem rrIs_of_parts {W : Bytes} {p p1 r q : Nat}
    {rdlen : UInt16} (hv : ValidRr ttlOffs rr) (hrdlen : rdlen.toNat = q - r)
    (hr : r = p1 + 10) (hname : ∃ t, nameLayout start W p p1 t ∧ SameName rr.name t)
    (hhdr : (headerBlocks rr ttlOffs rdlen).flatten <+: W.drop p1)
    (hroom : q - r ≤ (W.drop r).length)
    (hrd : ∃ rdata', switchLayout start rr.rdata.type rdlen rr.rdata.rrType (ofCode_type rr.rdata)
      W r q rdata' ∧ SameRdata rr.rdata rdata') : RrIs start p r q ttlOffs rr W := by
  obtain ⟨t, ht, hst⟩ := hname
  obtain ⟨rdata', hlayout, hsame⟩ := hrd
  refine ⟨⟨t, rr.dnsclass, (encodeTtl rr.ttl ttlOffs).toNat, rdlen, rdata'⟩, ?_, ?_, hrdlen⟩
  · refine ⟨t, p1, ht, ⟨rr.rdata.type, rr.dnsclass, encodeTtl rr.ttl ttlOffs, rdlen⟩, r,
      ⟨_, ⟨rfl, hr, hhdr⟩, headerFields_be _ _ _ _⟩, rdata', ⟨hrdlen ▸ hroom, ?_⟩, rfl⟩
    rw [switchLayout_type]
    exact hlayout
  · exact ⟨hst, rfl, encodeTtl_toNat hv.offs_le hv.fits, hsame⟩

theorem headerBlocks_split (rr : Dnsrr) (ttlOffs : Int) (rdlen : UInt16) :
    (headerBlocks rr ttlOffs rdlen).flatten =
      [be16 rr.rdata.type, be16 rr.dnsclass, be32 (encodeTtl rr.ttl ttlOffs)].flatten ++
        be16 rdlen := by
  simp [headerBlocks]

/-- `dns_rr_encode` of a valid record succeeds and writes it. -/
theorem dnsRrEncode_writes (hv : ValidRr ttlOffs rr)
    (hp : m.mb.pos ≤ m.mb.end_) (hs : start ≤ m.mb.pos) (fuel : Nat) :
    ∃ m', dnsRrEncode (fuel + 1) m rr ttlOffs start = some (none, m') ∧
      Writes start m m' (RrIs start m.mb.pos (rrHeaderEncode m rr ttlOffs start).2.mb.pos m'.mb.pos
        ttlOffs rr) := by
  obtain ⟨m1, hrun1, -, h1⟩ := writes_name true hv.name hp hs
  obtain ⟨m2, hm2⟩ : ∃ m2, m2 = (headerBlocks rr ttlOffs rr.rdlen).foldl Msg.write m1 := ⟨_, rfl⟩
  have hhdr : rrHeaderEncode m rr ttlOffs start = (none, m2) := by
    rw [rrHeaderEncode, hrun1, hm2]
    rfl
  obtain ⟨hpos2, h2⟩ := writes_blocks start h1.pos_le (headerBlocks rr ttlOffs rr.rdlen)
  obtain ⟨hw2, -⟩ := foldl_mbufWriteMem h1.pos_le (headerBlocks rr ttlOffs rr.rdlen)
  have hfold := hm2.trans (foldl_write m1 _)
  have hmb : m2.mb = (headerBlocks rr ttlOffs rr.rdlen).foldl mbufWriteMem m1.mb := by rw [hfold]
  have ht2 : m2.htDname = m1.htDname := by rw [hfold]
  rw [← hm2] at hpos2 h2
  rw [← hmb, headerBlocks_split] at hw2
  have hten : m2.mb.pos = m1.mb.pos + 10 := by
    rw [hpos2, headerBlocks_split]
    rfl
  obtain ⟨m3, hrun3, hlen3, h3⟩ :=
    rdataEncode_writes h2.pos_le (le_trans hs ((h1.trans hp h2).pos_mono hp)) fuel hv.rdata
  obtain ⟨hpos4, h4⟩ := (h3.room h2.pos_le).patch (be16 (UInt16.ofNat (m3.mb.pos - m2.mb.pos)))
    h1.pos_le h2.pos_le hw2 ht2 rfl
  have hrun : dnsRrEncode (fuel + 1) m rr ttlOffs start = some (none, { m3 with
      mb := mbufAdvance (mbufWriteMem (mbufSetPos m3.mb (m2.mb.pos - 2))
        (be16 (UInt16.ofNat (m3.mb.pos - m2.mb.pos)))) (m3.mb.pos - m2.mb.pos) }) := by
    have hfits : ¬ m3.mb.pos - m2.mb.pos > 0xffff := by omega
    rw [dnsRrEncode, hhdr]
    simp only [hrun3, map_some, hfits, if_false]
    rfl
  refine ⟨_, hrun, ?_⟩
  rw [hhdr]
  refine (h1.trans hp h4).mono fun W h => ?_
  obtain ⟨hname, hblocks, hroom, hrd⟩ := h
  have hlen : (UInt16.ofNat (m3.mb.pos - m2.mb.pos)).toNat = m3.mb.pos - m2.mb.pos := by
    simp
    omega
  have hpos4' : (mbufAdvance (mbufWriteMem (mbufSetPos m3.mb (m2.mb.pos - 2))
      (be16 (UInt16.ofNat (m3.mb.pos - m2.mb.pos)))) (m3.mb.pos - m2.mb.pos)).pos = m3.mb.pos :=
    hpos4
  rw [hpos4']
  exact rrIs_of_parts hv hlen hten hname hblocks hroom hrd

/-- A TXT record is encoded in some number of rounds, and if that succeeds it is read
back with its string. -/
def TxtReadBack (m : Msg) (rr : Dnsrr) (ttlOffs : Int) (start : Nat) (data : Bytes) : Prop :=
  ∃ fuel err m', dnsRrEncode fuel m rr ttlOffs start = some (err, m') ∧
    (err = none → ∃ rr', dnsRrDecode start (mbufSetPos m'.mb m.mb.pos) = .ok (rr', m'.mb) ∧
      rr'.rdata = .txt data)

theorem dnsRrEncode_long (hrr : rr.rdata = .txt data) (hlong : 255 < data.length)
    (fuel : Nat) (m : Msg) (ttlOffs : Int) (start : Nat) :
    dnsRrEncode fuel m rr ttlOffs start = none := by
  simp [dnsRrEncode, hrr, rdataEncode, txtEncodeLoop_long fuel _ hlong]

/-- A TXT record is encoded and read back exactly if its string has at most 255 bytes. -/
theorem txt_read_back_iff {rr : Dnsrr} {data : Bytes} (hrr : rr.rdata = .txt data)
    (hname : ValidName rr.name)
    (hnul : (0 : UInt8) ∉ data) (hp : m.mb.pos ≤ m.mb.end_) (hs : start ≤ m.mb.pos)
    (ht : TableStands start m) :
    TxtReadBack m rr ttlOffs start data ↔ data.length ≤ 255 := by
  constructor
  · rintro ⟨fuel, err, m', hrun, -⟩
    by_contra hlong
    rw [dnsRrEncode_long hrr (Nat.lt_of_not_le hlong)] at hrun
    cases hrun
  · intro hle
    -- the TTL that is written is the one of a record with a TTL that fits
    have hfits := (encodeTtl rr.ttl ttlOffs).toNat_lt
    have hv : ValidRr ttlOffs { rr with ttl := (encodeTtl rr.ttl ttlOffs).toNat + ttlOffs } :=
      ⟨hname, hrr ▸ ⟨hle, hnul⟩, by simp only; omega, by simp only; omega⟩
    have httl : encodeTtl ((encodeTtl rr.ttl ttlOffs).toNat + ttlOffs) ttlOffs =
        encodeTtl rr.ttl ttlOffs := by
      have := encodeTtl_toNat hv.offs_le hv.fits
      exact UInt32.toNat_inj.mp (by simp only at this; omega)
    have hsame : dnsRrEncode 1 m rr ttlOffs start =
        dnsRrEncode 1 m { rr with ttl := (encodeTtl rr.ttl ttlOffs).toNat + ttlOffs }
          ttlOffs start := by
      have hhdr : rrHeaderEncode m { rr with ttl := (encodeTtl rr.ttl ttlOffs).toNat + ttlOffs }
          ttlOffs start = rrHeaderEncode m rr ttlOffs start := by
        simp only [rrHeaderEncode, httl]
      rw [dnsRrEncode, dnsRrEncode, hhdr]
    obtain ⟨m', hrun, hwrites⟩ := dnsRrEncode_writes hv hp hs 0
    obtain ⟨rr'', hlayout, hrr'', -⟩ := hwrites.shape_of_stands hp ht
    refine ⟨1, none, m', hsame.trans hrun, fun _ =>
      ⟨rr'', (dnsRrDecode_parses start _ _ rr'').mpr ⟨_, hlayout, rfl⟩, ?_⟩⟩
    have hdata : SameRdata rr.rdata rr''.rdata := hrr''.rdata
    rw [hrr] at hdata
    generalize rr''.rdata = rdata at hdata
    cases hdata
    rfl

/-- The record of the root with the string "hi". -/
theorem txt_read_back_hi : TxtReadBack ⟨Mbuf.ofBytes [] 0, none⟩ ⟨[], 1, 60, 0, .txt [104, 105]⟩ 0 0
    [104, 105] :=
  (txt_read_back_iff rfl ⟨⟨[], false, by simp, by simp [joinDots]⟩, rfl⟩ (by decide)
    (le_refl 0) (le_refl 0) fun _ hd => absurd hd not_mem_nil).mpr (by decide)

/-- A string of 256 bytes is never written to its end. -/
theorem txt_encode_loops :
    ¬ ∀ (m : Msg) (rr : Dnsrr) (ttlOffs : Int) (start : Nat) (data : Bytes), rr.rdata = .txt data →
      ValidName rr.name → (0 : UInt8) ∉ data → m.mb.pos ≤ m.mb.end_ → start ≤ m.mb.pos →
      TableStands start m →
      TxtReadBack m rr ttlOffs start data := by
  intro hall
  obtain ⟨fuel, err, m', hrun, -⟩ := hall ⟨Mbuf.ofBytes [] 0, none⟩
    ⟨[], 1, 60, 0, .txt (replicate 256 97)⟩ 0 0 _
    rfl ⟨⟨[], false, by simp, by simp [joinDots]⟩, rfl⟩
    (fun h => absurd (eq_of_mem_replicate h) (by decide)) (le_refl 0) (le_refl 0)
    fun _ hd => absurd hd not_mem_nil
  rw [dnsRrEncode_long rfl (by rw [length_replicate]; omega)] at hrun
  cases hrun

/-! ## Records one after another -/

/-- Records encoded one after another: the first error, the message, and for
each record where its data begins and ends. -/
def encodeRrs (fuel : Nat) (ttlOffs : Int) (start : Nat) : Msg → List Dnsrr →
    Option (Option Errno × Msg × List (Nat × Nat))
  | m, [] => some (none, m, [])
  | m, rr :: rrs =>
    match dnsRrEncode fuel m rr ttlOffs start with
    | none => none
    | some (some err, m') => some (some err, m', [])
    | some (none, m') =>
      (encodeRrs fuel ttlOffs start m' rrs).map fun (err, m'', spans) =>
        (err, m'', ((rrHeaderEncode m rr ttlOffs start).2.mb.pos, m'.mb.pos) :: spans)

/-- Records decoded one after another. -/
def decodeRrs (start : Nat) : Nat → Mbuf → Except Errno (List Dnsrr × Mbuf)
  | 0, mb => .ok ([], mb)
  | n + 1, mb =>
    dnsRrDecode start mb >>= fun rr =>
      decodeRrs start n rr.2 >>= fun rrs => .ok (rr.1 :: rrs.1, rrs.2)

/-- Records that stand one behind the other, with where their data begins and ends. -/
inductive RrsAre (start : Nat) (ttlOffs : Int) (W : Bytes) :
    Nat → List Dnsrr → List (Nat × Nat) → Nat → Prop where
  | nil {p : Nat} : RrsAre start ttlOffs W p [] [] p
  | cons {p r q e : Nat} {rr : Dnsrr} {rrs : List Dnsrr} {spans : List (Nat × Nat)}
      (h : RrIs start p r q ttlOffs rr W) (hrest : RrsAre start ttlOffs W q rrs spans e) :
      RrsAre start ttlOffs W p (rr :: rrs) ((r, q) :: spans) e

theorem encodeRrs_writes {rrs : List Dnsrr} (hv : ∀ rr ∈ rrs, ValidRr ttlOffs rr)
    (hp : m.mb.pos ≤ m.mb.end_) (hs : start ≤ m.mb.pos) (fuel : Nat) :
    ∃ m' spans, encodeRrs (fuel + 1) ttlOffs start m rrs = some (none, m', spans) ∧
      Writes start m m' (fun W => RrsAre start ttlOffs W m.mb.pos rrs spans m'.mb.pos) := by
  induction rrs generalizing m with
  | nil => exact ⟨m, [], rfl, (Writes.refl hp).mono fun _ _ => .nil⟩
  | cons rr rrs ih =>
    obtain ⟨m', hrun, hwrites⟩ := dnsRrEncode_writes (hv rr mem_cons_self) hp hs fuel
    obtain ⟨m'', spans, hruns, hrest⟩ := ih (fun r hr => hv r (mem_cons_of_mem _ hr))
      hwrites.pos_le (le_trans hs (hwrites.pos_mono hp))
    refine ⟨m'', _ :: spans, ?_, (hwrites.trans hp hrest).mono fun W h => .cons h.1 h.2⟩
    rw [encodeRrs, hrun]
    simp only [hruns, map_some]

/-- What stands in the message is decoded. -/
theorem decodeRrs_of_rrsAre {mb : Mbuf} {p e : Nat} {rrs : List Dnsrr}
    {spans : List (Nat × Nat)} (h : RrsAre start ttlOffs mb.bytes p rrs spans e) :
    ∃ rrs', decodeRrs start rrs.length (mbufSetPos mb p) = .ok (rrs', mbufSetPos mb e) ∧
      List.Forall₂ (SameRr ttlOffs) rrs rrs' ∧
      List.Forall₂ (fun rr' span => rr'.rdlen.toNat = span.2 - span.1) rrs' spans := by
  induction h with
  | nil => exact ⟨[], rfl, .nil, .nil⟩
  | @cons p r q e rr rrs spans hrr _ ih =>
    obtain ⟨rr', hlayout, hsame, hlen⟩ := hrr
    obtain ⟨rrs', hruns, hsames, hlens⟩ := ih
    have hrun := (dnsRrDecode_parses start (mbufSetPos mb p) (mbufSetPos mb q) rr').mpr
      ⟨q, hlayout, rfl⟩
    refine ⟨rr' :: rrs', ?_, .cons hsame hsames, .cons hlen hlens⟩
    rw [length_cons, decodeRrs, hrun]
    show (decodeRrs start rrs.length (mbufSetPos mb q) >>= _) = _
    rw [hruns]
    rfl

/-- Records that are encoded into one message with one table are decoded from it
in order: up to letter case and the dot at the end of their names they are the
same, with the TTL reduced by the offset and the size of their data in `rdlen`. -/
theorem encoded_records_decode {bsize : UInt32} {ht : Hash Dname} (hht : hashAlloc bsize = .ok ht)
    {mb : Mbuf} (hp : mb.pos ≤ mb.end_) {start : Nat} (hs : start ≤ mb.pos) {ttlOffs : Int}
    {rrs : List Dnsrr} (hv : ∀ rr ∈ rrs, ValidRr ttlOffs rr) (fuel : Nat) :
    ∃ m spans rrs', encodeRrs (fuel + 1) ttlOffs start ⟨mb, some ht⟩ rrs = some (none, m, spans) ∧
      decodeRrs start rrs.length (mbufSetPos m.mb mb.pos) = .ok (rrs', m.mb) ∧
      List.Forall₂ (SameRr ttlOffs) rrs rrs' ∧
      List.Forall₂ (fun rr' span => rr'.rdlen.toNat = span.2 - span.1) rrs' spans := by
  obtain ⟨m, spans, hrun, hwrites⟩ := encodeRrs_writes (m := ⟨mb, some ht⟩) hv hp hs fuel
  have hempty : ∀ dn ∈ entries (some ht), Right m.mb.bytes start dn := by
    intro dn hdn
    have hnil : entries (some ht) = [] := hashAlloc_elems hht
    rw [hnil] at hdn
    cases hdn
  obtain ⟨rrs', hdecode, hsame, hlen⟩ := decodeRrs_of_rrsAre (hwrites.shape hp hempty)
  exact ⟨m, spans, rrs', hrun, hdecode, hsame, hlen⟩

/-- Two addresses of one name, spelled in two ways. -/
def sampleRrs : List Dnsrr :=
  [⟨[65, 46, 98], 1, 60, 0, .a 1⟩, ⟨[97, 46, 98], 1, 90, 0, .a 2⟩]

theorem sampleRrs_valid : ∀ rr ∈ sampleRrs, ValidRr 10 rr := by
  have hname : ValidName [65, 46, 98] := ⟨sampleName, by decide⟩
  have hname' : ValidName [97, 46, 98] :=
    ⟨{ labels := [[97], [98]], fqdn := false, valid := by decide, length_le := by decide },
      by decide⟩
  intro rr hrr
  simp only [sampleRrs, mem_cons, not_mem_nil, or_false] at hrr
  rcases hrr with rfl | rfl
  · exact ⟨hname, trivial, by decide, by decide⟩
  · exact ⟨hname', trivial, by decide, by decide⟩

theorem encoded_records_decode_sample :
    hashAlloc 4 = .ok sampleTable ∧ (∀ rr ∈ sampleRrs, ValidRr 10 rr) ∧
      ∃ m spans rrs',
        encodeRrs 1 10 0 ⟨Mbuf.ofBytes [] 0, some sampleTable⟩ sampleRrs = some (none, m, spans) ∧
        decodeRrs 0 sampleRrs.length (mbufSetPos m.mb 0) = .ok (rrs', m.mb) ∧
        List.Forall₂ (SameRr 10) sampleRrs rrs' ∧
        List.Forall₂ (fun rr' span => rr'.rdlen.toNat = span.2 - span.1) rrs' spans := by
  have halloc : hashAlloc 4 = .ok sampleTable := rfl
  exact ⟨halloc, sampleRrs_valid,
    encoded_records_decode halloc (le_refl 0) (le_refl 0) sampleRrs_valid 0⟩

/-- All valid records of a message are read back as `Same` says. -/
def AllReadBack (Valid : Int → Dnsrr → Prop) (Same : Int → Dnsrr → Dnsrr → Prop) : Prop :=
  ∀ (bsize : UInt32) (ht : Hash Dname) (mb : Mbuf) (start : Nat) (ttlOffs : Int)
    (rrs : List Dnsrr) (fuel : Nat), hashAlloc bsize = .ok ht → mb.pos ≤ mb.end_ →
    start ≤ mb.pos → (∀ rr ∈ rrs, Valid ttlOffs rr) →
    ∃ m spans rrs', encodeRrs (fuel + 1) ttlOffs start ⟨mb, some ht⟩ rrs = some (none, m, spans) ∧
      decodeRrs start rrs.length (mbufSetPos m.mb mb.pos) = .ok (rrs', m.mb) ∧
      List.Forall₂ (Same ttlOffs) rrs rrs'

/-- The records of a message that starts with them, as they are read back. -/
def readBack (ttlOffs : Int) (rrs : List Dnsrr) : Option (List Dnsrr) :=
  (encodeRrs 1 ttlOffs 0 ⟨Mbuf.ofBytes [] 0, some sampleTable⟩ rrs).bind fun r =>
    (decodeRrs 0 rrs.length (mbufSetPos r.2.1.mb 0)).toOption.map Prod.fst

theorem AllReadBack.readBack {Valid : Int → Dnsrr → Prop} {Same : Int → Dnsrr → Dnsrr → Prop}
    (hall : AllReadBack Valid Same) (ttlOffs : Int) (rrs : List Dnsrr)
    (hv : ∀ rr ∈ rrs, Valid ttlOffs rr) :
    ∃ rrs', readBack ttlOffs rrs = some rrs' ∧ List.Forall₂ (Same ttlOffs) rrs rrs' := by
  obtain ⟨m, spans, rrs', hrun, hdecode, hsame⟩ :=
    hall 4 sampleTable (Mbuf.ofBytes [] 0) 0 ttlOffs rrs 0 rfl (le_refl 0) (le_refl 0) hv
  have hdecode' : decodeRrs 0 rrs.length (mbufSetPos m.mb 0) = .ok (rrs', m.mb) := hdecode
  exact ⟨rrs', by simp [Dns.readBack, hrun, hdecode', Except.toOption], hsame⟩

/-- The second record of the sample comes back with the spelling of the first, and a TTL
of 2^32 comes back as 0. -/
theorem records_change :
    ¬ AllReadBack ValidRr (fun _ rr rr' => rr'.name = rr.name) ∧
    ¬ AllReadBack (fun ttlOffs rr => ValidName rr.name ∧ ValidRdata rr.rdata ∧ ttlOffs ≤ rr.ttl)
      (fun ttlOffs rr rr' => rr'.ttl = rr.ttl - ttlOffs) := by
  constructor
  · intro hall
    obtain ⟨rrs', hback, hsame⟩ := hall.readBack 10 sampleRrs sampleRrs_valid
    have hnames : (readBack 10 sampleRrs).map (map Dnsrr.name)
        = some [[65, 46, 98], [65, 46, 98]] := by decide +kernel
    rw [hback] at hnames
    cases hsame with
    | cons h1 hrest =>
      cases hrest with
      | cons h2 hnil => simp_all
  · intro hall
    obtain ⟨rrs', hback, hsame⟩ := hall.readBack 0 [⟨[65, 46, 98], 1, 2 ^ 32, 0, .a 1⟩]
      (by simpa using ⟨⟨sampleName, by decide⟩, trivial⟩)
    have httl : (readBack 0 [⟨[65, 46, 98], 1, 2 ^ 32, 0, .a 1⟩]).map (map Dnsrr.ttl)
        = some [0] := by decide +kernel
    rw [hback] at httl
    cases hsame with
    | cons h1 hnil => simp_all

end LibRe.Dns
