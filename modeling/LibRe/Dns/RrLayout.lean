/-
LibRe.Dns.RrLayout — the wire format of a resource record, and the decoder against it.

The format follows the decoder type by type: names in the data are names of the
whole message, the fixed fields have their sizes, and of the declared `rdlen`
nothing is asked beyond that so many bytes are there, except by the types that
check it themselves (A, AAAA, TXT, and the types nothing is known about).
-/
import LibRe.Dns.NameLayout
import LibRe.Dns.Rr

namespace LibRe.Dns

open Bytes Layout List

/-! ## Strings -/

/-- A string with its length in front. -/
def cstrLayout : Layout UInt8 Bytes :=
  ((block 1).map (·.headD 0)).bind fun len => (block len.toNat).map cString

theorem cstrLayout_stable : cstrLayout.Stable :=
  ((block_stable 1).map _).bind fun len => (block_stable len.toNat).map _

theorem dnsCstrDecode_parses : Parses dnsCstrDecode cstrLayout := by
  refine Parses.bind ?_ fun len => ?_
  · refine Parses.fields fun mb h => ?_
    rw [mbufReadU8_ok h]
    cases hl : mb.left with
    | nil => rw [hl] at h; exact absurd h (by simp)
    | cons x xs => rfl
  · refine Parses.fields fun mb h => ?_
    rw [mbufStrdup, mbufReadMem_ok h]
    rfl

/-! ## Fields of a fixed size -/

variable {mb : Mbuf} {i n rdlen : Nat} {d : Bytes} {len : UInt8}

/-- A word further on, when enough bytes are left. -/
theorem readU16_advance (hn : n ≤ mb.left.length) (h : i + 2 ≤ n) :
    mbufReadU16 (mbufAdvance mb i) =
      (ofBe16 ((mb.left.take n).drop i), mbufAdvance mb (i + 2)) := by
  have htake : (mb.left.take n).take n = mb.left.take n := by simp
  rw [readU16_at (by omega), ofBe16_drop_congr htake h]

theorem readU32_advance (hn : n ≤ mb.left.length) (h : i + 4 ≤ n) :
    mbufReadU32 (mbufAdvance mb i) =
      (ofBe32 ((mb.left.take n).drop i), mbufAdvance mb (i + 4)) := by
  have htake : (mb.left.take n).take n = mb.left.take n := by simp
  rw [readU32_at (by omega), ofBe32_drop_congr htake h]

theorem readU16_first (hn : n ≤ mb.left.length) (h : 2 ≤ n) :
    mbufReadU16 mb = (ofBe16 ((mb.left.take n).drop 0), mbufAdvance mb 2) :=
  readU16_advance (i := 0) hn (by omega)

/-- The ten bytes of the header. -/
def headerFields (xs : Bytes) : RrHeader :=
  ⟨ofBe16 (xs.drop 0), ofBe16 (xs.drop 2), ofBe32 (xs.drop 4), ofBe16 (xs.drop 8)⟩

theorem rrHeaderDecode_parses : Parses rrHeaderDecode ((block 10).map headerFields) := by
  refine Parses.fields fun mb h => ?_
  simp [headerFields, readU16_first h, readU16_advance h, readU32_advance h]

/-- The preference in front of the name of an MX record. -/
def mxFields (xs : Bytes) : UInt16 := ofBe16 (xs.drop 0)

theorem decodeMxPref_parses : Parses decodeMxPref ((block 2).map mxFields) := by
  refine Parses.fields fun mb h => ?_
  simp [mxFields, readU16_first h]

/-- The numbers in front of the name of a SRV record. -/
def srvFields (xs : Bytes) : UInt16 × UInt16 × UInt16 :=
  (ofBe16 (xs.drop 0), ofBe16 (xs.drop 2), ofBe16 (xs.drop 4))

theorem decodeSrvFields_parses : Parses decodeSrvFields ((block 6).map srvFields) := by
  refine Parses.fields fun mb h => ?_
  simp [srvFields, readU16_first h, readU16_advance h]

/-- The numbers in front of the strings of a NAPTR record. -/
def naptrFields (xs : Bytes) : UInt16 × UInt16 := (ofBe16 (xs.drop 0), ofBe16 (xs.drop 2))

theorem decodeNaptrFields_parses : Parses decodeNaptrFields ((block 4).map naptrFields) := by
  refine Parses.fields fun mb h => ?_
  simp [naptrFields, readU16_first h, readU16_advance h]

/-- The numbers behind the names of a SOA record. -/
def soaFields (mname rname xs : Bytes) : Rdata :=
  .soa mname rname (ofBe32 (xs.drop 0)) (ofBe32 (xs.drop 4)) (ofBe32 (xs.drop 8))
    (ofBe32 (xs.drop 12)) (ofBe32 (xs.drop 16))

theorem decodeSoaFields_parses (mname rname : Bytes) :
    Parses (decodeSoaFields mname rname) ((block 20).map (soaFields mname rname)) := by
  refine Parses.fields fun mb h => ?_
  have h0 : mbufReadU32 mb = _ := readU32_advance (i := 0) h (by omega)
  simp [soaFields, h0, readU32_advance h]

/-! ## The pieces of a TXT string -/

/-- Bytes that are strings with their length in front, and what they hold. -/
inductive Pieces : Bytes → Bytes → Prop where
  | nil : Pieces [] []
  | cons {len : UInt8} {str rest data : Bytes} (hlen : str.length = len.toNat)
      (hrest : Pieces rest data) : Pieces (len :: (str ++ rest)) (str ++ data)

theorem pieces_nil_iff : Pieces [] d ↔ d = [] := by
  constructor
  · intro h
    cases h
    rfl
  · rintro rfl
    exact .nil

theorem pieces_cons_iff {xs : Bytes} :
    Pieces (len :: xs) d ↔ len.toNat ≤ xs.length ∧
      ∃ d', Pieces (xs.drop len.toNat) d' ∧ d = xs.take len.toNat ++ d' := by
  constructor
  · intro h
    cases h with
    | @cons _ str rest data hlen hrest =>
      simp [hlen, hrest]
  · rintro ⟨hle, d', hrest, rfl⟩
    have h := Pieces.cons (length_take_of_le hle) hrest
    rwa [take_append_drop] at h

/-- One round reads the length and the bytes of a piece. -/
theorem txtDecodeLoop_succ {fuel : Nat} {rest : Bytes}
    (hl : mb.left = len :: rest) (hpos : 0 < rdlen) (hroom : rdlen ≤ rest.length + 1)
    (data : Bytes) :
    txtDecodeLoop (fuel + 1) rdlen data mb =
      if len.toNat > rdlen - 1 then .error .EINVAL
      else txtDecodeLoop fuel (rdlen - 1 - len.toNat) (data ++ rest.take len.toNat)
        (mbufAdvance mb (1 + len.toNat)) := by
  have hread : mbufReadU8 mb = (len, mbufAdvance mb 1) := by
    simp [mbufReadU8_ok, hl]
  have hrest : (mbufAdvance mb 1).left = rest := by
    rw [mbufAdvance_left, hl]
    rfl
  rw [txtDecodeLoop, if_pos hpos, hread]
  simp only
  by_cases hbig : len.toNat > rdlen - 1
  · rw [if_pos hbig, if_pos hbig]
  · rw [if_neg hbig, if_neg hbig, mbufReadMem_ok (by rw [hrest]; omega), hrest, mbufAdvance_advance]

theorem txtDecodeLoop_iff (fuel : Nat) {mb' : Mbuf} {data data' : Bytes}
    (hfuel : rdlen ≤ fuel) (hleft : rdlen ≤ mb.left.length) :
    txtDecodeLoop fuel rdlen data mb = .ok (data', mb') ↔
      ∃ d, Pieces (mb.left.take rdlen) d ∧ data' = data ++ d ∧ mb' = mbufAdvance mb rdlen := by
  have hdone : ∀ {mb : Mbuf} {data : Bytes},
      (Except.ok (data, mb) : Except Errno _) = .ok (data', mb') ↔
        ∃ d, Pieces (mb.left.take 0) d ∧ data' = data ++ d ∧ mb' = mbufAdvance mb 0 := by
    intro mb data
    constructor
    · intro h
      cases h
      exact ⟨[], .nil, (List.append_nil _).symm, rfl⟩
    · simp_all [pieces_nil_iff]
  induction fuel generalizing mb rdlen data with
  | zero =>
    obtain rfl : rdlen = 0 := Nat.le_zero.mp hfuel
    exact hdone
  | succ fuel ih =>
    rcases Nat.eq_zero_or_pos rdlen with rfl | hpos
    · exact hdone
    obtain ⟨len, rest, hl⟩ : ∃ len rest, mb.left = len :: rest :=
      exists_cons_of_length_pos (by omega)
    have hroom : rdlen ≤ rest.length + 1 := by rwa [hl, length_cons] at hleft
    have htake : mb.left.take rdlen = len :: rest.take (rdlen - 1) := by
      obtain ⟨k, rfl⟩ := Nat.exists_eq_succ_of_ne_zero (Nat.ne_of_gt hpos)
      rw [hl]
      rfl
    rw [txtDecodeLoop_succ hl hpos hroom, htake]
    by_cases hbig : len.toNat > rdlen - 1
    · rw [if_pos hbig]
      constructor
      · simp
      · simp [pieces_cons_iff]
        omega
    · have hnext : (mbufAdvance mb (1 + len.toNat)).left = rest.drop len.toNat := by
        grind [mbufAdvance_left]
      have hadv : mbufAdvance (mbufAdvance mb (1 + len.toNat)) (rdlen - 1 - len.toNat) =
          mbufAdvance mb rdlen := by
        grind [mbufAdvance_advance]
      have hmin : min len.toNat (rdlen - 1) = len.toNat := by omega
      have hfuel' : rdlen - 1 - len.toNat ≤ fuel := by omega
      have hleft' : rdlen - 1 - len.toNat ≤ (mbufAdvance mb (1 + len.toNat)).left.length := by
        simp [hnext]
        omega
      rw [if_neg hbig]
      refine (ih hfuel' hleft').trans ?_
      rw [hnext, hadv]
      constructor
      · rintro ⟨d, hd, rfl, rfl⟩
        refine ⟨_, pieces_cons_iff.mpr ⟨?_, d, ?_, rfl⟩, ?_, rfl⟩
        · simp
          omega
        · simp [drop_take, hd]
        · rw [take_take, hmin, append_assoc]
      · rintro ⟨d, hd, rfl, rfl⟩
        obtain ⟨-, d', hd', rfl⟩ := pieces_cons_iff.mp hd
        rw [drop_take] at hd'
        refine ⟨d', hd', ?_, rfl⟩
        rw [take_take, hmin, append_assoc]

/-- A TXT string that fills the data of its record. -/
def txtLayout (rdlen : Nat) : Layout UInt8 Rdata :=
  fun W p q rdata => ∃ xs d, block rdlen W p q xs ∧ Pieces xs d ∧ rdata = .txt (cString d)

theorem txtLayout_stable (rdlen : Nat) : (txtLayout rdlen).Stable := by
  rintro W W' p q rdata hW ⟨xs, d, hb, hd⟩
  exact ⟨xs, d, block_stable rdlen _ _ _ _ _ hW hb, hd⟩

theorem decodeTxt_parses (rdlen : UInt16) :
    ParsesIf rdlen.toNat (decodeTxt rdlen) (txtLayout rdlen.toNat) := by
  intro mb mb' rdata hleft
  unfold decodeTxt
  constructor
  · intro h
    cases hd : txtDecodeLoop rdlen.toNat rdlen.toNat [] mb with
    | error e => rw [hd] at h; cases h
    | ok r =>
      rw [hd] at h
      cases h
      obtain ⟨d, hp, hdata, hmb⟩ := (txtDecodeLoop_iff _ (le_refl _) hleft).mp hd
      rw [nil_append] at hdata
      exact ⟨mb.pos + rdlen.toNat, ⟨_, d, block_iff.mpr ⟨hleft, rfl, rfl⟩, hp, by rw [hdata]⟩, hmb⟩
  · rintro ⟨q, ⟨xs, d, hb, hp, rfl⟩, rfl⟩
    obtain ⟨-, rfl, rfl⟩ := block_iff.mp hb
    have hrun : txtDecodeLoop rdlen.toNat rdlen.toNat [] mb = .ok ([] ++ d, _) :=
      (txtDecodeLoop_iff _ (le_refl _) hleft).mpr ⟨d, hp, rfl, rfl⟩
    rw [hrun]
    rfl

/-! ## The data of a record -/

/-- An IPv4 address. -/
def aLayout (rdlen : UInt16) : Layout UInt8 Rdata :=
  onlyIf (rdlen = 4) ((block 4).map fun xs => .a (ofBe32 xs))

/-- An IPv6 address. -/
def aaaaLayout (rdlen : UInt16) : Layout UInt8 Rdata :=
  onlyIf (rdlen = 16) fun W p q rdata => ∃ xs h, block 16 W p q xs ∧ rdata = .aaaa xs h

/-- Two names and five counters. -/
def soaLayout (start : Nat) : Layout UInt8 Rdata :=
  (nameLayout start).bind fun mname => (nameLayout start).bind fun rname =>
    (block 20).map (soaFields mname rname)

/-- A preference and a name. -/
def mxLayout (start : Nat) : Layout UInt8 Rdata :=
  ((block 2).map mxFields).bind fun pref => (nameLayout start).map (.mx pref)

/-- Three numbers and a name. -/
def srvLayout (start : Nat) : Layout UInt8 Rdata :=
  ((block 6).map srvFields).bind fun f => (nameLayout start).map (.srv f.1 f.2.1 f.2.2)

/-- Two numbers, three strings and a name. -/
def naptrLayout (start : Nat) : Layout UInt8 Rdata :=
  ((block 4).map naptrFields).bind fun f => cstrLayout.bind fun flags =>
    cstrLayout.bind fun services => cstrLayout.bind fun regexp =>
      (nameLayout start).map (.naptr f.1 f.2 flags services regexp)

/-- The data of a record by its type, as the `switch` reads it. -/
def switchLayout (start : Nat) (type rdlen : UInt16) :
    (t : Option RrType) → RrType.ofCode type = t → Layout UInt8 Rdata
  | some .A, _ => aLayout rdlen
  | some .NS, _ => (nameLayout start).map .ns
  | some .CNAME, _ => (nameLayout start).map .cname
  | some .SOA, _ => soaLayout start
  | some .PTR, _ => (nameLayout start).map .ptr
  | some .MX, _ => mxLayout start
  | some .TXT, _ => txtLayout rdlen.toNat
  | some .AAAA, _ => aaaaLayout rdlen
  | some .SRV, _ => srvLayout start
  | some .NAPTR, _ => naptrLayout start
  | none, h => (block rdlen.toNat).map fun _ => .other type h

theorem ofCode_self (type : UInt16) : RrType.ofCode type = RrType.ofCode type := rfl

/-- The data of a record: `rdlen` bytes are there, and the data is of its type. -/
def rdataLayout (start : Nat) (type rdlen : UInt16) : Layout UInt8 Rdata :=
  within rdlen.toNat (switchLayout start type rdlen (RrType.ofCode type) (ofCode_self type))

/-- A resource record. -/
def rrLayout (start : Nat) : Layout UInt8 Dnsrr :=
  (nameLayout start).bind fun name => ((block 10).map headerFields).bind fun hdr =>
    (rdataLayout start hdr.type hdr.rdlen).map fun rdata =>
      ⟨name, hdr.dnsclass, hdr.ttl.toNat, hdr.rdlen, rdata⟩

theorem decodeA_parses (rdlen : UInt16) : ParsesIf rdlen.toNat (decodeA rdlen) (aLayout rdlen) := by
  refine ParsesIf.onlyIf ?_ .EINVAL
  rintro rfl
  refine ParsesIf.fields fun mb h => ?_
  have h0 : mbufReadU32 mb = _ := readU32_advance (i := 0) h (by decide)
  rw [h0]
  rfl

theorem decodeAaaa_parses (rdlen : UInt16) :
    ParsesIf rdlen.toNat (decodeAaaa rdlen) (aaaaLayout rdlen) := by
  refine ParsesIf.onlyIf ?_ .EINVAL
  rintro rfl mb mb' rdata h
  have hlen : (mb.left.take 16).length = 16 := length_take_of_le h
  have hread : mbufReadMem mb 16 = .ok (mb.left.take 16, mbufAdvance mb 16) := mbufReadMem_ok h
  simp only [hread, hlen, dite_true]
  constructor
  · intro hd
    cases hd
    exact ⟨mb.pos + 16, ⟨_, hlen, block_iff.mpr ⟨h, rfl, rfl⟩, rfl⟩, rfl⟩
  · rintro ⟨q, ⟨xs, hx, hb, rfl⟩, rfl⟩
    obtain ⟨-, rfl, rfl⟩ := block_iff.mp hb
    rfl

section

variable (start : Nat)

theorem decodeName_parses (f : Bytes → Rdata) :
    Parses (decodeName start f) ((nameLayout start).map f) := (dnsDnameDecode_parses start).map f

theorem decodeSoa_parses : Parses (decodeSoa start) (soaLayout start) :=
  (dnsDnameDecode_parses start).bind fun mname => (dnsDnameDecode_parses start).bind fun rname =>
    decodeSoaFields_parses mname rname

theorem decodeMx_parses : Parses (decodeMx start) (mxLayout start) :=
  decodeMxPref_parses.bind fun pref => decodeName_parses start (.mx pref)

theorem decodeSrv_parses : Parses (decodeSrv start) (srvLayout start) :=
  decodeSrvFields_parses.bind fun f => decodeName_parses start (.srv f.1 f.2.1 f.2.2)

theorem decodeNaptr_parses : Parses (decodeNaptr start) (naptrLayout start) :=
  decodeNaptrFields_parses.bind fun f => dnsCstrDecode_parses.bind fun flags =>
    dnsCstrDecode_parses.bind fun services => dnsCstrDecode_parses.bind fun regexp =>
      decodeName_parses start (.naptr f.1 f.2 flags services regexp)

theorem rdataSwitch_parses (type rdlen : UInt16) (t : Option RrType) (h : RrType.ofCode type = t) :
    ParsesIf rdlen.toNat (rdataSwitch start type rdlen t h)
    (switchLayout start type rdlen t h) := by
  match t, h with
  | some .A, _ => exact decodeA_parses rdlen
  | some .NS, _ => exact (decodeName_parses start .ns).parsesIf _
  | some .CNAME, _ => exact (decodeName_parses start .cname).parsesIf _
  | some .SOA, _ => exact (decodeSoa_parses start).parsesIf _
  | some .PTR, _ => exact (decodeName_parses start .ptr).parsesIf _
  | some .MX, _ => exact (decodeMx_parses start).parsesIf _
  | some .TXT, _ => exact decodeTxt_parses rdlen
  | some .AAAA, _ => exact decodeAaaa_parses rdlen
  | some .SRV, _ => exact (decodeSrv_parses start).parsesIf _
  | some .NAPTR, _ => exact (decodeNaptr_parses start).parsesIf _
  | none, h => exact ParsesIf.fields fun mb _ => rfl

theorem rdataDecode_parses (type rdlen : UInt16) :
    Parses (rdataDecode start type rdlen) (rdataLayout start type rdlen) :=
  (rdataSwitch_parses start type rdlen _ rfl).guard .EINVAL

/-- `dns_rr_decode` accepts exactly the records of the format. -/
theorem dnsRrDecode_parses : Parses (dnsRrDecode start) (rrLayout start) :=
  (dnsDnameDecode_parses start).bind fun name => rrHeaderDecode_parses.bind fun hdr =>
    (rdataDecode_parses start hdr.type hdr.rdlen).map fun rdata =>
      (⟨name, hdr.dnsclass, hdr.ttl.toNat, hdr.rdlen, rdata⟩ : Dnsrr)

theorem switchLayout_stable (type rdlen : UInt16) (t : Option RrType)
    (h : RrType.ofCode type = t) : (switchLayout start type rdlen t h).Stable := by
  have hname := nameLayout_stable start
  match t, h with
  | some .A, _ => exact ((block_stable 4).map _).onlyIf _
  | some .NS, _ | some .CNAME, _ | some .PTR, _ => exact hname.map _
  | some .SOA, _ => exact hname.bind fun _ => hname.bind fun _ => (block_stable 20).map _
  | some .MX, _ => exact ((block_stable 2).map _).bind fun _ => hname.map _
  | some .TXT, _ => exact txtLayout_stable _
  | some .AAAA, _ =>
    rintro W W' p q rdata hW ⟨hlen, xs, hx, hb, hrd⟩
    exact ⟨hlen, xs, hx, block_stable 16 _ _ _ _ _ hW hb, hrd⟩
  | some .SRV, _ => exact ((block_stable 6).map _).bind fun _ => hname.map _
  | some .NAPTR, _ =>
    exact ((block_stable 4).map _).bind fun _ => cstrLayout_stable.bind fun _ =>
      cstrLayout_stable.bind fun _ => cstrLayout_stable.bind fun _ => hname.map _
  | none, h => exact (block_stable _).map _

theorem rdataLayout_stable (type rdlen : UInt16) : (rdataLayout start type rdlen).Stable :=
  (switchLayout_stable start type rdlen _ rfl).within _

end

end LibRe.Dns
