/-
LibRe.Rtcp.RoundTrip — RTCP messages are decoded as they were encoded.

Each reader of the decoder accepts what the encode function beside it has written, in
front of anything (`Accepts`), and `accepts_framed` puts the header and the padding
around it. The length field has sixteen bits: a packet with more words is sent with a
length that is too small. The decoder takes the size of application data and the number
of feedback entries from it, and `compound_round_trip_iff` says that this is the only
way in which a compound of valid messages is not returned.
-/
import LibRe.Rtcp.Encode
import LibRe.Rtcp.Sizes

namespace LibRe.Rtcp

open Bytes Reader Read List Option Nat

variable {hdr : RtcpHdr} {bytes : Bytes} {msg : Message}

/-! ## Padding -/

theorem length_padding (n : Nat) : (padding n).length = (4 - n % 4) % 4 := length_replicate

variable {n k count rem : Nat} {body name : Bytes} {fci : Fci}

/-- The padding behind `n` bytes is slurped, also if whole words are before them. -/
theorem slurp_padding {start : Nat} {ys : Bytes}
    (h : start = 4 * k + n + (padding n).length + ys.length) :
    slurp start (padding n ++ ys) = .ok ((), ys) := by
  have hlen := length_padding n
  rw [slurp, slurpPadding_append (by omega) (by omega) (by omega)]

/-! ## The parts of a packet -/

/-- Six words in sequence. -/
theorem ofBe32_six (a b c d e f : UInt32) {xs : Bytes}
    (h : xs = be32 a ++ be32 b ++ be32 c ++ be32 d ++ be32 e ++ be32 f) :
    ofBe32 xs = a ∧ ofBe32 (xs.drop 4) = b ∧ ofBe32 (xs.drop 8) = c ∧ ofBe32 (xs.drop 12) = d ∧
      ofBe32 (xs.drop 16) = e ∧ ofBe32 (xs.drop 20) = f := by
  subst h
  exact ⟨ofBe32_be32_append a _, ofBe32_be32_append b _, ofBe32_be32_append c _,
    ofBe32_be32_append d _, ofBe32_be32_append e _, ofBe32_be32_append f []⟩

theorem accepts_rr (rr : RtcpRr) : Accepts rtcpRrDecode (rtcpRrEncode rr) rr := by
  unfold rtcpRrDecode
  refine accepts_fields _ rfl ?_
  obtain ⟨hssrc, hword, hlastSeq, hjitter, hlsr, hdlsr⟩ :=
    ofBe32_six _ _ _ _ _ _ (rtcpRrEncode.eq_1 rr)
  have hfraction : rr.fraction.toNat < 256 := rr.fraction.toNat_lt
  have htoNat : (UInt32.ofNat (rr.fraction.toNat * 2 ^ 24 + rr.lost.toNat)).toNat =
      rr.fraction.toNat * 2 ^ 24 + rr.lost.toNat := by
    simp
    omega
  have hfrac : UInt8.ofNat ((rr.fraction.toNat * 2 ^ 24 + rr.lost.toNat) / 2 ^ 24) =
      rr.fraction := by
    apply UInt8.toNat_inj.mp
    rw [UInt8.toNat_ofNat']
    omega
  have hloss : BitVec.ofNat 24 (rr.fraction.toNat * 2 ^ 24 + rr.lost.toNat) = rr.lost := by
    apply BitVec.eq_of_toNat_eq
    rw [BitVec.toNat_ofNat]
    omega
  simp only [hssrc, hword, hlastSeq, hjitter, hlsr, hdlsr, htoNat, hfrac, hloss]

theorem length_rtcpRtpfbGnackEncode (fci : Gnack) : (rtcpRtpfbGnackEncode fci).length = 4 := rfl

theorem length_sliEncode (fci : Sli) : (sliEncode fci).length = 4 := rfl

theorem length_encodeFirRfc5104Fci (fci : FirRfc5104) : (encodeFirRfc5104Fci fci).length = 8 := rfl

theorem accepts_gnack (fci : Gnack) : Accepts gnackEntry (rtcpRtpfbGnackEncode fci) fci := by
  unfold gnackEntry
  refine accepts_fields _ rfl ?_
  have hpid : ofBe16 (rtcpRtpfbGnackEncode fci) = fci.pid := ofBe16_be16_append _ _
  have hblp : ofBe16 ((rtcpRtpfbGnackEncode fci).drop 2) = fci.blp := ofBe16_be16_append _ []
  simp only [hpid, hblp]

/-- The ranges of the bit fields of `struct sli`. -/
def Sli.Valid (fci : Sli) : Prop := fci.first < 2 ^ 13 ∧ fci.number < 2 ^ 13 ∧ fci.picid < 2 ^ 6

instance (fci : Sli) : Decidable fci.Valid := inferInstanceAs (Decidable (_ ∧ _))

theorem accepts_sli (fci : Sli) (h : fci.Valid) : Accepts sliEntry (sliEncode fci) fci := by
  obtain ⟨hfirst, hnumber, hpicid⟩ := h
  unfold sliEntry
  refine accepts_fields _ rfl ?_
  have hword : (ofBe32 (sliEncode fci)).toNat = fci.first * 2 ^ 19 + fci.number * 2 ^ 6 +
      fci.picid := by
    rw [sliEncode, ← append_nil (be32 _), ofBe32_be32_append, UInt32.toNat_ofNat']
    omega
  have hfirst' : (fci.first * 2 ^ 19 + fci.number * 2 ^ 6 + fci.picid) / 2 ^ 19 % 2 ^ 13 =
      fci.first := by
    omega
  have hnumber' : (fci.first * 2 ^ 19 + fci.number * 2 ^ 6 + fci.picid) / 2 ^ 6 % 2 ^ 13 =
      fci.number := by
    omega
  have hpicid' : (fci.first * 2 ^ 19 + fci.number * 2 ^ 6 + fci.picid) % 2 ^ 6 = fci.picid := by
    omega
  simp only [hword, hfirst', hnumber', hpicid']

theorem accepts_fir (fci : FirRfc5104) : Accepts firEntry (encodeFirRfc5104Fci fci) fci := by
  unfold firEntry
  refine accepts_fields _ rfl ?_
  have hssrc : ofBe32 (encodeFirRfc5104Fci fci) = fci.ssrc := ofBe32_be32_append _ _
  rw [hssrc]
  rfl

theorem accepts_fbSources (packet media : UInt32) :
    Accepts fbSources (be32 packet ++ be32 media) (packet, media) := by
  unfold fbSources
  refine accepts_fields _ rfl ?_
  have hpacket : ofBe32 (be32 packet ++ be32 media) = packet := ofBe32_be32_append _ _
  have hmedia : ofBe32 ((be32 packet ++ be32 media).drop 4) = media := ofBe32_be32_append _ []
  rw [hpacket, hmedia]

/-! ## Source descriptions -/

/-- Strings that fit their length byte, of types other than the end mark. -/
def SdesArgs.Valid (args : SdesArgs) : Prop :=
  args.items ≠ [] ∧ ∀ item ∈ args.items, ∀ v ∈ item.2, item.1 ≠ sdesEnd ∧ v.length ≤ 255

instance (args : SdesArgs) : Decidable args.Valid := inferInstanceAs (Decidable (_ ∧ _))

/-- The items that are not NULL are read up to the end mark. -/
theorem sdesItems_encode (items : List (UInt8 × Option Bytes))
    (h : ∀ item ∈ items, ∀ v ∈ item.2, item.1 ≠ sdesEnd ∧ v.length ≤ 255) :
    ∃ bytes, sdesItemsEncode items = .ok bytes ∧ ∀ fuel, bytes.length < fuel →
      Accepts (sdesItems fuel) (bytes ++ [sdesEnd])
        (items.filterMap fun item => item.2.map fun v => ⟨item.1, v⟩) := by
  induction items with
  | nil =>
    refine ⟨[], rfl, fun fuel hfuel ys => ?_⟩
    obtain ⟨fuel, rfl⟩ := exists_eq_succ_of_ne_zero (ne_of_gt hfuel)
    rfl
  | cons item items ih =>
    obtain ⟨bytes, hbytes, hread⟩ := ih fun i hi => h i (mem_cons_of_mem _ hi)
    obtain ⟨type, v⟩ := item
    cases v with
    | none => exact ⟨bytes, hbytes, hread⟩
    | some v =>
      obtain ⟨htype, hlen⟩ := h (type, some v) mem_cons_self v rfl
      refine ⟨type :: UInt8.ofNat v.length :: v ++ bytes, ?_, fun fuel hfuel => ?_⟩
      · rw [sdesItemsEncode, if_neg (by omega), hbytes]
      obtain ⟨fuel, rfl⟩ := exists_eq_succ_of_ne_zero (ne_of_gt (zero_lt_of_lt hfuel))
      have hlength : v.length = (UInt8.ofNat v.length).toNat := by
        simp
        omega
      have hothers := hread fuel (by
        rw [length_append, length_cons, length_cons] at hfuel
        omega)
      have hdata : Accepts (checked (UInt8.ofNat v.length).toNat id) v v :=
        accepts_fields _ hlength rfl
      have hnext : Accepts (sdesItem (sdesItems fuel) type)
          ([UInt8.ofNat v.length] ++ (v ++ (bytes ++ [sdesEnd])))
          (⟨type, v⟩ :: items.filterMap fun item => item.2.map fun v => ⟨item.1, v⟩) := by
        rw [sdesItem, if_neg htype]
        exact Accepts.andThen hdata (hothers.map _)
      intro ys
      have hall := (accepts_readU8 type).andThen hnext ys
      simp only [cons_append, nil_append, append_assoc] at hall ⊢
      exact hall

theorem rtcpSdes_encode (args : SdesArgs) (h : args.Valid) :
    ∃ bytes, rtcpSdesEncode args.src args.items = .ok bytes ∧
      Accepts rtcpSdesDecode bytes args.sdes := by
  obtain ⟨hne, hitems⟩ := h
  obtain ⟨bytes, hbytes, hread⟩ := sdesItems_encode args.items hitems
  have hlen : args.items.length ≠ 0 := fun hzero => hne (length_eq_zero_iff.mp hzero)
  refine ⟨be32 args.src ++ bytes ++ sdesEnd :: padding (4 + bytes.length + 1), ?_, fun ys => ?_⟩
  · rw [rtcpSdesEncode, if_neg hlen, hbytes]
  · -- the source, the items with their end mark, and the padding
    have hsplit : be32 args.src ++ bytes ++ sdesEnd :: padding (4 + bytes.length + 1) ++ ys =
        be32 args.src ++ (bytes ++ [sdesEnd] ++ (padding (4 + bytes.length + 1) ++ ys)) := by
      simp only [append_assoc, cons_append, nil_append]
    rw [hsplit]
    generalize hall : be32 args.src ++ (bytes ++ [sdesEnd] ++
      (padding (4 + bytes.length + 1) ++ ys)) = xs
    have hstart : xs.length = 4 * 0 + (4 + bytes.length + 1) +
        (padding (4 + bytes.length + 1)).length + ys.length := by
      grind [length_be32]
    rw [rtcpSdesDecode, byLength, sdesDecodeFrom, andThen, ← hall, accepts_word args.src, hall]
    simp only [andThen, hread xs.length (by omega) _, slurp_padding hstart]
    rfl

theorem sdesEncodeAll_ok (chunks : List SdesArgs) (h : ∀ args ∈ chunks, args.Valid) :
    ∃ bytes, sdesEncodeAll chunks = .ok bytes ∧
      Accepts (times chunks.length rtcpSdesDecode) bytes (chunks.map SdesArgs.sdes) := by
  induction chunks with
  | nil => exact ⟨[], rfl, accepts_give []⟩
  | cons args others ih =>
    obtain ⟨bytes, hbytes, hread⟩ := rtcpSdes_encode args (h args mem_cons_self)
    obtain ⟨rest, hrest, hreads⟩ := ih fun a ha => h a (mem_cons_of_mem _ ha)
    refine ⟨bytes ++ rest, ?_, hread.andThen (hreads.map _)⟩
    rw [sdesEncodeAll, hbytes, hrest]
    rfl

/-! ## The header -/

theorem rtcpType_code (type : RtcpType) : rtcpType type.code = some type := by
  cases type <;> rfl

/-- The header of a packet with `words` behind it. -/
def sentHdr (count : Nat) (type : RtcpType) (words : Nat) : RtcpHdr where
  version := rtcpVersion
  p := 0
  count := count
  pt := type.code
  length := words % 2 ^ 16

theorem accepts_hdr (hcount : count ≤ 31) (type : RtcpType) (words : Nat) :
    Accepts rtcpHdrDecode (rtcpHdrEncode count type words) (sentHdr count type words) := by
  have hfirst : ∀ n, n < 32 → (UInt8.ofNat (rtcpVersion * 64) ||| UInt8.ofNat n).toNat =
      128 + n := by
    decide
  unfold rtcpHdrDecode
  refine accepts_fields _ rfl ?_
  have hlength : ofBe16 ((rtcpHdrEncode count type words).drop 2) = UInt16.ofNat words :=
    ofBe16_be16_append _ []
  have hhead : (rtcpHdrEncode count type words).headD 0 =
      UInt8.ofNat (rtcpVersion * 64) ||| UInt8.ofNat count := rfl
  have hpt : ((rtcpHdrEncode count type words).drop 1).headD 0 = type.code := rfl
  rw [hlength, hhead, hpt, hfirst count (by omega), UInt16.toNat_ofNat', sentHdr, rtcpVersion]
  simp only [RtcpHdr.mk.injEq, and_true]
  omega

/-- The header a body is sent with. -/
def bodyHdr (count : Nat) (type : RtcpType) (body : Bytes) : RtcpHdr :=
  sentHdr count type ((body ++ padding body.length).length / 4)

section

variable (count : Nat) (type : RtcpType) (body : Bytes)

theorem bodyHdr_type : rtcpType (bodyHdr count type body).pt = some type := rtcpType_code type

theorem bodyHdr_count : (bodyHdr count type body).count = count := rfl

theorem bodyHdr_length : (bodyHdr count type body).length = (body.length + 3) / 4 % 65536 := by
  simp [length_padding, bodyHdr, sentHdr]
  omega

end

/-- A packet is read if its body is read under the header it is sent with. -/
theorem accepts_framed (hcount : count ≤ 31) {type : RtcpType} {value : Body}
    (h : Accepts (bodyDecode (bodyHdr count type body)) body value) :
    Accepts rtcpDecode (framed count type body) ⟨bodyHdr count type body, value⟩ := by
  intro ys
  have hlen : (framed count type body ++ ys).length = 4 * 1 + body.length +
      (padding body.length).length + ys.length := by
    simp only [framed, rtcpHdrEncode, length_append, length_be16, length_cons, length_nil]
  have hslurp := slurp_padding hlen
  rw [rtcpDecode, byLength, rtcpDecodeFrom]
  generalize (framed count type body ++ ys).length = start at hslurp
  rw [framed, append_assoc, append_assoc, andThen, accepts_hdr hcount, ← bodyHdr]
  have hneed : ¬ (body ++ (padding body.length ++ ys)).length < 4 *
      (bodyHdr count type body).length := by
    simp [bodyHdr_length, length_padding]
    omega
  have hversion : ¬ (bodyHdr count type body).version ≠ rtcpVersion := fun hne => hne rfl
  simp only [if_neg hversion]
  rw [need, if_neg hneed, andThen, h]
  simp only [andThen, hslurp]
  rfl

/-! ## Messages -/

/-- Strings that fit their length byte, names with four characters, application data in
whole words, and bit fields in their ranges. -/
def Message.FieldsValid : Message → Prop
  | .sdes chunks => ∀ args ∈ chunks, args.Valid
  | .bye _ reason => ∀ r ∈ reason, r.length ≤ 255
  | .app _ _ name data => name.length = 4 ∧ ∀ d ∈ data, d.length % 4 = 0
  | .sli _ _ v => ∀ fci ∈ v, fci.Valid
  | _ => True

def Message.Valid (msg : Message) : Prop := msg.count ≤ 31 ∧ msg.FieldsValid

/-- The words behind the header fit the length field, for the messages the decoder reads
by their length. -/
def Message.Fits : Message → Prop
  | .app _ _ _ data => 2 + (data.getD []).length / 4 ≤ 65535
  | .gnack _ _ v => 2 + v.length ≤ 65535
  | .sli _ _ v => 2 + v.length ≤ 65535
  | .firRfc5104 _ _ v => 2 + 2 * v.length ≤ 65535
  | _ => True

instance (msg : Message) : Decidable msg.Valid := by
  unfold Message.Valid Message.FieldsValid
  split <;> infer_instance

instance (msg : Message) : Decidable msg.Fits := by
  unfold Message.Fits
  split <;> infer_instance

/-- Entries that are all as long. -/
theorem length_flatMap_entries {α : Type} {enc : α → Bytes}
    (h : ∀ a, (enc a).length = k) (as : List α) : (as.flatMap enc).length = k * as.length := by
  simp only [length_flatMap, h, map_const', sum_replicate, smul_eq_mul, mul_comm]

theorem accepts_sources (srcv : List UInt32) :
    Accepts (times srcv.length (checked 4 ofBe32)) (srcv.flatMap be32) srcv :=
  Accepts.times srcv fun v _ => accepts_word v

theorem accepts_byeDecode_none (srcv : List UInt32) (h : rem ≤ 4 * srcv.length) :
    Accepts (byeDecode srcv.length rem) (srcv.flatMap be32) (.bye srcv none) := by
  unfold byeDecode
  simp only [if_neg (not_lt.mpr h)]
  refine Accepts.need ((accepts_sources srcv).map _) _ ?_
  rw [length_flatMap_entries length_be32]

theorem accepts_byeDecode_some (srcv : List UInt32) (reason : Bytes) (hle : reason.length ≤ 255)
    (h : 4 * srcv.length < rem) :
    Accepts (byeDecode srcv.length rem) (srcv.flatMap be32 ++ UInt8.ofNat reason.length :: reason)
      (.bye srcv (some reason)) := by
  have hlen : reason.length = (UInt8.ofNat reason.length).toNat := by
    simp
    omega
  have htext : Accepts (checked (UInt8.ofNat reason.length).toNat id) reason reason :=
    accepts_fields _ hlen rfl
  unfold byeDecode
  simp only [gt_iff_lt, if_pos h]
  refine Accepts.need (Accepts.andThen (accepts_sources srcv) ?_) _ ?_
  · exact Accepts.andThen (accepts_readU8 _) (htext.map _)
  · simp
    omega

theorem accepts_appDecode (src : UInt32) (data : Bytes) (hname : name.length = 4) :
    Accepts (appDecode (8 + data.length)) (be32 src ++ name ++ data) (.app src name data) := by
  have hfirst : Accepts (checked 8 fun xs => (ofBe32 xs, (xs.drop 4).take 4)) (be32 src ++ name)
      (src, name) := by
    refine accepts_fields _ (by rw [length_append, hname, length_be32]) ?_
    rw [ofBe32_be32_append, drop_left' (length_be32 src), take_of_length_le (le_of_eq hname)]
  refine Accepts.andThen hfirst ?_
  simp only
  split
  · have hdata : Accepts (checked (8 + data.length - 8) id) data data :=
      accepts_fields _ (Nat.add_sub_cancel_left 8 data.length).symm rfl
    exact hdata.map _
  · have hnil : data = [] := length_eq_zero_iff.mp (by omega)
    subst hnil
    exact accepts_give _

/-- The sources of a feedback message, and its entries. -/
theorem accepts_rtpfb (hpt : rtcpType hdr.pt = some .RTPFB)
    (hlen : hdr.length = n + 2) (packet media : UInt32)
    (h : Accepts (rtcpRtpfbDecode hdr n) bytes fci) :
    Accepts (bodyDecode hdr) (be32 packet ++ be32 media ++ bytes) (.fb packet media n fci) := by
  rw [bodyDecode, hpt]
  simp only [hlen, if_neg (not_lt.mpr (le_add_left 2 n))]
  exact Accepts.andThen (accepts_fbSources packet media) (h.map _)

theorem accepts_psfb (hpt : rtcpType hdr.pt = some .PSFB)
    (hlen : hdr.length = n + 2) (packet media : UInt32)
    (h : Accepts (rtcpPsfbDecode hdr n) bytes (k, fci)) :
    Accepts (bodyDecode hdr) (be32 packet ++ be32 media ++ bytes) (.fb packet media k fci) := by
  rw [bodyDecode, hpt]
  simp only [hlen, if_neg (not_lt.mpr (le_add_left 2 n))]
  exact Accepts.andThen (accepts_fbSources packet media)
    (Accepts.map h fun v => Body.fb packet media v.1 v.2)

theorem accepts_gnackv (hcount : hdr.count = rtpfbGnack) (v : List Gnack) :
    Accepts (rtcpRtpfbDecode hdr v.length) (v.flatMap rtcpRtpfbGnackEncode) (.gnackv v) := by
  rw [rtcpRtpfbDecode, if_pos hcount]
  refine Accepts.need ((Accepts.times v fun fci _ => accepts_gnack fci).map _) _ ?_
  rw [length_flatMap_entries length_rtcpRtpfbGnackEncode]
  omega

theorem accepts_sliv (hcount : hdr.count = psfbSli) (v : List Sli) (h : ∀ fci ∈ v, fci.Valid) :
    Accepts (rtcpPsfbDecode hdr v.length) (v.flatMap sliEncode) (v.length, .sliv v) := by
  rw [rtcpPsfbDecode, hcount, if_neg (by decide), if_pos rfl]
  refine Accepts.need ((Accepts.times v fun fci hfci => accepts_sli fci (h fci hfci)).map _) _ ?_
  rw [length_flatMap_entries length_sliEncode]
  omega

theorem accepts_firv (hcount : hdr.count = psfbFir) (v : List FirRfc5104) :
    Accepts (rtcpPsfbDecode hdr (2 * v.length)) (v.flatMap encodeFirRfc5104Fci)
    (v.length, .firv v) := by
  rw [rtcpPsfbDecode, hcount, if_neg (by decide), if_neg (by decide),
    if_neg (by decide), if_pos rfl, Nat.mul_div_cancel_left _ (by decide)]
  refine Accepts.need ((Accepts.times v fun fci _ => accepts_fir fci).map _) _ ?_
  rw [length_flatMap_entries length_encodeFirRfc5104Fci]
  omega

/-- The length field of a feedback message with `n` words behind the sources. -/
theorem bodyHdr_feedback (count : Nat) (type : RtcpType) (packet media : UInt32)
    (hlen : bytes.length = 4 * n) :
    (bodyHdr count type (be32 packet ++ be32 media ++ bytes)).length = (n + 2) % 65536 := by
  simp [bodyHdr_length]
  omega

/-- Application data that is NULL is sent as none. -/
theorem bodyEncode_app (count : Nat) (src : UInt32) {data : Option Bytes}
    (hname : name.length = 4) (hdata : ∀ d ∈ data, d.length % 4 = 0) :
    bodyEncode count (.APP src name data) = .ok (be32 src ++ name ++ data.getD []) ∧
      (data.getD []).length % 4 = 0 ∧
      (bodyHdr count .APP (be32 src ++ name ++ data.getD [])).length =
        (2 + (data.getD []).length / 4) % 65536 := by
  have hwords : (data.getD []).length % 4 = 0 := by
    cases data with
    | none => rfl
    | some data => exact hdata data rfl
  refine ⟨?_, hwords, ?_⟩
  · cases data with
    | none => rw [bodyEncode, take_of_length_le (le_of_eq hname), getD_none, append_nil]
    | some data =>
      rw [bodyEncode, if_neg (fun hne => hne hwords), take_of_length_le (le_of_eq hname),
        getD_some]
  · simp [bodyHdr_length]
    omega

/-- Every valid message is encoded, and if it fits its body is read back. -/
theorem Message.encodes (msg : Message) (h : msg.Valid) :
    ∃ body, bodyEncode msg.count msg.args = .ok body ∧
      (msg.Fits → Accepts (bodyDecode (bodyHdr msg.count msg.args.type body)) body msg.body) := by
  obtain ⟨hcount, hvalid⟩ := h
  cases msg with
  | sr info rrv =>
    refine ⟨_, rfl, fun _ => ?_⟩
    refine Accepts.andThen (a := info) ?_ ((Accepts.times rrv fun rr _ => accepts_rr rr).map _)
    refine accepts_fields _ rfl ?_
    obtain ⟨hssrc, hntpSec, hntpFrac, hrtpTs, hpsent, hosent⟩ :=
      ofBe32_six info.ssrc info.ntpSec info.ntpFrac info.rtpTs info.psent info.osent rfl
    rw [hssrc, hntpSec, hntpFrac, hrtpTs, hpsent, hosent]
  | rr ssrc rrv =>
    refine ⟨_, rfl, fun _ => ?_⟩
    exact Accepts.andThen (accepts_word ssrc) ((Accepts.times rrv fun rr _ => accepts_rr rr).map _)
  | sdes chunks =>
    obtain ⟨bytes, hbytes, hread⟩ := sdesEncodeAll_ok chunks hvalid
    refine ⟨bytes, hbytes, fun _ => ?_⟩
    exact hread.map _
  | bye srcv reason =>
    refine ⟨_, rfl, fun _ => ?_⟩
    rw [bodyDecode, bodyHdr_type]
    simp only [Message.count] at hcount
    simp only [bodyHdr_length, Message.count, take_length]
    cases reason with
    | none =>
      rw [append_nil]
      refine accepts_byeDecode_none srcv ?_
      rw [length_flatMap_entries length_be32]
      omega
    | some reason =>
      have hle := hvalid reason rfl
      refine accepts_byeDecode_some srcv reason hle ?_
      rw [length_append, length_flatMap_entries length_be32, length_cons]
      omega
  | app count src name data =>
    obtain ⟨hbody, hwords, hlen⟩ := bodyEncode_app count src hvalid.1 hvalid.2
    refine ⟨_, hbody, fun hfits => ?_⟩
    simp only [Message.Fits] at hfits
    have hread := accepts_appDecode src (data.getD []) hvalid.1
    have hrem : 4 * (bodyHdr count .APP (be32 src ++ name ++ data.getD [])).length =
        8 + (data.getD []).length := by
      omega
    rw [← hrem] at hread
    exact hread
  | fir count ssrc =>
    refine ⟨_, rfl, fun _ => ?_⟩
    exact (accepts_word ssrc).map _
  | nack count ssrc fsn blp =>
    refine ⟨_, rfl, fun _ => ?_⟩
    rw [bodyDecode, bodyHdr_type]
    refine accepts_fields _ rfl ?_
    have hssrc : ofBe32 (be32 ssrc ++ be16 fsn ++ be16 blp) = ssrc := ofBe32_be32_append _ _
    have hfsn : ofBe16 ((be32 ssrc ++ be16 fsn ++ be16 blp).drop 4) = fsn := ofBe16_be16_append _ _
    have hblp : ofBe16 ((be32 ssrc ++ be16 fsn ++ be16 blp).drop 6) = blp := ofBe16_be16_append _ []
    rw [hssrc, hfsn, hblp]
    rfl
  | gnack packet media v =>
    refine ⟨_, rfl, fun hfits => ?_⟩
    simp only [Message.Fits] at hfits
    refine accepts_rtpfb (bodyHdr_type _ _ _) ?_ packet media (accepts_gnackv rfl v)
    rw [← mod_eq_of_lt (show v.length + 2 < 65536 by omega)]
    exact bodyHdr_feedback _ _ _ _ (length_flatMap_entries length_rtcpRtpfbGnackEncode v)
  | pli packet media =>
    refine ⟨_, rfl, fun _ => ?_⟩
    exact accepts_psfb (bodyHdr_type _ _ _) (bodyHdr_feedback (n := 0) _ _ packet media rfl) packet
      media (accepts_give _)
  | sli packet media v =>
    refine ⟨_, rfl, fun hfits => ?_⟩
    simp only [Message.Fits] at hfits
    refine accepts_psfb (bodyHdr_type _ _ _) ?_ packet media (accepts_sliv rfl v hvalid)
    rw [← mod_eq_of_lt (show v.length + 2 < 65536 by omega)]
    exact bodyHdr_feedback _ _ _ _ (length_flatMap_entries length_sliEncode v)
  | firRfc5104 packet media v =>
    refine ⟨_, rfl, fun hfits => ?_⟩
    simp only [Message.Fits] at hfits
    refine accepts_psfb (bodyHdr_type _ _ _) ?_ packet media (accepts_firv rfl v)
    rw [← mod_eq_of_lt (show 2 * v.length + 2 < 65536 by omega)]
    refine bodyHdr_feedback _ _ _ _ ?_
    rw [length_flatMap_entries length_encodeFirRfc5104Fci]
    omega

/-! ## Messages that do not fit -/

/-- The bytes or entries whose number is not a field of the packet. -/
def Body.entries : Body → Nat
  | .app _ _ data => data.length
  | .fb _ _ n _ => n
  | _ => 0

theorem gives_app_entries (hpt : rtcpType hdr.pt = some .APP) :
    Gives (bodyDecode hdr) fun body => body.entries ≤ 4 * hdr.length - 8 := by
  rw [bodyDecode, hpt]
  refine gives_andThen fun src => ?_
  simp only
  split
  · refine Gives.andThen (P := fun data => data.length ≤ 4 * hdr.length - 8) ?_ fun data hdata => ?_
    · exact gives_fields _ fun xs hxs => le_of_eq hxs
    · exact gives_give hdata
  · exact gives_give (zero_le _)

theorem gives_rtpfb_entries (hpt : rtcpType hdr.pt = some .RTPFB) :
    Gives (bodyDecode hdr) fun body => body.entries = hdr.length - 2 := by
  rw [bodyDecode, hpt]
  simp only
  split
  · exact gives_fail _ _
  · exact gives_andThen fun src => gives_andThen fun fci => gives_give rfl

theorem gives_psfb_entries (hpt : rtcpType hdr.pt = some .PSFB) :
    Gives (bodyDecode hdr) fun body =>
      body.entries = if hdr.count = psfbFir then (hdr.length - 2) / 2 else hdr.length - 2 := by
  have hpsfb : Gives (rtcpPsfbDecode hdr (hdr.length - 2)) fun v =>
      v.1 = if hdr.count = psfbFir then (hdr.length - 2) / 2 else hdr.length - 2 := by
    unfold rtcpPsfbDecode
    split
    · next hcount => exact gives_give (by rw [hcount]; rfl)
    split
    · next hcount =>
        exact Gives.need (gives_andThen fun v => gives_give (by rw [hcount]; rfl)) _ _
    split
    · next hcount => exact gives_andThen fun v => gives_give (by rw [hcount]; rfl)
    split
    · exact Gives.need (gives_andThen fun v => gives_give (by rfl)) _ _
    · exact gives_give (by rfl)
  rw [bodyDecode, hpt]
  simp only
  split
  · exact gives_fail _ _
  · exact gives_andThen fun src => hpsfb.andThen fun v hv => gives_give hv

/-- Of a message that does not fit less is read. -/
theorem Message.loses_entries (hvalid : msg.Valid) (hfits : ¬ msg.Fits)
    (hbody : bodyEncode msg.count msg.args = .ok body) :
    Gives (bodyDecode (bodyHdr msg.count msg.args.type body)) fun value =>
      value.entries < msg.body.entries := by
  cases msg with
  | app count src name data =>
    obtain ⟨hbody', hwords, hlen⟩ := bodyEncode_app count src hvalid.2.1 hvalid.2.2
    cases hbody.symm.trans hbody'
    simp only [Message.Fits] at hfits
    intro xs value rest h
    have hentries := gives_app_entries (bodyHdr_type _ _ _) _ _ _ h
    simp only [Message.count, hlen] at hentries
    show _ < (data.getD []).length
    omega
  | gnack packet media v =>
    cases hbody
    have hlen := bodyHdr_feedback rtpfbGnack .RTPFB packet media
      (length_flatMap_entries length_rtcpRtpfbGnackEncode v)
    simp only [Message.Fits] at hfits
    intro xs value rest h
    have hentries := gives_rtpfb_entries (bodyHdr_type _ _ _) _ _ _ h
    simp only [Message.count, hlen] at hentries
    show _ < v.length
    omega
  | sli packet media v =>
    cases hbody
    have hlen := bodyHdr_feedback psfbSli .PSFB packet media
      (length_flatMap_entries length_sliEncode v)
    simp only [Message.Fits] at hfits
    intro xs value rest h
    have hentries := gives_psfb_entries (bodyHdr_type _ _ _) _ _ _ h
    simp only [Message.count, hlen, bodyHdr_count] at hentries
    rw [if_neg (by decide)] at hentries
    show _ < v.length
    omega
  | firRfc5104 packet media v =>
    cases hbody
    have hsize : (v.flatMap encodeFirRfc5104Fci).length = 4 * (2 * v.length) := by
      simp [length_encodeFirRfc5104Fci]
      omega
    have hlen := bodyHdr_feedback psfbFir .PSFB packet media hsize
    simp only [Message.Fits] at hfits
    intro xs value rest h
    have hentries := gives_psfb_entries (bodyHdr_type _ _ _) _ _ _ h
    simp only [Message.count, hlen, bodyHdr_count, if_true] at hentries
    show _ < v.length
    omega
  | _ => exact absurd trivial hfits

/-! ## Compound packets -/

/-- What a message is compared by: the length field is not part of what is sent. -/
def RtcpMsg.content (msg : RtcpMsg) : UInt8 × Nat × Body := (msg.hdr.pt, msg.hdr.count, msg.body)

def Message.content (msg : Message) : UInt8 × Nat × Body :=
  (msg.args.type.code, msg.count, msg.body)

/-- The messages are encoded, as many calls of `rtcp_decode` return them in order, and
nothing is left. -/
def RoundTrips (msgs : List Message) : Prop :=
  ∃ bytes, encodeAll msgs = .ok bytes ∧ ∃ decoded,
    times msgs.length rtcpDecode bytes = .ok (decoded, []) ∧
      decoded.map RtcpMsg.content = msgs.map Message.content

theorem Message.encode_ok (hvalid : msg.Valid) :
    ∃ bytes, msg.encode = .ok bytes ∧
      (msg.Fits → ∃ decoded, Accepts rtcpDecode bytes decoded ∧ decoded.content = msg.content) ∧
      (¬ msg.Fits → ∀ rest decoded left, rtcpDecode (bytes ++ rest) = .ok (decoded, left) →
        decoded.content ≠ msg.content) := by
  obtain ⟨body, hbody, hread⟩ := msg.encodes hvalid
  refine ⟨framed msg.count msg.args.type body, ?_, fun hfits => ?_,
    fun hfits rest decoded left hdec heq => ?_⟩
  · rw [Message.encode, rtcpVencode, hbody]
    rfl
  · exact ⟨_, accepts_framed hvalid.1 (hread hfits), rfl⟩
  obtain ⟨-, hhdr, -, zs, hdecoded⟩ := rtcpDecode_ok hdec
  rw [framed, append_assoc, append_assoc, accepts_hdr hvalid.1] at hhdr
  have hhdr' : bodyHdr msg.count msg.args.type body = decoded.hdr :=
    congrArg Prod.fst (Except.ok.inj hhdr)
  have hless := msg.loses_entries hvalid hfits hbody
  rw [hhdr'] at hless
  have hlt := hless _ _ _ hdecoded
  have hbody' : decoded.body = msg.body := congrArg (·.2.2) heq
  rw [hbody'] at hlt
  exact lt_irrefl _ hlt

/-- The first message of a compound, and the others. -/
theorem roundTrips_cons (hvalid : msg.Valid) (msgs : List Message) :
    RoundTrips (msg :: msgs) ↔ msg.Fits ∧ RoundTrips msgs := by
  obtain ⟨bytes, hbytes, hfit, hunfit⟩ := Message.encode_ok hvalid
  constructor
  · rintro ⟨all, hall, decoded, hdec, hcontent⟩
    rw [encodeAll, hbytes] at hall
    cases hrest : encodeAll msgs with
    | error err =>
      rw [hrest] at hall
      cases hall
    | ok rest =>
      rw [hrest] at hall
      cases hall
      obtain ⟨first, ys, hfirst, hdec⟩ := andThen_ok hdec
      obtain ⟨others, zs, hothers, hdec⟩ := andThen_ok hdec
      cases hdec
      obtain ⟨hhead, htail⟩ := cons.inj hcontent
      by_cases hfits : msg.Fits
      · obtain ⟨sent, haccepts, -⟩ := hfit hfits
        have hys : ys = rest := by
          have heq := hfirst.symm.trans (haccepts rest)
          exact congrArg Prod.snd (Except.ok.inj heq)
        subst hys
        exact ⟨hfits, ys, hrest, others, hothers, htail⟩
      · exact absurd hhead (hunfit hfits _ _ _ hfirst)
  · rintro ⟨hfits, rest, hrest, others, hothers, hcontent⟩
    obtain ⟨sent, haccepts, hsent⟩ := hfit hfits
    refine ⟨bytes ++ rest, ?_, sent :: others, ?_, ?_⟩
    · rw [encodeAll, hbytes, hrest]
      rfl
    · rw [length_cons, times, andThen, haccepts rest]
      simp only [andThen, hothers]
      rfl
    · rw [map_cons, map_cons, hsent, hcontent]

/-- A compound of valid messages is returned by the decoder exactly if its application
data and its feedback entries fit the length fields. -/
theorem compound_round_trip_iff (msgs : List Message) (hvalid : ∀ msg ∈ msgs, msg.Valid) :
    RoundTrips msgs ↔ ∀ msg ∈ msgs, msg.Fits := by
  induction msgs with
  | nil => exact ⟨fun _ msg hmsg => (by cases hmsg), fun _ => ⟨[], rfl, [], rfl, rfl⟩⟩
  | cons msg msgs ih =>
    rw [roundTrips_cons (hvalid msg mem_cons_self), ih fun m hm => hvalid m (mem_cons_of_mem _ hm),
      forall_mem_cons]

/-- A compound with a message of each type. -/
theorem compound_round_trip_types : RoundTrips
    [.sr ⟨1, 2, 3, 4, 5, 6⟩ [⟨7, 8, -1, 9, 10, 11, 12⟩], .rr 1 [],
      .sdes [⟨1, [(1, some [97, 98, 99]), (2, none)]⟩],
      .bye [1, 2] (some [99, 105, 97, 111]), .app 3 1 [110, 97, 109, 101]
      (some [1, 2, 3, 4]), .fir 0 1,
      .nack 0 1 2 3, .gnack 1 2 [⟨3, 4⟩, ⟨5, 6⟩], .pli 1 2, .sli 1 2 [⟨8191, 1, 63⟩],
      .firRfc5104 1 2 [⟨3, 255⟩]] :=
  (compound_round_trip_iff _ (by decide)).mpr (by decide)

/-- Application data with as many words as the length field cannot count. -/
theorem long_app_not_returned :
    ¬ ∀ msgs : List Message, (∀ msg ∈ msgs, msg.Valid) → RoundTrips msgs := by
  intro h
  have hvalid : (Message.app 0 1 [110, 97, 109, 101] (some (replicate 262136 0))).Valid := by
    refine ⟨zero_le _, rfl, fun d hd => ?_⟩
    cases hd
    rw [length_replicate]
  have htrip := h [.app 0 1 [110, 97, 109, 101] (some (replicate 262136 0))] fun msg hmsg => by
    rw [mem_singleton.mp hmsg]
    exact hvalid
  have hfits := ((roundTrips_cons hvalid []).mp htrip).1
  simp only [Message.Fits, getD_some, length_replicate] at hfits
  omega

end LibRe.Rtcp
