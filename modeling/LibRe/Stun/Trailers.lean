/-
LibRe.Stun.Trailers — STUN messages are decoded and checked as they were encoded.

`Frame.message` is the message as bytes: the header with its final length, the attributes and
the two trailers, each over the header that counts it. `vencode_bytes` says that the
encoder, which writes the header up to three times and goes back and forth in the
buffer, has written exactly this. Each check finds under the length it sets the bytes
that the encoder took the digest of, and puts the length back. `message_round_trip` puts
this together; `long_message_decoded` is a message whose length does not fit its field.
-/
import LibRe.Stun.MsgTheorems

namespace LibRe.Stun

open Bytes Reader Read List

variable {attrs : List StunAttr} {mb : Mbuf} {key : Option Bytes} {fp : Bool}
  {args : List (UInt16 × Option AttrArg)}

/-! ## The message as bytes -/

/-- What a message is made of besides its attributes. -/
structure Frame where
  D : Digests
  type : UInt16
  tid : Tid
  key : Option Bytes
  fp : Bool
  padding : UInt8

section

variable (c : Frame)

/-- The header for `len` bytes behind it. -/
def Frame.hdr (len : Nat) : StunHdr where
  type := c.type
  len := UInt16.ofNat len
  cookie := magicCookie
  tid := c.tid.bytes

/-- Attributes as bytes. -/
def Frame.bytes (attrs : List StunAttr) : Bytes := attrs.flatMap (StunAttr.bytes c.tid c.padding)

/-- MESSAGE-INTEGRITY, over the header that counts it and the attributes `A`. -/
def Frame.integrity (A : Bytes) : List StunAttr :=
  match c.key with
  | some key =>
    [⟨StunAttrib.MSG_INTEGRITY.code,
      .msgIntegrity (c.D.hmacSha1 key (hdrBytes (c.hdr (A.length + miSize)) ++ A)).val⟩]
  | none => []

/-- FINGERPRINT, over the header that counts it and all that is before it. -/
def Frame.fingerprint (B : Bytes) : List StunAttr :=
  if c.fp then
    [⟨StunAttrib.FINGERPRINT.code,
      .uint32 (Stun.fingerprint c.D (hdrBytes (c.hdr (B.length + fpSize)) ++ B))⟩]
  else []

/-- All attributes of a message, with the trailers. -/
def Frame.allAttrs (attrs : List StunAttr) : List StunAttr :=
  let attrs := attrs ++ c.integrity (c.bytes attrs)
  attrs ++ c.fingerprint (c.bytes attrs)

/-- The bytes behind the header. -/
def Frame.body (attrs : List StunAttr) : Bytes := c.bytes (c.allAttrs attrs)

/-- The whole message. -/
def Frame.message (attrs : List StunAttr) : Bytes :=
  hdrBytes (c.hdr (c.body attrs).length) ++ c.body attrs

theorem Frame.bytes_append (as bs : List StunAttr) :
    c.bytes (as ++ bs) = c.bytes as ++ c.bytes bs :=
  flatMap_append

theorem Frame.length_hdr (len : Nat) : (hdrBytes (c.hdr len)).length = 20 :=
  length_hdrBytes c.tid.length_eq

theorem Frame.integrity_valid (A : Bytes) : ∀ attr ∈ c.integrity A, attr.Valid := by
  intro attr hattr
  rw [integrity] at hattr
  cases hkey : c.key with
  | none =>
    rw [hkey] at hattr
    cases hattr
  | some key =>
    rw [hkey] at hattr
    cases mem_singleton.mp hattr
    exact (c.D.hmacSha1 key _).property

theorem Frame.fingerprint_valid (B : Bytes) : ∀ attr ∈ c.fingerprint B, attr.Valid := by
  intro attr hattr
  rw [fingerprint] at hattr
  split_ifs at hattr
  · cases mem_singleton.mp hattr
    exact trivial
  · cases hattr

theorem Frame.allAttrs_valid (h : ∀ attr ∈ attrs, attr.Valid) :
    ∀ attr ∈ c.allAttrs attrs, attr.Valid := by
  intro attr hattr
  rcases mem_append.mp hattr with hattr | hattr
  · grind [integrity_valid]
  · exact c.fingerprint_valid _ attr hattr

/-- The trailers have a fixed size. -/
theorem Frame.length_integrity (A : Bytes) :
    (c.bytes (c.integrity A)).length = if c.key.isSome then miSize else 0 := by
  rw [integrity]
  cases c.key with
  | none => rfl
  | some key =>
    have hlen := (c.D.hmacSha1 key (hdrBytes (c.hdr (A.length + miSize)) ++ A)).property
    have hkind : attrKind StunAttrib.MSG_INTEGRITY.code = .msgIntegrity := by decide
    simp only [bytes, flatMap_cons, flatMap_nil, append_nil, StunAttr.bytes, hkind,
      valueEncode_msgIntegrity, length_attrBytes, length_take, hlen]
    rfl

theorem Frame.length_fingerprint (B : Bytes) :
    (c.bytes (c.fingerprint B)).length = if c.fp then fpSize else 0 := by
  rw [fingerprint]
  cases c.fp with
  | false => rfl
  | true =>
    have hkind : attrKind StunAttrib.FINGERPRINT.code = .uint32 := by decide
    simp only [bytes, if_true, flatMap_cons, flatMap_nil, append_nil, StunAttr.bytes, hkind,
      valueEncode_uint32, length_attrBytes, length_be32]
    rfl

theorem Frame.body_eq (attrs : List StunAttr) :
    c.body attrs = c.bytes (attrs ++ c.integrity (c.bytes attrs)) ++
      c.bytes (c.fingerprint (c.bytes (attrs ++ c.integrity (c.bytes attrs)))) := c.bytes_append _ _

end

variable {c : Frame} {tid : Tid} {padding : UInt8}

/-! ## What the encoder writes -/

variable {old A : Bytes} {n : Nat}

/-- The header is written over the room that was left for it, or over an earlier one. -/
theorem hdrEncode_bytes (h : mb.upto n = pre ++ (old ++ rest)) (hn : mb.end_ ≤ n)
    (hold : old.length = 20) (hused : n ≤ max mb.end_ (pre.length + 20)) {hdr : StunHdr}
    (htid : hdr.tid.length = 12) :
    (stunHdrEncode (mbufSetPos mb pre.length) hdr).bytes = pre ++ (hdrBytes hdr ++ rest) := by
  have hlen := length_hdrBytes htid
  have hall := congrArg length h
  rw [length_upto, length_append, length_append, hold] at hall
  have hend : (stunHdrEncode (mbufSetPos mb pre.length) hdr).end_ = n := by
    show max mb.end_ (pre.length + (hdrBytes hdr).length) = n
    omega
  have hwrite : (mbufSetPos mb pre.length).pos + (hdrBytes hdr).length ≤ n := by
    simp
    omega
  rw [← upto_end, hend, stunHdrEncode, mbufWriteMem_upto hwrite, mbufSetPos_upto, h, mbufSetPos_pos,
    ← append_assoc, overwrite_append _ _ _ _ (by omega), append_assoc]

/-- A trailer is written at the end; it does not need the transaction ID. -/
theorem trailerEncode (mb : Mbuf) {attr : StunAttr} (h : attr.Valid) (tid : Tid) (padding : UInt8)
    (hkind : attrKind attr.type ≠ .xorAddr) :
    ∃ mb', stunAttrEncode (mbufSetPos mb mb.end_) attr.type (.val attr.v) none padding = .ok mb' ∧
      mb'.bytes = mb.bytes ++ attr.bytes tid padding ∧ mb'.pos = mb'.end_ := by
  obtain ⟨bytes, henc, hbytes⟩ := attr.encodes h tid padding fun hxor => absurd hxor hkind
  have hpos : (mbufSetPos mb mb.end_).pos = (mbufSetPos mb mb.end_).end_ := rfl
  refine ⟨mbufWriteMem (mbufSetPos mb mb.end_) (attrBytes attr.type bytes padding), ?_, ?_, ?_⟩
  · rw [stunAttrEncode, henc]
  · rw [mbufWriteMem_bytes hpos, hbytes, mbufSetPos_bytes]
  · rw [mbufWriteMem_pos, mbufWriteMem_end hpos, hpos]

/-- The difference of the sizes wraps around to the length. -/
theorem msgLen_eq {start : Nat} (h : mb.pos = start + 20 + n) (k : Nat) :
    msgLen mb start k = UInt16.ofNat (n + k) := by
  rw [msgLen]
  apply UInt16.toNat_inj.mp
  rw [UInt16.toNat_ofNat', UInt16.toNat_ofNat', h, stunHeaderSize]
  omega

/-- Under a header that counts a trailer of `k` bytes, which is still to be written. -/
theorem headed (h : mb.bytes = pre ++ (hdrBytes (c.hdr n) ++ A)) :
    (mbufSetPos mb pre.length).left = hdrBytes (c.hdr n) ++ A ∧
      mb.end_ = pre.length + 20 + A.length ∧
      ∀ k, stepBack mb (pre.length + stunHeaderSize + (A.length + k)) k =
        .ok (mbufSetPos mb mb.end_) := by
  have hend : mb.end_ = pre.length + 20 + A.length := by
    rw [end_of_bytes h, length_append, length_append, c.length_hdr, add_assoc]
  refine ⟨left_of_bytes h rfl, hend, fun k => ?_⟩
  rw [stepBack, if_neg (by omega), hend, stunHeaderSize, ← add_assoc, Nat.add_sub_cancel]

/-- The encoder stands at the end of the attributes. -/
theorem addIntegrity_ok (hn : n = A.length + if c.key.isSome then miSize else 0)
    (hlen : n < 65536) (h : mb.bytes = pre ++ (hdrBytes (c.hdr n) ++ A)) (hpos : mb.pos = mb.end_) :
    ∃ mb', addIntegrity c.D c.key c.padding pre.length (UInt16.ofNat n) mb = .ok mb' ∧
      mb'.bytes = pre ++ (hdrBytes (c.hdr n) ++ (A ++ c.bytes (c.integrity A))) ∧
      mb'.pos = mb'.end_ := by
  have hvalid := c.integrity_valid A
  rw [Frame.integrity] at hvalid ⊢
  cases hkey : c.key with
  | none =>
    refine ⟨mb, rfl, ?_, hpos⟩
    rw [h, Frame.bytes, flatMap_nil, append_nil]
  | some key =>
    rw [hkey] at hn hvalid
    obtain rfl : n = A.length + miSize := hn
    obtain ⟨hleft, -, hback⟩ := headed h
    have hnum : (UInt16.ofNat (A.length + miSize)).toNat = A.length + miSize :=
      UInt16.toNat_ofNat_of_lt' hlen
    have hkind : attrKind StunAttrib.MSG_INTEGRITY.code ≠ .xorAddr := by decide
    obtain ⟨mb', henc, hbytes, hpos'⟩ :=
      trailerEncode mb (hvalid _ mem_cons_self) c.tid c.padding hkind
    refine ⟨mb', ?_, ?_, hpos'⟩
    · simp only [addIntegrity, hnum, hleft, hback]
      exact henc
    · simp [Frame.bytes, hbytes, h]

theorem addFingerprint_ok {B : Bytes} (len : Nat) (hfp : c.fp = true) (hold : old.length = 20)
    (hlen : B.length + fpSize < 65536) (hpos : mb.pos = mb.end_)
    (h : mb.bytes = pre ++ (old ++ B)) :
    ∃ mb', addFingerprint c.D c.padding pre.length (c.hdr len) mb = .ok mb' ∧
      mb'.bytes = pre ++ (hdrBytes (c.hdr (B.length + fpSize)) ++
        (B ++ c.bytes (c.fingerprint B))) := by
  have hend : mb.end_ = pre.length + 20 + B.length := by
    rw [end_of_bytes h, length_append, length_append, hold, add_assoc]
  have hfield : msgLen mb pre.length fpSize = UInt16.ofNat (B.length + fpSize) :=
    msgLen_eq (hpos.trans hend) fpSize
  have hwritten : (stunHdrEncode (mbufSetPos mb pre.length) (c.hdr (B.length + fpSize))).bytes =
      pre ++ (hdrBytes (c.hdr (B.length + fpSize)) ++ B) :=
    hdrEncode_bytes ((upto_end mb).trans h) le_rfl hold (le_max_left _ _) c.tid.length_eq
  generalize hmb : stunHdrEncode (mbufSetPos mb pre.length) (c.hdr (B.length + fpSize)) = mb₁
    at hwritten
  obtain ⟨hleft, -, hback⟩ := headed hwritten
  have hvalid := c.fingerprint_valid B
  rw [Frame.fingerprint, if_pos hfp] at hvalid ⊢
  have hkind : attrKind StunAttrib.FINGERPRINT.code ≠ .xorAddr := by decide
  obtain ⟨mb', henc, hbytes, -⟩ := trailerEncode mb₁ (hvalid _ mem_cons_self) c.tid c.padding hkind
  refine ⟨mb', ?_, ?_⟩
  · have hnum : (c.hdr (B.length + fpSize)).len.toNat = B.length + fpSize :=
      UInt16.toNat_ofNat_of_lt' hlen
    rw [addFingerprint, hfield]
    show fingerprintUnder c.D c.padding pre.length (c.hdr (B.length + fpSize)) mb = _
    simp only [fingerprintUnder, hmb, hleft, hnum, hback]
    exact henc
  · simp [Frame.bytes, hbytes, hwritten]

/-- The end of the encoder: the header in front of the attributes, and the trailers. -/
theorem finishMsg_ok {W room : Bytes}
    (h : Wrote W (pre.length + 20) (pre ++ room ++ c.bytes attrs) mb)
    (hroom : room.length = 20) (hend : W.length ≤ mb.pos)
    (hlen : c.key = none ∧ c.fp = false ∨ (c.body attrs).length < 65536) :
    ∃ mb', finishMsg c.D c.type c.tid c.key c.fp c.padding pre.length mb = .ok mb' ∧
      mb'.bytes = pre ++ c.message attrs := by
  rw [Frame.message]
  rw [c.body_eq, c.bytes_append] at hlen ⊢
  generalize c.bytes attrs = A at h hlen ⊢
  generalize hB : A ++ c.bytes (c.integrity A) = B at hlen ⊢
  have hBlen : B.length = A.length + if c.key.isSome then miSize else 0 := by
    rw [← hB, length_append, c.length_integrity]
  rw [length_append, c.length_fingerprint] at hlen ⊢
  have hpos : mb.pos = pre.length + 20 + A.length := by
    rw [h.pos, length_append, length_append, hroom]
  have hfield : msgLen mb pre.length (if c.key.isSome then miSize else 0) =
      UInt16.ofNat B.length := by
    rw [msgLen_eq hpos, hBlen]
  have hwritten : (stunHdrEncode (mbufSetPos mb pre.length) (c.hdr B.length)).bytes =
      pre ++ (hdrBytes (c.hdr B.length) ++ A) := by
    have htail := congrArg length h.tail
    rw [length_drop, length_drop, length_bytes] at htail
    have hused := h.used
    exact hdrEncode_bytes (h.upto.trans (append_assoc ..)) (by omega) hroom (by omega)
      c.tid.length_eq
  rcases hlen with ⟨hkey, hfp⟩ | hlen
  · have hBA : B = A := by
      rw [← hB, Frame.integrity, hkey]
      exact append_nil A
    rw [← hBA] at hwritten
    rw [finishMsg, hfield, hkey, hfp]
    exact ⟨_, rfl, hwritten.trans (by simp [Frame.fingerprint, Frame.bytes, hfp])⟩
  have hpos₁ : (stunHdrEncode (mbufSetPos mb pre.length) (c.hdr B.length)).pos + B.length -
      (if c.key.isSome then miSize else 0) = pre.length + 20 + A.length := by
    simp [c.length_hdr, stunHdrEncode]
    omega
  generalize hmb₁ : stunHdrEncode (mbufSetPos mb pre.length) (c.hdr B.length) = mb₁
    at hwritten hpos₁
  generalize hmb₂ : mbufSetPos mb₁ (pre.length + 20 + A.length) = mb₂
  have hwritten₂ : mb₂.bytes = pre ++ (hdrBytes (c.hdr B.length) ++ A) := by
    rw [← hmb₂]
    exact hwritten
  have hend₂ : mb₂.pos = mb₂.end_ := by rw [(headed hwritten₂).2.1, ← hmb₂, mbufSetPos_pos]
  obtain ⟨mb₃, hmi, hbytes, hend₃⟩ := addIntegrity_ok hBlen (by omega) hwritten₂ hend₂
  rw [hB] at hbytes
  have hfinish : finishMsg c.D c.type c.tid c.key c.fp c.padding pre.length mb =
      if c.fp then addFingerprint c.D c.padding pre.length (c.hdr B.length) mb₃ else .ok mb₃ := by
    have hnum : (c.hdr B.length).len.toNat = B.length :=
      UInt16.toNat_ofNat_of_lt' (show _ < 65536 by omega)
    rw [finishMsg, hfield]
    show finishUnder c.D (c.hdr B.length) c.key c.fp c.padding pre.length mb = _
    simp only [finishUnder, hmb₁, hnum, hpos₁, hmb₂]
    rw [show (c.hdr B.length).len = UInt16.ofNat B.length from rfl, hmi]
  rw [hfinish]
  cases hfp : c.fp with
  | false => simp [Frame.fingerprint, Frame.bytes, hbytes, hfp]
  | true =>
    rw [hfp] at hlen
    obtain ⟨mb', henc, hall⟩ :=
      addFingerprint_ok B.length hfp (c.length_hdr B.length) hlen hend₃ hbytes
    exact ⟨mb', (if_pos rfl).trans henc, hall⟩

/-- The error code as the first of the attributes. -/
def ecArgs : Option StunErrcode → List (UInt16 × Option AttrArg)
  | some ec => [(StunAttrib.ERR_CODE.code, some (.val (.errCode ec.code ec.reason)))]
  | none => []

/-- The transaction ID makes no difference to the error code. -/
theorem errCodeEncode_tid (mb : Mbuf) (code : UInt16) (reason : Bytes) (tid : Option Bytes)
    (padding : UInt8) :
    stunAttrEncode mb StunAttrib.ERR_CODE.code (.val (.errCode code reason)) none padding =
      stunAttrEncode mb StunAttrib.ERR_CODE.code (.val (.errCode code reason)) tid padding := by
  rw [stunAttrEncode, stunAttrEncode, valueEncode_tid (by decide) _ none tid]

/-- The error code is written like another attribute in front. -/
theorem errcodeEncode_ok {ec : Option StunErrcode} {tid : Bytes} {mb' : Mbuf}
    (h : attrsEncode tid padding (ecArgs ec ++ args) mb = .ok mb') :
    ∃ mb₀, errcodeEncode ec padding mb = .ok mb₀ ∧ attrsEncode tid padding args mb₀ = .ok mb' := by
  cases ec with
  | none => exact ⟨mb, rfl, h⟩
  | some ec =>
    rw [ecArgs, singleton_append, attrsEncode] at h
    rw [errcodeEncode, errCodeEncode_tid mb ec.code ec.reason (some tid) padding]
    generalize stunAttrEncode mb StunAttrib.ERR_CODE.code _ (some tid) padding = written at h ⊢
    cases written with
    | error err => cases h
    | ok mb₀ => exact ⟨mb₀, rfl, h⟩

section

variable (c : Frame) {method cls : UInt16} (htype : c.type = stunType method cls)
  (ec : Option StunErrcode)
  (hplaced : placed c.tid c.padding mb.bytes (mb.pos + stunHeaderSize) (ecArgs ec ++ args) =
    some attrs)
  (hvalid : ∀ attr ∈ attrs, attr.Valid)

include htype hplaced hvalid

/-- The encoder up to the header: the attributes stand behind the room for it. -/
theorem vencode_wrote :
    ∃ mb' room, stunMsgVencode c.D mb method cls c.tid ec c.key c.fp c.padding args =
        finishMsg c.D c.type c.tid c.key c.fp c.padding (mb.upto mb.pos).length mb' ∧
      room.length = 20 ∧ mb'.pos = mb.pos + stunHeaderSize + (c.bytes attrs).length ∧
      Wrote mb.bytes ((mb.upto mb.pos).length + 20) (mb.upto mb.pos ++ room ++ c.bytes attrs)
        mb' := by
  have hprelen : (mb.upto mb.pos).length = mb.pos := length_upto mb mb.pos
  have hfront : mb.upto (mb.pos + stunHeaderSize) =
      mb.upto mb.pos ++ (mb.upto (mb.pos + stunHeaderSize)).drop mb.pos := by
    have hsplit := take_append_drop mb.pos (mb.upto (mb.pos + stunHeaderSize))
    rw [upto_take mb (Nat.le_add_right _ _)] at hsplit
    exact hsplit.symm
  generalize hroom : (mb.upto (mb.pos + stunHeaderSize)).drop mb.pos = room at hfront
  generalize mb.upto mb.pos = pre at hprelen hfront ⊢
  have hroomlen : room.length = 20 := by
    grind [length_upto, stunHeaderSize]
  have hstart : Wrote mb.bytes (pre.length + 20) (pre ++ room) (mbufAdvance mb stunHeaderSize) := by
    refine ⟨?_, hfront, rfl, ?_⟩
    · rw [← hfront, length_upto]
      rfl
    · rw [hprelen]
      exact le_max_left _ _
  obtain ⟨mb', hattrs, hwrote⟩ := attrsEncode_ok c.tid c.padding _ hstart hplaced hvalid
  obtain ⟨mb₀, hec, hargs⟩ := errcodeEncode_ok hattrs
  refine ⟨mb', room, ?_, hroomlen, ?_, hwrote⟩
  · simp [stunMsgVencode, hec, hprelen, hargs, htype]
  · rw [hwrote.pos, length_append, length_append, hroomlen, hprelen, stunHeaderSize]
    rfl

/-- The encoder writes the message behind what is before the position; without trailers it
may have any length. -/
theorem vencode_bytes (hend : mb.end_ ≤ mb.pos + stunHeaderSize + (c.bytes attrs).length)
    (hlen : c.key = none ∧ c.fp = false ∨ (c.body attrs).length < 65536) :
    ∃ mb', stunMsgVencode c.D mb method cls c.tid ec c.key c.fp c.padding args = .ok mb' ∧
      mb'.bytes = mb.upto mb.pos ++ c.message attrs := by
  obtain ⟨mb₁, room, henc, hroom, hpos, hwrote⟩ := vencode_wrote c htype ec hplaced hvalid
  rw [henc]
  exact finishMsg_ok hwrote hroom (by rw [length_bytes, hpos]; exact hend) hlen

end

/-! ## What the decoder returns -/

/-- The bits of the method and the class do not meet. -/
theorem stunType_ok (method : StunMethod) (cls : StunClass) :
    let type := stunType method.code cls.code
    (type &&& 0xc000 = 0 ∧ type &&& 0x3fff = type) ∧ stunMethod type = method.code ∧
      stunClass type = cls.code := by
  cases method <;> cases cls <;> decide

/-- The message that the decoder returns for the bytes of a message. -/
def Frame.decoded (c : Frame) (attrs : List StunAttr) (start : Nat) : StunMsg where
  hdr := c.hdr (c.body attrs).length
  attrl := c.allAttrs attrs
  start := start

theorem decode_message (htype : c.type &&& 0xc000 = 0 ∧ c.type &&& 0x3fff = c.type)
    (hvalid : ∀ attr ∈ attrs, attr.Valid) (hlen : (c.body attrs).length < 65536)
    (h : mb.left = c.message attrs) : stunMsgDecode mb = .ok (c.decoded attrs mb.pos) := by
  have hall := c.allAttrs_valid hvalid
  have hnum : (c.hdr (c.body attrs).length).len.toNat = (c.body attrs).length :=
    UInt16.toNat_ofNat_of_lt' hlen
  have hhdr : HdrOk (c.hdr (c.body attrs).length) := by
    refine ⟨htype, ?_, c.tid.length_eq⟩
    rw [hnum]
    exact (length_flatMap_bytes hall c.tid c.padding).1
  have hleft : mb.left = hdrBytes (c.hdr (c.body attrs).length) ++ (c.body attrs ++ []) := by
    rw [h, Frame.message, append_nil]
  exact msgDecode_ok hhdr c.tid rfl c.padding hall hnum hleft

/-! ## The checks leave everything as it was -/

/-- A message at its place in the buffer, with `rest` behind the header. -/
structure Fits (pre rest : Bytes) (s : Held) : Prop where
  pos : s.2.pos = pre.length
  start : s.1.start = pre.length
  bytes : s.2.bytes = pre ++ (hdrBytes s.1.hdr ++ rest)
  tid : s.1.hdr.tid.length = 12

variable {pre rest : Bytes} {s : Held}

section

variable (h : Fits pre rest s)
include h

theorem Fits.rewriteLen (len : UInt16) : Fits pre rest (rewriteLen s len) where
  pos := h.pos
  start := h.start
  bytes := by
    have hself : mbufSetPos s.2 pre.length = s.2 := by rw [← h.pos]; rfl
    have hwritten : (stunHdrEncode (mbufSetPos s.2 pre.length) { s.1.hdr with len }).bytes = _ :=
      hdrEncode_bytes ((upto_end s.2).trans h.bytes) le_rfl (length_hdrBytes h.tid)
        (le_max_left _ _) h.tid
    rw [hself] at hwritten
    exact hwritten
  tid := h.tid

/-- The header is written back. -/
theorem Fits.rewriteLen_back (len : UInt16) :
    Stun.rewriteLen (Stun.rewriteLen s len) s.1.hdr.len = s := by
  obtain ⟨msg, mb⟩ := s
  have hsize : (hdrBytes { msg.hdr with len }).length = (hdrBytes msg.hdr).length :=
    (length_hdrBytes h.tid).trans (length_hdrBytes h.tid).symm
  have hback := mbufWriteMem_back h.bytes h.pos hsize
  exact congrArg (Prod.mk msg) hback

theorem Fits.setPos : (s.1, mbufSetPos s.2 s.1.start) = s := by
  rw [h.start, ← h.pos]
  rfl

theorem Fits.chkMi (D : Digests) (key : Bytes) : (stunMsgChkMi D key s).2 = s := by
  unfold stunMsgChkMi
  cases stunMsgAttr s.1 .MSG_INTEGRITY with
  | none => rfl
  | some mi =>
    simp only [h.setPos]
    by_cases hfp : (stunMsgAttr s.1 .FINGERPRINT).isSome
    · have hlen : (Stun.rewriteLen s (s.1.hdr.len - UInt16.ofNat fpSize)).1.hdr.len +
          UInt16.ofNat fpSize = s.1.hdr.len := UInt16.sub_add_cancel _ _
      simp only [hfp, if_true, hlen]
      exact h.rewriteLen_back _
    · simp only [hfp, Bool.false_eq_true, if_false]

theorem Fits.chkFingerprint (D : Digests) : (stunMsgChkFingerprint D s).2 = s := by
  unfold stunMsgChkFingerprint
  cases stunMsgAttr s.1 .FINGERPRINT with
  | none => rfl
  | some fp => exact h.setPos

theorem Fits.runCheck (D : Digests) (check : Check) : (Stun.runCheck D check s).2 = s := by
  cases check with
  | mi key => exact h.chkMi D key
  | fingerprint => exact h.chkFingerprint D

/-- Any number of checks in any order: each answers as if it were the first. -/
theorem Fits.runChecks (D : Digests) (checks : List Check) :
    Stun.runChecks D checks s = (checks.map fun check => (Stun.runCheck D check s).1, s) := by
  induction checks with
  | nil => rfl
  | cons check checks ih =>
    rw [Stun.runChecks]
    simp only [h.runCheck D check, ih, map_cons]

end

/-! ## The checks succeed -/

/-- What a check takes the digest of: the header and all that is before a trailer of
`k` bytes. -/
theorem Fits.slice {ys : Bytes} (h : Fits pre (A ++ ys) s) {k : Nat}
    (hlen : s.1.hdr.len.toNat = A.length + k) :
    s.2.slice s.2.pos (s.2.pos + (stunHeaderSize + s.1.hdr.len.toNat - k)) =
      hdrBytes s.1.hdr ++ A := by
  have hbytes : s.2.bytes = pre ++ ((hdrBytes s.1.hdr ++ A) ++ ys) := by rw [h.bytes, append_assoc]
  refine slice_of_bytes hbytes h.pos ?_
  rw [h.pos, hlen, length_append, length_hdrBytes h.tid, stunHeaderSize]
  omega

/-- The attributes of a type, of which the list has none. -/
def Lacks (type : StunAttrib) (attrs : List StunAttr) : Prop :=
  ∀ attr ∈ attrs, attr.type ≠ type.code

instance (type : StunAttrib) (attrs : List StunAttr) : Decidable (Lacks type attrs) :=
  inferInstanceAs (Decidable (∀ attr ∈ attrs, _))

theorem Lacks.find {type : StunAttrib} (h : Lacks type attrs) :
    attrs.find? (fun attr => attr.type = type.code) = none := by
  rw [find?_eq_none]
  intro attr hattr htype
  exact h attr hattr (of_decide_eq_true htype)

section

variable (c : Frame)

/-- MESSAGE-INTEGRITY is found behind attributes that have none. -/
theorem find_integrity {key : Bytes} (hkey : c.key = some key) (h : Lacks .MSG_INTEGRITY attrs)
    (start : Nat) :
    stunMsgAttr (c.decoded attrs start) .MSG_INTEGRITY =
      some ⟨StunAttrib.MSG_INTEGRITY.code, .msgIntegrity (c.D.hmacSha1 key (hdrBytes
        (c.hdr ((c.bytes attrs).length + miSize)) ++ c.bytes attrs)).val⟩ := by
  rw [stunMsgAttr, Frame.decoded, Frame.allAttrs, find?_append, find?_append, h.find,
    Frame.integrity, hkey]
  rfl

/-- FINGERPRINT is found if the encoder has added it, also if the attributes have one. -/
theorem find_fingerprint (h : c.fp = true ∨ Lacks .FINGERPRINT attrs) (start : Nat) :
    (stunMsgAttr (c.decoded attrs start) .FINGERPRINT).isSome = c.fp := by
  rw [stunMsgAttr, Frame.decoded, Frame.allAttrs, find?_append, Option.isSome_or, Frame.fingerprint]
  cases hfp : c.fp with
  | true => exact Bool.or_true _
  | false =>
    have hattrs := h.resolve_left (by simp [hfp])
    rw [find?_append, hattrs.find, Frame.integrity]
    cases c.key <;> rfl

end

section

variable {start : Nat} (hlen : (c.body attrs).length < 65536)
  (h : Fits pre (c.body attrs) (c.decoded attrs start, mb))

include hlen h

/-- `stun_msg_chk_mi` with the key of the encoder, if its attribute is the first of its
type, and if a fingerprint is there only with one of the encoder. -/
theorem chkMi_ok (k : Bytes) (hkey : c.key = some k) (hmi : Lacks .MSG_INTEGRITY attrs)
    (hfp : c.fp = true ∨ Lacks .FINGERPRINT attrs) :
    (stunMsgChkMi c.D k (c.decoded attrs start, mb)).1 = none := by
  have hfound := find_integrity c hkey hmi start
  have hthere := find_fingerprint c hfp start
  obtain ⟨ys, hbody, hys⟩ : ∃ ys, c.body attrs = c.bytes attrs ++ ys ∧
      ys.length = miSize + if c.fp then fpSize else 0 := by
    refine ⟨_, by rw [c.body_eq, c.bytes_append, append_assoc], ?_⟩
    rw [length_append, c.length_integrity, c.length_fingerprint, hkey]
    rfl
  generalize c.bytes attrs = A at hfound hbody
  have hhdr : (c.decoded attrs start).hdr =
      c.hdr (A.length + miSize + if c.fp then fpSize else 0) := by
    rw [Frame.decoded, hbody, length_append, hys, add_assoc]
  rw [hbody] at h hlen
  rw [length_append, hys] at hlen
  generalize c.decoded attrs start = msg at *
  -- the header that the digest is taken under, in both cases
  have hslice : ∀ s : Held, Fits pre (A ++ ys) s → s.1.hdr = c.hdr (A.length + miSize) →
      s.2.slice s.2.pos (s.2.pos + (stunHeaderSize + s.1.hdr.len.toNat - miSize)) =
        hdrBytes (c.hdr (A.length + miSize)) ++ A := by
    intro s hs hhdr
    rw [← hhdr]
    refine hs.slice ?_
    rw [hhdr]
    exact UInt16.toNat_ofNat_of_lt' (show _ < 65536 by omega)
  unfold stunMsgChkMi
  simp only [hfound, hthere, h.setPos]
  cases hadded : c.fp with
  | false =>
    rw [hadded] at hhdr
    simp only [Bool.false_eq_true, if_false, hslice _ h hhdr, if_true]
  | true =>
    rw [hadded] at hhdr
    have hlen' : msg.hdr.len - UInt16.ofNat fpSize = UInt16.ofNat (A.length + miSize) := by
      rw [hhdr]
      show UInt16.ofNat (A.length + miSize + fpSize) - UInt16.ofNat fpSize = _
      rw [UInt16.ofNat_add, UInt16.add_sub_cancel]
    have hhdr' : (rewriteLen (msg, mb) (msg.hdr.len - UInt16.ofNat fpSize)).1.hdr =
        c.hdr (A.length + miSize) := by
      rw [hlen']
      show StunHdr.mk msg.hdr.type _ msg.hdr.cookie msg.hdr.tid = _
      rw [hhdr]
      rfl
    simp only [if_true, hslice _ (h.rewriteLen _) hhdr']

/-- `stun_msg_chk_fingerprint`, if the attribute is the first of its type. -/
theorem chkFingerprint_ok (hthere : c.fp = true) (hfp : Lacks .FINGERPRINT attrs) :
    (stunMsgChkFingerprint c.D (c.decoded attrs start, mb)).1 = none := by
  generalize hB : c.bytes (attrs ++ c.integrity (c.bytes attrs)) = B
  have hbody : c.body attrs = B ++ c.bytes (c.fingerprint B) := by rw [c.body_eq, hB]
  have hlenB : (c.body attrs).length = B.length + fpSize := by
    rw [hbody, length_append, c.length_fingerprint, if_pos hthere]
  have hfound : stunMsgAttr (c.decoded attrs start) .FINGERPRINT =
      some ⟨StunAttrib.FINGERPRINT.code,
        .uint32 (fingerprint c.D (hdrBytes (c.hdr (B.length + fpSize)) ++ B))⟩ := by
    have hmi : Lacks .FINGERPRINT (c.integrity (c.bytes attrs)) := by
      intro attr hattr
      rw [Frame.integrity] at hattr
      split at hattr
      · cases mem_singleton.mp hattr
        exact show StunAttrib.MSG_INTEGRITY.code ≠ StunAttrib.FINGERPRINT.code by decide
      · cases hattr
    rw [stunMsgAttr, Frame.decoded, Frame.allAttrs, find?_append, find?_append, hfp.find, hmi.find,
      hB, Frame.fingerprint, if_pos hthere]
    rfl
  have hhdr : (c.decoded attrs start).hdr = c.hdr (B.length + fpSize) := by
    rw [Frame.decoded, hlenB]
  rw [hbody] at h
  rw [hlenB] at hlen
  generalize c.decoded attrs start = msg at *
  have hslice : mb.slice mb.pos (mb.pos + (stunHeaderSize + msg.hdr.len.toNat - fpSize)) =
      hdrBytes (c.hdr (B.length + fpSize)) ++ B := by
    rw [← hhdr]
    exact h.slice (by rw [hhdr]; exact UInt16.toNat_ofNat_of_lt' hlen)
  have hself : mbufSetPos mb msg.start = mb := congrArg Prod.snd h.setPos
  unfold stunMsgChkFingerprint
  simp only [hfound, hself, hslice, if_true]

end

/-! ## Round trip -/

/-- A message whose attributes can be written at their place, and whose length fits its
field, in a buffer with nothing behind it: the decoder returns the method, the class, the
transaction ID and the attributes with the trailers behind them. The checks answer as if
each were the only one and leave the message and the buffer as they were; they succeed if
no attribute of the list is taken for a trailer. -/
theorem message_round_trip (D : Digests) (mb : Mbuf) (method : StunMethod)
    (cls : StunClass) (tid : Tid)
    (ec : Option StunErrcode) (key : Option Bytes) (fp : Bool) (padding : UInt8)
    (args : List (UInt16 × Option AttrArg)) (attrs : List StunAttr)
    (hplaced : placed tid padding mb.bytes (mb.pos + stunHeaderSize)
      (ecArgs ec ++ args) = some attrs)
    (hvalid : ∀ attr ∈ attrs, attr.Valid)
    (hend : mb.end_ ≤ mb.pos + stunHeaderSize + (attrs.flatMap (StunAttr.bytes tid padding)).length)
    (hlen : (attrs.flatMap (StunAttr.bytes tid padding)).length +
      (if key.isSome then miSize else 0) + (if fp then fpSize else 0) < 65536) :
    ∃ mb' msg trailers, stunMsgVencode D mb method.code cls.code tid ec key fp padding args =
      .ok mb' ∧
      stunMsgDecode (mbufSetPos mb' mb.pos) = .ok msg ∧
      stunMethod msg.hdr.type = method.code ∧ stunClass msg.hdr.type = cls.code ∧
      msg.hdr.cookie = magicCookie ∧ msg.hdr.tid = tid.bytes ∧
      msg.hdr.len.toNat = mb'.end_ - mb.pos - stunHeaderSize ∧
      msg.attrl = attrs ++ trailers ∧
      trailers.map StunAttr.type = (if key.isSome then [StunAttrib.MSG_INTEGRITY.code] else []) ++
        (if fp then [StunAttrib.FINGERPRINT.code] else []) ∧
      (∀ checks, runChecks D checks (msg, mbufSetPos mb' mb.pos) =
        (checks.map fun check => (runCheck D check (msg, mbufSetPos mb' mb.pos)).1, msg,
          mbufSetPos mb' mb.pos)) ∧
      (∀ k, key = some k → Lacks .MSG_INTEGRITY attrs → (fp = true ∨ Lacks .FINGERPRINT attrs) →
        (stunMsgChkMi D k (msg, mbufSetPos mb' mb.pos)).1 = none) ∧
      (fp = true → Lacks .FINGERPRINT attrs →
        (stunMsgChkFingerprint D (msg, mbufSetPos mb' mb.pos)).1 = none) := by
  obtain ⟨htype, hmethod, hcls⟩ := stunType_ok method cls
  let c : Frame := { D, type := stunType method.code cls.code, tid, key, fp, padding }
  have hbody : (c.body attrs).length < 65536 := by
    rw [c.body_eq, c.bytes_append, length_append, length_append, c.length_integrity,
      c.length_fingerprint]
    exact hlen
  obtain ⟨mb', henc, hbytes⟩ := vencode_bytes c rfl ec hplaced hvalid hend (.inr hbody)
  have hpre := length_upto mb mb.pos
  generalize mb.upto mb.pos = pre at hbytes hpre
  have hleft : (mbufSetPos mb' mb.pos).left = c.message attrs := left_of_bytes hbytes hpre.symm
  have hfits : Fits pre (c.body attrs) (c.decoded attrs mb.pos, mbufSetPos mb' mb.pos) :=
    ⟨hpre.symm, hpre.symm, hbytes, tid.length_eq⟩
  refine ⟨mb', c.decoded attrs mb.pos, _, henc, decode_message htype hvalid hbody hleft, hmethod,
    hcls, rfl, rfl, ?_, append_assoc _ _ _, ?_, hfits.runChecks D, chkMi_ok hbody hfits,
    chkFingerprint_ok hbody hfits⟩
  · rw [end_of_bytes hbytes, length_append, Frame.message, length_append, c.length_hdr, hpre,
      stunHeaderSize]
    show (UInt16.ofNat _).toNat = _
    rw [UInt16.toNat_ofNat_of_lt' hbody]
    omega
  · rw [map_append]
    congr 1
    · cases key <;> rfl
    · cases fp <;> rfl

/-- Digests to compute with: sums of the bytes. -/
def sumDigests : Digests where
  hmacSha1 key msg := ⟨List.replicate 20 (UInt8.ofNat ((key ++ msg).map UInt8.toNat).sum),
    length_replicate⟩
  crc32 msg := UInt32.ofNat (msg.map UInt8.toNat).sum

/-- A transaction ID to compute with. -/
def someTid : Tid := ⟨List.replicate 12 7, rfl⟩

/-- A message with an xored address, a user name, a key and a fingerprint. -/
theorem message_round_trip_binding :
    ∃ mb' msg trailers, stunMsgVencode sumDigests mbufInit StunMethod.BINDING.code
        StunClass.SUCCESS_RESP.code someTid none (some [1, 2, 3]) true 0
        [(StunAttrib.XOR_MAPPED_ADDR.code, some (.val (.sa (.inet 0xc0000201 3478)))),
          (StunAttrib.SOFTWARE.code, none),
          (StunAttrib.USERNAME.code, some (.val (.str [97, 98, 99])))] = .ok mb' ∧
      stunMsgDecode (mbufSetPos mb' 0) = .ok msg ∧
      msg.attrl = [⟨StunAttrib.XOR_MAPPED_ADDR.code, .sa (.inet 0xc0000201 3478)⟩,
        ⟨StunAttrib.USERNAME.code, .str [97, 98, 99]⟩] ++ trailers ∧
      (stunMsgChkMi sumDigests [1, 2, 3] (msg, mbufSetPos mb' 0)).1 = none := by
  obtain ⟨mb', msg, trailers, henc, hdec, -, -, -, -, -, hattrs, -, -, hmi, -⟩ :=
    message_round_trip sumDigests mbufInit .BINDING .SUCCESS_RESP someTid none
      (some [1, 2, 3]) true 0
      [(StunAttrib.XOR_MAPPED_ADDR.code, some (.val (.sa (.inet 0xc0000201 3478)))),
        (StunAttrib.SOFTWARE.code, none),
        (StunAttrib.USERNAME.code, some (.val (.str [97, 98, 99])))]
      [⟨StunAttrib.XOR_MAPPED_ADDR.code, .sa (.inet 0xc0000201 3478)⟩,
        ⟨StunAttrib.USERNAME.code, .str [97, 98, 99]⟩]
      (by decide) (by decide) (by decide) (by decide)
  exact ⟨mb', msg, trailers, henc, hdec, hattrs, hmi _ rfl (by decide) (Or.inl rfl)⟩

theorem data_valid (data : Bytes) : ∀ attr ∈ [StunAttr.mk StunAttrib.DATA.code (.mb data)],
    attr.Valid := by
  intro attr hattr
  cases mem_singleton.mp hattr
  exact trivial

/-- One attribute of 65536 bytes: the length in the header is zero, and the decoder finds
no attribute. -/
theorem long_message_decoded (D : Digests) {data : Bytes} (hdata : data.length = 65532) :
    ∃ mb' msg, stunMsgVencode D mbufInit StunMethod.SEND.code StunClass.INDICATION.code someTid none
        none false 0 [(StunAttrib.DATA.code, some (.val (.mb data)))] = .ok mb' ∧
      stunMsgDecode (mbufSetPos mb' 0) = .ok msg ∧ msg.attrl = [] := by
  let c : Frame :=
    { D, type := stunType StunMethod.SEND.code StunClass.INDICATION.code, tid := someTid
      key := none, fp := false, padding := 0 }
  have hlen : (c.body [⟨StunAttrib.DATA.code, .mb data⟩]).length = 65536 := by
    have hkind : attrKind StunAttrib.DATA.code = .mb := by decide
    simp [c, Frame.body, Frame.allAttrs, Frame.integrity, Frame.fingerprint, Frame.bytes,
      StunAttr.bytes, hkind, valueEncode_mb, length_attrBytes, hdata]
  have hplaced : placed c.tid c.padding mbufInit.bytes (mbufInit.pos + stunHeaderSize)
      (ecArgs none ++ [(StunAttrib.DATA.code, some (.val (.mb data)))]) =
        some [⟨StunAttrib.DATA.code, .mb data⟩] := rfl
  obtain ⟨mb', henc, hbytes⟩ := vencode_bytes c rfl none hplaced (data_valid data) (Nat.zero_le _)
    (.inl ⟨rfl, rfl⟩)
  rw [Frame.message, hlen] at hbytes
  have hhdr : HdrOk (c.hdr 65536) := ⟨(stunType_ok .SEND .INDICATION).1, rfl, rfl⟩
  have hnone : ∀ attr ∈ ([] : List StunAttr), attr.Valid := by simp
  have hleft : (mbufSetPos mb' 0).left = _ := left_of_bytes hbytes rfl
  exact ⟨mb', _, henc, msgDecode_ok hhdr someTid rfl 0 hnone rfl hleft, rfl⟩

/-- The messages that meet `P` pass the check of their fingerprint. -/
def FingerprintsPass (P : Mbuf → List StunAttr → Prop) : Prop :=
  ∀ (D : Digests) (mb : Mbuf) (method : StunMethod) (cls : StunClass) (tid : Tid) (padding : UInt8)
    (args : List (UInt16 × Option AttrArg)) (attrs : List StunAttr),
    placed tid padding mb.bytes (mb.pos + stunHeaderSize) args = some attrs →
    (∀ attr ∈ attrs, attr.Valid) →
    (attrs.flatMap (StunAttr.bytes tid padding)).length + fpSize < 65536 → P mb attrs →
    ∃ mb' msg, stunMsgVencode D mb method.code cls.code tid none none true padding args = .ok mb' ∧
      stunMsgDecode (mbufSetPos mb' mb.pos) = .ok msg ∧
      (stunMsgChkFingerprint D (msg, mbufSetPos mb' mb.pos)).1 = none

/-- The check of a Binding request with a fingerprint. -/
def checkBinding (mb : Mbuf) (args : List (UInt16 × Option AttrArg)) : Option Errno :=
  (stunMsgVencode sumDigests mb StunMethod.BINDING.code StunClass.REQUEST.code someTid
    none none true 0 args).toOption.bind fun mb' =>
      (stunMsgDecode (mbufSetPos mb' mb.pos)).toOption.bind fun msg =>
        (stunMsgChkFingerprint sumDigests (msg, mbufSetPos mb' mb.pos)).1

theorem FingerprintsPass.checkBinding {P : Mbuf → List StunAttr → Prop} (hall : FingerprintsPass P)
    (mb : Mbuf) (args : List (UInt16 × Option AttrArg)) {attrs : List StunAttr}
    (hplaced : placed someTid 0 mb.bytes (mb.pos + stunHeaderSize) args = some attrs)
    (hvalid : ∀ attr ∈ attrs, attr.Valid)
    (hlen : (attrs.flatMap (StunAttr.bytes someTid 0)).length + fpSize < 65536) (hP : P mb attrs) :
    Stun.checkBinding mb args = none := by
  obtain ⟨mb', msg, henc, hdec, hchk⟩ :=
    hall sumDigests mb .BINDING .REQUEST someTid 0 args attrs hplaced hvalid hlen hP
  simp [Stun.checkBinding, henc, hdec, hchk, Except.toOption]

/-- No condition can be left out: attributes of 65536 bytes are lost, a fingerprint in the
list of attributes is checked in the place of the one of the encoder, and what stands behind
the message in the buffer goes into the fingerprint. -/
theorem message_not_always_returned :
    (¬ ∀ (D : Digests) (mb : Mbuf) (method : StunMethod) (cls : StunClass) (tid : Tid)
      (ec : Option StunErrcode) (key : Option Bytes) (fp : Bool) (padding : UInt8)
      (args : List (UInt16 × Option AttrArg)) (attrs : List StunAttr),
      placed tid padding mb.bytes (mb.pos + stunHeaderSize) (ecArgs ec ++ args) = some attrs →
      (∀ attr ∈ attrs, attr.Valid) →
      mb.end_ ≤ mb.pos + stunHeaderSize + (attrs.flatMap (StunAttr.bytes tid padding)).length →
      ∃ mb' msg trailers,
        stunMsgVencode D mb method.code cls.code tid ec key fp padding args = .ok mb' ∧
        stunMsgDecode (mbufSetPos mb' mb.pos) = .ok msg ∧ msg.attrl = attrs ++ trailers) ∧
    ¬ FingerprintsPass (fun mb _ => mb.end_ ≤ mb.pos) ∧
    ¬ FingerprintsPass (fun _ attrs => Lacks .FINGERPRINT attrs) := by
  refine ⟨?_, ?_, ?_⟩
  · intro hall
    have hdata : (replicate 65532 (0 : UInt8)).length = 65532 := length_replicate
    obtain ⟨mb₁, msg₁, henc₁, hdec₁, hempty⟩ := long_message_decoded sumDigests hdata
    generalize replicate 65532 (0 : UInt8) = data at henc₁
    obtain ⟨mb', msg, trailers, henc, hdec, hattrs⟩ :=
      hall sumDigests mbufInit .SEND .INDICATION someTid none none false 0
        [(StunAttrib.DATA.code, some (.val (.mb data)))] _ rfl (data_valid data) (Nat.zero_le _)
    rw [henc₁] at henc
    cases henc
    have hsame := hdec₁.symm.trans hdec
    cases hsame
    rw [hempty] at hattrs
    cases hattrs
  · intro hall
    have hpass := hall.checkBinding mbufInit
      [(StunAttrib.FINGERPRINT.code, some (.val (.uint32 0)))] rfl (by decide) (by decide)
      (le_refl 0)
    exact absurd hpass (by decide +kernel)
  · intro hall
    have hpass := hall.checkBinding ⟨replicate 40 1, 0, 40, le_refl _⟩ [] rfl (by decide)
      (by decide) (by simp [Lacks])
    exact absurd hpass (by decide +kernel)

end LibRe.Stun
