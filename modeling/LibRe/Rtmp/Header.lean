/-
LibRe.Rtmp.Header — RTMP chunk headers (`src/rtmp/hdr.c`).

A chunk begins with a basic header of one to three bytes, which holds the format
and the chunk stream, then the message fields of that format, then a timestamp of
32 bits when it does not fit in 24. A header that is encoded with format 0 or 3 is
read back whatever follows it, and reading a header does not depend on what
follows it.

Translation notes. A buffer that is read is given by the bytes left in it. The
`format` of the C structure has two bits.
-/
import LibRe.Lib.Words
import LibRe.Mbuf.Mbuf

namespace LibRe.Rtmp

open Bytes List

/-- `struct rtmp_header` -/
structure RtmpHeader where
  format : Nat
  chunkId : Nat
  timestamp : UInt32 := 0
  timestampDelta : UInt32 := 0
  timestampExt : UInt32 := 0
  length : Nat := 0
  typeId : UInt8 := 0
  streamId : UInt32 := 0
  extTs : Bool := false
  deriving DecidableEq, Repr

/-- `RTMP_CHUNK_OFFSET` -/
def chunkOffset : Nat := 64

/-- `TIMESTAMP_24MAX` -/
def timestamp24max : UInt32 := 0x00ffffff

/-! ## Encoding -/

/-- `encode_basic_hdr` -/
def encodeBasicHdr (fmt chunkId : Nat) : Bytes :=
  if chunkId ≥ 320 then
    UInt8.ofNat (fmt <<< 6 ||| 1) :: be16 (UInt16.ofNat (chunkId - chunkOffset))
  else if chunkId ≥ chunkOffset then
    [UInt8.ofNat (fmt <<< 6 ||| 0), UInt8.ofNat (chunkId - chunkOffset)]
  else [UInt8.ofNat (fmt <<< 6 ||| chunkId)]

/-- `ts_24` -/
def ts24 (ts : UInt32) : UInt32 := if ts ≥ timestamp24max then timestamp24max else ts

/-- `ts_ext` -/
def tsExt (ts : UInt32) : UInt32 := if ts ≥ timestamp24max then ts else 0

/-- `mbuf_write_u24_hton` -/
def u24 (v : Nat) : Bytes := hexBytes 3 v

variable (hdr : RtmpHeader)

/-- The fields of the header's format, and the header with the extended
timestamp that the encoder leaves in it. -/
def encodeFields : Bytes × RtmpHeader :=
  match hdr.format with
  | 0 =>
    (u24 (ts24 hdr.timestamp).toNat ++ u24 hdr.length ++ [hdr.typeId] ++
      (be32 hdr.streamId).reverse, { hdr with timestampExt := tsExt hdr.timestamp })
  | 1 =>
    (u24 (ts24 hdr.timestampDelta).toNat ++ u24 hdr.length ++ [hdr.typeId],
      { hdr with timestampExt := tsExt hdr.timestampDelta })
  | 2 =>
    (u24 (ts24 hdr.timestampDelta).toNat, { hdr with timestampExt := tsExt hdr.timestampDelta })
  | _ => ([], hdr)

/-- `rtmp_header_encode` -/
def rtmpHeaderEncode : Bytes × RtmpHeader :=
  let (fields, hdr') := encodeFields hdr
  (encodeBasicHdr hdr.format hdr.chunkId ++ fields ++
    (if hdr'.timestampExt ≠ 0 then be32 hdr'.timestampExt else []), hdr')

/-! ## Decoding -/

/-- `if (mbuf_get_left(mb) < n) return ENODATA;` and what is read from the `n` bytes. -/
def fields {α : Type} (n : Nat) (f : Bytes → α) (xs : Bytes) :
    Except Errno (α × Bytes) :=
  if xs.length < n then .error .ENODATA else .ok (f (xs.take n), xs.drop n)

/-- `if (err) return err;` between two decoders. -/
def andThen {α γ : Type} (dec : Bytes → Except Errno (α × Bytes))
    (next : α → Bytes → Except Errno (γ × Bytes)) (xs : Bytes) :
    Except Errno (γ × Bytes) :=
  match dec xs with
  | .error err => .error err
  | .ok (a, xs) => next a xs

/-- `switch (cs_id)` of `decode_basic_hdr` -/
def decodeCsId (format csId : Nat) : Bytes → Except Errno (RtmpHeader × Bytes) :=
  if csId = 0 then
    fields 1 fun b => { format, chunkId := (b.headD 0).toNat + chunkOffset }
  else if csId = 1 then
    fields 2 fun b => { format, chunkId := (ofBe16 b).toNat + chunkOffset }
  else fields 0 fun _ => { format, chunkId := csId }

/-- `decode_basic_hdr` -/
def decodeBasicHdr : Bytes → Except Errno (RtmpHeader × Bytes) :=
  andThen (fields 1 fun b => (b.headD 0).toNat) fun v => decodeCsId (v / 64) (v % 64)

/-- `mbuf_read_u24_ntoh` -/
def readU24 (xs : Bytes) : Nat := ofBe (xs.take 3)

/-- `sys_ltohl(mbuf_read_u32(mb))` -/
def readLe32 (xs : Bytes) : UInt32 := ofBe32 (xs.take 4).reverse

/-- `switch (hdr->format)` -/
def decodeFields : Bytes → Except Errno (RtmpHeader × Bytes) :=
  match hdr.format with
  | 0 =>
    fields 11 fun b =>
      { hdr with
        timestamp := UInt32.ofNat (readU24 b)
        length := readU24 (b.drop 3)
        typeId := (b.drop 6).headD 0
        streamId := readLe32 (b.drop 7) }
  | 1 =>
    fields 7 fun b =>
      { hdr with
        timestampDelta := UInt32.ofNat (readU24 b)
        length := readU24 (b.drop 3)
        typeId := (b.drop 6).headD 0 }
  | 2 => fields 3 fun b => { hdr with timestampDelta := UInt32.ofNat (readU24 b) }
  | _ => fields 0 fun _ => hdr

/-- The timestamp of 32 bits that follows one of 24 bits that are all ones. -/
def decodeExtTs : Bytes → Except Errno (RtmpHeader × Bytes) :=
  if hdr.timestamp = timestamp24max then
    fields 4 fun b => { hdr with timestamp := ofBe32 b, extTs := true }
  else if hdr.timestampDelta = timestamp24max then
    fields 4 fun b => { hdr with timestampDelta := ofBe32 b, extTs := true }
  else fields 0 fun _ => hdr

/-- `rtmp_header_decode` -/
def rtmpHeaderDecode : Bytes → Except Errno (RtmpHeader × Bytes) :=
  andThen decodeBasicHdr fun hdr => andThen (decodeFields hdr) decodeExtTs

/-! ## Fields of a fixed size -/

variable {chunkId n : Nat} {α : Type} {f : Bytes → α} {xs : Bytes} {length : Nat}

theorem fields_append {b : Bytes} (hb : b.length = n)
    (rest : Bytes) : fields n f (b ++ rest) = .ok (f b, rest) := by
  rw [fields, if_neg (by rw [length_append]; omega), take_left' hb, drop_left' hb]

theorem fields_ok {rest : Bytes} {a : α}
    (h : fields n f xs = .ok (a, rest)) : ∃ b, xs = b ++ rest ∧ b.length = n ∧ a = f b := by
  rw [fields] at h
  by_cases hlen : xs.length < n
  · simp_all
  · rw [if_neg hlen] at h
    cases h
    exact ⟨xs.take n, (take_append_drop n xs).symm, by rw [length_take]; omega, rfl⟩

theorem fields_error {err : Errno} (h : fields n f xs = .error err) : err = .ENODATA := by
  rw [fields] at h
  split at h
  · cases h
    rfl
  · cases h

/-! ## Reading back -/

theorem first_byte (fmt low : Nat) (hfmt : fmt < 4) (hlow : low < 64) :
    (UInt8.ofNat (fmt <<< 6 ||| low)).toNat = fmt * 64 + low := by
  have hor : fmt <<< 6 ||| low = fmt * 64 + low := by
    rw [← Nat.shiftLeft_add_eq_or_of_lt (by omega : low < 2 ^ 6), Nat.shiftLeft_eq]
  rw [hor, UInt8.toNat_ofNat']
  omega

/-- Every chunk stream id has one of the three forms, and is read back. -/
theorem decodeBasicHdr_encode {fmt : Nat} (hfmt : fmt < 4) (hmin : 2 ≤ chunkId)
    (hmax : chunkId ≤ 65599) (rest : Bytes) :
    decodeBasicHdr (encodeBasicHdr fmt chunkId ++ rest) =
      .ok ({ format := fmt, chunkId }, rest) := by
  have hcons : ∀ (low : Nat) (xs : Bytes), low < 64 →
      decodeBasicHdr (UInt8.ofNat (fmt <<< 6 ||| low) :: xs) = decodeCsId fmt low xs := by
    intro low xs hlow
    have hv := first_byte fmt low hfmt hlow
    have hq : (UInt8.ofNat (fmt <<< 6 ||| low)).toNat / 64 = fmt := by omega
    have hr : (UInt8.ofNat (fmt <<< 6 ||| low)).toNat % 64 = low := by omega
    rw [decodeBasicHdr, andThen, ← singleton_append, fields_append length_singleton]
    simp only [headD_cons, hq, hr]
  rw [encodeBasicHdr]
  by_cases h320 : chunkId ≥ 320
  · have hid : (UInt16.ofNat (chunkId - chunkOffset)).toNat + chunkOffset = chunkId := by
      simp [chunkOffset]
      omega
    have hword := ofBe16_be16_append (UInt16.ofNat (chunkId - chunkOffset)) []
    rw [append_nil] at hword
    rw [if_pos h320, cons_append, hcons 1 _ (by decide), decodeCsId, if_neg (by decide),
      if_pos rfl, fields_append (length_be16 _), hword, hid]
  · rw [if_neg h320]
    by_cases h64 : chunkId ≥ chunkOffset
    · have hid : (UInt8.ofNat (chunkId - chunkOffset)).toNat + chunkOffset = chunkId := by
        grind [UInt8.toNat_ofNat', chunkOffset]
      rw [if_pos h64, cons_append, hcons 0 _ (by decide), decodeCsId, if_pos rfl,
        fields_append length_singleton, headD_cons, hid]
    · rw [if_neg h64]
      simp only [chunkOffset] at h64
      rw [cons_append, hcons chunkId _ (by omega), decodeCsId, if_neg (by omega), if_neg (by omega)]
      exact fields_append length_nil _

theorem readU24_u24 {v : Nat} (hv : v < 2 ^ 24) (rest : Bytes) :
    readU24 (u24 v ++ rest) = v := by
  simp [ofBe_hexBytes, readU24, u24]
  omega

theorem readLe32_be32 (v : UInt32) : readLe32 (be32 v).reverse = v := by
  have h := ofBe32_be32_append v []
  rw [append_nil] at h
  rw [readLe32, take_of_length_le (by rw [length_reverse, length_be32]), reverse_reverse, h]

theorem ts24_toNat_lt (ts : UInt32) : (ts24 ts).toNat < 2 ^ 24 := by
  rw [ts24]
  split
  · decide
  rename_i h
  have hlt : ts < timestamp24max := UInt32.not_le.mp h
  have hn : ts.toNat < timestamp24max.toNat := hlt
  have hc : timestamp24max.toNat < 2 ^ 24 := by decide
  omega

/-- The header of a message that is sent with format 0, as the decoder returns it. -/
def plainHeader (chunkId : Nat) (timestamp : UInt32) (length : Nat) (typeId : UInt8)
    (streamId : UInt32) : RtmpHeader where
  format := 0
  chunkId := chunkId
  timestamp := timestamp
  length := length
  typeId := typeId
  streamId := streamId
  extTs := decide (timestamp ≥ timestamp24max)

/-- What follows every header of a message with a timestamp that needs 32 bits. -/
def extBytes (timestamp : UInt32) : Bytes :=
  if timestamp ≥ timestamp24max then be32 timestamp else []

/-- The message fields of format 0. -/
def fieldBytes (ts length : Nat) (typeId : UInt8) (streamId : UInt32) : Bytes :=
  u24 ts ++ (u24 length ++ (typeId :: (be32 streamId).reverse))

theorem decodeFields_format0 (hlen : length < 2 ^ 24) (chunkId : Nat) {ts : Nat}
    (hts : ts < 2 ^ 24) (typeId : UInt8) (streamId : UInt32) (rest : Bytes) :
    decodeFields { format := 0, chunkId } (fieldBytes ts length typeId streamId ++ rest) =
      .ok ({ format := 0, chunkId, timestamp := UInt32.ofNat ts, length,
             typeId, streamId }, rest) := by
  have hb : (fieldBytes ts length typeId streamId).length = 11 := by
    simp [fieldBytes, u24]
  have h3 : (fieldBytes ts length typeId streamId).drop 3
      = u24 length ++ (typeId :: (be32 streamId).reverse) := drop_left' (length_hexBytes 3 ts)
  have h6 : (fieldBytes ts length typeId streamId).drop 6 = typeId :: (be32 streamId).reverse := by
    exact drop_left' (length_hexBytes 3 length)
  have h7 : (fieldBytes ts length typeId streamId).drop 7 = (be32 streamId).reverse := by
    rfl
  simp only [decodeFields]
  rw [fields_append hb, h3, h6, h7, readU24_u24 hlen, readLe32_be32]
  simp only [fieldBytes, readU24_u24 hts, headD_cons]

/-- A header with format 0 comes back, whatever follows it. -/
theorem rtmpHeaderDecode_format0 (hmin : 2 ≤ chunkId) (hmax : chunkId ≤ 65599)
    (hlen : length < 2 ^ 24) (timestamp : UInt32) (typeId : UInt8) (streamId : UInt32)
    (rest : Bytes) :
    rtmpHeaderDecode (encodeBasicHdr 0 chunkId ++ (fieldBytes (ts24 timestamp).toNat length typeId
        streamId ++ (extBytes timestamp ++ rest))) =
      .ok (plainHeader chunkId timestamp length typeId streamId, rest) := by
  rw [rtmpHeaderDecode, andThen, decodeBasicHdr_encode (by decide) hmin hmax]
  simp only [andThen]
  rw [decodeFields_format0 hlen chunkId (ts24_toNat_lt timestamp)]
  simp only [decodeExtTs, UInt32.ofNat_toNat]
  rw [ts24, extBytes, plainHeader]
  by_cases hext : timestamp ≥ timestamp24max
  · have hword := ofBe32_be32_append timestamp []
    rw [append_nil] at hword
    rw [if_pos hext, if_pos hext, if_pos rfl, fields_append (length_be32 _), hword,
      decide_eq_true hext]
  · have hne : timestamp ≠ timestamp24max := by
      rintro rfl
      exact hext (UInt32.le_refl _)
    have hzero : ¬ (0 : UInt32) = timestamp24max := by decide
    rw [if_neg hext, if_neg hext, if_neg hne, if_neg hzero, decide_eq_false hext]
    exact fields_append length_nil _

/-- A header with format 3 holds nothing but the chunk stream. -/
theorem rtmpHeaderDecode_format3 (hmin : 2 ≤ chunkId) (hmax : chunkId ≤ 65599) (rest : Bytes) :
    rtmpHeaderDecode (encodeBasicHdr 3 chunkId ++ rest) =
      .ok ({ format := 3, chunkId }, rest) := by
  rw [rtmpHeaderDecode, andThen, decodeBasicHdr_encode (by decide) hmin hmax]
  rfl

/-! ## Whatever follows -/

/-- What a decoder reads does not depend on what follows it, and all that can be
wrong is that it is not complete. -/
structure Stable {α : Type} (dec : Bytes → Except Errno (α × Bytes)) : Prop where
  ok : ∀ xs a rest, dec xs = .ok (a, rest) → ∃ b, xs = b ++ rest ∧ ∀ ys, dec (b ++ ys) = .ok (a, ys)
  error : ∀ xs err, dec xs = .error err → err = .ENODATA

theorem fields_stable (n : Nat) (f : Bytes → α) : Stable (fields n f) where
  ok := by
    intro xs a rest h
    obtain ⟨b, hxs, hb, rfl⟩ := fields_ok h
    exact ⟨b, hxs, fields_append hb⟩
  error := fun xs err h => fields_error h

theorem Stable.andThen {γ : Type} {dec : Bytes → Except Errno (α × Bytes)}
    {next : α → Bytes → Except Errno (γ × Bytes)} (h : Stable dec) (hnext : ∀ a, Stable (next a)) :
    Stable (Rtmp.andThen dec next) where
  ok := by
    intro xs c rest hc
    rw [Rtmp.andThen] at hc
    split at hc
    · cases hc
    rename_i a xs' hd
    obtain ⟨b₁, rfl, happ₁⟩ := h.ok _ _ _ hd
    obtain ⟨b₂, rfl, happ₂⟩ := (hnext a).ok _ _ _ hc
    refine ⟨b₁ ++ b₂, (append_assoc _ _ _).symm, fun ys => ?_⟩
    simp only [Rtmp.andThen, append_assoc, happ₁, happ₂]
  error := by
    intro xs err hc
    rw [Rtmp.andThen] at hc
    split at hc
    · cases hc
      exact h.error _ _ ‹_›
    · exact (hnext _).error _ _ hc

theorem decodeCsId_stable (format csId : Nat) : Stable (decodeCsId format csId) := by
  unfold decodeCsId
  split
  · exact fields_stable _ _
  · split <;> exact fields_stable _ _

theorem decodeFields_stable : Stable (decodeFields hdr) := by
  unfold decodeFields
  split <;> exact fields_stable _ _

theorem decodeExtTs_stable : Stable (decodeExtTs hdr) := by
  unfold decodeExtTs
  split
  · exact fields_stable _ _
  · split <;> exact fields_stable _ _

theorem rtmpHeaderDecode_stable : Stable rtmpHeaderDecode :=
  ((fields_stable 1 _).andThen fun v => decodeCsId_stable (v / 64) (v % 64)).andThen fun hdr =>
    (decodeFields_stable hdr).andThen decodeExtTs_stable

end LibRe.Rtmp
