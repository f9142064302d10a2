/-
LibRe.Bfcp.MsgTheorems — a BFCP message is read back as it was written.

`attrsBytes` says what stands for a list of attributes: each is framed by its type, its
length and its padding, and the body of a grouped one ends with the bytes of its
sub-attributes. The writer leaves these bytes behind (`attrVencode_writes`), although it
patches lengths on the way, and the reader reads them back (`attrsLoop_reads`). Both go by
recursion over the tree. What the lengths cannot say is left out: an attribute of more
than 255 bytes, and a message of more than 65535 words.
-/
import Mathlib.Data.FinEnum
import LibRe.Bfcp.Msg
import LibRe.Mbuf.MbufTheorems

namespace LibRe.Bfcp

open Bytes Reader Read List Nat

/-! ## The bytes of a tree -/

/-- An attribute around its body. -/
def frame (type : UInt8) (mand : Bool) (body : Bytes) : Bytes :=
  [typeByte type mand, UInt8.ofNat (body.length + 2)] ++ body ++ padding (body.length + 2)

mutual

/-- The body of an attribute: its value, and its sub-attributes. -/
def BfcpAttr.body : BfcpAttr → Bytes
  | .group _ _ v attrl => be16 v ++ attrsBytes attrl
  | attr => attr.value.toOption.getD []

/-- The bytes of a list of attributes. -/
def attrsBytes : List BfcpAttr → Bytes
  | [] => []
  | attr :: attrs => frame attr.type attr.mand attr.body ++ attrsBytes attrs

end

mutual

/-- An attribute, with its padded sub-attributes, has at most 255 bytes, and so has every
one below it. Only known types are written. -/
def BfcpAttr.Fits : BfcpAttr → Prop
  | .unknown .. => False
  | .group _ _ v attrl => (be16 v ++ attrsBytes attrl).length + 2 ≤ 255 ∧ AllFit attrl
  | attr => attr.body.length + 2 ≤ 255

def AllFit : List BfcpAttr → Prop
  | [] => True
  | attr :: attrs => attr.Fits ∧ AllFit attrs

end

theorem length_padding (n : Nat) : (n + (padding n).length) % 4 = 0 ∧ (padding n).length < 4 := by
  simp [padding]
  omega

theorem length_frame_mod (type : UInt8) (mand : Bool) (body : Bytes) :
    (frame type mand body).length % 4 = 0 := by
  have hpad := (length_padding (body.length + 2)).1
  simp only [frame, length_append, length_cons, length_nil]
  omega

theorem length_attrsBytes_mod (attrs : List BfcpAttr) : (attrsBytes attrs).length % 4 = 0 := by
  induction attrs with
  | nil => rfl
  | cons attr attrs ih =>
    have hframe := length_frame_mod attr.type attr.mand attr.body
    rw [attrsBytes, length_append]
    omega

/-- No padding behind a multiple of four. -/
theorem padding_of_mod {n : Nat} (h : n % 4 = 0) : padding n = [] := by
  rw [padding, h]
  rfl

/-! ## Writing -/

variable {mb : Mbuf} {front : Bytes}

theorem attrEncode_writes (attr : BfcpAttr) (h : Behind front mb) {value : Bytes}
    (hvalue : attr.value = .ok value) (hlen : value.length + 2 ≤ 255) :
    ∃ mb', attrEncode mb attr = .ok mb' ∧ Behind (front ++ frame attr.type attr.mand value)
      mb' := by
  obtain ⟨room, hroom, hreserved⟩ := h.reserve 2
  have hbody := hreserved.write value
  have hsize : (mbufWriteMem (mbufAdvance mb 2) value).pos - mb.pos = value.length + 2 := by
    simp
    omega
  have hpatched := hbody.patch [typeByte attr.type attr.mand, UInt8.ofNat (value.length + 2)]
    hroom.symm h.pos
    (j := mb.pos + (value.length + 2)) (by rw [mbufWriteMem_pos, mbufAdvance_pos]; omega)
  have hpadded := hpatched.write (padding (value.length + 2))
  have hrun : attrEncode mb attr = .ok (mbufWriteMem (mbufSetPos (mbufWriteMem
      (mbufSetPos (mbufWriteMem (mbufAdvance mb 2) value) mb.pos)
      [typeByte attr.type attr.mand, UInt8.ofNat (value.length + 2)]) (mb.pos + (value.length + 2)))
      (padding (value.length + 2))) := by
    grind [UInt8.toNat_ofNat_of_lt', attrEncode]
  refine ⟨_, hrun, ?_⟩
  rw [frame, ← append_assoc, ← append_assoc]
  exact hpadded

mutual

theorem attrVencode_writes : ∀ (attr : BfcpAttr) {mb : Mbuf} {front : Bytes}, attr.Fits →
    Behind front mb →
    ∃ mb', attrVencode attr mb = .ok mb' ∧ Behind (front ++ frame attr.type attr.mand attr.body) mb'
  | .id type mand v, _, _, hfits, h => attrEncode_writes (.id type mand v) h rfl hfits
  | .priority mand v, _, _, hfits, h => attrEncode_writes (.priority mand v) h rfl hfits
  | .reqstatus mand status qpos, _, _, hfits, h =>
    attrEncode_writes (.reqstatus mand status qpos) h rfl hfits
  | .errcode mand code details, _, _, hfits, h =>
    attrEncode_writes (.errcode mand code details) h rfl hfits
  | .str type mand s, _, _, hfits, h => attrEncode_writes (.str type mand s) h rfl hfits
  | .supattr mand attrv, _, _, hfits, h => attrEncode_writes (.supattr mand attrv) h rfl hfits
  | .supprim mand primv, _, _, hfits, h => attrEncode_writes (.supprim mand primv) h rfl hfits
  | .unknown type mand, _, _, hfits, _ => hfits.elim
  | .group type mand v attrl, mb, front, hfits, h => by
      obtain ⟨hlen, hsub⟩ := hfits
      obtain ⟨mb', hhead, hbehind⟩ := attrEncode_writes (.group type mand v []) h rfl
        (show 2 + 2 ≤ 255 by decide)
      rw [attrVencode, hhead]
      dsimp only
      cases attrl with
      | nil => exact ⟨mb', rfl, hbehind⟩
      | cons sub subs =>
        obtain ⟨mb'', hrun, hall⟩ := bfcpAttrsVencode_writes (sub :: subs) hsub hbehind
        refine ⟨patchLength mb.pos mb'', ?_, ?_⟩
        · rw [hrun]
          rfl
        -- the frame of the value alone is the one of the whole but for the length
        have hparts : front ++ frame (BfcpAttr.group type mand v []).type mand (be16 v) ++
            attrsBytes (sub :: subs) = (front ++ [typeByte type.code mand]) ++ [4] ++
              (be16 v ++ attrsBytes (sub :: subs)) := by
          simp only [frame, length_be16, padding_of_mod, append_nil, append_assoc]
          rfl
        rw [show (BfcpAttr.group type mand v []).mand = mand from rfl, hparts] at hall
        have hpos := hall.pos
        have hsize : mb''.pos - mb.pos = (be16 v ++ attrsBytes (sub :: subs)).length + 2 := by
          grind [Behind.pos]
        have hpatched := hall.patch [UInt8.ofNat (mb''.pos - mb.pos)] rfl (i := mb.pos + 1)
          (by rw [length_append, h.pos]; rfl) rfl
        have hmod : ((be16 v ++ attrsBytes (sub :: subs)).length + 2) % 4 = 0 := by
          have hbytes := length_attrsBytes_mod (sub :: subs)
          rw [length_append, length_be16]
          omega
        rw [BfcpAttr.body, frame, padding_of_mod hmod, append_nil]
        rw [hsize] at hpatched
        simp only [append_assoc, cons_append, nil_append] at hpatched ⊢
        exact hsize ▸ hpatched

theorem bfcpAttrsVencode_writes : ∀ (attrs : List BfcpAttr) {mb : Mbuf} {front : Bytes},
    AllFit attrs → Behind front mb →
    ∃ mb', bfcpAttrsVencode attrs mb = .ok mb' ∧ Behind (front ++ attrsBytes attrs) mb'
  | [], mb, front, _, h => ⟨mb, rfl, by rw [attrsBytes, append_nil]; exact h⟩
  | attr :: attrs, mb, front, hfits, h => by
      obtain ⟨mb₁, hfirst, hbehind⟩ := attrVencode_writes attr hfits.1 h
      obtain ⟨mb₂, hrest, hall⟩ := bfcpAttrsVencode_writes attrs hfits.2 hbehind
      refine ⟨mb₂, ?_, ?_⟩
      · rw [bfcpAttrsVencode, hfirst]
        exact hrest
      · rw [attrsBytes, ← append_assoc]
        exact hall

end

/-! ## Reading -/

variable {sub : AttrReader (List BfcpAttr)} {uma uma' : Unknown} {attr : BfcpAttr}

variable {type : UInt8} {attrs : List BfcpAttr} {hdr : Header}

/-- The first byte of an attribute of a known type says its type and its flag. -/
theorem typeByte_spec (h : type < 128) (mand : Bool) :
    typeByte type mand >>> 1 = type ∧ decide (typeByte type mand &&& 1 = 1) = mand := by
  revert type mand
  decide +kernel

/-- An attribute is read back if its body is. -/
theorem accepts_frame {mand : Bool} {body : Bytes} (htype : type < 128)
    (hlen : body.length + 2 ≤ 255)
    (h : Accepts (valueDecode sub type mand body.length uma) body (attr, uma')) :
    Accepts (attrDecode sub uma) (frame type mand body) (attr, uma') := by
  intro ys
  obtain ⟨hsecond, hflag⟩ := typeByte_spec htype mand
  have hnat : (UInt8.ofNat (body.length + 2)).toNat = body.length + 2 :=
    UInt8.toNat_ofNat_of_lt' (lt_succ_of_le hlen)
  have hpad := length_padding (body.length + 2)
  have hslurp : ∀ start, start = (frame type mand body ++ ys).length →
      slurpPadding start (padding (body.length + 2) ++ ys) = ys := by
    intro start hstart
    simp only [frame, length_append, length_cons, length_nil] at hstart
    exact slurpPadding_append hpad.2 (by omega) (by omega)
  have hchecked : Accepts (checked 2 fun xs : Bytes => (xs.headD 0, (xs.drop 1).headD 0))
      [typeByte type mand, UInt8.ofNat (body.length + 2)]
        (typeByte type mand, UInt8.ofNat (body.length + 2)) :=
    accepts_fields _ rfl rfl
  rw [attrDecode, byLength, andThen]
  generalize hstart : (frame type mand body ++ ys).length = start
  rw [frame, append_assoc, append_assoc, hchecked]
  simp only
  rw [if_neg (by rw [UInt8.lt_iff_toNat_lt, hnat]; exact not_lt.mpr (le_add_left 2 _)), need, hnat,
    Nat.add_sub_cancel, if_neg (by rw [length_append]; omega), andThen, hsecond, hflag, h]
  simp only [andThen, slurp, hslurp start hstart.symm, give]

theorem accepts_readU16 (v : UInt16) : Accepts readU16 (be16 v) v := by
  refine accepts_fieldsOr 0 (length_be16 v) ?_
  rw [← append_nil (be16 v), ofBe16_be16_append]

/-- Bytes that are read one by one. -/
theorem accepts_bytes (bs : Bytes) : Accepts (times bs.length readU8) bs bs := by
  have h := Accepts.times (r := readU8) bs fun b _ => accepts_readU8 b
  rwa [flatMap_singleton'] at h

section

variable (mand : Bool)

theorem accepts_id (type : IdAttrib) (v : UInt16) :
    Accepts (valueDecode sub type.code mand 2 uma) (be16 v) (.id type mand v, uma) := by
  have hkind : kind type.code = .id type := by cases type <;> rfl
  simp only [valueDecode, hkind]
  exact (accepts_readU16 v).map fun v => (BfcpAttr.id type mand v, uma)

theorem accepts_priority (v : BitVec 3) :
    Accepts (valueDecode sub priorityCode mand 2 uma) [UInt8.ofNat v.toNat <<< 5, 0]
    (.priority mand v, uma) := by
  have hback : ∀ v : BitVec 3, BitVec.ofNat 3 ((UInt8.ofNat v.toNat <<< 5) >>> 5).toNat = v := by
    decide
  have hread : Accepts (valueDecode sub priorityCode mand 2 uma)
      ([UInt8.ofNat v.toNat <<< 5] ++ [0])
      (.priority mand (BitVec.ofNat 3 ((UInt8.ofNat v.toNat <<< 5) >>> 5).toNat), uma) := by
    exact (accepts_readU8 0).map fun _ =>
      (BfcpAttr.priority mand (BitVec.ofNat 3 ((UInt8.ofNat v.toNat <<< 5) >>> 5).toNat), uma)
  rw [hback] at hread
  exact hread

theorem accepts_reqstatus (status qpos : UInt8) :
    Accepts (valueDecode sub requestStatusCode mand 2 uma) [status, qpos]
    (.reqstatus mand status qpos, uma) :=
  (accepts_readU8 status).andThen ((accepts_readU8 qpos).map fun qpos =>
    (BfcpAttr.reqstatus mand status qpos, uma))

theorem accepts_errcode (code : UInt8) (details : Bytes) :
    Accepts (valueDecode sub errorCodeCode mand (code :: details).length uma) (code :: details)
      (.errcode mand code details, uma) := by
  have hdetails : Accepts (fields Errno.EOVERFLOW details.length id) details details :=
    accepts_fields _ rfl rfl
  exact (accepts_readU8 code).andThen (hdetails.map fun details =>
    (BfcpAttr.errcode mand code details, uma))

theorem accepts_str (type : StrAttrib) (s : CStr) :
    Accepts (valueDecode sub type.code mand s.bytes.length uma) s.bytes
      (.str type mand s, uma) := by
  have hkind : kind type.code = .str type := by cases type <;> rfl
  have hstr : Accepts (fields Errno.EOVERFLOW s.bytes.length CStr.ofMem) s.bytes s :=
    accepts_fields _ rfl (CStr.ofMem_bytes s)
  simp only [valueDecode, hkind]
  exact hstr.map fun s => (BfcpAttr.str type mand s, uma)

theorem accepts_supattr (attrv : List (BitVec 7)) :
    Accepts (valueDecode sub supportedAttrsCode mand (attrv.map fun type =>
      UInt8.ofNat type.toNat <<< 1).length uma)
      (attrv.map fun type => UInt8.ofNat type.toNat <<< 1) (.supattr mand attrv, uma) := by
  have hback : ∀ type : BitVec 7, BitVec.ofNat 7 ((UInt8.ofNat type.toNat <<< 1) >>> 1).toNat =
      type := by decide
  have hread := (accepts_bytes (attrv.map fun type => UInt8.ofNat type.toNat <<< 1)).map
    fun attrv =>
    (BfcpAttr.supattr mand (attrv.map fun b : UInt8 => BitVec.ofNat 7 (b >>> 1).toNat), uma)
  rw [map_map, show (fun b : UInt8 => BitVec.ofNat 7 (b >>> 1).toNat) ∘ (fun type : BitVec 7 =>
    UInt8.ofNat type.toNat <<< 1) =
    id from funext hback, map_id] at hread
  exact hread

theorem accepts_supprim (primv : Bytes) :
    Accepts (valueDecode sub supportedPrimsCode mand primv.length uma) primv
      (.supprim mand primv, uma) :=
  (accepts_bytes primv).map fun primv => (BfcpAttr.supprim mand primv, uma)

theorem accepts_group {attrl : List BfcpAttr} (type : GroupAttrib) (v : UInt16)
    (h : sub uma (attrsBytes attrl) = .ok ((attrl, uma), [])) :
    Accepts (valueDecode sub type.code mand (be16 v ++ attrsBytes attrl).length uma)
      (be16 v ++ attrsBytes attrl) (.group type mand v attrl, uma) := by
  have hkind : kind type.code = .group type := by cases type <;> rfl
  have hlen : (be16 v ++ attrsBytes attrl).length - 2 = (attrsBytes attrl).length := by
    rw [length_append, length_be16, Nat.add_sub_cancel_left]
  have hsub := (accepts_within h Errno.EINVAL hlen).map fun sub =>
    (BfcpAttr.group type mand v sub.1, sub.2)
  simp only [valueDecode, hkind]
  exact (accepts_readU16 v).andThen hsub

end

theorem type_lt (h : attr.Fits) : attr.type < 128 := by
  cases attr with
  | id type _ _ | str type _ _ | group type _ _ _ =>
    show type.code < 128
    cases type <;> decide
  | priority mand v => show priorityCode < 128; decide
  | reqstatus mand status qpos => show requestStatusCode < 128; decide
  | errcode mand code details => show errorCodeCode < 128; decide
  | supattr mand attrv => show supportedAttrsCode < 128; decide
  | supprim mand primv => show supportedPrimsCode < 128; decide
  | unknown type mand => exact h.elim

theorem length_body_le (h : attr.Fits) : attr.body.length + 2 ≤ 255 := by
  cases attr with
  | unknown type mand => exact h.elim
  | group type mand v attrl => exact h.1
  | id _ _ _ | priority _ _ | reqstatus _ _ _ | errcode _ _ _ | str _ _ _ | supattr _ _
  | supprim _ _ => exact h

mutual

/-- The body of an attribute is read back, if there are calls enough for what it holds. -/
theorem body_reads : ∀ (attr : BfcpAttr), attr.Fits → ∀ (uma : Unknown) (n : Nat),
    attr.body.length ≤ n →
    Accepts (valueDecode (attrsLoop n) attr.type attr.mand attr.body.length uma)
      attr.body (attr, uma)
  | .id type mand v, _, _, _, _ => accepts_id mand type v
  | .priority mand v, _, _, _, _ => accepts_priority mand v
  | .reqstatus mand status qpos, _, _, _, _ => accepts_reqstatus mand status qpos
  | .errcode mand code details, _, _, _, _ => accepts_errcode mand code details
  | .str type mand s, _, _, _, _ => accepts_str mand type s
  | .supattr mand attrv, _, _, _, _ => accepts_supattr mand attrv
  | .supprim mand primv, _, _, _, _ => accepts_supprim mand primv
  | .unknown type mand, hfits, _, _, _ => hfits.elim
  | .group type mand v attrl, hfits, uma, n, hn => by
      rw [BfcpAttr.body, length_append] at hn
      exact accepts_group mand type v (attrsLoop_reads attrl hfits.2 uma n (by omega))

theorem attrsLoop_reads : ∀ (attrs : List BfcpAttr), AllFit attrs → ∀ (uma : Unknown) (n : Nat),
    (attrsBytes attrs).length ≤ n →
    attrsLoop n uma (attrsBytes attrs) = .ok ((attrs, uma), [])
  | [], _, uma, n, _ => by cases n <;> rfl
  | attr :: attrs, hfits, uma, n, hn => by
      have hframe : attr.body.length + 2 ≤ (frame attr.type attr.mand attr.body).length := by
        simp [frame]
      rw [attrsBytes, length_append] at hn
      cases n with
      | zero => omega
      | succ n =>
        have hfirst := accepts_frame (type_lt hfits.1) (length_body_le hfits.1)
          (body_reads attr hfits.1 uma n (by omega)) (attrsBytes attrs)
        have hrest := attrsLoop_reads attrs hfits.2 uma n (by omega)
        rw [attrsBytes, attrsLoop]
        beta_reduce
        rw [if_neg (by rw [length_append]; omega), andThen, hfirst]
        simp only [andThen, hrest, give]

end

/-! ## Messages -/

/-- What was written for a message. -/
def msgBytes (hdr : Header) (attrs : List BfcpAttr) : Bytes :=
  hdrEncode hdr (UInt16.ofNat ((attrsBytes attrs).length / 4)) ++ attrsBytes attrs

theorem length_hdrEncode (hdr : Header) (len : UInt16) : (hdrEncode hdr len).length = 12 := rfl

theorem bfcpMsgEncode_writes (mb : Mbuf) (hdr : Header) (hfits : AllFit attrs) :
    ∃ mb', bfcpMsgEncode mb hdr attrs = .ok mb' ∧
    Behind (mb.upto mb.pos ++ msgBytes hdr attrs) mb' := by
  obtain ⟨room, hroom, hreserved⟩ := (behind_self mb).reserve 12
  obtain ⟨mb₁, hrun, hall⟩ := bfcpAttrsVencode_writes attrs hfits hreserved
  have hpos := hall.pos
  rw [length_append, length_append, length_upto, hroom] at hpos
  have hsize : mb₁.pos - mb.pos - 12 = (attrsBytes attrs).length := by omega
  have hheader := length_hdrEncode hdr (UInt16.ofNat ((attrsBytes attrs).length / 4))
  have hpatched := hall.patch (hdrEncode hdr (UInt16.ofNat ((attrsBytes attrs).length / 4)))
    (hheader.trans hroom.symm) (length_upto mb mb.pos).symm rfl
  have hencode : bfcpMsgEncode mb hdr attrs = .ok (mbufSetPos (mbufWriteMem (mbufSetPos mb₁ mb.pos)
      (hdrEncode hdr (UInt16.ofNat ((attrsBytes attrs).length / 4)))) mb₁.pos) := by
    rw [bfcpMsgEncode, hrun]
    simp only [hsize]
    rw [mbufAdvance, mbufWriteMem_pos, mbufSetPos_pos, hheader, show mb.pos + 12 +
      (attrsBytes attrs).length = mb₁.pos by omega]
    rfl
  refine ⟨_, hencode, ?_⟩
  rw [msgBytes, ← append_assoc]
  exact hpatched

/-- The fields of a header are read back, if the version is one of the two. -/
theorem hdrDecode_reads (hver : hdr.ver = 1 ∨ hdr.ver = 2) (len : UInt16) (ys : Bytes)
    (hlen : 4 * len.toNat ≤ ys.length) : hdrDecode (hdrEncode hdr len ++ ys) =
      .ok ((hdr, false, len), ys) := by
  obtain ⟨ver, r, prim, confid, tid, userid⟩ := hdr
  have hfirst : ((ver <<< 5 ||| (if r then (1 : UInt8) else 0) <<< 4) >>> 5 = ver) ∧
      decide (((ver <<< 5 ||| (if r then (1 : UInt8) else 0) <<< 4) >>> 4) &&& 1 = 1) = r ∧
      decide (((ver <<< 5 ||| (if r then (1 : UInt8) else 0) <<< 4) >>> 3) &&& 1 = 1) = false := by
    rcases hver with rfl | rfl <;> cases r <;> decide
  have hconfid := ofBe32_be32_append confid (be16 tid ++ be16 userid)
  have htid := ofBe16_be16_append tid (be16 userid)
  have huserid := ofBe16_be16_append userid []
  have hlen16 := ofBe16_be16_append len (be32 confid ++ be16 tid ++ be16 userid)
  have hfields := accepts_fields Errno.ENODATA (length_hdrEncode
    { ver, r, prim, confid, tid, userid } len) (f := fun xs : Bytes =>
      ({ ver := xs.headD 0 >>> 5
         r := (xs.headD 0 >>> 4) &&& 1 = 1
         prim := (xs.drop 1).headD 0
         confid := ofBe32 (xs.drop 4)
         tid := ofBe16 (xs.drop 8)
         userid := ofBe16 (xs.drop 10) : Header },
       ((xs.headD 0 >>> 3) &&& 1 = 1 : Bool), ofBe16 (xs.drop 2)))
    (a := ({ ver, r, prim, confid, tid, userid }, false, len)) ?_
  · rw [hdrDecode, andThen, hfields]
    simp only
    rw [if_neg (by rcases hver with rfl | rfl <;> simp), if_neg Bool.false_ne_true, need,
      if_neg (not_lt.mpr hlen)]
    rfl
  · refine Prod.ext ?_ (Prod.ext hfirst.2.2 hlen16)
    simp only [Header.mk.injEq]
    exact ⟨hfirst.1, hfirst.2.1, rfl, hconfid, htid, huserid⟩

/-- The message is written, and what was written is read back with nothing left of it,
whatever follows. -/
def ReadBack (mb : Mbuf) (hdr : Header) (attrs : List BfcpAttr) : Prop :=
  ∃ mb', bfcpMsgEncode mb hdr attrs = .ok mb' ∧
    ∀ rest, bfcpMsgDecode ((mb'.upto mb'.pos).drop mb.pos ++ rest) =
      .ok ({ hdr, f := false, len := UInt16.ofNat ((attrsBytes attrs).length / 4), attrl := attrs,
             uma := [] }, rest)

/-- The bytes behind the position where the writer started. -/
theorem written_msgBytes {mb' : Mbuf} (h : Behind (mb.upto mb.pos ++ msgBytes hdr attrs) mb') :
    (mb'.upto mb'.pos).drop mb.pos = msgBytes hdr attrs := by
  rw [h.upto, drop_left' (length_upto mb mb.pos)]

/-- Every message of version 1 or 2 whose attributes have at most 255 bytes each and 65535
words together is read back as it was written. -/
theorem message_read_back (mb : Mbuf) (hdr : Header) (attrs : List BfcpAttr)
    (hver : hdr.ver = 1 ∨ hdr.ver = 2)
    (hfits : AllFit attrs) (hsize : (attrsBytes attrs).length ≤ 4 * 65535) :
    ReadBack mb hdr attrs := by
  obtain ⟨mb', hrun, hbehind⟩ := bfcpMsgEncode_writes mb hdr hfits
  have hmod := length_attrsBytes_mod attrs
  have hwords : 4 * (UInt16.ofNat ((attrsBytes attrs).length / 4)).toNat =
      (attrsBytes attrs).length := by
    simp
    omega
  refine ⟨mb', hrun, fun rest => ?_⟩
  have hhdr := hdrDecode_reads hver (UInt16.ofNat ((attrsBytes attrs).length / 4))
    (attrsBytes attrs ++ rest) (by rw [length_append]; omega)
  have hattrs := accepts_within (attrsLoop_reads attrs hfits [] _ (le_refl _)) Errno.EINVAL rfl rest
  rw [written_msgBytes hbehind, msgBytes, append_assoc, bfcpMsgDecode, andThen, hhdr]
  simp only [andThen, bfcpAttrsDecode, hwords, hattrs, give]

/-- The header of the examples. -/
def statusHeader : Header := { ver := 2, r := true, prim := 4, confid := 7, tid := 1, userid := 2 }

/-- A floor request that was granted: a group in a group. -/
def grantedInfo : BfcpAttr :=
  .group .FLOOR_REQ_INFO true 3
    [.group .OVERALL_REQ_STATUS true 3 [.reqstatus true 3 0, .str .STATUS_INFO false
      ⟨[103, 111], by decide⟩], .id .FLOOR_ID true 5]

theorem granted_read_back : AllFit [grantedInfo] ∧
    ReadBack mbufInit statusHeader [grantedInfo] := by
  have hfits : AllFit [grantedInfo] :=
    ⟨⟨by decide, ⟨by decide, show 2 + 2 ≤ 255 by decide, show 2 + 2 ≤ 255 by decide, trivial⟩,
      show 2 + 2 ≤ 255 by decide, trivial⟩, trivial⟩
  exact ⟨hfits, message_read_back mbufInit statusHeader [grantedInfo] (.inr rfl) hfits (by decide)⟩

/-- Many attributes of four bytes. -/
def floorIds (n : Nat) : List BfcpAttr := List.replicate n (.id .FLOOR_ID false 0)

theorem floorIds_spec (n : Nat) : AllFit (floorIds n) ∧
    (attrsBytes (floorIds n)).length = 4 * n := by
  induction n with
  | zero => exact ⟨trivial, rfl⟩
  | succ n ih =>
    refine ⟨⟨show 2 + 2 ≤ 255 by decide, ih.1⟩, ?_⟩
    have hlen : (attrsBytes (floorIds (n + 1))).length = 4 + (attrsBytes (floorIds n)).length := by
      rw [floorIds, replicate_succ, attrsBytes, length_append]
      rfl
    omega

/-- A message is not read back when its version is another one, and not when it has so
many attributes that the number of words does not fit into the header. -/
theorem message_not_read_back :
    (¬ ∀ (mb : Mbuf) (hdr : Header) (attrs : List BfcpAttr), AllFit attrs → ReadBack mb hdr attrs) ∧
      ¬ ∀ (mb : Mbuf) (hdr : Header) (attrs : List BfcpAttr), hdr.ver = 1 ∨ hdr.ver = 2 →
      AllFit attrs → ReadBack mb hdr attrs := by
  have hread : ∀ {hdr : Header} {attrs : List BfcpAttr}, AllFit attrs →
      ReadBack mbufInit hdr attrs →
      bfcpMsgDecode (msgBytes hdr attrs) =
        .ok ({ hdr, f := false, len := UInt16.ofNat ((attrsBytes attrs).length / 4), attrl := attrs,
               uma := [] }, []) := by
    rintro hdr attrs hfits ⟨mb', hrun, hdecode⟩
    obtain ⟨mb'', hrun', hbehind⟩ := bfcpMsgEncode_writes mbufInit hdr hfits
    rw [hrun, Except.ok.injEq] at hrun'
    subst hrun'
    rw [← written_msgBytes hbehind, ← hdecode [], append_nil]
  constructor
  · intro h
    have hnil : AllFit [] := trivial
    have hbad := hread hnil (h mbufInit { statusHeader with ver := 3 } [] hnil)
    exact nomatch hbad
  · intro h
    obtain ⟨attrs, hfits, hlen⟩ : ∃ attrs, AllFit attrs ∧ (attrsBytes attrs).length = 4 * 65536 :=
      ⟨floorIds 65536, floorIds_spec 65536⟩
    have hback := hread hfits (h mbufInit statusHeader attrs (.inr rfl) hfits)
    have hwords : UInt16.ofNat ((attrsBytes attrs).length / 4) = 0 := by
      rw [hlen]
      rfl
    have hhdr := @hdrDecode_reads statusHeader (.inr rfl) 0 (attrsBytes attrs) (zero_le _)
    have hnone : bfcpMsgDecode (msgBytes statusHeader attrs) =
        .ok ({ hdr := statusHeader, f := false, len := 0, attrl := [], uma := [] },
          attrsBytes attrs) := by
      have hattrs : ∀ ys : Bytes, bfcpAttrsDecode 0 [] ys = .ok (([], []), ys) := fun ys =>
        @accepts_within _ _ _ (attrsLoop 0 []) ([], []) [] 0 rfl .EINVAL rfl ys
      rw [msgBytes, hwords, bfcpMsgDecode, andThen, hhdr]
      simp only [andThen, UInt16.toNat_zero, mul_zero, hattrs, give]
    rw [hnone] at hback
    have hrest : (attrsBytes attrs).length = 0 := by
      have hpair := Except.ok.inj hback
      rw [(Prod.mk.inj hpair).2]
      rfl
    omega

end LibRe.Bfcp
