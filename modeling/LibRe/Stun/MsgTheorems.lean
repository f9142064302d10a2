/-
LibRe.Stun.MsgTheorems — the attributes of a STUN message, read and written.

`msgDecode_ok` is the decoder on a header with its attributes: it returns them, whatever
stands behind the message. `attrsEncode_ok` is the loop of the encoder, which leaves room
for the header and writes the attributes one behind the other; the attribute that takes
its data from the same buffer finds them behind the position (`placed`).
-/
import LibRe.Mbuf.MbufTheorems
import LibRe.Stun.AttrTheorems
import LibRe.Stun.Msg

namespace LibRe.Stun

open Bytes Reader Read List

variable {attr : StunAttr} {etid : Option Bytes} {hdr : StunHdr}

/-! ## Decoding -/

def StunAttr.Valid (attr : StunAttr) : Prop := attr.v.Valid (attrKind attr.type)

instance (attr : StunAttr) : Decidable attr.Valid :=
  inferInstanceAs (Decidable (AttrValue.Valid _ _))

/-- An attribute as bytes. -/
def StunAttr.bytes (tid : Tid) (padding : UInt8) (attr : StunAttr) : Bytes :=
  match valueEncode (attrKind attr.type) attr.v (some tid.bytes) with
  | .ok bytes => attrBytes attr.type bytes padding
  | .error _ => []

theorem tidOk (tid : Tid) : TidOk (some tid.bytes) := by
  rintro t ⟨⟩
  exact tid.length_eq

/-- A valid attribute is encoded. -/
theorem StunAttr.encodes (h : attr.Valid) (tid : Tid) (padding : UInt8)
    (hetid : attrKind attr.type = .xorAddr → etid = some tid.bytes) :
    ∃ bytes, valueEncode (attrKind attr.type) attr.v etid = .ok bytes ∧
      attr.bytes tid padding = attrBytes attr.type bytes padding := by
  have hsame : valueEncode (attrKind attr.type) attr.v etid =
      valueEncode (attrKind attr.type) attr.v (some tid.bytes) := by
    by_cases hkind : attrKind attr.type = .xorAddr
    · rw [hetid hkind]
    · exact valueEncode_tid hkind _ _ _
  obtain ⟨read, skipped, henc, -⟩ := value_readBack h (tidOk tid) fun _ => rfl
  refine ⟨read ++ skipped, hsame.trans henc, ?_⟩
  rw [StunAttr.bytes, henc]

theorem length_bytes_mod (h : attr.Valid) (tid : Tid) (padding : UInt8) :
    (attr.bytes tid padding).length % 4 = 0 ∧ 4 ≤ (attr.bytes tid padding).length := by
  obtain ⟨bytes, -, hbytes⟩ := attr.encodes h tid padding fun _ => rfl
  rw [hbytes, length_attrBytes]
  omega

variable {attrs : List StunAttr} {ys : Bytes}

/-- Attributes take whole words. -/
theorem length_flatMap_bytes (h : ∀ attr ∈ attrs, attr.Valid) (tid : Tid) (padding : UInt8) :
    (attrs.flatMap (StunAttr.bytes tid padding)).length % 4 = 0 ∧
      attrs.length ≤ (attrs.flatMap (StunAttr.bytes tid padding)).length := by
  induction attrs with
  | nil => exact ⟨rfl, le_refl _⟩
  | cons attr attrs ih =>
    obtain ⟨hattr, hfour⟩ := length_bytes_mod (h attr mem_cons_self) tid padding
    obtain ⟨hrest, hcount⟩ := ih fun a ha => h a (mem_cons_of_mem _ ha)
    rw [flatMap_cons, length_append, length_cons]
    omega

theorem accepts_bytes (h : attr.Valid) (tid : Tid) (padding : UInt8)
    (hlen : (attr.bytes tid padding).length < 65536) :
    Accepts (stunAttrDecode tid.bytes) (attr.bytes tid padding) attr := by
  obtain ⟨bytes, henc, hbytes⟩ := attr.encodes h tid padding fun _ => rfl
  rw [hbytes, length_attrBytes] at hlen
  rw [hbytes]
  exact accepts_attr h (tidOk tid) padding henc (by omega)

/-- The attributes are read up to what is behind the message. -/
theorem attrsDecode_ok (tid : Tid) (padding : UInt8) (attrs : List StunAttr)
    (hvalid : ∀ attr ∈ attrs, attr.Valid)
    (hlen : (attrs.flatMap (StunAttr.bytes tid padding)).length < 65536)
    (ys : Bytes) : ∀ fuel, attrs.length ≤ fuel →
      attrsDecode tid.bytes ys.length fuel (attrs.flatMap (StunAttr.bytes tid padding) ++ ys) =
        .ok (attrs, ys) := by
  induction attrs with
  | nil =>
    intro fuel _
    cases fuel with
    | zero => rfl
    | succ fuel =>
      show (if ys.length ≤ ys.length ∧ ys.length - ys.length < 4 then _ else _) = _
      exact if_pos ⟨le_refl _, by omega⟩
  | cons attr attrs ih =>
    intro fuel hfuel
    obtain ⟨fuel, rfl⟩ := Nat.exists_eq_succ_of_ne_zero
      (Nat.ne_of_gt (lt_of_lt_of_le (Nat.succ_pos _) hfuel))
    rw [flatMap_cons, length_append] at hlen
    have hattr := hvalid attr mem_cons_self
    obtain ⟨-, hfour⟩ := length_bytes_mod hattr tid padding
    have hread := accepts_bytes hattr tid padding (by omega)
    have hrest := ih (fun a ha => hvalid a (mem_cons_of_mem _ ha))
      (by omega) fuel (Nat.le_of_succ_le_succ hfuel)
    rw [flatMap_cons, append_assoc]
    show (if _ then _ else _) = _
    rw [if_neg (by rw [length_append, length_append]; omega), andThen, hread]
    simp only [andThen, hrest]
    rfl

theorem length_hdrBytes (h : hdr.tid.length = 12) : (hdrBytes hdr).length = 20 := by
  simp only [hdrBytes, length_append, length_be16, length_be32, h]

/-- A type without the two highest bits, and a length in whole words. -/
structure HdrOk (hdr : StunHdr) : Prop where
  type : hdr.type &&& 0xc000 = 0 ∧ hdr.type &&& 0x3fff = hdr.type
  len : hdr.len.toNat % 4 = 0
  tid : hdr.tid.length = 12

theorem hdrDecode_ok (h : HdrOk hdr) (hys : hdr.len.toNat ≤ ys.length) :
    stunHdrDecode (hdrBytes hdr ++ ys) = .ok (hdr, ys) := by
  have hfields : Accepts (checked stunHeaderSize fun xs => StunHdr.mk (ofBe16 xs)
      (ofBe16 (xs.drop 2)) (ofBe32 (xs.drop 4)) (xs.drop 8)) (hdrBytes hdr) hdr := by
    refine accepts_fields _ (length_hdrBytes h.tid) ?_
    rw [hdrBytes, h.type.2]
    have htype : ofBe16 (be16 hdr.type ++ be16 hdr.len ++ be32 hdr.cookie ++ hdr.tid) = hdr.type :=
      ofBe16_be16_append _ _
    have hlen : ofBe16 ((be16 hdr.type ++ be16 hdr.len ++ be32 hdr.cookie ++ hdr.tid).drop 2) =
        hdr.len :=
      ofBe16_be16_append _ _
    have hcookie : ofBe32 ((be16 hdr.type ++ be16 hdr.len ++ be32 hdr.cookie ++ hdr.tid).drop 4) =
        hdr.cookie := ofBe32_be32_append _ _
    rw [htype, hlen, hcookie]
    rfl
  have hword : hdr.len &&& 0x3 = 0 := by
    apply UInt16.toNat_inj.mp
    exact (Nat.and_two_pow_sub_one_eq_mod hdr.len.toNat 2).trans h.len
  rw [stunHdrDecode, andThen, hfields]
  simp only [h.type.1, hword, ne_eq, not_true_eq_false, if_false, need, if_neg (Nat.not_lt.mpr hys),
    give]

/-- A buffer that holds a header and its attributes, with anything behind them. -/
theorem msgDecode_ok (h : HdrOk hdr) (tid : Tid) (htid : hdr.tid = tid.bytes) (padding : UInt8)
    (hvalid : ∀ attr ∈ attrs, attr.Valid)
    (hlen : hdr.len.toNat = (attrs.flatMap (StunAttr.bytes tid padding)).length)
    (hmb : mb.left = hdrBytes hdr ++ (attrs.flatMap (StunAttr.bytes tid padding) ++ ys)) :
    stunMsgDecode mb = .ok { hdr, attrl := attrs, start := mb.pos } := by
  have hlt : (attrs.flatMap (StunAttr.bytes tid padding)).length < 65536 := by
    rw [← hlen]
    exact hdr.len.toNat_lt
  have hcount := (length_flatMap_bytes hvalid tid padding).2
  have hextra : (attrs.flatMap (StunAttr.bytes tid padding) ++ ys).length - hdr.len.toNat =
      ys.length := by
    simp [hlen]
  have hread := attrsDecode_ok tid padding attrs hvalid hlt ys
    (attrs.flatMap (StunAttr.bytes tid padding) ++ ys).length (by rw [length_append]; omega)
  rw [stunMsgDecode, hmb, hdrDecode_ok h (by rw [length_append]; omega)]
  simp only [hextra, htid, hread]

/-! ## Writing the attributes -/

/-- The writer stands behind `front`, of which all behind `base` has been written; `W`
is what was in use before, of which nothing behind the position has changed. -/
structure Wrote (W : Bytes) (base : Nat) (front : Bytes) (mb : Mbuf) : Prop where
  pos : mb.pos = front.length
  upto : mb.upto mb.pos = front
  tail : mb.bytes.drop mb.pos = W.drop mb.pos
  used : mb.pos ≤ max base mb.end_

variable {W front : Bytes} {base : Nat} {mb : Mbuf}

theorem Wrote.write (h : Wrote W base front mb) (xs : Bytes) :
    Wrote W base (front ++ xs) (mbufWriteMem mb xs) where
  pos := by rw [mbufWriteMem_pos, h.pos, length_append]
  upto := by rw [mbufWriteMem_pos, mbufWriteMem_upto_pos, h.upto]
  tail := by rw [mbufWriteMem_pos, mbufWriteMem_tail, ← drop_drop, h.tail, drop_drop]
  used := le_trans (mbufWriteMem_pos_le mb xs) (le_max_right _ _)

/-- What was in use behind the position becomes the value of the attribute. -/
theorem Wrote.self (h : Wrote W base front mb) (type : UInt16) (padding : UInt8)
    (hdata : mb.pos + 4 ≤ W.length) :
    Wrote W base (front ++ attrBytes type (W.drop (mb.pos + 4)) padding)
    (encodeSelf mb type padding) := by
  have hend : mb.end_ = W.length := by
    have hlen := congrArg length h.tail
    rw [length_drop, length_drop, length_bytes] at hlen
    omega
  have hlen : (W.drop (mb.pos + 4)).length = W.length - (mb.pos + 4) := length_drop
  have hsize : mb.end_ + 2 ^ 64 - (mb.pos + 4) = (W.drop (mb.pos + 4)).length + 2 ^ 64 := by omega
  have hfield : UInt16.ofNat (mb.end_ + 2 ^ 64 - (mb.pos + 4)) =
      UInt16.ofNat (W.drop (mb.pos + 4)).length := by
    apply UInt16.toNat_inj.mp
    rw [hsize, UInt16.toNat_ofNat', UInt16.toNat_ofNat']
    omega
  have hpad : paddingBytes padding (mb.end_ + 2 ^ 64 - (mb.pos + 4)) =
      paddingBytes padding (W.drop (mb.pos + 4)).length := by
    simp [paddingBytes]
    omega
  have hhead := h.write (be16 type ++ be16 (UInt16.ofNat (W.drop (mb.pos + 4)).length))
  generalize hmb' : mbufWriteMem mb (be16 type ++ be16
    (UInt16.ofNat (W.drop (mb.pos + 4)).length)) = mb' at hhead
  have hpos' : mb'.pos = mb.pos + 4 := by rw [← hmb']; rfl
  have hend' : mb'.end_ = mb.end_ := by
    rw [← hmb']
    show max mb.end_ (mb.pos + 4) = mb.end_
    omega
  have hbytes : mb'.bytes = front ++ (be16 type ++ be16
      (UInt16.ofNat (W.drop (mb.pos + 4)).length)) ++
      W.drop (mb.pos + 4) := by
    rw [← take_append_drop mb'.pos mb'.bytes, ← upto_of_le (by omega), hhead.upto,
      hhead.tail, hpos']
  have hvalue :
      Wrote W base (front ++ (be16 type ++ be16 (UInt16.ofNat (W.drop (mb.pos + 4)).length)) ++
      W.drop (mb.pos + 4)) (mbufSetPos mb' mb.end_) := by
    refine ⟨?_, ?_, ?_, ?_⟩
    · rw [mbufSetPos_pos, ← hbytes, length_bytes, hend']
    · rw [mbufSetPos_pos, mbufSetPos_upto, ← hend', upto_end, hbytes]
    · simp [drop_eq_nil_of_le, hend']
      omega
    · simp [hend']
  have hall := hvalue.write (paddingBytes padding (W.drop (mb.pos + 4)).length)
  rw [encodeSelf]
  simp only [hfield, hpad, hmb']
  simp only [append_assoc] at hall ⊢
  exact hall

/-- The attributes that the arguments stand for, if they are written from `pos` on; one
whose data are to be found in the buffer must find them there. -/
def placed (tid : Tid) (padding : UInt8) (W : Bytes) :
    Nat → List (UInt16 × Option AttrArg) → Option (List StunAttr)
  | _, [] => some []
  | pos, (_, none) :: args => placed tid padding W pos args
  | pos, (type, some (.val v)) :: args =>
    (placed tid padding W (pos + (StunAttr.bytes tid padding ⟨type, v⟩).length) args).map
      (⟨type, v⟩ :: ·)
  | pos, (type, some .self) :: args =>
    if pos + 4 ≤ W.length then
      (placed tid padding W
        (pos + (StunAttr.bytes tid padding ⟨type, .mb (W.drop (pos + 4))⟩).length) args).map
        (⟨type, .mb (W.drop (pos + 4))⟩ :: ·)
    else none

theorem mb_valid_kind {type : UInt16} {data : Bytes} (h : StunAttr.Valid ⟨type, .mb data⟩) :
    attrKind type = .mb := by
  unfold StunAttr.Valid at h
  generalize attrKind type = kind at h
  cases kind <;> first | rfl | exact absurd h id

/-- The loop over the attributes writes them one behind the other. -/
theorem attrsEncode_ok (tid : Tid) (padding : UInt8) : ∀ (args : List (UInt16 × Option AttrArg))
    {attrs : List StunAttr} {front : Bytes} {mb : Mbuf}, Wrote W base front mb →
    placed tid padding W mb.pos args = some attrs → (∀ attr ∈ attrs, attr.Valid) →
      ∃ mb', attrsEncode tid.bytes padding args mb = .ok mb' ∧
        Wrote W base (front ++ attrs.flatMap (StunAttr.bytes tid padding)) mb' := by
  intro args
  induction args with
  | nil =>
    intro attrs front mb h hplaced _
    cases hplaced
    exact ⟨mb, rfl, by rw [flatMap_nil, append_nil]; exact h⟩
  | cons arg args ih =>
    obtain ⟨type, v⟩ := arg
    intro attrs front mb h hplaced hvalid
    cases v with
    | none => exact ih h hplaced hvalid
    | some v =>
      -- one attribute is written, and the others behind it
      obtain ⟨attr, others, mb', rfl, henc, hwrote, hothers⟩ :
          ∃ attr others mb', attrs = attr :: others ∧
          stunAttrEncode mb type v (some tid.bytes) padding = .ok mb' ∧
          Wrote W base (front ++ attr.bytes tid padding) mb' ∧
          placed tid padding W (mb.pos + (attr.bytes tid padding).length) args = some others := by
        cases v with
        | val v =>
          obtain ⟨others, hothers, rfl⟩ := Option.map_eq_some_iff.mp hplaced
          obtain ⟨bytes, henc, hbytes⟩ := StunAttr.encodes (hvalid _ mem_cons_self) tid padding
            fun _ => rfl
          exact ⟨_, others, _, rfl, by rw [stunAttrEncode, henc, hbytes], h.write _, hothers⟩
        | self =>
          rw [placed] at hplaced
          split at hplaced
          · next hdata =>
              obtain ⟨others, hothers, rfl⟩ := Option.map_eq_some_iff.mp hplaced
              have hattr := hvalid _ mem_cons_self
              have hkind := mb_valid_kind hattr
              obtain ⟨bytes, henc, hbytes⟩ := StunAttr.encodes hattr tid padding fun _ => rfl
              have hdata' : bytes = W.drop (mb.pos + 4) := by
                simp only [hkind] at henc
                cases henc
                rfl
              have hwrote := h.self type padding hdata
              rw [← hdata', ← hbytes] at hwrote
              exact ⟨_, others, _, rfl, by rw [stunAttrEncode, if_pos hkind], hwrote, hothers⟩
          · cases hplaced
      have hpos : mb'.pos = mb.pos + (attr.bytes tid padding).length := by
        rw [hwrote.pos, length_append, h.pos]
      obtain ⟨mb'', hencs, hall⟩ := ih hwrote (hpos ▸ hothers) fun a ha =>
        hvalid a (mem_cons_of_mem _ ha)
      refine ⟨mb'', by rw [attrsEncode, henc]; exact hencs, ?_⟩
      rw [flatMap_cons, ← append_assoc]
      exact hall

end LibRe.Stun
