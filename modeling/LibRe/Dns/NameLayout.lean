/-
LibRe.Dns.NameLayout — the wire format of a domain name, and the decoder against it.

`NameAt` says what the bytes at a place of a message spell: labels with their
length in front, closed by a zero byte or by a pointer to where the rest of the
name stands. It is the meeting point of the development: the decoder accepts
exactly the names of this format that follow at most 256 pointers and fit its
buffer (`dnsDnameDecode_parses`), and the encoder, in the module behind this
one, produces nothing else.
-/
import Mathlib.Data.FinEnum
import LibRe.Dns.Dname
import LibRe.Mbuf.Parse

namespace LibRe.Dns

open Bytes Layout List Nat

variable {label : Bytes} {labels : List Bytes}

/-! ## Names on the wire -/

/-- Labels with a dot between them. -/
def joinDots : List Bytes → Bytes
  | [] => []
  | label :: labels => label ++ labels.flatMap (dot :: ·)

/-- The labels at place `p` of the message `W`, the place behind them (behind
the pointer, when one is followed) and the number of pointers followed. -/
inductive NameAt (W : Bytes) (start : Nat) :
    Nat → List Bytes → Nat → Nat → Prop where
  | root {p : Nat} (h : [0] <+: W.drop p) : NameAt W start p [] (p + 1) 0
  | label {p q j : Nat} {len : UInt8} {label : Bytes} {labels : List Bytes}
      (h : len :: label <+: W.drop p) (hlen : label.length = len.toNat) (hpos : len ≠ 0)
      (hcomp : len.toNat < 192) (hrest : NameAt W start (p + 1 + len.toNat) labels q j) :
      NameAt W start p (label :: labels) q j
  | pointer {p q j : Nat} {v : UInt16} {labels : List Bytes}
      (h : be16 v <+: W.drop p) (hcomp : 0xc000 ≤ v.toNat)
      (hrest : NameAt W start ((v.toNat &&& offsetMask) + start) labels q j) :
      NameAt W start p labels (p + 2) (j + 1)

/-- A name as `dns_dname_decode` takes it: not too many pointers, not too long.
A NUL in a label ends the string. -/
def nameLayout (start : Nat) : Layout UInt8 Bytes :=
  fun W p q name => ∃ labels j, NameAt W start p labels q j ∧ j ≤ compLoop + 1 ∧
    (joinDots labels).length < nameBufSize ∧ name = cString (joinDots labels)

theorem nameLayout_stable (start : Nat) : (nameLayout start).Stable := by
  rintro W W' p q name hW ⟨labels, j, hname, hrest⟩
  refine ⟨labels, j, ?_, hrest⟩
  clear hrest
  induction hname with
  | root h => exact .root (h.trans (hW.drop _))
  | label h hlen hpos hcomp _ ih => exact .label (h.trans (hW.drop _)) hlen hpos hcomp ih
  | pointer h hcomp _ ih => exact .pointer (h.trans (hW.drop _)) hcomp ih

/-! ## Collecting labels -/

theorem length_appendLabel : buf.length + label.length ≤ (appendLabel buf label).length := by
  unfold appendLabel
  split
  · simp only [length_append, length_cons]; omega
  · omega

theorem foldl_appendLabel (h : buf ≠ []) (labels : List Bytes) :
    labels.foldl appendLabel buf = buf ++ labels.flatMap (dot :: ·) := by
  induction labels generalizing buf with
  | nil => simp
  | cons label labels ih =>
    simp [length_pos_of_ne_nil, appendLabel, h, ih]

variable {q j : Nat} {len : UInt8}

/-- The labels of a name are not empty. -/
theorem NameAt.label_ne_nil {W : Bytes}
    (h : NameAt W start p labels q j) : ∀ label ∈ labels, label ≠ [] := by
  induction h with
  | root => intro label hmem; cases hmem
  | label _ hlen hpos _ _ ih =>
    intro label hmem
    rcases mem_cons.mp hmem with rfl | htail
    · rintro rfl
      exact hpos (UInt8.toNat_inj.mp hlen.symm)
    · exact ih label htail
  | pointer _ _ _ ih => exact ih

/-- What the decoder collects is the labels with dots between them. -/
theorem foldl_appendLabel_nil (h : ∀ label ∈ labels, label ≠ []) :
    labels.foldl appendLabel [] = joinDots labels := by
  cases labels with
  | nil => rfl
  | cons label labels =>
    exact foldl_appendLabel (h label mem_cons_self) labels

theorem length_le_foldl_appendLabel (buf : Bytes) (labels : List Bytes) :
    buf.length ≤ (labels.foldl appendLabel buf).length := by
  induction labels generalizing buf with
  | nil => exact le_refl _
  | cons label labels ih =>
    exact le_trans (le_trans (le_add_right _ _) length_appendLabel) (ih (appendLabel buf label))

/-! ## One round of the decoder -/

variable {mb : Mbuf} {start fuel p loopc : Nat} {buf : Bytes} {saved : Option Nat}

/-- A byte of the memory in use. -/
theorem getD_buf {b : UInt8} {xs : Bytes} (h : b :: xs <+: mb.bytes.drop p) :
    p + 1 + xs.length ≤ mb.end_ ∧ mb.buf.getD p 0 = b ∧
      mb.slice (p + 1) (p + 1 + xs.length) = xs := by
  have hlen := h.length_le
  rw [length_drop, length_bytes, length_cons] at hlen
  obtain ⟨t, ht⟩ := h
  have hbytes : mb.bytes = mb.bytes.take p ++ (b :: xs ++ t) := by rw [ht, take_append_drop]
  have hp : (mb.bytes.take p).length = p := by rw [length_take, length_bytes]; omega
  refine ⟨by omega, ?_, ?_⟩
  · have hget : mb.bytes[p]? = some b := by
      grind
    rw [Mbuf.bytes, getElem?_take_of_lt (by omega)] at hget
    rw [getD_eq_getElem?_getD, hget]
    rfl
  · have hsplit : mb.bytes = (mb.bytes.take p ++ [b]) ++ (xs ++ t) := by
      grind
    exact slice_of_bytes hsplit (by simp [hp]) (by simp [hp])

/-- The top two bits of a length byte tell a pointer from a label. -/
theorem isPointer_iff (b : UInt8) : b &&& compMask = compMask ↔ 192 ≤ b.toNat := by
  revert b
  decide +kernel

theorem be16_head_iff (v : UInt16) :
    UInt8.ofNat (v.toNat / 256) &&& compMask = compMask ↔ 0xc000 ≤ v.toNat := by
  have hv : v.toNat < 65536 := v.toNat_lt
  rw [isPointer_iff, UInt8.toNat_ofNat']
  omega

theorem decode_root (h : [0] <+: mb.bytes.drop p) :
    dnameDecodeLoop mb start (fuel + 1) p buf loopc saved =
      some (.ok (cString buf, mbufSetPos mb (saved.getD (p + 1)))) := by
  obtain ⟨hle, hget, _⟩ := getD_buf h
  have hlt : p < mb.end_ := by simp at hle; omega
  rw [dnameDecodeLoop, if_pos hlt, hget]
  rfl

theorem decode_label (h : len :: label <+: mb.bytes.drop p)
    (hlen : label.length = len.toNat) (hpos : len ≠ 0) (hcomp : len.toNat < 192)
    (hfit : len.toNat + buf.length + 2 ≤ nameBufSize) :
    dnameDecodeLoop mb start (fuel + 1) p buf loopc saved =
      dnameDecodeLoop mb start fuel (p + 1 + len.toNat) (appendLabel buf label) loopc saved := by
  obtain ⟨hle, hget, hslice⟩ := getD_buf h
  rw [hlen] at hle hslice
  have hlt : p < mb.end_ := by omega
  have hptr : ¬ len &&& compMask = compMask := fun hc => by
    have := (isPointer_iff len).mp hc
    omega
  have hleft : ¬ len.toNat > mb.end_ - (p + 1) := by omega
  have hbuf : ¬ len.toNat + buf.length + 2 > nameBufSize := by omega
  rw [dnameDecodeLoop, if_pos hlt, hget]
  simp only [hpos, hptr, hleft, hbuf, if_false, hslice]

theorem decode_pointer {v : UInt16} (h : be16 v <+: mb.bytes.drop p) (hcomp : 0xc000 ≤ v.toNat)
    (hloop : loopc ≤ compLoop) :
    dnameDecodeLoop mb start (fuel + 1) p buf loopc saved =
      dnameDecodeLoop mb start fuel ((v.toNat &&& offsetMask) + start) buf (loopc + 1)
        (some (saved.getD (p + 2))) := by
  obtain ⟨hle, hget, _⟩ := getD_buf h
  have hlt : p < mb.end_ := by simp at hle; omega
  have hptr := (be16_head_iff v).mpr hcomp
  have hpos : ¬ UInt8.ofNat (v.toNat / 256) = 0 := fun h0 => by
    rw [h0] at hptr
    exact absurd hptr (by decide)
  have hmany : ¬ loopc > compLoop := by omega
  have hleft : ¬ mb.end_ - p < 2 := by simp at hle; omega
  have hslice : ofBe16 (mb.slice p (p + 2)) = v := by
    obtain ⟨t, ht⟩ := h
    have hbytes : mb.bytes = mb.bytes.take p ++ (be16 v ++ t) := by rw [ht, take_append_drop]
    have hp : (mb.bytes.take p).length = p := by rw [length_take, length_bytes]; omega
    rw [slice_of_bytes hbytes hp.symm (by rw [hp, length_be16])]
    simpa using ofBe16_be16_append v []
  rw [dnameDecodeLoop, if_pos hlt, hget]
  simp only [hpos, hptr, hmany, hleft, if_false, if_true, hslice]

/-- The bytes at a place, as the decoder looks at them. -/
theorem drop_eq_cons (h : p < mb.end_) :
    ∃ rest, mb.bytes.drop p = mb.buf.getD p 0 :: rest ∧ rest.length = mb.end_ - (p + 1) := by
  have hlt : p < mb.bytes.length := by rwa [length_bytes]
  refine ⟨mb.bytes.drop (p + 1), ?_, by rw [length_drop, length_bytes]⟩
  rw [drop_eq_getElem_cons hlt]
  congr 1
  have hhead : [mb.bytes[p]] <+: mb.bytes.drop p :=
    ⟨mb.bytes.drop (p + 1), by rw [drop_eq_getElem_cons hlt]; rfl⟩
  exact (getD_buf hhead).2.1.symm

/-- Two bytes are a word. -/
theorem exists_be16 (a b : UInt8) : ∃ v : UInt16, be16 v = [a, b] := by
  have ha := a.toNat_lt
  have hb := b.toNat_lt
  refine ⟨UInt16.ofNat (a.toNat * 256 + b.toNat), ?_⟩
  have hv : (UInt16.ofNat (a.toNat * 256 + b.toNat)).toNat = a.toNat * 256 + b.toNat := by
    simp
    omega
  rw [be16, hv]
  congr 1
  · apply UInt8.toNat_inj.mp
    rw [UInt8.toNat_ofNat']
    omega
  · simp

/-- What a round sees: nothing it can go on with, the end of the name, a label or a pointer. -/
theorem decode_round (mb : Mbuf) (start fuel p : Nat) (buf : Bytes) (loopc : Nat)
    (saved : Option Nat) :
    dnameDecodeLoop mb start (fuel + 1) p buf loopc saved = some (.error .EINVAL) ∨
    [0] <+: mb.bytes.drop p ∨
    (∃ len label, len :: label <+: mb.bytes.drop p ∧ label.length = len.toNat ∧ len ≠ 0 ∧
      len.toNat < 192 ∧ len.toNat + buf.length + 2 ≤ nameBufSize) ∨
    (∃ v, be16 v <+: mb.bytes.drop p ∧ 0xc000 ≤ v.toNat ∧ loopc ≤ compLoop) := by
  rw [dnameDecodeLoop]
  split
  case isFalse => exact .inl rfl
  case isTrue hlt =>
    obtain ⟨rest, hdrop, hrest⟩ := drop_eq_cons hlt
    generalize mb.buf.getD p 0 = len at hdrop
    rw [hdrop]
    simp only
    split
    case isTrue h0 => exact .inr (.inl (h0 ▸ ⟨rest, rfl⟩))
    case isFalse h0 =>
      split
      case isTrue hptr =>
        split
        case isTrue => exact .inl rfl
        case isFalse hmany =>
          split
          case isTrue => exact .inl rfl
          case isFalse hleft =>
            obtain ⟨b, t, rfl⟩ : ∃ b t, rest = b :: t :=
              exists_cons_of_length_pos (by omega)
            obtain ⟨v, hv⟩ := exists_be16 len b
            have hhead : UInt8.ofNat (v.toNat / 256) = len := (List.cons.inj hv).1
            refine .inr (.inr (.inr ⟨v, hv ▸ ⟨t, rfl⟩, ?_, by omega⟩))
            exact (be16_head_iff v).mp (hhead ▸ hptr)
      case isFalse hptr =>
        split
        case isTrue => exact .inl rfl
        case isFalse hleft =>
          split
          case isTrue => exact .inl rfl
          case isFalse hfit =>
            have hcomp : len.toNat < 192 := by
              have := mt (isPointer_iff len).mpr hptr
              omega
            refine .inr (.inr (.inl ⟨len, rest.take len.toNat, ?_, ?_, h0, hcomp, by omega⟩))
            · exact cons_prefix_cons.mpr ⟨rfl, take_prefix _ _⟩
            · rw [length_take]; omega

/-! ## The decoder accepts exactly the names -/

/-- How many rounds are left: one for each pointer and each byte of the buffer. -/
def roundsLeft (loopc : Nat) (buf : Bytes) : Nat :=
  (compLoop + 1 - loopc) + (nameBufSize - 1 - buf.length)

theorem roundsLeft_label (loopc : Nat) (hne : label ≠ [])
    (hfit : (appendLabel buf label).length < nameBufSize) :
    roundsLeft loopc (appendLabel buf label) < roundsLeft loopc buf := by
  have hpos := length_pos_of_ne_nil hne
  have hlen := @length_appendLabel label buf
  simp only [roundsLeft]
  omega

/-- The room the decoder asks for is the room the label takes. -/
theorem fits_appendLabel (buf : Bytes) (hlen : label.length = len.toNat) (hcomp : len.toNat < 192) :
    len.toNat + buf.length + 2 ≤ nameBufSize ↔ (appendLabel buf label).length < nameBufSize := by
  unfold appendLabel nameBufSize
  split
  · simp
    omega
  · omega

/-- The decoder always ends, and what it reads is a name of the format. -/
theorem dnameDecodeLoop_spec (h : roundsLeft loopc buf < fuel) (hloop : loopc ≤ compLoop + 1)
    (hbuf : buf.length < nameBufSize) :
    dnameDecodeLoop mb start fuel p buf loopc saved = some (.error .EINVAL) ∨
      ∃ labels q j, NameAt mb.bytes start p labels q j ∧ loopc + j ≤ compLoop + 1 ∧
        (labels.foldl appendLabel buf).length < nameBufSize ∧
        dnameDecodeLoop mb start fuel p buf loopc saved =
          some (.ok (cString (labels.foldl appendLabel buf), mbufSetPos mb (saved.getD q))) := by
  induction fuel generalizing p buf loopc saved with
  | zero => omega
  | succ fuel ih =>
    rcases decode_round mb start fuel p buf loopc saved with hend | hroot |
      ⟨len, label, hpre, hlen, hpos, hcomp, hfit⟩ | ⟨v, hpre, hcomp, hmany⟩
    · exact .inl hend
    · exact .inr ⟨[], p + 1, 0, .root hroot, hloop, hbuf, decode_root hroot⟩
    · rw [decode_label hpre hlen hpos hcomp hfit]
      have hroom := (fits_appendLabel buf hlen hcomp).mp hfit
      have hne : label ≠ [] := by
        rintro rfl
        exact hpos (UInt8.toNat_inj.mp hlen.symm)
      have hdown := roundsLeft_label loopc hne hroom
      refine (ih (by omega) hloop hroom).imp_right ?_
      rintro ⟨labels, q, j, hname, hrest⟩
      exact ⟨label :: labels, q, j, .label hpre hlen hpos hcomp hname, hrest⟩
    · rw [decode_pointer hpre hcomp hmany]
      refine (ih ?_ (by omega) hbuf).imp_right ?_
      · simp only [roundsLeft] at h ⊢
        omega
      · rintro ⟨labels, q, j, hname, hj, hrest⟩
        exact ⟨labels, p + 2, j + 1, .pointer hpre hcomp hname, by omega, hrest⟩

/-- The decoder reads a name of the format. -/
theorem decodeLoop_of_nameAt (h : NameAt mb.bytes start p labels q j) :
    ∀ {fuel loopc : Nat} {buf : Bytes} (saved : Option Nat),
      roundsLeft loopc buf < fuel → loopc + j ≤ compLoop + 1 →
      (labels.foldl appendLabel buf).length < nameBufSize →
      dnameDecodeLoop mb start fuel p buf loopc saved =
        some (.ok (cString (labels.foldl appendLabel buf), mbufSetPos mb (saved.getD q))) := by
  induction h with
  | root h =>
    intro fuel loopc buf saved hfuel hloop hbuf
    obtain ⟨fuel, rfl⟩ := exists_eq_succ_of_ne_zero (ne_of_gt (zero_lt_of_lt hfuel))
    exact decode_root h
  | @label p q j len label labels h hlen hpos hcomp hrest ih =>
    intro fuel loopc buf saved hfuel hloop hbuf
    obtain ⟨fuel, rfl⟩ := exists_eq_succ_of_ne_zero (ne_of_gt (zero_lt_of_lt hfuel))
    have hroom : (appendLabel buf label).length < nameBufSize :=
      lt_of_le_of_lt (length_le_foldl_appendLabel _ labels) hbuf
    have hne : label ≠ [] := (NameAt.label h hlen hpos hcomp hrest).label_ne_nil _ mem_cons_self
    have hdown := roundsLeft_label loopc hne hroom
    rw [decode_label h hlen hpos hcomp ((fits_appendLabel buf hlen hcomp).mpr hroom)]
    exact ih saved (by omega) hloop hbuf
  | @pointer p q j v labels h hcomp hrest ih =>
    intro fuel loopc buf saved hfuel hloop hbuf
    obtain ⟨fuel, rfl⟩ := exists_eq_succ_of_ne_zero (ne_of_gt (zero_lt_of_lt hfuel))
    rw [decode_pointer h hcomp (by omega), ih _ ?_ (by omega) hbuf]
    · rfl
    · grind [roundsLeft]

/-- `dns_dname_decode` accepts exactly the names of the format. -/
theorem dnsDnameDecode_parses (start : Nat) : Parses (dnsDnameDecode start) (nameLayout start) := by
  intro mb mb' name
  have hfuel : roundsLeft 0 [] < dnameDecodeFuel := by decide
  constructor
  · intro h
    rw [dnsDnameDecode] at h
    rcases dnameDecodeLoop_spec hfuel (zero_le _) (by decide) with herr | ⟨labels, q, j, hname, hj,
      hlen, hloop⟩
    · rw [herr] at h
      cases h
    · rw [hloop, foldl_appendLabel_nil hname.label_ne_nil] at h
      rw [foldl_appendLabel_nil hname.label_ne_nil] at hlen
      cases h
      exact ⟨q, ⟨labels, j, hname, by omega, hlen, rfl⟩, rfl⟩
  · rintro ⟨q, ⟨labels, j, hname, hj, hlen, rfl⟩, rfl⟩
    have hjoin := foldl_appendLabel_nil hname.label_ne_nil
    have hloop := decodeLoop_of_nameAt hname none hfuel (by omega) (hjoin ▸ hlen)
    rw [dnsDnameDecode, hloop, hjoin]
    rfl

/-! ## What the decoder reads -/

/-- The loop of `dns_dname_decode` with a record of what it does: the places of
the buffer it reads, the number of pointers it follows, and its result. -/
def dnameDecodeTrace (mb : Mbuf) (start : Nat) : Nat → Nat → Bytes → Nat → Option Nat →
    List Nat × Nat × Option (Except Errno (Bytes × Mbuf))
  | 0, _, _, _, _ => ([], 0, none)
  | fuel + 1, pos, buf, loopc, saved =>
    if pos < mb.end_ then
      let len := mb.buf.getD pos 0
      if len = 0 then ([pos], 0, some (.ok (cString buf, mbufSetPos mb (saved.getD (pos + 1)))))
      else if len &&& compMask = compMask then
        if loopc > compLoop then ([pos], 0, some (.error .EINVAL))
        else if mb.end_ - pos < 2 then ([pos], 0, some (.error .EINVAL))
        else
          let offset := (ofBe16 (mb.slice pos (pos + 2))).toNat &&& offsetMask
          let (reads, pointers, r) := dnameDecodeTrace mb start fuel (offset + start)
            buf (loopc + 1) (some (saved.getD (pos + 2)))
          -- the first byte is read again with the word
          ([pos, pos, pos + 1] ++ reads, pointers + 1, r)
      else if len.toNat > mb.end_ - (pos + 1) then ([pos], 0, some (.error .EINVAL))
      else if len.toNat + buf.length + 2 > nameBufSize then ([pos], 0, some (.error .EINVAL))
      else
        let label := mb.slice (pos + 1) (pos + 1 + len.toNat)
        let (reads, pointers, r) := dnameDecodeTrace mb start fuel (pos + 1 + len.toNat)
          (appendLabel buf label) loopc saved
        (List.range' pos (len.toNat + 1) ++ reads, pointers, r)
    else ([], 0, some (.error .EINVAL))

/-- The recorded loop is the loop, it reads bytes in use only, and it stops at the limit of
pointers. -/
theorem dnameDecodeTrace_spec (mb : Mbuf) (start fuel p : Nat) (buf : Bytes) (saved : Option Nat)
    (hloop : loopc ≤ compLoop + 1) :
    (∀ i ∈ (dnameDecodeTrace mb start fuel p buf loopc saved).1, i < mb.end_) ∧
      loopc + (dnameDecodeTrace mb start fuel p buf loopc saved).2.1 ≤ compLoop + 1 ∧
      (dnameDecodeTrace mb start fuel p buf loopc saved).2.2 =
        dnameDecodeLoop mb start fuel p buf loopc saved := by
  induction fuel generalizing p buf loopc saved with
  | zero => simp [dnameDecodeTrace, dnameDecodeLoop, hloop]
  | succ fuel ih =>
    unfold dnameDecodeTrace dnameDecodeLoop
    generalize mb.buf.getD p 0 = len
    split
    case isFalse => simp [hloop]
    case isTrue hlt =>
      simp only
      split
      case isTrue => simp [hlt, hloop]
      case isFalse =>
        split
        case isTrue =>
          split
          case isTrue => simp [hlt, hloop]
          case isFalse hmany =>
            split
            case isTrue => simp [hlt, hloop]
            case isFalse hleft =>
              obtain ⟨hreads, hcount, hsame⟩ :=
                ih (((ofBe16 (mb.slice p (p + 2))).toNat &&& offsetMask) + start)
                buf (some (saved.getD (p + 2))) (show loopc + 1 ≤ compLoop + 1 by omega)
              refine ⟨fun i hi => ?_, le_of_eq_of_le (add_right_comm loopc _ 1) hcount, hsame⟩
              rcases mem_append.mp hi with hhead | hrest
              · simp at hhead
                omega
              · exact hreads i hrest
        case isFalse =>
          split
          case isTrue => simp [hlt, hloop]
          case isFalse hroom =>
            split
            case isTrue => simp [hlt, hloop]
            case isFalse =>
              obtain ⟨hreads, hcount, hsame⟩ := ih _ _ _ hloop
              refine ⟨fun i hi => ?_, hcount, hsame⟩
              rcases mem_append.mp hi with hhead | hrest
              · have := mem_range'_1.mp hhead
                omega
              · exact hreads i hrest

/-- `dns_dname_decode` ends for every buffer, reads bytes in use only, follows at
most 256 pointers, and when it succeeds it stands behind the name at its place. -/
theorem dnsDnameDecode_safe (start : Nat) (mb : Mbuf) :
    ∃ reads pointers r,
      dnameDecodeTrace mb start dnameDecodeFuel mb.pos [] 0 none = (reads, pointers, some r) ∧
      dnsDnameDecode start mb = r ∧ (∀ i ∈ reads, i < mb.end_) ∧ pointers ≤ compLoop + 1 ∧
      ∀ name mb', r = .ok (name, mb') →
        ∃ labels q j, NameAt mb.bytes start mb.pos labels q j ∧ mb' = mbufSetPos mb q := by
  obtain ⟨hreads, hcount, hsame⟩ := dnameDecodeTrace_spec mb start dnameDecodeFuel mb.pos [] none
    (zero_le (compLoop + 1))
  obtain ⟨r, hr⟩ : ∃ r, dnameDecodeLoop mb start dnameDecodeFuel mb.pos [] 0 none = some r := by
    rcases @dnameDecodeLoop_spec mb start dnameDecodeFuel mb.pos 0 [] none (by decide) (zero_le _)
      (by decide) with
      h | ⟨_, _, _, _, _, _, h⟩ <;> exact ⟨_, h⟩
  have hrun : dnsDnameDecode start mb = r := by
    rw [dnsDnameDecode, hr, Option.getD_some]
  refine ⟨_, _, r, Prod.ext rfl (Prod.ext rfl (hsame.trans hr)), hrun, hreads, ?_, ?_⟩
  · rwa [zero_add] at hcount
  · rintro name mb' rfl
    obtain ⟨q, ⟨labels, j, hname, -⟩, hmb⟩ := (dnsDnameDecode_parses start mb mb' name).mp hrun
    exact ⟨labels, q, j, hname, hmb⟩

end LibRe.Dns
