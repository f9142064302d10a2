/-
LibRe.Rtp.Header — the RTP header parser `rtp_hdr_decode` (`src/rtp/rtp.c`).

`rtpHdrDecode` follows the source read by read. `headerLen` and `headerOf` say
what it amounts to: a header of `headerLen` bytes at the front of what is left
in the buffer, with its fields at fixed offsets. `rtpHdrDecode_ok` and
`rtpHdrDecode_error` are the only two ways the parser can end, and
`headerLen_congr` / `headerOf_congr` say that nothing behind the header
matters, which is what a transform that leaves the header alone needs.
-/
import LibRe.Mbuf.MbufTheorems

namespace LibRe

open Bytes List

/-- `struct rtp_header`, less the arrival timestamp the parser does not set. -/
structure RtpHeader where
  ver : UInt8
  pad : Bool
  ext : Bool
  cc : Nat
  m : Bool
  pt : UInt8
  seq : UInt16
  ts : UInt32
  ssrc : UInt32
  csrc : List UInt32
  xType : UInt16
  xLen : UInt16
  deriving DecidableEq, Repr

/-- `RTP_HEADER_SIZE`. -/
def rtpHeaderSize : Nat := 12

/-- The loop over the contributing sources. -/
def readCsrc : Nat → Mbuf → List UInt32 × Mbuf
  | 0, mb => ([], mb)
  | n + 1, mb =>
    let (v, mb) := mbufReadU32 mb
    let (vs, mb) := readCsrc n mb
    (v :: vs, mb)

/-- `rtp_hdr_decode`. The buffer comes back in both cases: a parser that
fails has still moved the position. -/
def rtpHdrDecode (mb : Mbuf) : Except Errno RtpHeader × Mbuf :=
  if mbufGetLeft mb < rtpHeaderSize then (.error .EBADMSG, mb)
  else
    match mbufReadMem mb 2 with
    | .error e => (.error e, mb)
    | .ok (buf, mb) =>
      let b0 := buf.headD 0
      let b1 := (buf.drop 1).headD 0
      let ext := (b0 >>> 4) &&& 0x01 == 1
      let cc := (b0 &&& 0x0f).toNat
      let (seq, mb) := mbufReadU16 mb
      let (ts, mb) := mbufReadU32 mb
      let (ssrc, mb) := mbufReadU32 mb
      if mbufGetLeft mb < cc * 4 then (.error .EBADMSG, mb)
      else
        let (csrc, mb) := readCsrc cc mb
        let hdr : RtpHeader :=
          { ver := (b0 >>> 6) &&& 0x03, pad := (b0 >>> 5) &&& 0x01 == 1, ext
            cc, m := (b1 >>> 7) &&& 0x01 == 1, pt := b1 &&& 0x7f
            seq, ts, ssrc, csrc, xType := 0, xLen := 0 }
        if ext then
          if mbufGetLeft mb < 4 then (.error .EBADMSG, mb)
          else
            let (xType, mb) := mbufReadU16 mb
            let (xLen, mb) := mbufReadU16 mb
            if mbufGetLeft mb < xLen.toNat * 4 then (.error .EBADMSG, mb)
            else (.ok { hdr with xType, xLen }, mbufAdvance mb (xLen.toNat * 4))
        else (.ok hdr, mb)

/-! ## What the parser reads -/

/-- The extension bit of the first byte. -/
def hasExt (c : Bytes) : Bool := (c.headD 0 >>> 4) &&& 0x01 == 1

/-- The number of contributing sources in the first byte. -/
def csrcCount (c : Bytes) : Nat := (c.headD 0 &&& 0x0f).toNat

/-- The length of the header at the front of `c`, as the header announces it. -/
def headerLen (c : Bytes) : Nat :=
  if hasExt c then
    12 + csrcCount c * 4 + 4 + (ofBe16 (c.drop (12 + csrcCount c * 4 + 2))).toNat * 4
  else 12 + csrcCount c * 4

/-- The `n` words from offset `i` on. -/
def wordsAt (c : Bytes) (i : Nat) : Nat → List UInt32
  | 0 => []
  | n + 1 => ofBe32 (c.drop i) :: wordsAt c (i + 4) n

/-- The header at the front of `c`. -/
def headerOf (c : Bytes) : RtpHeader where
  ver := (c.headD 0 >>> 6) &&& 0x03
  pad := (c.headD 0 >>> 5) &&& 0x01 == 1
  ext := hasExt c
  cc := csrcCount c
  m := ((c.drop 1).headD 0 >>> 7) &&& 0x01 == 1
  pt := (c.drop 1).headD 0 &&& 0x7f
  seq := ofBe16 (c.drop 2)
  ts := ofBe32 (c.drop 4)
  ssrc := ofBe32 (c.drop 8)
  csrc := wordsAt c 12 (csrcCount c)
  xType := if hasExt c then ofBe16 (c.drop (12 + csrcCount c * 4)) else 0
  xLen := if hasExt c then ofBe16 (c.drop (12 + csrcCount c * 4 + 2)) else 0

theorem headerLen_ge (c : Bytes) : 12 + csrcCount c * 4 ≤ headerLen c := by
  unfold headerLen
  split <;> omega

theorem wordsAt_drop (c : Bytes) (j : Nat) : ∀ (n i : Nat),
    wordsAt (c.drop j) i n = wordsAt c (j + i) n
  | 0, _ => rfl
  | n + 1, i => by
      rw [wordsAt, wordsAt, wordsAt_drop c j n (i + 4), drop_drop, add_assoc]

theorem readCsrc_eq : ∀ (n : Nat) (mb : Mbuf), n * 4 ≤ mb.left.length →
    readCsrc n mb = (wordsAt mb.left 0 n, mbufAdvance mb (n * 4))
  | 0, mb, _ => by simp [readCsrc, wordsAt]
  | n + 1, mb, h => by
      have hadv : (mbufAdvance mb 4).left = mb.left.drop 4 := mbufAdvance_left mb 4
      have hrest := readCsrc_eq n (mbufAdvance mb 4) (by rw [hadv, length_drop]; omega)
      rw [readCsrc, mbufReadU32_ok (by omega)]
      simp only [hrest, hadv, wordsAt_drop, wordsAt, drop_zero, mbufAdvance_advance]
      rw [add_mul, add_comm (n * 4)]

variable {mb : Mbuf} {k : Nat}

/-- The parser on a buffer with the twelve fixed bytes: the four ways it can end. -/
theorem rtpHdrDecode_eq (h : 12 ≤ mb.left.length) :
    rtpHdrDecode mb = (let n := 12 + csrcCount mb.left * 4
       if mb.left.length < n then (.error .EBADMSG, mbufAdvance mb 12)
       else if hasExt mb.left = true ∧ mb.left.length < n + 4 then
         (.error .EBADMSG, mbufAdvance mb n)
       else if hasExt mb.left = true ∧ mb.left.length < headerLen mb.left then
         (.error .EBADMSG, mbufAdvance mb (n + 4))
       else (.ok (headerOf mb.left), mbufAdvance mb (headerLen mb.left))) := by
  have hb0 : (mb.left.take 2).headD 0 = mb.left.headD 0 := by
    match mb.left, h with
    | x :: xs, _ => rfl
  have hb1 : ((mb.left.take 2).drop 1).headD 0 = (mb.left.drop 1).headD 0 := by
    match mb.left, h with
    | x :: y :: xs, _ => rfl
  have hcc : (mb.left.headD 0 &&& 0x0f).toNat = csrcCount mb.left := rfl
  have hext : ((mb.left.headD 0 >>> 4) &&& 0x01 == 1) = hasExt mb.left := rfl
  have hfit : ¬ mb.left.length < rtpHeaderSize := by simp only [rtpHeaderSize]; omega
  unfold rtpHdrDecode
  rw [mbufGetLeft_eq, if_neg hfit, mbufReadMem_ok (by omega)]
  simp only [hb0, hb1, hcc, hext, readU16_at (show 2 + 2 ≤ mb.left.length by omega),
    readU32_at (show 4 + 4 ≤ mb.left.length by omega),
    readU32_at (show 8 + 4 ≤ mb.left.length by omega), getLeft_at, Nat.reduceAdd]
  by_cases hcs : mb.left.length < 12 + csrcCount mb.left * 4
  · grind
  have hcs' : ¬ mb.left.length - 12 < csrcCount mb.left * 4 := by omega
  have hread := readCsrc_eq (csrcCount mb.left) (mbufAdvance mb 12)
    (by rw [mbufAdvance_left, length_drop]; omega)
  simp only [hcs, hcs', if_false, hread, mbufAdvance_advance, mbufAdvance_left, wordsAt_drop,
    getLeft_at]
  cases hx : hasExt mb.left with
  | false => simp [headerOf, headerLen, hx]
  | true =>
    -- the two words of the extension header, then its payload
    have hL : headerLen mb.left = 12 + csrcCount mb.left * 4 + 4
        + (ofBe16 (mb.left.drop (12 + csrcCount mb.left * 4 + 2))).toNat * 4 := by
      simp [headerLen, hx]
    by_cases h4 : mb.left.length < 12 + csrcCount mb.left * 4 + 4
    · grind
    have h4' : ¬ mb.left.length - (12 + csrcCount mb.left * 4) < 4 := by omega
    simp only [h4, h4', if_true, if_false, true_and, and_false, getLeft_at,
      readU16_at (show 12 + csrcCount mb.left * 4 + 2 ≤ mb.left.length by omega),
      readU16_at (show 12 + csrcCount mb.left * 4 + 2 + 2 ≤ mb.left.length by omega)]
    have h5 : mb.left.length - (12 + csrcCount mb.left * 4 + 2 + 2)
        < (ofBe16 (mb.left.drop (12 + csrcCount mb.left * 4 + 2))).toNat * 4
        ↔ mb.left.length < headerLen mb.left := by omega
    simp only [h5, mbufAdvance_advance, headerOf, hx, if_true, add_zero]
    rw [hL]

/-- A buffer that holds the header it announces is parsed: the header's fields,
and the position behind the header. -/
theorem rtpHdrDecode_ok (h : headerLen mb.left ≤ mb.left.length) :
    rtpHdrDecode mb = (.ok (headerOf mb.left), mbufAdvance mb (headerLen mb.left)) := by
  have hge := headerLen_ge mb.left
  rw [rtpHdrDecode_eq (by omega)]
  have h4 : ¬ (hasExt mb.left = true ∧ mb.left.length < 12 + csrcCount mb.left * 4 + 4) := by
    rintro ⟨hx, hlt⟩
    have : 12 + csrcCount mb.left * 4 + 4 ≤ headerLen mb.left := by
      simp [headerLen, hx]
    omega
  have h5 : ¬ (hasExt mb.left = true ∧ mb.left.length < headerLen mb.left) := by
    omega
  simp only [h4, h5, if_false]
  rw [if_neg (by omega)]

/-- A buffer too short for the header it announces is refused. -/
theorem rtpHdrDecode_error (h : mb.left.length < headerLen mb.left) :
    ∃ mb', rtpHdrDecode mb = (.error .EBADMSG, mb') := by
  by_cases h12 : 12 ≤ mb.left.length
  · rw [rtpHdrDecode_eq h12]
    simp only []
    split
    · exact ⟨_, rfl⟩
    split
    · exact ⟨_, rfl⟩
    have hx : hasExt mb.left = true := by
      by_contra hx
      simp only [headerLen, hx, if_false] at h
      omega
    rw [if_pos ⟨hx, h⟩]
    exact ⟨_, rfl⟩
  · rw [rtpHdrDecode, mbufGetLeft_eq, if_pos (by simp only [rtpHeaderSize]; omega)]
    exact ⟨mb, rfl⟩

/-! ## Nothing behind the header matters -/

variable {c c' : Bytes} {n : Nat}

section

variable (h : c'.take n = c.take n)
include h

theorem wordsAt_congr : ∀ (k i : Nat), i + k * 4 ≤ n →
    wordsAt c' i k = wordsAt c i k
  | 0, _, _ => rfl
  | k + 1, i, hi => by
      rw [wordsAt, wordsAt, ofBe32_drop_congr h (by omega), wordsAt_congr k (i + 4) (by omega)]

/-- Two byte lists that agree on their first byte. -/
theorem flags_congr (hn : 1 ≤ n) :
    c'.headD 0 = c.headD 0 ∧ csrcCount c' = csrcCount c ∧ hasExt c' = hasExt c := by
  have h0 : c'.headD 0 = c.headD 0 := headD_drop_congr (k := 0) h hn
  rw [csrcCount, csrcCount, hasExt, hasExt, h0]
  exact ⟨rfl, rfl, rfl⟩

/-- Two byte lists that agree on a header have the same header length. -/
theorem headerLen_congr (hn : headerLen c ≤ n) : headerLen c' = headerLen c := by
  have hge := headerLen_ge c
  obtain ⟨-, hcc, hext⟩ := flags_congr h (by omega)
  unfold headerLen at hn ⊢
  rw [hext, hcc]
  split
  · grind [ofBe16_drop_congr]
  · rfl

/-- Two byte lists that agree on a header have the same header. -/
theorem headerOf_congr (hn : headerLen c ≤ n) : headerOf c' = headerOf c := by
  have hge := headerLen_ge c
  obtain ⟨h0, hcc, hext⟩ := flags_congr h (by omega)
  have h1 := headD_drop_congr (k := 1) h (by omega)
  have hx : hasExt c = true → 12 + csrcCount c * 4 + 4 ≤ n := by
    grind [headerLen]
  unfold headerOf
  rw [hext, hcc, h0, h1, ofBe16_drop_congr h (k := 2) (by omega),
    ofBe32_drop_congr h (k := 4) (by omega), ofBe32_drop_congr h (k := 8) (by omega),
    wordsAt_congr h _ _ (by omega)]
  cases hxe : hasExt c with
  | false => rfl
  | true =>
    have := hx hxe
    rw [ofBe16_drop_congr h (k := 12 + csrcCount c * 4) (by omega),
      ofBe16_drop_congr h (k := 12 + csrcCount c * 4 + 2) (by omega)]

end

end LibRe
