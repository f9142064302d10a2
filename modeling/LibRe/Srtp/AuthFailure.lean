/-
LibRe.Srtp.AuthFailure — what a packet with a bad tag leaves behind.

`srtp_decrypt` looks up the stream, sets its initial sequence number and steps
its roll-over counter before it checks the tag; the highest sequence number and
the replay window come after. So a packet that fails the check is without
effect on a stream that has its sequence number and does not roll over for it,
and only there: `rejected_without_effect_iff` says that in every other case
some later packets are treated differently.

The packets that show the difference are headers without payload. They hold no
tag, so no key is needed to make them and their codes do not depend on the
cipher.
-/
import LibRe.Srtp.Run

namespace LibRe.SRTP

open Bytes

variable {strm : SrtpStream} {srtp : Srtp} (K : Crypto)

/-- The stream of the packet has its sequence number, and the packet does not
roll it over. -/
def Settled (srtp : Srtp) (pkt : Bytes) : Prop :=
  ∃ strm, streamFind srtp (rtpSsrc pkt) = some strm ∧ strm.sLSet = true ∧
    -32768 < seqDiff strm.sL (rtpSeq pkt)

/-! ## The session after a bad tag -/

variable {c : Comp} {mb : Mbuf} {ssrc : UInt32}

/-- A refused tag leaves the stream as it was before the check. -/
theorem rtpOpen_eauth {ix : UInt64} {hdr rest : Bytes}
    (h : (rtpOpen K c ix strm hdr rest).err = some .EAUTH) :
    (rtpOpen K c ix strm hdr rest).strm = strm := by
  unfold rtpOpen rtpVerdict at h ⊢
  simp only [] at h ⊢
  split
  · rfl
  split
  · rename_i hlen htag
    rw [if_neg hlen, if_pos htag] at h
    split at h
    · cases h
    · cases h
  · rfl

/-- A packet with a bad tag: what was true before it and what is left of it. -/
theorem srtpDecrypt_eauth (h : (srtpDecrypt K srtp mb).err = some .EAUTH) :
    srtp.view.HasRoom (rtpSsrc mb.left) ∧
    seqDiff (latchSeq (srtp.view.streamOf (rtpSsrc mb.left)) (rtpSeq mb.left)).sL (rtpSeq mb.left)
      ≤ 32768 ∧
    (srtpDecrypt K srtp mb).srtp.view = srtp.view.update
      (rollOver (latchSeq (srtp.view.streamOf (rtpSsrc mb.left)) (rtpSeq mb.left))
        (rtpSeq mb.left)) := by
  have href := srtpDecrypt_refines K srtp mb
  rw [href.err] at h
  rw [href.view]
  unfold rtpReceive at h ⊢
  by_cases hlen : mb.left.length < headerLen mb.left
  · rw [if_pos hlen] at h
    cases h
  by_cases hroom : srtp.view.HasRoom (rtpSsrc mb.left)
  · rw [if_neg hlen, if_neg (not_not.mpr hroom)] at h ⊢
    unfold receiveOn at h ⊢
    by_cases hdiff : seqDiff (latchSeq (srtp.view.streamOf (rtpSsrc mb.left))
        (rtpSeq mb.left)).sL (rtpSeq mb.left) > 32768
    · rw [if_pos hdiff] at h
      cases h
    rw [if_neg hdiff] at h ⊢
    simp only [] at h ⊢
    split at h
    · simp_all [rtpOpen_eauth]
    · cases h
  · rw [if_neg hlen, if_pos hroom] at h
    cases h

/-- On a settled stream a bad tag leaves the view as it was. -/
theorem view_of_settled (h : (srtpDecrypt K srtp mb).err = some .EAUTH)
    (hs : Settled srtp mb.left) : (srtpDecrypt K srtp mb).srtp.view = srtp.view := by
  obtain ⟨strm, hfind, hset, hdiff⟩ := hs
  obtain ⟨-, -, hview⟩ := srtpDecrypt_eauth K h
  have hof : srtp.view.streamOf (rtpSsrc mb.left) = strm := by
    simp [View.streamOf, Srtp.view, hfind]
  have hlatch : latchSeq strm (rtpSeq mb.left) = strm := by rw [latchSeq, if_pos hset]
  have hroll : rollOver strm (rtpSeq mb.left) = strm := by
    rw [rollOver, if_neg (by omega)]
  rw [hview, hof, hlatch, hroll]
  apply update_of_stream
  rw [ssrc_of_find hfind]
  exact hfind

/-! ## Headers without payload -/

/-- The tag of a session's RTP half is not empty. -/
theorem rtpTagLen_pos (h : c.Valid) : 0 < rtpTagLen c := by
  cases h with
  | hmac aes key kS tagLen hpos => exact hpos
  | gcm aes kS => exact Nat.succ_pos 15

/-- The code of a header without payload on a stream with highest number `sL`. -/
def bareCode (sL seq : UInt16) : Errno :=
  if seqDiff sL seq > 32768 then .ETIMEDOUT else .EBADMSG

/-- What a header without payload does: the two codes, the latch and the roll-over. -/
theorem srtpDecrypt_barePacket (seq : UInt16)
    (hroom : srtp.view.HasRoom ssrc) (hstrm : latchSeq (srtp.view.streamOf ssrc) seq = strm) :
    (srtpDecrypt K srtp (barePacket ssrc seq)).err = some (bareCode strm.sL seq) ∧
    (srtpDecrypt K srtp (barePacket ssrc seq)).srtp.view = srtp.view.update
      (if seqDiff strm.sL seq > 32768 then strm else rollOver strm seq) := by
  have href := srtpDecrypt_refines K srtp (barePacket ssrc seq)
  have hleft : (barePacket ssrc seq).left = bareHeader ssrc seq := rfl
  have hlen : ¬ (bareHeader ssrc seq).length < headerLen (bareHeader ssrc seq) := by
    rw [headerLen_bareHeader]
    show ¬ (12 < 12)
    omega
  have hdrop : (bareHeader ssrc seq).drop (headerLen (bareHeader ssrc seq)) = [] := by
    rw [headerLen_bareHeader]
    rfl
  rw [href.err, href.view, hleft, rtpReceive, if_neg hlen, rtpSsrc_bareHeader, rtpSeq_bareHeader,
    if_neg (not_not.mpr hroom), hstrm, hdrop, receiveOn]
  by_cases hdiff : seqDiff strm.sL seq > 32768
  · rw [if_pos hdiff, if_pos hdiff, bareCode, if_pos hdiff]
    exact ⟨rfl, rfl⟩
  · rw [if_neg hdiff, if_neg hdiff, bareCode, if_neg hdiff]
    have hshort : ([] : Bytes).length < rtpTagLen srtp.view.rtp := rtpTagLen_pos srtp.rtp_valid
    simp only [rtpOpen_short K srtp.view.rtp _ (rollOver strm seq) hshort]
    exact ⟨trivial, trivial⟩

/-- The highest number after a header without payload. -/
def bareNext (sL seq : UInt16) : UInt16 :=
  if seqDiff sL seq > 32768 then sL else if seqDiff sL seq ≤ -32768 then 0 else sL

/-- The codes of a sequence of them. -/
def bareCodes (sL : UInt16) : List UInt16 → List (Option Errno)
  | [] => []
  | seq :: seqs => some (bareCode sL seq) :: bareCodes (bareNext sL seq) seqs

theorem bareNext_eq (strm : SrtpStream) (seq : UInt16) :
    (if seqDiff strm.sL seq > 32768 then strm else rollOver strm seq).sL =
      bareNext strm.sL seq := by
  unfold bareNext rollOver
  split
  · rfl
  · split <;> rfl

/-- A stream that was just written is there, and nothing is latched any more. -/
theorem streamOf_update {srtp' : Srtp}
    (h : srtp'.view = srtp.view.update strm) (hssrc : strm.ssrc = ssrc) (hset : strm.sLSet = true)
    (seq : UInt16) : srtp'.view.HasRoom ssrc ∧ latchSeq (srtp'.view.streamOf ssrc) seq = strm := by
  have hstream : srtp'.view.stream ssrc = some strm := by
    rw [h, ← hssrc]
    exact update_stream_self _ _
  refine ⟨.inl (by rw [hstream]; rfl), ?_⟩
  rw [View.streamOf, hstream, Option.getD_some, latchSeq, if_pos hset]

/-- A run of headers without payload: the codes follow from the highest number. -/
theorem receiveAll_bare (ssrc : UInt32) (seqs : List UInt16) : ∀ (srtp : Srtp) (sL : UInt16),
    srtp.view.HasRoom ssrc →
    (∀ seq ∈ seqs.head?, (latchSeq (srtp.view.streamOf ssrc) seq).sL = sL) →
    (receiveAll K srtp (seqs.map fun seq => .rtp (barePacket ssrc seq))).map Prod.fst
      = bareCodes sL seqs := by
  induction seqs with
  | nil => intro srtp sL _ _; rfl
  | cons seq seqs ih =>
    intro srtp sL hroom hsL
    have hsL' := hsL seq rfl
    generalize hstrm : latchSeq (srtp.view.streamOf ssrc) seq = strm at hsL'
    obtain ⟨herr, hview⟩ := srtpDecrypt_barePacket K seq hroom hstrm
    rw [hsL'] at herr
    have hset : (if seqDiff strm.sL seq > 32768 then strm else rollOver strm seq).sLSet = true := by
      grind [rollOver_sLSet, sLSet_latchSeq]
    have hssrc : (if seqDiff strm.sL seq > 32768 then strm else rollOver strm seq).ssrc = ssrc := by
      grind [rollOver_ssrc, latchSeq_ssrc, ssrc_streamOf]
    have hnext := ih (srtpDecrypt K srtp (barePacket ssrc seq)).srtp (bareNext sL seq)
      (streamOf_update hview hssrc hset seq).1
      (fun q _ => by rw [(streamOf_update hview hssrc hset q).2, bareNext_eq, hsL'])
    exact congrArg₂ List.cons herr hnext

/-! ## The difference shows -/

/-- A latched number shows: some headers are answered differently when the
first of them is latched instead. -/
theorem exists_bareCodes_ne_latched (sL : UInt16) :
    ∃ q qs, bareCodes sL (q :: qs) ≠ bareCodes q (q :: qs) := by
  have h65535 : (65535 : UInt16).toNat = 65535 := rfl
  have h1 : (1 : UInt16).toNat = 1 := rfl
  by_cases hlow : sL.toNat < 32767
  · -- the wrap is taken for an old packet
    refine ⟨65535, [], ?_⟩
    have ha : bareCode sL 65535 = .ETIMEDOUT := by
      rw [bareCode, if_pos (by unfold seqDiff; omega)]
    have hb : bareCode 65535 65535 = .EBADMSG := by decide
    simp [bareCodes, ha, hb]
  · by_cases hhigh : 32769 ≤ sL.toNat
    · -- the roll-over counter steps, and the number after it is too far ahead
      refine ⟨1, [32769], ?_⟩
      have hn : bareNext sL 1 = 0 := by
        rw [bareNext, if_neg (by unfold seqDiff; omega), if_pos (by unfold seqDiff; omega)]
      have ha : bareCode 0 32769 = .ETIMEDOUT := by decide
      have hb : bareCodes 1 [1, 32769] = [some .EBADMSG, some .EBADMSG] := by decide
      rw [hb]
      simp [bareCodes, hn, ha]
    · -- in the middle neither happens, where the other stream refuses the wrap
      refine ⟨1, [65535], ?_⟩
      have hn : bareNext sL 1 = sL := by
        rw [bareNext, if_neg (by unfold seqDiff; omega), if_neg (by unfold seqDiff; omega)]
      have ha : bareCode sL 65535 = .EBADMSG := by
        rw [bareCode, if_neg (by unfold seqDiff; omega)]
      have hb : bareCodes 1 [1, 65535] = [some .EBADMSG, some .ETIMEDOUT] := by decide
      rw [hb]
      simp [bareCodes, hn, ha]

/-- A roll-over shows in the last number before it. -/
theorem bareCodes_ne_rolled {sL : UInt16} (h : 32768 ≤ sL.toNat) :
    bareCodes 0 [65535] ≠ bareCodes sL [65535] := by
  have h65535 : (65535 : UInt16).toNat = 65535 := rfl
  have ha : bareCode 0 65535 = .ETIMEDOUT := by decide
  have hb : bareCode sL 65535 = .EBADMSG := by
    rw [bareCode, if_neg (by unfold seqDiff; omega)]
  simp [bareCodes, ha, hb]

/-- After a bad tag on a stream that is not settled some later packets are
answered differently. -/
theorem exists_difference
    (h : (srtpDecrypt K srtp mb).err = some .EAUTH) (hs : ¬ Settled srtp mb.left) :
    ∃ later, receiveAll K (srtpDecrypt K srtp mb).srtp later ≠ receiveAll K srtp later := by
  generalize hssrc : rtpSsrc mb.left = ssrc
  generalize hseq : rtpSeq mb.left = seq
  obtain ⟨hroom, hdiff, hview⟩ := srtpDecrypt_eauth K h
  rw [hssrc, hseq] at hview hdiff
  rw [hssrc] at hroom
  have hupd := fun q => streamOf_update hview
    (by rw [rollOver_ssrc, latchSeq_ssrc, ssrc_streamOf])
    (by rw [rollOver_sLSet, sLSet_latchSeq]) q
  -- it is enough that the codes differ, with and without the rejected packet
  obtain ⟨q, qs, hne⟩ : ∃ q qs, bareCodes (rollOver (latchSeq (srtp.view.streamOf ssrc) seq) seq).sL
      (q :: qs) ≠ bareCodes (latchSeq (srtp.view.streamOf ssrc) q).sL (q :: qs) := by
    cases hset : (srtp.view.streamOf ssrc).sLSet with
    | false =>
      -- the number of the rejected packet is latched
      have hlatch : ∀ q, (latchSeq (srtp.view.streamOf ssrc) q).sL = q := by
        simp [latchSeq, hset]
      have hroll : (rollOver (latchSeq (srtp.view.streamOf ssrc) seq) seq).sL = seq := by
        rw [rollOver, if_neg (by rw [hlatch, seqDiff_self]; decide), hlatch]
      obtain ⟨q, qs, hne⟩ := exists_bareCodes_ne_latched seq
      exact ⟨q, qs, by rwa [hroll, hlatch]⟩
    | true =>
      have hlatch : ∀ q, latchSeq (srtp.view.streamOf ssrc) q = srtp.view.streamOf ssrc := by
        simp [latchSeq, hset]
      -- the stream exists, so what is missing is that the packet rolls it over
      have hrolls : seqDiff (srtp.view.streamOf ssrc).sL seq ≤ -32768 := by
        by_contra hno
        apply hs
        cases hf : streamFind srtp ssrc with
        | none =>
          rw [View.streamOf, show srtp.view.stream ssrc = none from hf] at hset
          cases hset
        | some strm =>
          have hof : srtp.view.streamOf ssrc = strm := by
            rw [View.streamOf, show srtp.view.stream ssrc = some strm from hf]
            rfl
          rw [hof] at hset hno
          exact ⟨strm, by rw [hssrc]; exact hf, hset, by rw [hseq]; omega⟩
      have hroll : (rollOver (srtp.view.streamOf ssrc) seq).sL = 0 := by
        rw [rollOver, if_pos hrolls]
      have hhigh : 32768 ≤ (srtp.view.streamOf ssrc).sL.toNat := by
        grind [seqDiff]
      exact ⟨65535, [], by rw [hlatch, hlatch, hroll]; exact bareCodes_ne_rolled hhigh⟩
  refine ⟨(q :: qs).map fun seq => .rtp (barePacket ssrc seq), fun heq => hne ?_⟩
  rw [← receiveAll_bare K ssrc (q :: qs) _ _ (hupd q).1 fun q' _ => by rw [(hupd q').2],
    ← receiveAll_bare K ssrc (q :: qs) srtp _ hroom fun q' hq' => by
    rw [Option.mem_some_iff.mp hq'], heq]

/-- A packet whose tag does not verify has no effect on later traffic exactly
when its stream is settled. -/
theorem rejected_without_effect_iff {srtp : Srtp} {mb : Mbuf}
    (h : (srtpDecrypt K srtp mb).err = some .EAUTH) :
    (∀ later, receiveAll K (srtpDecrypt K srtp mb).srtp later = receiveAll K srtp later) ↔
      Settled srtp mb.left := by
  constructor
  · intro hsame
    by_contra hs
    obtain ⟨later, hne⟩ := exists_difference K h hs
    exact hne (hsame later)
  · intro hs later
    exact receiveAll_congr K later (view_of_settled K h hs)

/-- A header with sequence number 65535 and a tag of zeros. -/
def forgedSrtp : Bytes := hexBytes 22 0x8000ffff000000000102030400000000000000000000

/-- The forged packet is rejected on a fresh session, so the result applies to it. -/
theorem forged_without_effect_iff :
    (srtpDecrypt referenceCrypto referenceSession (packetBuf forgedSrtp)).err = some .EAUTH ∧
    ((∀ later, receiveAll referenceCrypto
        (srtpDecrypt referenceCrypto referenceSession (packetBuf forgedSrtp)).srtp later
          = receiveAll referenceCrypto referenceSession later) ↔
      Settled referenceSession (packetBuf forgedSrtp).left) :=
  ⟨by decide +kernel, rejected_without_effect_iff referenceCrypto (by decide +kernel)⟩

/-- It does have an effect: the genuine packet that comes next is taken for one
of the next roll-over and refused, where it is accepted without the forged one. -/
theorem forged_packet_blocks_genuine :
    ¬ ∀ (K : Crypto) (srtp : Srtp) (mb : Mbuf), Reachable K srtp →
      (srtpDecrypt K srtp mb).err = some .EAUTH →
      ∀ later, receiveAll K (srtpDecrypt K srtp mb).srtp later = receiveAll K srtp later := by
  intro hclaim
  have hsame := hclaim referenceCrypto referenceSession (packetBuf forgedSrtp)
    reachable_referenceSession (by decide +kernel) [.rtp (packetBuf referenceSrtp)]
  exact absurd hsame (by decide)

end LibRe.SRTP
