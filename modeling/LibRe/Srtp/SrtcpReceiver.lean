/-
LibRe.Srtp.SrtcpReceiver — what an accepted SRTCP packet has passed.

`srtcp_decrypt` has two ways to a return of 0. With an HMAC every packet passes
the tag check and then the replay window. In Galois counter mode there is no
replay check, and the tag check stands under the E-bit of the packet itself. The
two results of this module are exact: a packet is accepted at most once exactly
for the suites with an HMAC, and an accepted packet has a matching tag over all
of its bytes exactly when the suite has an HMAC or the packet its E-bit.
-/
import LibRe.Srtp.Run

namespace LibRe.SRTP

open Bytes List Option

variable (K : Crypto)

/-- The word with E-bit and index of an SRTCP packet with `tagLen` bytes behind it. -/
def rtcpWord (tagLen : Nat) (pkt : Bytes) : UInt32 :=
  ofBe32 (pkt.drop (pkt.length - (4 + tagLen)))

/-- A packet cut into header, payload, E-bit with index, and HMAC tag. -/
structure RtcpParts (tagLen : Nat) (pkt hdr payload eix tag : Bytes) : Prop where
  bytes : pkt = hdr ++ (payload ++ (eix ++ tag))
  hdr : hdr.length = 8
  eix : eix.length = 4
  tag : tag.length = tagLen

/-! ## What the calls do to the replay window for RTCP -/

/-- A call leaves the view, or writes one stream whose replay window for RTCP is
the old one or has permitted one index more. -/
def KeepsReplay (v v' : View) : Prop :=
  v' = v ∨ ∃ strm, v' = v.update strm ∧
    (strm.replayRtcp = (v.streamOf strm.ssrc).replayRtcp ∨
      ∃ ix, srtpReplayCheck (v.streamOf strm.ssrc).replayRtcp ix = some strm.replayRtcp)

section Frame

variable (strm : SrtpStream) (seq : UInt16)

@[simp] theorem latchSeq_replayRtcp : (latchSeq strm seq).replayRtcp = strm.replayRtcp := by
  unfold latchSeq
  split <;> rfl

@[simp] theorem rollOver_replayRtcp : (rollOver strm seq).replayRtcp = strm.replayRtcp := by
  unfold rollOver
  split <;> rfl

@[simp] theorem raiseSeq_replayRtcp : (raiseSeq strm seq).replayRtcp = strm.replayRtcp := by
  unfold raiseSeq
  split <;> rfl

end Frame

attribute [local simp] ssrc_streamOf

variable {srtp : Srtp} {v' : View} {ix : UInt64} {tagLen : Nat} {key : Bytes}

/-- A stream written by one of the RTP functions. -/
theorem keepsReplay_update (ssrc : UInt32)
    (hssrc : strm.ssrc = ssrc) (h : strm.replayRtcp = (srtp.view.streamOf ssrc).replayRtcp) :
    KeepsReplay srtp.view (srtp.view.update strm) :=
  .inr ⟨strm, rfl, .inl (by rw [hssrc, h])⟩

section

variable (srtp : Srtp) (pkt : Bytes)

theorem keepsReplay_rtpSend : KeepsReplay srtp.view (rtpSend K srtp.view pkt).view := by
  unfold rtpSend
  split_ifs
  · exact .inl rfl
  · exact keepsReplay_update (rtpSsrc pkt) (by simp) (by simp)
  · exact .inl rfl

theorem keepsReplay_rtpReceive : KeepsReplay srtp.view (rtpReceive K srtp.view pkt).view := by
  unfold rtpReceive receiveOn
  split_ifs
  · exact .inl rfl
  · exact keepsReplay_update (rtpSsrc pkt) (by simp) (by simp)
  · simp only []
    generalize hstrm : rollOver _ _ = strm
    obtain ⟨replay, hopen⟩ := rtpOpen_strm K srtp.view.rtp
      (srtpGetIndex strm.roc strm.sL (rtpSeq pkt)) strm (pkt.take (headerLen pkt))
      (pkt.drop (headerLen pkt))
    simp only [hopen]
    split <;> exact keepsReplay_update (rtpSsrc pkt) (by simp [← hstrm]) (by simp [← hstrm])
  · exact .inl rfl

theorem keepsReplay_rtcpSend : KeepsReplay srtp.view (rtcpSend K srtp.view pkt).view := by
  unfold rtcpSend
  split_ifs
  · exact .inl rfl
  · exact keepsReplay_update (rtcpSsrc pkt) (ssrc_streamOf srtp (rtcpSsrc pkt)) rfl
  · exact .inl rfl

theorem keepsReplay_rtcpReceive : KeepsReplay srtp.view (rtcpReceive K srtp.view pkt).view := by
  unfold rtcpReceive rtcpReceiveOn
  split_ifs
  · exact .inl rfl
  · exact keepsReplay_update (rtcpSsrc pkt) (by simp) rfl
  · simp only [rtcpOpen_strm]
    rcases rtcpOpenHmac_strm K srtp.view.rtcp _ (srtp.view.streamOf (rtcpSsrc pkt)) _ _
      with h | ⟨replay, hr, h⟩
    · rw [h]
      exact keepsReplay_update (rtcpSsrc pkt) (by simp) rfl
    · rw [h]
      exact .inr ⟨_, rfl, .inr ⟨_, by simpa using hr⟩⟩
  · exact .inl rfl

end

/-- Any of the four calls. -/
theorem keepsReplay_call (srtp : Srtp) (op : Call) :
    KeepsReplay srtp.view (call K srtp op).srtp.view := by
  cases op with
  | srtpEncrypt mb =>
    rw [call, (srtpEncrypt_refines K srtp mb).view]
    exact keepsReplay_rtpSend K srtp mb.left
  | srtpDecrypt mb =>
    rw [call, (srtpDecrypt_refines K srtp mb).view]
    exact keepsReplay_rtpReceive K srtp mb.left
  | srtcpEncrypt mb =>
    rw [call, (srtcpEncrypt_refines K srtp mb).view]
    exact keepsReplay_rtcpSend K srtp mb.left
  | srtcpDecrypt mb =>
    rw [call, (srtcpDecrypt_refines K srtp mb).view]
    exact keepsReplay_rtcpReceive K srtp mb.left

variable {mb : Mbuf} {v : View}

theorem KeepsReplay.rtcp (h : KeepsReplay v v') : v'.rtcp = v.rtcp := by
  rcases h with h | ⟨strm, h, -⟩
  · rw [h]
  · rw [h, update_rtcp]

/-- What the window of an SSRC refuses, it goes on refusing. -/
theorem KeepsReplay.refuses (h : KeepsReplay v v')
    (hr : (v.streamOf ssrc).replayRtcp.Refuses ix) : (v'.streamOf ssrc).replayRtcp.Refuses ix := by
  rcases h with rfl | ⟨strm, rfl, hstrm⟩
  · exact hr
  by_cases hs : ssrc = strm.ssrc
  · subst hs
    have hof : (v.update strm).streamOf strm.ssrc = strm := by
      rw [View.streamOf, update_stream_self, getD_some]
    rw [hof]
    rcases hstrm with hsame | ⟨jx, hcheck⟩
    · simp [hsame, hr]
    · exact (refuses_iff hcheck).mpr (.inr (.inl hr))
  · simp_all [update_stream_ne, View.streamOf]

theorem calls_rtcp (ops : List Call) : ∀ srtp : Srtp, (calls K srtp ops).rtcp = srtp.rtcp := by
  induction ops with
  | nil => intro srtp; rfl
  | cons op ops ih =>
    intro srtp
    rw [calls, ih]
    exact (keepsReplay_call K srtp op).rtcp

theorem calls_refuses (ops : List Call) : ∀ srtp : Srtp,
    (srtp.view.streamOf ssrc).replayRtcp.Refuses ix →
    ((calls K srtp ops).view.streamOf ssrc).replayRtcp.Refuses ix := by
  induction ops with
  | nil => intro srtp h; exact h
  | cons op ops ih =>
    intro srtp h
    exact ih _ ((keepsReplay_call K srtp op).refuses h)

/-! ## Accepted packets -/

theorem exists_rtcpParts (h : 12 + tagLen ≤ pkt.length) :
    ∃ hdr payload eix tag, RtcpParts tagLen pkt hdr payload eix tag := by
  refine ⟨pkt.take 8, (pkt.drop 8).take (pkt.length - (12 + tagLen)),
    (pkt.drop (pkt.length - (4 + tagLen))).take 4, pkt.drop (pkt.length - tagLen), ⟨?_, ?_, ?_, ?_⟩⟩
  · have h1 : pkt.drop (pkt.length - tagLen) = (pkt.drop (pkt.length - (4 + tagLen))).drop 4 := by
      simp
      omega
    have h2 : pkt.drop (pkt.length - (4 + tagLen)) = (pkt.drop 8).drop
        (pkt.length - (12 + tagLen)) := by
      simp
      omega
    rw [h1, take_append_drop, h2, take_append_drop, take_append_drop]
  · simp
    omega
  · simp
    omega
  · simp
    omega

theorem RtcpParts.word {hdr eix tag : Bytes}
    (hp : RtcpParts tagLen pkt hdr payload eix tag) : rtcpWord tagLen pkt = ofBe32 eix := by
  have hdrop : pkt.drop (pkt.length - (4 + tagLen)) = eix ++ tag := by
    have hlen : pkt.length - (4 + tagLen) = (hdr ++ payload).length := by
      rw [hp.bytes, ← hp.tag, ← hp.eix]
      simp only [length_append]
      omega
    rw [hlen, hp.bytes, ← append_assoc, drop_left]
  rw [rtcpWord, hdrop, ofBe32_append (by rw [hp.eix])]

/-- The receiver on a packet in parts. -/
theorem rtcpReceive_eq {hdr eix tag : Bytes}
    (hp : RtcpParts v.rtcp.tagLen pkt hdr payload eix tag) (hroom : v.HasRoom (rtcpSsrc pkt)) :
    rtcpReceive K v pkt =
      (let r := rtcpOpen K v.rtcp (rtcpSsrc pkt) (v.streamOf (rtcpSsrc pkt)) hdr payload eix tag
       { err := r.err, view := v.update r.strm, ix := some (eIx (ofBe32 eix)).toUInt64
         checks := r.checks, out := hdr ++ r.plain }) := by
  have htake : pkt.take 8 = hdr := by rw [hp.bytes, ← hp.hdr, take_left]
  have hdrop : pkt.drop 8 = payload ++ (eix ++ tag) := by rw [hp.bytes, ← hp.hdr, drop_left]
  have hlen : pkt.length = 8 + (payload.length + (4 + v.rtcp.tagLen)) := by
    grind [RtcpParts.eix, RtcpParts.tag, length_append]
  have hn : (payload ++ (eix ++ tag)).length - (4 + v.rtcp.tagLen) = payload.length := by
    grind
  have hshort : ¬ (payload ++ (eix ++ tag)).length < 4 + v.rtcp.tagLen := by
    grind
  have htag : (payload ++ (eix ++ tag)).drop (payload.length + 4) = tag := by
    rw [← drop_drop, drop_left, ← hp.eix, drop_left]
  have heix : (eix ++ tag).take 4 = eix := by rw [← hp.eix, take_left]
  rw [rtcpReceive, if_neg (by omega), if_neg (not_not.mpr hroom), htake, hdrop, rtcpReceiveOn,
    if_neg hshort]
  simp only [hn, htag, heix, take_left, drop_left]

/-- An accepted packet is long enough and has a stream. -/
theorem rtcpReceive_accepted (h : (rtcpReceive K v pkt).err = none) :
    12 + v.rtcp.tagLen ≤ pkt.length ∧ v.HasRoom (rtcpSsrc pkt) := by
  unfold rtcpReceive rtcpReceiveOn at h
  split_ifs at h with hlen hroom hshort
  · cases h
  · cases h
  · rw [length_drop] at hshort
    exact ⟨by omega, hroom⟩
  · cases h

/-- An accepted packet, in parts. -/
theorem exists_accepted_parts (h : (srtcpDecrypt K srtp mb).err = none) :
    ∃ hdr payload eix tag, RtcpParts srtp.rtcp.tagLen mb.left hdr payload eix tag ∧
      srtp.view.HasRoom (rtcpSsrc mb.left) ∧
      (rtcpOpen K srtp.rtcp (rtcpSsrc mb.left) (srtp.view.streamOf (rtcpSsrc mb.left))
        hdr payload eix tag).err = none := by
  rw [(srtcpDecrypt_refines K srtp mb).err] at h
  obtain ⟨hlen, hroom⟩ := rtcpReceive_accepted K h
  obtain ⟨hdr, payload, eix, tag, hp⟩ := exists_rtcpParts hlen
  rw [rtcpReceive_eq K hp hroom] at h
  exact ⟨hdr, payload, eix, tag, hp, hroom, h⟩

/-! ## Replay -/

/-- With an HMAC the replay window refuses the index of an accepted packet. -/
theorem refuses_of_accepted (hh : srtp.rtcp.hmac.isSome = true)
    (h : (srtcpDecrypt K srtp mb).err = none) :
    ((srtcpDecrypt K srtp mb).srtp.view.streamOf (rtcpSsrc mb.left)).replayRtcp.Refuses
        (eIx (rtcpWord srtp.rtcp.tagLen mb.left)).toUInt64 ∧
      ¬ (srtp.view.streamOf (rtcpSsrc mb.left)).replayRtcp.Refuses
        (eIx (rtcpWord srtp.rtcp.tagLen mb.left)).toUInt64 := by
  obtain ⟨hdr, payload, eix, tag, hp, hroom, hopen⟩ := exists_accepted_parts K h
  obtain ⟨key, hkey⟩ := isSome_iff_exists.mp hh
  generalize hstrm : srtp.view.streamOf (rtcpSsrc mb.left) = strm
  have hssrc : strm.ssrc = rtcpSsrc mb.left := by rw [← hstrm, ssrc_streamOf]
  rw [(srtcpDecrypt_refines K srtp mb).view, rtcpReceive_eq K hp hroom, hp.word]
  simp only [hstrm]
  -- the HMAC stage has passed, so the window has permitted the index
  have hstage : ∃ replay, srtpReplayCheck strm.replayRtcp (eIx (ofBe32 eix)).toUInt64 =
      some replay ∧
      (rtcpOpenHmac K srtp.rtcp (eIx (ofBe32 eix)) strm (hdr ++ (payload ++ eix)) tag).strm
        = { strm with replayRtcp := replay } := by
    unfold rtcpOpen rtcpOpenHmac at hopen
    unfold rtcpOpenHmac
    simp only [hkey] at hopen ⊢
    by_cases htag : hmacTagOf K srtp.rtcp (hdr ++ (payload ++ eix)) ≠ tag
    · simp_all
    simp only [if_neg htag] at hopen ⊢
    cases hr : srtpReplayCheck strm.replayRtcp (eIx (ofBe32 eix)).toUInt64 with
    | none =>
      simp_all
    | some replay => exact ⟨replay, rfl, rfl⟩
  obtain ⟨replay, hcheck, hval⟩ := hstage
  have hview : srtp.view.rtcp = srtp.rtcp := rfl
  rw [rtcpOpen_strm, hview, hval, View.streamOf, ← hssrc]
  refine ⟨?_, fun hr => ?_⟩
  · rw [show strm.ssrc = ({ strm with replayRtcp := replay } : SrtpStream).ssrc from rfl,
      update_stream_self, getD_some]
    exact (refuses_iff hcheck).mpr (.inl rfl)
  · grind [srtpReplayCheck_eq_none_iff]

/-- Without an HMAC a packet that is accepted is accepted again at once. -/
theorem accepted_again (hh : srtp.rtcp.hmac = none) (h : (srtcpDecrypt K srtp mb).err = none) :
    (srtcpDecrypt K (srtcpDecrypt K srtp mb).srtp mb).err = none := by
  obtain ⟨hdr, payload, eix, tag, hp, hroom, hopen⟩ := exists_accepted_parts K h
  generalize hstrm : srtp.view.streamOf (rtcpSsrc mb.left) = strm
  have hssrc : strm.ssrc = rtcpSsrc mb.left := by rw [← hstrm, ssrc_streamOf]
  have hrv : srtp.view.rtcp = srtp.rtcp := rfl
  have hview : (srtcpDecrypt K srtp mb).srtp.view = srtp.view.update strm := by
    rw [(srtcpDecrypt_refines K srtp mb).view, rtcpReceive_eq K hp hroom]
    simp only [rtcpOpen_strm, rtcpOpenHmac, hrv, hh, hstrm]
  have hself : (srtp.view.update strm).stream (rtcpSsrc mb.left) = some strm := by
    rw [← hssrc]
    exact update_stream_self _ _
  rw [(srtcpDecrypt_refines K _ mb).err, hview, rtcpReceive_eq K hp (.inl (by rw [hself]; rfl))]
  simp only [View.streamOf, hself, getD_some, update_rtcp, hrv]
  rw [hstrm] at hopen
  exact hopen

/-- A packet that was accepted once is refused ever after, whatever comes in
between, exactly for the suites with an HMAC. -/
theorem srtcp_accepted_once_iff {suite : SrtpSuite} {key : Bytes} {flags : UInt32}
    {srtp₀ : Srtp} (halloc : srtpAlloc K suite key flags = .ok srtp₀)
    {before : List Call} {mb : Mbuf} (hok : (srtcpDecrypt K (calls K srtp₀ before) mb).err = none) :
    (∀ (between : List Call) (mb' : Mbuf), mb'.left = mb.left →
      (srtcpDecrypt K (calls K (srtcpDecrypt K (calls K srtp₀ before) mb).srtp between) mb').err
        ≠ none) ↔
    suite.params.hash = true := by
  obtain ⟨-, -, hhash, -⟩ := srtpAlloc_spec halloc
  have hrtcp := calls_rtcp K before srtp₀
  rw [← hhash, ← hrtcp]
  generalize hsrtp : calls K srtp₀ before = srtp
  rw [hsrtp] at hok
  constructor
  · intro honce
    cases hh : srtp.rtcp.hmac with
    | some k => rfl
    | none => exact absurd (accepted_again K hh hok) (honce [] mb rfl)
  · intro hh between mb' hleft hok'
    have hcomp : (calls K (srtcpDecrypt K srtp mb).srtp between).rtcp = srtp.rtcp := by
      rw [calls_rtcp]
      exact (keepsReplay_call K srtp (.srtcpDecrypt mb)).rtcp
    have hrefused := calls_refuses K between _ (refuses_of_accepted K hh hok).1
    have hnot := (refuses_of_accepted K (by rw [hcomp]; exact hh) hok').2
    rw [hcomp, hleft] at hnot
    exact hnot hrefused

/-- The reference packet is accepted and never again. -/
theorem srtcp_accepted_once_reference :
    (srtcpDecrypt referenceCrypto referenceRtcpSession (packetBuf referenceSrtcp)).err = none ∧
    ∀ (between : List Call) (mb' : Mbuf), mb'.left = (packetBuf referenceSrtcp).left →
      (srtcpDecrypt referenceCrypto (calls referenceCrypto (srtcpDecrypt referenceCrypto
        referenceRtcpSession (packetBuf referenceSrtcp)).srtp between) mb').err ≠ none :=
  have hok : (srtcpDecrypt referenceCrypto (calls referenceCrypto referenceRtcpSession [])
      (packetBuf referenceSrtcp)).err = none := by decide +kernel
  ⟨hok, (srtcp_accepted_once_iff referenceCrypto srtpAlloc_referenceRtcp hok).mpr rfl⟩

/-- A genuine packet of `AES_128_GCM` is accepted twice in a row. -/
theorem gcm_packet_accepted_twice :
    ¬ ∀ (K : Crypto) (suite : SrtpSuite) (key : Bytes) (flags : UInt32) (srtp₀ : Srtp)
        (before : List Call) (mb : Mbuf), srtpAlloc K suite key flags = .ok srtp₀ →
        suite.params.hash = true ∨ flags &&& srtpUnencryptedSrtcp = 0 →
        (srtcpDecrypt K (calls K srtp₀ before) mb).err = none →
        ∀ (between : List Call) (mb' : Mbuf), mb'.left = mb.left →
          (srtcpDecrypt K (calls K (srtcpDecrypt K (calls K srtp₀ before) mb).srtp between) mb').err
            ≠ none := by
  intro hall
  exact hall referenceCrypto .AES_128_GCM (referenceKey.take 28) 0 referenceGcmSession []
    (packetBuf referenceGcmSrtcp) srtpAlloc_referenceGcm (.inr rfl) (by decide +kernel) []
    (packetBuf referenceGcmSrtcp) rfl (by decide +kernel)

/-! ## Authentication -/

/-- A check that matched, of a tag made with the session's key over all of the
packet: header, payload, E-bit and index. -/
inductive Covers (K : Crypto) (c : Comp) (pkt : Bytes) : TagCheck → Prop where
  | hmac {key data tag : Bytes} (hkey : c.hmac = some key) (bytes : pkt = data ++ tag)
      (hlen : tag.length = c.tagLen) (calculated : tag = (K.hmacSha1 key data).val.take c.tagLen) :
      Covers K c pkt (.hmac key data tag tag)
  | gcm {key hdr ct tag eix : Bytes} (hkey : c.aes = some key) (hmode : c.mode = .gcm)
      (bytes : pkt = hdr ++ (ct ++ (tag ++ eix))) (hhdr : hdr.length = 8) (heix : eix.length = 4)
      (calculated : tag = (K.gcmTag key
        (srtpIvCalcGcm c.kS (rtcpSsrc pkt) (eIx (ofBe32 eix)).toUInt64) (hdr ++ eix) ct).val) :
      Covers K c pkt (.gcm key (srtpIvCalcGcm c.kS (rtcpSsrc pkt) (eIx (ofBe32 eix)).toUInt64)
        (hdr ++ eix) ct tag tag)

variable {c : Comp} {ssrc : UInt32} {strm : SrtpStream} {pkt hdr payload eix tag : Bytes}

/-- With an HMAC an accepted packet has its check. -/
theorem covers_hmac (hkey : c.hmac = some key) (hp : RtcpParts c.tagLen pkt hdr payload eix tag)
    (hopen : (rtcpOpen K c ssrc strm hdr payload eix tag).err = none) :
    ∃ chk ∈ (rtcpOpen K c ssrc strm hdr payload eix tag).checks, Covers K c pkt chk := by
  have htag : hmacTagOf K c (hdr ++ (payload ++ eix)) = tag := by
    by_contra hne
    unfold rtcpOpen rtcpOpenHmac at hopen
    simp only [hkey, if_pos hne] at hopen
    cases hopen
  have hchecks : (rtcpOpenHmac K c (eIx (ofBe32 eix)) strm (hdr ++ (payload ++ eix)) tag).checks
      = [.hmac key (hdr ++ (payload ++ eix)) tag tag] := by
    grind [rtcpOpenHmac]
  refine ⟨.hmac key (hdr ++ (payload ++ eix)) tag tag, ?_, .hmac hkey ?_ hp.tag ?_⟩
  · unfold rtcpOpen
    simp only []
    split
    · simp [hchecks]
    · simp [hchecks]
  · grind [RtcpParts.bytes]
  · rw [← htag, hmacTagOf, hkey]

/-- In Galois counter mode an accepted packet with its E-bit has its check. -/
theorem covers_gcm (hh : c.hmac = none) (hm : c.mode = .gcm)
    (haes : c.aes = some key) (ht : c.tagLen = 0) (hssrc : rtcpSsrc pkt = ssrc)
    (hp : RtcpParts c.tagLen pkt hdr payload eix tag) (he : eBit (ofBe32 eix) = true)
    (hopen : (rtcpOpen K c ssrc strm hdr payload eix tag).err = none) :
    ∃ chk ∈ (rtcpOpen K c ssrc strm hdr payload eix tag).checks, Covers K c pkt chk := by
  have htag : tag = [] := length_eq_zero_iff.mp (by rw [hp.tag, ht])
  unfold rtcpOpen rtcpOpenHmac at hopen ⊢
  unfold rtcpOpenAes at hopen ⊢
  simp only [hh, hm, haes, he] at hopen ⊢
  by_cases hshort : payload.length < gcmTagLen
  · simp_all
  rw [if_neg hshort] at hopen ⊢
  generalize hn : payload.length - gcmTagLen = n
  generalize hct : payload.take n = ct
  generalize hgtag : payload.drop n = gtag
  by_cases hne : gcmTagOf K c ssrc (eIx (ofBe32 eix)).toUInt64 (hdr ++ eix) ct ≠ gtag
  · simp_all
  rw [if_neg hne]
  have heq := not_not.mp hne
  refine ⟨_, mem_singleton_self _, ?_⟩
  rw [heq, ← hssrc]
  refine .gcm haes hm ?_ hp.hdr hp.eix ?_
  · rw [hp.bytes, htag, List.append_nil, ← take_append_drop n payload, hct, hgtag, append_assoc]
  · rw [← heq, gcmTagOf, haes, hm, hssrc]

/-- In Galois counter mode a packet without its E-bit has none. -/
theorem checks_unencrypted (hh : c.hmac = none) (he : eBit (ofBe32 eix) = false) :
    (rtcpOpen K c ssrc strm hdr payload eix tag).checks = [] := by
  unfold rtcpOpen rtcpOpenHmac rtcpOpenAes
  simp only [hh, he]
  cases c.aes with
  | none => rfl
  | some key => cases c.mode <;> rfl

/-- With authentication for SRTCP configured, an accepted packet has a matching
tag over all of its bytes exactly when the suite has an HMAC or the packet has
its E-bit set. -/
theorem srtcp_accepted_authentic_iff {suite : SrtpSuite} {key : Bytes} {flags : UInt32}
    {srtp₀ : Srtp} (halloc : srtpAlloc K suite key flags = .ok srtp₀)
    (hauth : suite.params.hash = true ∨ flags &&& srtpUnencryptedSrtcp = 0)
    {before : List Call} {mb : Mbuf} (hok : (srtcpDecrypt K (calls K srtp₀ before) mb).err = none) :
    (∃ chk ∈ (srtcpDecrypt K (calls K srtp₀ before) mb).checks, Covers K srtp₀.rtcp mb.left chk) ↔
      suite.params.hash = true ∨ eBit (rtcpWord srtp₀.rtcp.tagLen mb.left) = true := by
  obtain ⟨-, -, hhash, haes⟩ := srtpAlloc_spec halloc
  generalize hsrtp : calls K srtp₀ before = srtp
  have hrtcp : srtp.rtcp = srtp₀.rtcp := by rw [← hsrtp, calls_rtcp]
  rw [hsrtp] at hok
  obtain ⟨hdr, payload, eix, tag, hp, hroom, hopen⟩ := exists_accepted_parts K hok
  have hrv : srtp.view.rtcp = srtp.rtcp := rfl
  rw [(srtcpDecrypt_refines K srtp mb).checks, rtcpReceive_eq K hp hroom]
  simp only [hrv]
  rw [hrtcp] at hp hopen ⊢
  rw [hp.word, ← hhash]
  cases hh : srtp₀.rtcp.hmac with
  | some k => exact ⟨fun _ => .inl rfl, fun _ => covers_hmac K hh hp hopen⟩
  | none =>
    have hgcm : srtp₀.rtcp.mode = .gcm ∧ srtp₀.rtcp.tagLen = 0 := by
      have hv := srtp₀.rtcp_valid
      generalize srtp₀.rtcp = c at hv hh
      cases hv with
      | hmac aes k kS tagLen hpos hle => cases hh
      | gcm aes kS => exact ⟨rfl, rfl⟩
    have hsome : srtp₀.rtcp.aes.isSome = true := by
      rcases hauth with h | h
      · simp_all
      · simp [haes, h]
    obtain ⟨k, hk⟩ := isSome_iff_exists.mp hsome
    cases he : eBit (ofBe32 eix) with
    | true => exact ⟨fun _ => .inr rfl, fun _ => covers_gcm K hh hgcm.1 hk hgcm.2 rfl hp he hopen⟩
    | false =>
      simp [checks_unencrypted, hh, he]

/-- The reference packet of `AES_128_GCM` has its E-bit, so it has its check. -/
theorem srtcp_accepted_authentic_reference :
    ∃ chk ∈ (srtcpDecrypt referenceCrypto referenceGcmSession (packetBuf referenceGcmSrtcp)).checks,
      Covers referenceCrypto referenceGcmSession.rtcp (packetBuf referenceGcmSrtcp).left chk :=
  have hok : (srtcpDecrypt referenceCrypto (calls referenceCrypto referenceGcmSession [])
      (packetBuf referenceGcmSrtcp)).err = none := by decide +kernel
  (srtcp_accepted_authentic_iff referenceCrypto srtpAlloc_referenceGcm (.inr rfl) hok).mpr
    (.inr (by decide +kernel))

/-- Twelve bytes with the E-bit clear, which anybody can make. -/
def forgedSrtcp : Bytes := hexBytes 12 0x81c900010102030400000000

/-- They are accepted by a session of `AES_128_GCM`, without any check. -/
theorem forged_srtcp_accepted :
    ¬ ∀ (K : Crypto) (suite : SrtpSuite) (key : Bytes) (flags : UInt32) (srtp₀ : Srtp)
        (before : List Call) (mb : Mbuf), srtpAlloc K suite key flags = .ok srtp₀ →
        suite.params.hash = true ∨ flags &&& srtpUnencryptedSrtcp = 0 →
        (srtcpDecrypt K (calls K srtp₀ before) mb).err = none →
        ∃ chk ∈ (srtcpDecrypt K (calls K srtp₀ before) mb).checks,
          Covers K srtp₀.rtcp mb.left chk := by
  intro hall
  obtain ⟨chk, hmem, -⟩ := hall referenceCrypto .AES_128_GCM (referenceKey.take 28) 0
    referenceGcmSession [] (packetBuf forgedSrtcp) srtpAlloc_referenceGcm (.inr rfl)
    (by decide +kernel)
  exact absurd hmem not_mem_nil

end LibRe.SRTP
