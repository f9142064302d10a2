/-
LibRe.Srtp.ReceiverIndex — the receiver reconstructs the sender's index.

The sender counts its packets with a 48-bit index and shows the lower sixteen
bits. `ReceiverRun` is a run of a receiver over authentic packets of one SSRC,
in any order and with duplicates and losses, each near the highest index
accepted before it. The receiver starts with roll-over counter 0. If the sender
is there too when the first packet arrives, the stream stands at exactly the
highest index along the whole run (`receiverRun_tracks`), and from there one call
is known: `receiver_index_exact`.

A receiver that joins later has another counter than the sender and refuses
authentic packets, and the sequence number it starts from makes it take packets
of the sender's roll-over for old ones: `later_rollOver_times_out`.
-/
import LibRe.Srtp.Index

namespace LibRe.SRTP

open Bytes List Option

variable {strm : SrtpStream} {srtp' : Srtp}

/-- The packet a sender makes under roll-over counter `roc`. -/
def Authentic (K : Crypto) (c : Comp) (ssrc roc : UInt32) (pkt : Bytes) : Prop :=
  headerLen pkt ≤ pkt.length ∧ rtpSsrc pkt = ssrc ∧
    ∃ payload, pkt = rtpSealed K c ssrc roc (sendIndex roc (rtpSeq pkt))
      (pkt.take (headerLen pkt)) payload

/-- No RTP packet of the SSRC has come yet. -/
structure Unheard (srtp : Srtp) (ssrc : UInt32) : Prop where
  unset : (srtp.view.streamOf ssrc).sLSet = false
  roc : (srtp.view.streamOf ssrc).roc = 0
  replay : (srtp.view.streamOf ssrc).replayRtp = srtpReplayInit

/-- A packet with true index `i`, sealed by the sender under the roll-over counter
of that index, as the run may offer it when `high` is the highest index accepted
so far. Before the first one is accepted the sender is in roll-over `E`. -/
structure Offered (K : Crypto) (c : Comp) (ssrc : UInt32) (E : Nat) (high : Option Nat) (i : Nat)
    (pkt : Bytes) : Prop where
  small : i < 2 ^ 47
  seq : (rtpSeq pkt).toNat = i % 65536
  authentic : Authentic K c ssrc (UInt32.ofNat (i / 65536)) pkt
  first : high = none → i / 65536 = E
  near : ∀ h, high = some h → i ≤ h + 32768 ∧ h ≤ i + 32767

/-- The highest index accepted, after one more packet. -/
def highest (high : Option Nat) (o : Outcome) (i : Nat) : Option Nat :=
  if o.err = none then some (max i (high.getD i)) else high

/-- The runs of a receiver over the packets of one SSRC, with the highest index
accepted so far. -/
inductive ReceiverRun (K : Crypto) (ssrc : UInt32) (E : Nat) (srtp₀ : Srtp) :
    Srtp → Option Nat → Prop where
  | start : ReceiverRun K ssrc E srtp₀ srtp₀ none
  | packet {srtp : Srtp} {high : Option Nat} {mb : Mbuf} {i : Nat} :
      ReceiverRun K ssrc E srtp₀ srtp high →
      Offered K srtp₀.rtp ssrc E high i mb.left →
      ReceiverRun K ssrc E srtp₀ (srtpDecrypt K srtp mb).srtp
        (highest high (srtpDecrypt K srtp mb) i)

/-- What holds between the packets of a run. -/
structure Tracks (srtp₀ : Srtp) (ssrc : UInt32) (srtp : Srtp) (high : Option Nat) : Prop where
  rtp : srtp.rtp = srtp₀.rtp
  unheard : high = none → Unheard srtp ssrc
  heard : ∀ h, high = some h → h < 2 ^ 47 ∧ ∃ strm, streamFind srtp ssrc = some strm ∧
    strm.sLSet = true ∧ streamCount strm = h ∧ strm.replayRtp.lix.toNat = h

/-- What one call does with a packet of true index `i`, where the receiver counts
from roll-over `E`. -/
structure IndexExact (ssrc : UInt32) (E : Nat) (high : Option Nat) (i : Nat) (o : Outcome) :
    Prop where
  index : ∀ ix, o.ix = some ix → ix.toNat + 65536 * E = i
  noIndex : o.ix = none → o.err = some .ENOSR ∨ o.err = some .ETIMEDOUT
  timedOut : o.err = some .ETIMEDOUT ↔ ∃ h, high = some h ∧ i / 65536 < h / 65536
  count : o.err = none → ∃ strm, streamFind o.srtp ssrc = some strm ∧
    streamCount strm + 65536 * E = max i (high.getD i)

variable {K : Crypto} {ssrc : UInt32} {srtp₀ srtp : Srtp} {high : Option Nat} {i : Nat} {mb : Mbuf}

/-! ## One packet -/

variable {c : Comp} {payload : Bytes} {replay : Replay} {h : Nat}

/-- The tag has the length the receiver expects. -/
theorem length_rtpTag (K : Crypto) (hv : c.Valid) (ha : c.aes.isSome = true)
    (ssrc roc : UInt32) (ix : UInt64) (hdr ct : Bytes) :
    (rtpTag K c ssrc roc ix hdr ct).length = rtpTagLen c := by
  obtain ⟨key, hkey⟩ := isSome_iff_exists.mp ha
  cases hv with
  | hmac aes hk kS tagLen hpos hle =>
    have hlen := (K.hmacSha1 hk (hdr ++ (ct ++ be32 roc))).property
    subst hkey
    show ([] ++ (K.hmacSha1 hk (hdr ++ (ct ++ be32 roc))).val.take tagLen).length = tagLen
    rw [nil_append, length_take, hlen]
    exact min_eq_left hle
  | gcm aes kS =>
    subst hkey
    show ((K.gcmTag key (srtpIvCalcGcm kS ssrc ix) hdr ct).val ++ []).length = 16
    rw [append_nil, (K.gcmTag key (srtpIvCalcGcm kS ssrc ix) hdr ct).property]

variable {seq : UInt16} {ix : UInt64}

/-- Only 48 bits of the index matter to a sealed packet. -/
theorem rtpSealed_congr (K : Crypto) (c : Comp) (ssrc roc : UInt32) {ix' : UInt64}
    (h : ix.toNat % 2 ^ 48 = ix'.toNat % 2 ^ 48) (hdr payload : Bytes) :
    rtpSealed K c ssrc roc ix hdr payload = rtpSealed K c ssrc roc ix' hdr payload := by
  unfold rtpSealed rtpTag gcmTagOf crypt
  simp only [srtpIvCalc_congr c.kS ssrc h, srtpIvCalcGcm_congr c.kS ssrc h]

theorem recvIndex_mod (roc : UInt32) (seq : UInt16) :
    (recvIndex roc seq).toNat % 2 ^ 48 = (sendIndex roc seq).toNat % 2 ^ 48 := by
  rw [toNat_recvIndex, toNat_sendIndex]
  split <;> omega

/-- The verdict on a packet sealed under the counter and index the receiver has:
only the replay check is left. -/
theorem rtpOpen_sealed (hv : c.Valid) (ha : c.aes.isSome = true) {hdr rest : Bytes}
    (h : hdr ++ rest = rtpSealed K c strm.ssrc strm.roc ix hdr payload) {v : Verdict}
    (hopen : rtpOpen K c ix strm hdr rest = v) :
    (srtpReplayCheck strm.replayRtp ix = none ∧ v.err = some .EALREADY ∧ v.strm = strm) ∨
    (∃ replay, srtpReplayCheck strm.replayRtp ix = some replay ∧ v.err = none ∧
      v.strm = { strm with replayRtp := replay } ∧
      v.plain = crypt K c strm.ssrc ix (crypt K c strm.ssrc ix payload)) := by
  have hrest := append_cancel_left h
  rw [hrest, rtpOpen_append K c ix strm (length_rtpTag K hv ha _ _ _ _ _), rtpVerdict,
    if_pos (by simp)] at hopen
  subst hopen
  cases hr : srtpReplayCheck strm.replayRtp ix with
  | none => exact .inl ⟨rfl, rfl, rfl⟩
  | some replay => exact .inr ⟨replay, rfl, rfl, rfl, rfl⟩

/-- A packet sealed under the roll-over counter its stream has after the
roll-over step: its index, and the replay check as the only thing between it and
the caller. -/
theorem rtpReceive_sealed {pkt : Bytes} {rolled : SrtpStream} {r : Receipt}
    (hlen : headerLen pkt ≤ pkt.length) (hroom : srtp.view.HasRoom (rtpSsrc pkt))
    (hseq : rtpSeq pkt = seq) (hstrm : latchSeq (srtp.view.streamOf (rtpSsrc pkt)) seq = strm)
    (hdiff : seqDiff strm.sL seq ≤ 32768)
    (hroll : rollOver strm seq = rolled) (hix : recvIndex rolled.roc seq = ix)
    (hpkt : pkt = rtpSealed K srtp.rtp (rtpSsrc pkt) rolled.roc (sendIndex rolled.roc seq)
      (pkt.take (headerLen pkt)) payload) (hr : rtpReceive K srtp.view pkt = r) :
    r.ix = some ix ∧
    ((srtpReplayCheck strm.replayRtp ix = none ∧ r.err = some .EALREADY ∧
     r.view = srtp.view.update rolled) ∨
     (∃ replay, srtpReplayCheck strm.replayRtp ix = some replay ∧ r.err = none ∧
        r.view = srtp.view.update (raiseSeq { rolled with replayRtp := replay } seq) ∧
        r.out = pkt.take (headerLen pkt)
          ++ crypt K srtp.rtp (rtpSsrc pkt) ix (crypt K srtp.rtp (rtpSsrc pkt) ix payload))) := by
  subst hroll hix hr
  have hssrc : (rollOver strm seq).ssrc = rtpSsrc pkt := by
    rw [rollOver_ssrc, ← hstrm, latchSeq_ssrc, ssrc_streamOf]
  have hsealed : pkt.take (headerLen pkt) ++ pkt.drop (headerLen pkt)
      = rtpSealed K srtp.rtp (rollOver strm seq).ssrc (rollOver strm seq).roc
        (recvIndex (rollOver strm seq).roc seq) (pkt.take (headerLen pkt)) payload := by
    rw [take_append_drop, hssrc, rtpSealed_congr K _ _ _ (recvIndex_mod _ _), ← hpkt]
  have hopen := rtpOpen_sealed srtp.rtp_valid srtp.rtp_encrypted hsealed rfl
  have hview : srtp.view.rtp = srtp.rtp := rfl
  rw [rtpReceive, if_neg (Nat.not_lt.mpr hlen), if_neg (not_not.mpr hroom), hseq, hstrm, receiveOn,
    if_neg (by omega)]
  simp only [srtpGetIndex_rollOver hdiff, hview]
  rw [rollOver_replayRtp] at hopen
  rcases hopen with ⟨hr, herr, hs⟩ | ⟨replay, hr, herr, hs, hplain⟩
  · simp [herr, hs, hr]
  · rw [hssrc] at hplain
    simp only [herr, hs, hplain]
    exact ⟨trivial, .inr ⟨replay, hr, trivial, rfl, trivial⟩⟩

/-- The same on a buffer. -/
theorem srtpDecrypt_authentic {roc : UInt32} {o : Outcome}
    (hauth : Authentic K srtp.rtp ssrc roc mb.left) (hroom : srtp.view.HasRoom ssrc)
    (hseq : rtpSeq mb.left = seq)
    (hstrm : latchSeq (srtp.view.streamOf ssrc) seq = strm) (hdiff : seqDiff strm.sL seq ≤ 32768)
    (hroc : (rollOver strm seq).roc = roc) (hix : recvIndex roc seq = ix)
    (ho : srtpDecrypt K srtp mb = o) :
    o.ix = some ix ∧
    ((srtpReplayCheck strm.replayRtp ix = none ∧ o.err = some .EALREADY ∧
        o.srtp.view = srtp.view.update (rollOver strm seq)) ∨
     (∃ replay, srtpReplayCheck strm.replayRtp ix = some replay ∧ o.err = none ∧
        o.srtp.view = srtp.view.update (raiseSeq { rollOver strm seq with replayRtp := replay }
          seq))) := by
  obtain ⟨hlen, hssrc, payload, hpkt⟩ := hauth
  have href := srtpDecrypt_refines K srtp mb
  rw [← hssrc] at hroom hstrm hpkt
  subst hroc ho hseq
  obtain ⟨hix', hcases⟩ := rtpReceive_sealed hlen hroom rfl hstrm hdiff rfl hix hpkt rfl
  rw [href.ix, href.err, href.view]
  refine ⟨hix', hcases.imp id ?_⟩
  rintro ⟨replay, hr, herr, hview, -⟩
  exact ⟨replay, hr, herr, hview⟩

/-- A packet of an earlier roll-over stops before the index. -/
theorem srtpDecrypt_late (hlen : headerLen mb.left ≤ mb.left.length)
    (hssrc : rtpSsrc mb.left = ssrc) (hroom : srtp.view.HasRoom ssrc)
    (hstrm : latchSeq (srtp.view.streamOf ssrc) (rtpSeq mb.left) = strm)
    (hdiff : 32768 < seqDiff strm.sL (rtpSeq mb.left)) :
    (srtpDecrypt K srtp mb).ix = none ∧ (srtpDecrypt K srtp mb).err = some .ETIMEDOUT ∧
      (srtpDecrypt K srtp mb).srtp.view = srtp.view.update strm := by
  have href := srtpDecrypt_refines K srtp mb
  subst hssrc
  rw [href.ix, href.err, href.view, rtpReceive, if_neg (Nat.not_lt.mpr hlen),
    if_neg (not_not.mpr hroom), hstrm, receiveOn, if_pos hdiff]
  exact ⟨rfl, rfl, rfl⟩

/-- A packet of an SSRC without room leaves everything as it is. -/
theorem srtpDecrypt_noRoom (hlen : headerLen mb.left ≤ mb.left.length)
    (hssrc : rtpSsrc mb.left = ssrc) (hroom : ¬ srtp.view.HasRoom ssrc) :
    (srtpDecrypt K srtp mb).ix = none ∧ (srtpDecrypt K srtp mb).err = some .ENOSR ∧
      (srtpDecrypt K srtp mb).srtp.view = srtp.view := by
  have href := srtpDecrypt_refines K srtp mb
  subst hssrc
  rw [href.ix, href.err, href.view, rtpReceive, if_neg (Nat.not_lt.mpr hlen), if_pos hroom]
  exact ⟨rfl, rfl, rfl⟩

/-! ## The run -/

/-- The receiver's index for the sender's roll-over counter, as a number. -/
theorem toNat_recvIndex_sealed (hi : i < 2 ^ 47) (hseq : seq.toNat = i % 65536) :
    (recvIndex (UInt32.ofNat (i / 65536)) seq).toNat = i := by
  rw [toNat_recvIndex, UInt32.toNat_ofNat', if_pos (by omega)]
  omega

theorem streamOf_of_find (h : streamFind srtp ssrc = some strm) :
    srtp.view.streamOf ssrc = strm ∧ srtp.view.HasRoom ssrc := by
  have hs : srtp.view.stream ssrc = some strm := h
  exact ⟨by rw [View.streamOf, hs]; rfl, .inl (by rw [hs]; rfl)⟩

/-- What a written stream is found as afterwards. -/
theorem find_of_view (h : srtp'.view = srtp.view.update strm) (hssrc : strm.ssrc = ssrc) :
    streamFind srtp' ssrc = some strm := by
  show srtp'.view.stream ssrc = some strm
  rw [h, ← hssrc]
  exact update_stream_self _ _

theorem Tracks.of_view (ht : Tracks srtp₀ ssrc srtp high)
    (h : srtp'.view = srtp.view) : Tracks srtp₀ ssrc srtp' high where
  rtp := (congrArg View.rtp h).trans ht.rtp
  unheard hn := by
    obtain ⟨h1, h2, h3⟩ := ht.unheard hn
    exact ⟨by rw [h]; exact h1, by rw [h]; exact h2, by rw [h]; exact h3⟩
  heard k hk := by
    obtain ⟨hsmall, strm, hfind, hrest⟩ := ht.heard k hk
    exact ⟨hsmall, strm, (congrFun (congrArg View.stream h) ssrc).trans hfind, hrest⟩

/-- A permitted index and the last one, as numbers. -/
theorem lix_max {replay' : Replay} (hr : srtpReplayCheck replay ix = some replay')
    (hlix : replay.lix.toNat = h) (hix : ix.toNat = i) : replay'.lix.toNat = max i h := by
  rw [lix_of_srtpReplayCheck hr]
  simp only [UInt64.lt_iff_toNat_lt]
  split <;> omega

/-- The stream after an accepted packet, and the highest index with it. -/
theorem tracks_accepted (hrtp : srtp'.rtp = srtp₀.rtp)
    (hfind : streamFind srtp' ssrc = some (raiseSeq
      { rollOver strm seq with replayRtp := replay } seq))
    (hset : strm.sLSet = true) (hsmall : h < 2 ^ 47)
    (hcount : streamCount (raiseSeq { rollOver strm seq with replayRtp := replay } seq) = h)
    (hlix : replay.lix.toNat = h) : Tracks srtp₀ ssrc srtp' (some h) where
  rtp := hrtp
  unheard hn := nomatch hn
  heard k hk := by
    cases hk
    refine ⟨hsmall, _, hfind, ?_, hcount, ?_⟩
    · simp [hset]
    · simp [hlix]

/-- The stream of a packet once the sequence number is latched. It stands at the
highest index, or at the packet's own if that is the first. -/
structure Latched (srtp : Srtp) (ssrc : UInt32) (high : Option Nat) (i : Nat)
    (strm : SrtpStream) : Prop where
  set : strm.sLSet = true
  count : streamCount strm = high.getD i
  small : high.getD i < 2 ^ 47
  ahead : i ≤ high.getD i + 32768
  behind : high.getD i < i + 32768
  accepted : ∀ {ix replay}, ix.toNat = i → srtpReplayCheck strm.replayRtp ix = some replay →
    replay.lix.toNat = max i (high.getD i)
  refused : ∀ {ix}, ix.toNat = i → srtpReplayCheck strm.replayRtp ix = none →
    i ≤ high.getD i ∧ high ≠ none
  known : high ≠ none → srtp.view.HasRoom ssrc ∧ srtp.view.update strm = srtp.view

theorem Tracks.latched (ht : Tracks srtp₀ ssrc srtp high)
    (ho : Offered K srtp₀.rtp ssrc 0 high i mb.left) :
    Latched srtp ssrc high i (latchSeq (srtp.view.streamOf ssrc) (rtpSeq mb.left)) := by
  have hi := ho.small
  cases high with
  | none =>
    obtain ⟨hunset, hroc, hreplay⟩ := ht.unheard rfl
    have hfirst : i / 65536 = 0 := ho.first rfl
    have hval : latchSeq (srtp.view.streamOf ssrc) (rtpSeq mb.left) =
        { srtp.view.streamOf ssrc with sL := rtpSeq mb.left, sLSet := true } := by
      rw [latchSeq, if_neg (by rw [hunset]; decide)]
    rw [hval]
    have hroc0 : (srtp.view.streamOf ssrc).roc.toNat = 0 := congrArg UInt32.toNat hroc
    refine ⟨rfl, ?_, hi, Nat.le_add_right _ _, by simp, ?_, ?_, fun h => absurd rfl h⟩
    · simp only [streamCount, hroc0, ho.seq, getD_none]
      omega
    -- a fresh replay window refuses nothing
    · intro ix replay hix hr
      obtain ⟨r, hsome, hlix⟩ := srtpReplayCheck_init ix
      rw [hreplay, hsome] at hr
      cases hr
      rw [hlix, hix, getD_none, max_self]
    · intro ix _ hr
      obtain ⟨r, hsome, -⟩ := srtpReplayCheck_init ix
      rw [hreplay, hsome] at hr
      cases hr
  | some h =>
    obtain ⟨hsmall, strm, hfind, hset, hcount, hlix⟩ := ht.heard h rfl
    obtain ⟨ahead, behind⟩ := ho.near h rfl
    obtain ⟨hof, hroom⟩ := streamOf_of_find hfind
    rw [hof, latchSeq, if_pos hset]
    refine ⟨hset, hcount, hsmall, ahead, Nat.lt_succ_of_le behind,
      fun hix hr => lix_max hr hlix hix, ?_, fun _ =>
      ⟨hroom, update_of_stream (by rw [ssrc_of_find hfind]; exact hfind)⟩⟩
    intro ix hix hr
    refine ⟨?_, by simp⟩
    by_contra hgt
    rw [getD_some] at hgt
    have hlt : strm.replayRtp.lix < ix := UInt64.lt_iff_toNat_lt.mpr (by omega)
    obtain ⟨r, hsome, -⟩ := srtpReplayCheck_of_lt hlt
    rw [hr] at hsome
    cases hsome

/-- One packet. -/
theorem step_tracks (ht : Tracks srtp₀ ssrc srtp high)
    (ho : Offered K srtp₀.rtp ssrc 0 high i mb.left) :
    IndexExact ssrc 0 high i (srtpDecrypt K srtp mb) ∧
      Tracks srtp₀ ssrc (srtpDecrypt K srtp mb).srtp (highest high (srtpDecrypt K srtp mb) i) := by
  have hi := ho.small
  have hauth := ho.authentic
  rw [← ht.rtp] at hauth
  have hl := ht.latched ho
  generalize hlatch : latchSeq (srtp.view.streamOf ssrc) (rtpSeq mb.left) = strm at hl
  have hssrc : strm.ssrc = ssrc := by rw [← hlatch, latchSeq_ssrc, ssrc_streamOf]
  have hsmall := hl.small
  have hcases := stream_cases hl.count ho.seq hl.ahead hl.behind
  have hhigh : ∀ h, high = some h → high.getD i = h := by simp_all
  generalize hrun : srtpDecrypt K srtp mb = o
  by_cases hroom : srtp.view.HasRoom ssrc
  · by_cases hdiff : seqDiff strm.sL (rtpSeq mb.left) ≤ 32768
    · have hroc : (rollOver strm (rtpSeq mb.left)).roc = UInt32.ofNat (i / 65536) := by
        have hroll := roc_rollOver hl.count ho.seq hl.ahead hl.behind hdiff (by omega)
        apply UInt32.toNat_inj.mp
        rw [hroll, UInt32.toNat_ofNat']
        omega
      have hnum := toNat_recvIndex_sealed hi ho.seq
      have htime : ¬ ∃ h, high = some h ∧ i / 65536 < h / 65536 := by
        rintro ⟨h, hh, hlt⟩
        rw [hhigh h hh] at hcases
        omega
      obtain ⟨hix, ⟨hr, herr, hview⟩ | ⟨replay, hr, herr, hview⟩⟩ :=
        srtpDecrypt_authentic hauth hroom rfl hlatch hdiff hroc rfl hrun
      · -- refused by the replay check: not above the highest, so nothing rolled over
        obtain ⟨hle, hheard⟩ := hl.refused hnum hr
        have hroll : rollOver strm (rtpSeq mb.left) = strm := by
          simp [rollOver]
          omega
        refine ⟨⟨?_, ?_, by simp [herr, htime], by simp [herr]⟩, ?_⟩
        · simp [hix, hnum]
        · simp [hix]
        · rw [highest, if_neg (by rw [herr]; simp)]
          exact ht.of_view (by rw [hview, hroll, (hl.known hheard).2])
      · have hfind := find_of_view hview
          ((raiseSeq_ssrc _ _).trans ((rollOver_ssrc strm _).trans hssrc))
        have hcount := streamCount_raiseSeq hl.count ho.seq hl.ahead hl.behind hdiff (by omega)
          replay
        refine ⟨⟨?_, ?_, by simp [herr, htime], fun _ => ⟨_, hfind, by omega⟩⟩, ?_⟩
        · simp [hix, hnum]
        · simp [hix]
        · rw [highest, if_pos herr]
          exact tracks_accepted ((congrArg View.rtp hview).trans ht.rtp) hfind hl.set
            (by omega) hcount (hl.accepted hnum hr)
    · -- an earlier roll-over
      obtain ⟨hix, herr, hview⟩ := srtpDecrypt_late hauth.1 hauth.2.1 hroom hlatch
        (Int.not_le.mp hdiff)
      rw [hrun] at hix herr hview
      cases high with
      | none => simp at hcases; omega
      | some h =>
        refine ⟨⟨by simp [hix], fun _ => .inr herr,
          ⟨fun _ => ⟨h, rfl, ?_⟩, fun _ => herr⟩, by simp [herr]⟩, ?_⟩
        · rw [hhigh h rfl] at hcases
          omega
        · rw [highest, if_neg (by rw [herr]; simp)]
          exact ht.of_view (by rw [hview, (hl.known (by simp)).2])
  · have hnone : high = none := by
      by_contra hheard
      exact hroom (hl.known hheard).1
    obtain ⟨hix, herr, hview⟩ := srtpDecrypt_noRoom (K := K) hauth.1 hauth.2.1 hroom
    rw [hrun] at hix herr hview
    refine ⟨⟨by simp [hix], fun _ => .inl herr, by simp [herr, hnone], by simp [herr]⟩, ?_⟩
    rw [highest, if_neg (by rw [herr]; simp)]
    exact ht.of_view hview

/-- Between the packets of a run the stream stands at the highest index accepted. -/
theorem receiverRun_tracks (hstart : Unheard srtp₀ ssrc)
    (hrun : ReceiverRun K ssrc 0 srtp₀ srtp high) : Tracks srtp₀ ssrc srtp high := by
  induction hrun with
  | start => exact ⟨rfl, fun _ => hstart, fun h hh => nomatch hh⟩
  | packet _ ho ih => exact (step_tracks ih ho).2

/-- In every run that starts in the sender's roll-over 0 the index of a packet is its
true index, only packets of an earlier roll-over time out, and an accepted packet
leaves the stream at the highest index accepted. -/
theorem receiver_index_exact (hstart : Unheard srtp₀ ssrc)
    (hrun : ReceiverRun K ssrc 0 srtp₀ srtp high) (ho : Offered K srtp₀.rtp ssrc 0 high i mb.left) :
    IndexExact ssrc 0 high i (srtpDecrypt K srtp mb) :=
  (step_tracks (receiverRun_tracks hstart hrun) ho).1

/-! ## Around the first roll-over -/

theorem unheard_referenceSession : Unheard referenceSession 0x01020304 :=
  ⟨by decide +kernel, by decide +kernel, by decide +kernel⟩

/-- The header without payload that the sender of the reference session makes with
true index `i`. -/
def sentHeader (i : Nat) : Bytes :=
  rtpSealed referenceCrypto referenceSession.rtp 0x01020304 (UInt32.ofNat (i / 65536))
    (sendIndex (UInt32.ofNat (i / 65536)) (UInt16.ofNat i))
    (bareHeader 0x01020304 (UInt16.ofNat i)) []

/-- The receiver's call on it. -/
def receiveHeader (srtp : Srtp) (i : Nat) : Outcome :=
  srtpDecrypt referenceCrypto srtp (packetBuf (sentHeader i))

theorem offered_sentHeader (E : Nat) (high : Option Nat) (i : Nat) (hi : i < 2 ^ 47)
    (hfirst : high = none → i / 65536 = E)
    (hnear : ∀ h, high = some h → i ≤ h + 32768 ∧ h ≤ i + 32767) :
    Offered referenceCrypto referenceSession.rtp 0x01020304 E high i
      (packetBuf (sentHeader i)).left := by
  have hleft : (packetBuf (sentHeader i)).left = sentHeader i := take_length
  have hbare := headerLen_bareHeader 0x01020304 (UInt16.ofNat i)
  have htake : (sentHeader i).take 12 = (bareHeader 0x01020304 (UInt16.ofNat i)).take 12 := rfl
  have hlen := (headerLen_congr htake hbare.le).trans hbare
  have hof := headerOf_congr htake hbare.le
  have hseq : rtpSeq (sentHeader i) = UInt16.ofNat i :=
    (congrArg RtpHeader.seq hof).trans (rtpSeq_bareHeader _ _)
  have hssrc : rtpSsrc (sentHeader i) = 0x01020304 :=
    (congrArg RtpHeader.ssrc hof).trans (rtpSsrc_bareHeader _ _)
  rw [hleft]
  refine ⟨hi, ?_, ⟨?_, hssrc, [], ?_⟩, hfirst, hnear⟩
  · rw [hseq, UInt16.toNat_ofNat']
  · rw [hlen, sentHeader, rtpSealed, length_append]
    exact Nat.le_add_right _ _
  · rw [hseq, hlen, htake]
    rfl

/-- One more header of a run, with the highest index accepted after it. -/
theorem receiverRun_header {E : Nat} {next : Option Nat}
    (hrun : ReceiverRun referenceCrypto 0x01020304 E referenceSession srtp high)
    (ho : Offered referenceCrypto referenceSession.rtp 0x01020304 E high i
      (packetBuf (sentHeader i)).left)
    (hnext : highest high (receiveHeader srtp i) i = next) :
    ReceiverRun referenceCrypto 0x01020304 E referenceSession (receiveHeader srtp i).srtp next := by
  subst hnext
  exact .packet hrun ho

/-- Packet 65537 is lost, 65536 is overtaken by 65538, and 65535 comes again after the
roll-over, which is refused as old. -/
theorem receiver_index_exact_wrap :
    let first := receiveHeader referenceSession 65535
    let wrapped := receiveHeader first.srtp 65538
    let overtaken := receiveHeader wrapped.srtp 65536
    let again := receiveHeader overtaken.srtp 65535
    IndexExact 0x01020304 0 none 65535 first ∧
    IndexExact 0x01020304 0 (some 65535) 65538 wrapped ∧
    IndexExact 0x01020304 0 (some 65538) 65536 overtaken ∧
    IndexExact 0x01020304 0 (some 65538) 65535 again ∧
    [first.err, wrapped.err, overtaken.err, again.err] = [none, none, none, some .ETIMEDOUT] := by
  intro first wrapped overtaken again
  have hfirst := offered_sentHeader 0 none 65535 (by decide) (by decide) (by simp)
  have run₁ := receiverRun_header .start hfirst (by decide +kernel : _ = some 65535)
  have hwrapped := offered_sentHeader 0 (some 65535) 65538 (by decide) (by simp) (by simp)
  have run₂ := receiverRun_header run₁ hwrapped (by decide +kernel : _ = some 65538)
  have hovertaken := offered_sentHeader 0 (some 65538) 65536 (by decide) (by simp) (by simp)
  have run₃ := receiverRun_header run₂ hovertaken (by decide +kernel : _ = some 65538)
  have hagain := offered_sentHeader 0 (some 65538) 65535 (by decide) (by simp) (by simp)
  exact ⟨receiver_index_exact unheard_referenceSession .start hfirst,
    receiver_index_exact unheard_referenceSession run₁ hwrapped,
    receiver_index_exact unheard_referenceSession run₂ hovertaken,
    receiver_index_exact unheard_referenceSession run₃ hagain, by decide +kernel⟩

/-- The first packet received has true index 65538. Its tag is of roll-over 1, so it is
refused, and so is packet 97536; but the stream stays at sequence number 2, and packet
105536 of the same roll-over times out. -/
theorem later_rollOver_times_out :
    ¬ ∀ (K : Crypto) (srtp₀ srtp : Srtp) (ssrc : UInt32) (E : Nat) (high : Option Nat) (i : Nat)
        (mb : Mbuf), Reachable K srtp₀ → Unheard srtp₀ ssrc →
        ReceiverRun K ssrc E srtp₀ srtp high → Offered K srtp₀.rtp ssrc E high i mb.left →
        IndexExact ssrc E high i (srtpDecrypt K srtp mb) := by
  intro hall
  have hfirst := offered_sentHeader 1 none 65538 (by decide) (by decide) (by simp)
  have run₁ := receiverRun_header .start hfirst (by decide +kernel : _ = none)
  have hsecond := offered_sentHeader 1 none 97536 (by decide) (by decide) (by simp)
  have run₂ := receiverRun_header run₁ hsecond (by decide +kernel : _ = none)
  have hthird := offered_sentHeader 1 none 105536 (by decide) (by decide) (by simp)
  have hexact := hall _ _ _ _ _ _ _ _ reachable_referenceSession unheard_referenceSession run₂
    hthird
  obtain ⟨h, hnone, -⟩ := hexact.timedOut.mp (by decide +kernel)
  cases hnone

end LibRe.SRTP
