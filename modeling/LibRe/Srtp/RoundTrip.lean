/-
LibRe.Srtp.RoundTrip — a sender and a receiver over a channel that keeps the order.

Two sessions are set up with one suite and one master key. Every RTP or RTCP
packet goes through the sender's call and then through the receiver's. `Lockstep`
is what the two sessions have in common between packets: the same streams at the
same count, and a replay window that stands at the last index. One packet keeps
it (`lockstep_pass`) as long as the three limits of the design are met, and gives
the original bytes back; one packet beyond a limit gets an error (`Refused`).

The limits are eight streams (`SRTP_MAX_STREAMS`), 48 bits of RTP index and, for
the suites with an HMAC, 31 bits of SRTCP index.
-/
import LibRe.Srtp.SenderIndex
import LibRe.Srtp.SrtcpReceiver

namespace LibRe.SRTP

open Bytes List Option

/-! ## Traffic -/

/-- What was sent so far: the SSRCs, the index of the last RTP packet of each,
and the number of RTCP packets of each. -/
structure Traffic where
  ssrcs : Finset UInt32
  high : UInt32 → Option Nat
  rtcp : UInt32 → Nat

/-- Nothing. -/
def Traffic.none : Traffic where
  ssrcs := ∅
  high _ := .none
  rtcp _ := 0

/-- A packet to send; an RTP packet comes with its true index. -/
inductive Sent where
  | rtp (mb : Mbuf) (i : Nat)
  | rtcp (mb : Mbuf)

/-- The buffer it is in. -/
def Sent.mb : Sent → Mbuf
  | .rtp mb _ => mb
  | .rtcp mb => mb

/-- The index is ahead of the last one, by less than 32768. -/
def Follows : Option Nat → Nat → Prop
  | .none, i => i < 65536
  | some h, i => h < i ∧ i < h + 32768

/-- The packets a run may have: RTP packets with a whole header, whose sequence
numbers go up, and RTCP packets of at least eight bytes. -/
def Sent.Fits (t : Traffic) : Sent → Prop
  | .rtp mb i => headerLen mb.left ≤ mb.left.length ∧ (rtpSeq mb.left).toNat = i % 65536 ∧
      Follows (t.high (rtpSsrc mb.left)) i
  | .rtcp mb => 8 ≤ mb.left.length

/-- The traffic with one packet more. -/
def Traffic.after (t : Traffic) : Sent → Traffic
  | .rtp mb i =>
    { t with
      ssrcs := insert (rtpSsrc mb.left) t.ssrcs
      high := Function.update t.high (rtpSsrc mb.left) (some i) }
  | .rtcp mb =>
    { t with
      ssrcs := insert (rtcpSsrc mb.left) t.ssrcs
      rtcp := Function.update t.rtcp (rtcpSsrc mb.left) (t.rtcp (rtcpSsrc mb.left) + 1) }

/-- The limits of the design, for suites with (`hash`) and without an HMAC. -/
def WithinLimits (hash : Bool) (t : Traffic) : Sent → Prop
  | .rtp mb i => (insert (rtpSsrc mb.left) t.ssrcs).card ≤ srtpMaxStreams ∧ i < 2 ^ 48
  | .rtcp mb => (insert (rtcpSsrc mb.left) t.ssrcs).card ≤ srtpMaxStreams ∧
      (hash = true → t.rtcp (rtcpSsrc mb.left) + 1 < 2 ^ 31)

/-- The call of the sender and then the call of the receiver. -/
def pass (K : Crypto) (tx rx : Srtp) : Sent → Outcome × Outcome
  | .rtp mb _ => (srtpEncrypt K tx mb, srtpDecrypt K rx (srtpEncrypt K tx mb).mb)
  | .rtcp mb => (srtcpEncrypt K tx mb, srtcpDecrypt K rx (srtcpEncrypt K tx mb).mb)

/-- Both calls succeed, the bytes are the original ones and the position is back
at the start of the packet. -/
structure Restored (s : Sent) (r : Outcome × Outcome) : Prop where
  sent : r.1.err = none
  received : r.2.err = none
  bytes : r.2.mb.bytes = s.mb.bytes
  pos : r.2.mb.pos = s.mb.pos

/-- One of the calls returns an error: the sender has no stream left, or the receiver
takes the packet for a replay. -/
def Refused (r : Outcome × Outcome) : Prop := r.1.err = some .ENOSR ∨ r.2.err = some .EALREADY

/-- The runs of a sender and a receiver, over packets that meet `P`. -/
inductive LinkRun (K : Crypto) (P : Traffic → Sent → Prop) (srtp₀ : Srtp) :
    Srtp → Srtp → Traffic → Prop where
  | start : LinkRun K P srtp₀ srtp₀ srtp₀ .none
  | packet {tx rx : Srtp} {t : Traffic} {s : Sent} : LinkRun K P srtp₀ tx rx t → s.Fits t → P t s →
      LinkRun K P srtp₀ (pass K tx rx s).1.srtp (pass K tx rx s).2.srtp (t.after s)

/-! ## Streams in lockstep -/

/-- The stream stands at the index of the last packet. -/
def StandsAt (strm : SrtpStream) : Option Nat → Prop
  | .none => strm.sLSet = false ∧ strm.roc = 0
  | some h => strm.sLSet = true ∧ streamCount strm = h

/-- The index a receiver computes for the true index `h`. -/
def recvCount (h : Nat) : UInt64 := recvIndex (UInt32.ofNat (h / 65536)) (UInt16.ofNat h)

/-- The replay window for RTP stands at the index of the last packet. -/
def ReplayAt (replay : Replay) : Option Nat → Prop
  | .none => replay = srtpReplayInit
  | some h => h < 2 ^ 48 ∧ replay.lix = recvCount h

/-- The stream of the sender and the stream of the receiver for one SSRC. -/
structure Agree (hash : Bool) (a b : SrtpStream) (high : Option Nat) (n : Nat) : Prop where
  sender : StandsAt a high
  receiver : StandsAt b high
  replay : ReplayAt b.replayRtp high
  rtcp : hash = true → n < 2 ^ 31 ∧ a.rtcpIndex.toNat = n ∧ b.replayRtcp.lix.toNat = n

/-- The two sessions between packets. -/
structure Lockstep (srtp₀ : Srtp) (hash : Bool) (tx rx : Srtp) (t : Traffic) : Prop where
  txRtp : tx.rtp = srtp₀.rtp
  rxRtp : rx.rtp = srtp₀.rtp
  txRtcp : tx.rtcp = srtp₀.rtcp
  rxRtcp : rx.rtcp = srtp₀.rtcp
  txStream : ∀ ssrc, (tx.view.stream ssrc).isSome = true ↔ ssrc ∈ t.ssrcs
  rxStream : ∀ ssrc, (rx.view.stream ssrc).isSome = true ↔ ssrc ∈ t.ssrcs
  txCount : tx.view.count = t.ssrcs.card
  rxCount : rx.view.count = t.ssrcs.card
  agree : ∀ ssrc, Agree hash (tx.view.streamOf ssrc) (rx.view.streamOf ssrc) (t.high ssrc)
    (t.rtcp ssrc)

variable {K : Crypto} {srtp₀ tx rx tx' rx' : Srtp} {hash : Bool} {t : Traffic} {ssrc : UInt32}
  {a b strm : SrtpStream} {high : Option Nat} {i h n : Nat} {seq : UInt16}

theorem toNat_recvCount (hh : h < 2 ^ 48) :
    (recvCount h).toNat = if h < 2 ^ 47 then h else h + 18446462598732840960 := by
  have hroc : (UInt32.ofNat (h / 65536)).toNat = h / 65536 := by
    simp
    omega
  have hseq : (UInt16.ofNat h).toNat = h % 65536 := UInt16.toNat_ofNat'
  rw [recvCount, toNat_recvIndex, hroc, hseq]
  by_cases hlow : h < 2 ^ 47
  · grind
  · grind

/-- The count of the stream once the sequence number is latched. -/
theorem count_latchSeq (hat : StandsAt strm high) (hseq : seq.toNat = i % 65536)
    (hf : Follows high i) :
    (latchSeq strm seq).sLSet = true ∧ streamCount (latchSeq strm seq) = high.getD i ∧
      high.getD i ≤ i ∧ i < high.getD i + 32768 := by
  refine ⟨sLSet_latchSeq _ _, ?_⟩
  cases high with
  | none =>
    have hi : i < 65536 := hf
    have hval : latchSeq strm seq = { strm with sL := seq, sLSet := true } := by
      rw [latchSeq, if_neg (by rw [hat.1]; decide)]
    have hroc : strm.roc.toNat = 0 := congrArg UInt32.toNat hat.2
    rw [hval, getD_none, streamCount]
    simp only [hroc, hseq]
    omega
  | some h =>
    have hi : h < i ∧ i < h + 32768 := hf
    rw [latchSeq, if_pos hat.1, getD_some]
    exact ⟨hat.2, by omega, hi.2⟩

/-- The step of either stream: a packet that follows is not old, both sides get
its roll-over counter, and both stand at it afterwards. -/
theorem stands_step (hat : StandsAt strm high) (hseq : seq.toNat = i % 65536)
    (hf : Follows high i) (hsmall : ∀ h, high = some h → h < 2 ^ 48) :
    seqDiff (latchSeq strm seq).sL seq ≤ 32768 ∧
    (rollOver (latchSeq strm seq) seq).roc = UInt32.ofNat (i / 65536) ∧
    (i < 2 ^ 48 → ∀ replay,
      StandsAt (raiseSeq { rollOver (latchSeq strm seq) seq with replayRtp := replay } seq)
      (some i)) := by
  obtain ⟨hset, hcount, hle, hlt⟩ := count_latchSeq hat hseq hf
  generalize hs : latchSeq strm seq = s
  generalize hh : high.getD i = h
  rw [hs] at hset hcount
  have hcases := stream_cases hcount hseq (by omega) (by omega)
  have hold : seqDiff s.sL seq ≤ 32768 := by omega
  refine ⟨hold, ?_, fun hi replay => ⟨?_, ?_⟩⟩
  · apply UInt32.toNat_inj.mp
    rw [UInt32.toNat_ofNat']
    by_cases hi : i < 2 ^ 48
    · have hroc := roc_rollOver hcount hseq (by omega) (by omega) hold (by omega)
      omega
    · -- the last roll-over: the counter goes back to 0
      have hbound : h < 2 ^ 48 := by
        cases high with
        | none =>
          have hfirst : i < 65536 := hf
          omega
        | some k =>
          simp_all
      have hroc := roc_eq_div s
      have hone : (1 : UInt32).toNat = 1 := rfl
      rw [rollOver, if_pos (by omega)]
      simp only [UInt32.toNat_add, hone]
      omega
  · grind [raiseSeq_sLSet, rollOver]
  · have hraise := streamCount_raiseSeq hcount hseq (by omega) (by omega) hold (by omega) replay
    omega

/-- The replay window of the receiver permits a packet that follows, as long as
the index has 48 bits, and then stands at it. -/
theorem replay_step (hr : ReplayAt strm.replayRtp high) (hf : Follows high i) (hi : i < 2 ^ 48) :
    ∃ replay, srtpReplayCheck strm.replayRtp (recvCount i) = some replay ∧
      ReplayAt replay (some i) := by
  cases high with
  | none =>
    have hinit : strm.replayRtp = srtpReplayInit := hr
    rw [hinit]
    obtain ⟨replay, hcheck, hlix⟩ := srtpReplayCheck_init (recvCount i)
    exact ⟨replay, hcheck, hi, hlix⟩
  | some h =>
    obtain ⟨hh, hlix⟩ : h < 2 ^ 48 ∧ strm.replayRtp.lix = recvCount h := hr
    have hlt : h < i ∧ i < h + 32768 := hf
    have hmono : strm.replayRtp.lix < recvCount i := by
      grind [toNat_recvCount, UInt64.lt_iff_toNat_lt]
    obtain ⟨replay, hcheck, hlix'⟩ := srtpReplayCheck_of_lt hmono
    exact ⟨replay, hcheck, hi, hlix'⟩

/-- Beyond 48 bits the index starts again at 0, far behind the window. -/
theorem replay_wrapped (hr : ReplayAt strm.replayRtp high) (hf : Follows high i)
    (hi : ¬ i < 2 ^ 48) : srtpReplayCheck strm.replayRtp (recvCount i) = none := by
  rw [srtpReplayCheck_eq_none_iff]
  cases high with
  | none =>
    have hfirst : i < 65536 := hf
    omega
  | some h =>
    obtain ⟨hh, hlix⟩ : h < 2 ^ 48 ∧ strm.replayRtp.lix = recvCount h := hr
    have hlt : h < i ∧ i < h + 32768 := hf
    have hwrap : recvCount i = recvCount (i - 2 ^ 48) := by
      have hroc : UInt32.ofNat (i / 65536) = UInt32.ofNat ((i - 2 ^ 48) / 65536) := by
        apply UInt32.toNat_inj.mp
        rw [UInt32.toNat_ofNat', UInt32.toNat_ofNat']
        omega
      have hseq : UInt16.ofNat i = UInt16.ofNat (i - 2 ^ 48) := by
        apply UInt16.toNat_inj.mp
        rw [UInt16.toNat_ofNat', UInt16.toNat_ofNat']
        omega
      rw [recvCount, recvCount, hroc, hseq]
    have hnew := toNat_recvCount (h := i - 2 ^ 48) (by omega)
    have hold := toNat_recvCount hh
    rw [if_pos (by omega)] at hnew
    rw [if_neg (by omega)] at hold
    have htop : strm.replayRtp.window.top = (recvCount h).toNat := by
      rw [← hlix]
      rfl
    rw [hwrap, Replay.Refuses, LibRe.SlidingWindow.Refused, htop, hnew, hold]
    exact ⟨by omega, .inl (by omega)⟩

/-! ## Sessions in lockstep -/

variable {srtp : Srtp} {ssrcs : Finset UInt32} {o : Outcome} {ix : UInt32}

/-- An SSRC has room on either side exactly when it is one of at most eight. -/
theorem hasRoom_iff (hstream : (srtp.view.stream ssrc).isSome = true ↔ ssrc ∈ ssrcs)
    (hcount : srtp.view.count = ssrcs.card) :
    srtp.view.HasRoom ssrc ↔ (insert ssrc ssrcs).card ≤ srtpMaxStreams := by
  have hle : srtp.view.count ≤ srtpMaxStreams := srtp.streaml.count_le
  unfold View.HasRoom
  rw [hstream, hcount]
  by_cases hmem : ssrc ∈ ssrcs
  · simp [hmem]
    omega
  · simp [hmem]

theorem stream_update {srtp' : Srtp}
    (hview : srtp'.view = srtp.view.update strm) (hssrc : strm.ssrc = ssrc)
    (hstream : ∀ s, (srtp.view.stream s).isSome = true ↔ s ∈ ssrcs)
    (hcount : srtp.view.count = ssrcs.card) :
    (∀ s, (srtp'.view.stream s).isSome = true ↔ s ∈ insert ssrc ssrcs) ∧
      srtp'.view.count = (insert ssrc ssrcs).card := by
  subst hssrc
  rw [hview]
  constructor
  · intro s
    by_cases hs : s = strm.ssrc
    · simp [update_stream_self, hs]
    · simp [update_stream_ne, hs, hstream]
  · show (if (srtp.view.stream strm.ssrc).isSome then srtp.view.count else srtp.view.count + 1) = _
    by_cases hmem : strm.ssrc ∈ ssrcs
    · rw [if_pos ((hstream _).mpr hmem), Finset.insert_eq_of_mem hmem, hcount]
    · rw [if_neg (fun h => hmem ((hstream _).mp h)), Finset.card_insert_of_notMem hmem, hcount]

/-- Both sides write the stream of one SSRC. -/
theorem lockstep_update {t' : Traffic} (hl : Lockstep srtp₀ hash tx rx t)
    (htx : tx'.view = tx.view.update a) (hrx : rx'.view = rx.view.update b) (ha : a.ssrc = ssrc)
    (hb : b.ssrc = ssrc) (hssrcs : t'.ssrcs = insert ssrc t.ssrcs)
    (hothers : ∀ s, s ≠ ssrc → t'.high s = t.high s ∧ t'.rtcp s = t.rtcp s)
    (hagree : Agree hash a b (t'.high ssrc) (t'.rtcp ssrc)) : Lockstep srtp₀ hash tx' rx' t' := by
  obtain ⟨htxs, htxc⟩ := stream_update htx ha hl.txStream hl.txCount
  obtain ⟨hrxs, hrxc⟩ := stream_update hrx hb hl.rxStream hl.rxCount
  rw [← hssrcs] at htxs htxc hrxs hrxc
  refine ⟨(congrArg View.rtp htx).trans hl.txRtp, (congrArg View.rtp hrx).trans hl.rxRtp,
    (congrArg View.rtcp htx).trans hl.txRtcp, (congrArg View.rtcp hrx).trans hl.rxRtcp,
    htxs, hrxs, htxc, hrxc, fun s => ?_⟩
  rw [htx, hrx, View.streamOf, View.streamOf]
  by_cases hs : s = ssrc
  · subst hs
    rw [← ha, update_stream_self, ha, ← hb, update_stream_self, hb, getD_some, getD_some]
    exact hagree
  · rw [update_stream_ne _ _ (by rwa [ha]), update_stream_ne _ _ (by rwa [hb]), (hothers s hs).1,
      (hothers s hs).2]
    exact hl.agree s

variable {mb : Mbuf} {r : Receipt} {s : Sent}

/-- The buffer between the two calls. -/
theorem left_of_refines (h : Refines mb o r) (hr : r.err = none) (hmb : 0 < mb.left.length) :
    o.mb.left = r.out ∧ o.mb.bytes.take o.mb.pos = mb.bytes.take mb.pos ∧ o.mb.pos = mb.pos := by
  obtain ⟨hbytes, hpos⟩ := h.out hr
  have hlen : (mb.bytes.take mb.pos).length = mb.pos := (cut_advance (le_refl 1) hmb).start.symm
  refine ⟨left_of_bytes hbytes (by rw [hpos, hlen]), ?_, hpos⟩
  rw [hbytes, hpos]
  exact take_left' hlen

/-- The buffer after both calls. -/
theorem restored_of_refines {o' : Outcome} {r' : Receipt} (h : Refines s.mb o r)
    (hr : r.err = none) (hmb : 0 < s.mb.left.length) (h' : Refines o.mb o' r')
    (hr' : r'.err = none) (hout : r'.out = s.mb.left) : Restored s (o, o') := by
  obtain ⟨-, htake, hpos⟩ := left_of_refines h hr hmb
  obtain ⟨hbytes', hpos'⟩ := h'.out hr'
  refine ⟨h.err.trans hr, h'.err.trans hr', ?_, hpos'.trans hpos⟩
  rw [hbytes', htake, hout]
  exact (bytes_eq_take_append_left s.mb).symm

/-! ## RTP -/

theorem crypt_crypt (K : Crypto) (c : Comp) (ssrc : UInt32) (ix : UInt64) (data : Bytes) :
    crypt K c ssrc ix (crypt K c ssrc ix data) = data := by
  unfold crypt
  cases c.aes with
  | none => rfl
  | some key =>
    cases c.mode with
    | ctr | gcm => exact maskWith_maskWith _ _

/-- The SRTP packet of an RTP packet with true index `i`. -/
def sealedRtp (K : Crypto) (c : Comp) (i : Nat) (pkt : Bytes) : Bytes :=
  rtpSealed K c (rtpSsrc pkt) (UInt32.ofNat (i / 65536))
    (sendIndex (UInt32.ofNat (i / 65536)) (rtpSeq pkt)) (pkt.take (headerLen pkt))
    (pkt.drop (headerLen pkt))

/-- Its header is read as the header of the packet. -/
theorem header_sealedRtp (K : Crypto) (c : Comp) (i : Nat) {pkt : Bytes}
    (hlen : headerLen pkt ≤ pkt.length) :
    headerLen (sealedRtp K c i pkt) = headerLen pkt ∧
    headerOf (sealedRtp K c i pkt) = headerOf pkt ∧
    (sealedRtp K c i pkt).take (headerLen pkt) = pkt.take (headerLen pkt) ∧
    headerLen pkt ≤ (sealedRtp K c i pkt).length := by
  have hl : (pkt.take (headerLen pkt)).length = headerLen pkt := by
    simp
    omega
  have htake : (sealedRtp K c i pkt).take (headerLen pkt) = pkt.take (headerLen pkt) :=
    take_left' hl
  refine ⟨headerLen_congr htake (le_refl _), headerOf_congr htake (le_refl _), htake, ?_⟩
  have hlen' := congrArg length htake
  rw [hl, length_take] at hlen'
  omega

theorem latchSeq_replayRtp (strm : SrtpStream) (seq : UInt16) :
    (latchSeq strm seq).replayRtp = strm.replayRtp := by
  unfold latchSeq
  split <;> rfl

/-- None of the RTP functions touches the SRTCP index. -/
theorem rtcpIndex_raised (strm : SrtpStream) (seq : UInt16) :
    (raiseSeq (rollOver (latchSeq strm seq) seq) seq).rtcpIndex = strm.rtcpIndex := by
  unfold raiseSeq rollOver latchSeq
  split <;> split <;> split <;> rfl

section Rtp

variable {srtp : Srtp} {pkt : Bytes}

/-- A sender whose stream stands at the last index. -/
theorem rtpSend_eq (hlen : headerLen pkt ≤ pkt.length) (hroom : srtp.view.HasRoom (rtpSsrc pkt))
    (hroc : (rollOver (latchSeq (srtp.view.streamOf (rtpSsrc pkt)) (rtpSeq pkt)) (rtpSeq pkt)).roc
      = UInt32.ofNat (i / 65536)) :
    rtpSend K srtp.view pkt
      = { err := none
          view := srtp.view.update (raiseSeq (rollOver (latchSeq
            (srtp.view.streamOf (rtpSsrc pkt)) (rtpSeq pkt)) (rtpSeq pkt)) (rtpSeq pkt))
          ix := some (sendIndex (UInt32.ofNat (i / 65536)) (rtpSeq pkt)), checks := []
          out := sealedRtp K srtp.rtp i pkt } := by
  have hrtp : srtp.view.rtp = srtp.rtp := rfl
  rw [rtpSend, if_neg (Nat.not_lt.mpr hlen), if_neg (not_not.mpr hroom), sendOn]
  simp only [hroc, hrtp, rollOver_ssrc, latchSeq_ssrc, ssrc_streamOf, sealedRtp]

/-- A receiver whose stream stands at the last index: only the replay check is
between the packet and the caller. -/
theorem rtpReceive_sealedRtp (hlen : headerLen pkt ≤ pkt.length)
    (hroom : srtp.view.HasRoom (rtpSsrc pkt)) (hb : srtp.view.streamOf (rtpSsrc pkt) = b)
    (hs : rtpSeq pkt = seq)
    (hseq : seq.toNat = i % 65536) (hold : seqDiff (latchSeq b seq).sL seq ≤ 32768)
    (hroc : (rollOver (latchSeq b seq) seq).roc = UInt32.ofNat (i / 65536))
    (hr : rtpReceive K srtp.view (sealedRtp K srtp.rtp i pkt) = r) :
    (srtpReplayCheck b.replayRtp (recvCount i) = none ∧ r.err = some .EALREADY) ∨
    (∃ replay, srtpReplayCheck b.replayRtp (recvCount i) = some replay ∧ r.err = none ∧
      r.view = srtp.view.update (raiseSeq { rollOver (latchSeq b seq) seq with replayRtp := replay }
        seq) ∧
      r.out = pkt) := by
  obtain ⟨hlen', hof, htake, hle⟩ := header_sealedRtp K srtp.rtp i hlen
  generalize hsealed : sealedRtp K srtp.rtp i pkt = sealed
  rw [hsealed] at hlen' hof htake hle hr
  have hssrc : rtpSsrc sealed = rtpSsrc pkt := by rw [rtpSsrc, hof, rtpSsrc]
  have hix : recvIndex (UInt32.ofNat (i / 65536)) seq = recvCount i := by
    have hseqi : UInt16.ofNat i = seq := UInt16.toNat_inj.mp (by rw [UInt16.toNat_ofNat', hseq])
    rw [recvCount, hseqi]
  obtain ⟨-, hcases⟩ := rtpReceive_sealed (by rw [hlen']; exact hle)
    (by rw [hssrc]; exact hroom) (by rw [rtpSeq, hof, ← rtpSeq, hs]) (by rw [hssrc, hb]) hold rfl
    ((congrArg (recvIndex · seq) hroc).trans hix)
      (by rw [hssrc, hroc, hlen', htake, ← hs]; exact hsealed.symm) hr
  rw [latchSeq_replayRtp] at hcases
  refine hcases.imp (fun h => ⟨h.1, h.2.1⟩) ?_
  rintro ⟨replay, hcheck, herr, hview, hout⟩
  rw [crypt_crypt, hlen', htake, take_append_drop] at hout
  exact ⟨replay, hcheck, herr, hview, hout⟩

end Rtp

/-- Within the limits a packet is restored and the lockstep goes on, and beyond them it is
refused. -/
def Passes (K : Crypto) (srtp₀ : Srtp) (hash : Bool) (tx rx : Srtp) (t : Traffic) (s : Sent) :
    Prop :=
  (WithinLimits hash t s → Restored s (pass K tx rx s) ∧
    Lockstep srtp₀ hash (pass K tx rx s).1.srtp (pass K tx rx s).2.srtp (t.after s)) ∧
  (¬ WithinLimits hash t s → Refused (pass K tx rx s))

theorem Refused.not_restored {r : Outcome × Outcome} (h : Refused r) : ¬ Restored s r := by
  intro hr
  rcases h with h | h
  · simp [hr.sent] at h
  · simp [hr.received] at h

/-- One RTP packet that fits and has room on both sides. -/
theorem pass_rtp (hl : Lockstep srtp₀ hash tx rx t) (hfit : (Sent.rtp mb i).Fits t)
    (hcard : (insert (rtpSsrc mb.left) t.ssrcs).card ≤ srtpMaxStreams) :
    Passes K srtp₀ hash tx rx t (.rtp mb i) := by
  obtain ⟨hlen, hseq, hfollows⟩ := hfit
  have hagree := hl.agree (rtpSsrc mb.left)
  generalize hb : rx.view.streamOf (rtpSsrc mb.left) = b
  rw [hb] at hagree
  have hsmall : ∀ h, t.high (rtpSsrc mb.left) = some h → h < 2 ^ 48 := by
    intro h hh
    have hr := hagree.replay
    rw [hh] at hr
    exact hr.1
  have htxroom := (hasRoom_iff (hl.txStream _) hl.txCount).mpr hcard
  have hrxroom := (hasRoom_iff (hl.rxStream _) hl.rxCount).mpr hcard
  obtain ⟨-, hroca, hstanda⟩ := stands_step hagree.sender hseq hfollows hsmall
  obtain ⟨hold, hrocb, hstandb⟩ := stands_step hagree.receiver hseq hfollows hsmall
  have hpos : 0 < mb.left.length := by
    have := headerLen_ge mb.left
    omega
  -- the packet on the way is the sealed one
  have htx := srtpEncrypt_refines K tx mb
  rw [rtpSend_eq hlen htxroom hroca] at htx
  obtain ⟨hleft, -, -⟩ := left_of_refines htx rfl hpos
  have hrx := srtpDecrypt_refines K rx (srtpEncrypt K tx mb).mb
  rw [hleft] at hrx
  simp only [hl.txRtp, ← hl.rxRtp] at hrx
  have hcases := rtpReceive_sealedRtp (K := K) hlen hrxroom hb rfl hseq hold hrocb rfl
  constructor
  · rintro ⟨-, hi⟩
    obtain ⟨replay, hcheck, hat⟩ := replay_step hagree.replay hfollows hi
    rcases hcases with ⟨hnone, -⟩ | ⟨replay', hcheck', herr, hview, hout⟩
    · simp_all
    rw [hcheck] at hcheck'
    cases hcheck'
    refine ⟨restored_of_refines htx rfl hpos hrx herr hout, ?_⟩
    have hssrcs : (t.after (.rtp mb i)).ssrcs = insert (rtpSsrc mb.left) t.ssrcs := rfl
    refine lockstep_update hl htx.view (hrx.view.trans hview) ?_ ?_ hssrcs ?_ ?_
    · rw [raiseSeq_ssrc, rollOver_ssrc, latchSeq_ssrc, ssrc_streamOf]
    · grind [raiseSeq_ssrc, ssrc_streamOf, rollOver, latchSeq]
    · intro s hs
      exact ⟨Function.update_of_ne hs _ _, rfl⟩
    have hhigh : (t.after (.rtp mb i)).high (rtpSsrc mb.left) = some i :=
      Function.update_self _ _ _
    rw [hhigh]
    refine ⟨hstanda hi _, hstandb hi replay, ?_, fun hh => ?_⟩
    · simp [hat]
    obtain ⟨hn, hidx, hlix⟩ := hagree.rtcp hh
    refine ⟨hn, ?_, ?_⟩
    · rw [rtcpIndex_raised]
      exact hidx
    · rw [raiseSeq_replayRtcp]
      rw [rollOver_replayRtcp, latchSeq_replayRtcp]
      exact hlix
  · intro hno
    rcases hcases with ⟨-, herr⟩ | ⟨replay', hcheck', -⟩
    · exact .inr (hrx.err.trans herr)
    · rw [replay_wrapped hagree.replay hfollows fun hi => hno ⟨hcard, hi⟩] at hcheck'
      cases hcheck'

/-! ## RTCP -/

theorem toNat_nextRtcpIndex (strm : SrtpStream) :
    (nextRtcpIndex strm).rtcpIndex.toNat = (strm.rtcpIndex.toNat + 1) % 2 ^ 31 := by
  have hmask : (0x7fffffff : UInt32).toNat = 2 ^ 31 - 1 := rfl
  have hone : (1 : UInt32).toNat = 1 := rfl
  show ((strm.rtcpIndex + 1) &&& 0x7fffffff).toNat = _
  rw [UInt32.toNat_and, hmask, Nat.and_two_pow_sub_one_eq_mod, UInt32.toNat_add, hone]
  omega

/-- The E-bit and the index are two parts of one word. -/
theorem toNat_eIndex (ep : Bool) (hix : ix.toNat < 2 ^ 31) :
    (eIndex ep ix).toNat = ep.toNat * 2 ^ 31 + ix.toNat := by
  cases ep with
  | false =>
    simp [eIndex]
  | true =>
    have hbit : (0x80000000 : UInt32).toNat = 2 ^ 31 * 1 := rfl
    simp only [eIndex, if_true, UInt32.toNat_or, hbit, Bool.toNat_true, one_mul]
    rw [← Nat.two_pow_add_eq_or_of_lt (by omega), mul_one]

theorem eIx_eIndex (ep : Bool) (hix : ix.toNat < 2 ^ 31) : eIx (eIndex ep ix) = ix := by
  have hmask : (0x7fffffff : UInt32).toNat = 2 ^ 31 - 1 := rfl
  apply UInt32.toNat_inj.mp
  rw [eIx, UInt32.toNat_and, hmask, Nat.and_two_pow_sub_one_eq_mod, toNat_eIndex ep hix]
  omega

theorem eBit_eIndex (ep : Bool) (hix : ix.toNat < 2 ^ 31) : eBit (eIndex ep ix) = ep := by
  have h31 : (31 : UInt32).toNat = 31 := rfl
  have hone : (1 : UInt32).toNat = 1 := rfl
  have hval : ((eIndex ep ix) >>> 31 &&& 1).toNat = ep.toNat := by
    rw [UInt32.toNat_and, hone, Nat.and_one_is_mod, UInt32.toNat_shiftRight, h31,
      Nat.shiftRight_eq_div_pow, toNat_eIndex ep hix]
    cases ep <;> simp only [Bool.toNat_true, Bool.toNat_false, Nat.reduceMod, Nat.reducePow] <;>
      omega
  have hiff : ((eIndex ep ix) >>> 31 &&& 1 == 1) = ((eIndex ep ix >>> 31 &&& 1).toNat == 1) := by
    rw [Bool.eq_iff_iff, beq_iff_eq, beq_iff_eq, ← UInt32.toNat_inj, hone]
  rw [eBit, hiff, hval]
  cases ep <;> rfl

/-- The HMAC tag has the length of the suite. -/
theorem length_hmacTagOf {c : Comp} (hv : c.Valid) (data : Bytes) :
    (hmacTagOf K c data).length = c.tagLen := by
  cases hv with
  | hmac aes key kS tagLen hpos hle =>
    show ((K.hmacSha1 key data).val.take tagLen).length = tagLen
    rw [length_take, (K.hmacSha1 key data).property]
    exact min_eq_left hle
  | gcm aes kS => rfl

section Rtcp

variable {c : Comp} {ix : UInt32} {hdr payload ct gtag eix : Bytes}

/-- The cipher stage gives the payload back. -/
theorem rtcpOpenAes_sealed (strm : SrtpStream) (hct : crypt K c ssrc ix.toUInt64 payload = ct)
    (hgtag : gcmTagOf K c ssrc ix.toUInt64 (hdr ++ be32 (eIndex true ix)) ct = gtag) :
    (rtcpOpenAes K c ssrc ix c.aes.isSome strm hdr (ct ++ gtag) (be32 (eIndex c.aes.isSome ix))).err
        = none ∧
    (rtcpOpenAes K c ssrc ix c.aes.isSome strm hdr (ct ++ gtag)
        (be32 (eIndex c.aes.isSome ix))).plain = payload := by
  have hcrypt : crypt K c ssrc ix.toUInt64 ct = payload := by rw [← hct, crypt_crypt]
  obtain ⟨aes, mode, hmac, kS, tagLen⟩ := c
  cases aes with
  | none =>
    have hnil : gtag = [] := hgtag.symm
    simp [rtcpOpenAes, hnil, ← hct, crypt]
  | some k =>
    cases mode with
    | ctr =>
      have hnil : gtag = [] := hgtag.symm
      simp [rtcpOpenAes, hnil, hcrypt]
    | gcm =>
      have hlen : gtag.length = gcmTagLen := by
        rw [← hgtag]
        exact (K.gcmTag k _ _ _).property
      simp [rtcpOpenAes, hgtag, hcrypt, ← hlen]

/-- The receiver on what the sender makes: without an HMAC the packet is
accepted, with one the replay window decides. -/
theorem rtcpOpen_sealed (hix : ix.toNat < 2 ^ 31) (strm : SrtpStream)
    (hct : crypt K c ssrc ix.toUInt64 payload = ct)
    (hgtag : gcmTagOf K c ssrc ix.toUInt64 (hdr ++ be32 (eIndex true ix)) ct = gtag)
    (heix : be32 (eIndex c.aes.isSome ix) = eix) {r : Verdict}
    (hr : rtcpOpen K c ssrc strm hdr (ct ++ gtag) eix
      (hmacTagOf K c (hdr ++ (ct ++ (gtag ++ eix)))) = r) :
    (∃ replay, (c.hmac.isSome = true → srtpReplayCheck strm.replayRtcp ix.toUInt64 = some replay) ∧
      r.err = none ∧ r.strm = { strm with replayRtcp := replay } ∧ r.plain = payload) ∨
    (c.hmac.isSome = true ∧ srtpReplayCheck strm.replayRtcp ix.toUInt64 = none ∧
      r.err = some .EALREADY) := by
  have hword : ofBe32 eix = eIndex c.aes.isSome ix := by
    rw [← heix, ← append_nil (be32 _), ofBe32_be32_append]
  subst hr
  unfold rtcpOpen
  simp only [hword, eIx_eIndex _ hix, eBit_eIndex _ hix, append_assoc]
  subst heix
  unfold rtcpOpenHmac
  cases hh : c.hmac with
  | none =>
    obtain ⟨herr, hplain⟩ := rtcpOpenAes_sealed strm hct hgtag
    exact .inl ⟨strm.replayRtcp, by simp, herr, rtcpOpenAes_strm .., hplain⟩
  | some key =>
    simp only [ne_eq, not_true_eq_false, if_false]
    cases hr : srtpReplayCheck strm.replayRtcp ix.toUInt64 with
    | none => exact .inr ⟨rfl, rfl, rfl⟩
    | some replay =>
      obtain ⟨herr, hplain⟩ := rtcpOpenAes_sealed { strm with replayRtcp := replay } hct hgtag
      exact .inl ⟨replay, fun _ => rfl, herr, rtcpOpenAes_strm .., hplain⟩

/-- A sender of RTCP. -/
theorem rtcpSend_eq {srtp : Srtp} {pkt : Bytes} (hlen : 8 ≤ pkt.length)
    (hroom : srtp.view.HasRoom (rtcpSsrc pkt)) (hrtcp : srtp.rtcp = c)
    (hix : (nextRtcpIndex (srtp.view.streamOf (rtcpSsrc pkt))).rtcpIndex = ix)
    (hct : crypt K c (rtcpSsrc pkt) ix.toUInt64 (pkt.drop 8) = ct)
    (hgtag : gcmTagOf K c (rtcpSsrc pkt) ix.toUInt64 (pkt.take 8 ++ be32 (eIndex true ix)) ct =
      gtag)
    (heix : be32 (eIndex c.aes.isSome ix) = eix) :
    rtcpSend K srtp.view pkt =
      { err := none, view := srtp.view.update (nextRtcpIndex (srtp.view.streamOf (rtcpSsrc pkt)))
        ix := some ix.toUInt64, checks := []
        out := pkt.take 8 ++ (ct ++ gtag ++ (eix ++
          hmacTagOf K c (pkt.take 8 ++ (ct ++ (gtag ++ eix))))) } := by
  have hv : srtp.view.rtcp = c := hrtcp
  rw [rtcpSend, if_neg (by omega), if_neg (not_not.mpr hroom), hv]
  simp only [hix, rtcpSealed, hct, hgtag, heix, append_assoc]

end Rtcp

/-- What the RTCP functions write does not move a stream. -/
theorem StandsAt.of_eq {strm' : SrtpStream} (h : StandsAt strm high)
    (hset : strm'.sLSet = strm.sLSet)
    (hroc : strm'.roc = strm.roc) (hsL : strm'.sL = strm.sL) : StandsAt strm' high := by
  cases high with
  | none => exact ⟨hset.trans h.1, hroc.trans h.2⟩
  | some k => exact ⟨hset.trans h.1, by rw [streamCount, hroc, hsL]; exact h.2⟩

/-- One RTCP packet that fits and has room on both sides. -/
theorem pass_rtcp (hl : Lockstep srtp₀ srtp₀.rtcp.hmac.isSome tx rx t)
    (hfit : (Sent.rtcp mb).Fits t)
    (hcard : (insert (rtcpSsrc mb.left) t.ssrcs).card ≤ srtpMaxStreams) :
    Passes K srtp₀ srtp₀.rtcp.hmac.isSome tx rx t (.rtcp mb) := by
  have hlen : 8 ≤ mb.left.length := hfit
  have hagree := hl.agree (rtcpSsrc mb.left)
  generalize ha : tx.view.streamOf (rtcpSsrc mb.left) = a
  generalize hb : rx.view.streamOf (rtcpSsrc mb.left) = b
  have hassrc : a.ssrc = rtcpSsrc mb.left := by rw [← ha, ssrc_streamOf]
  have hbssrc : b.ssrc = rtcpSsrc mb.left := by rw [← hb, ssrc_streamOf]
  rw [ha, hb] at hagree
  generalize hix : (nextRtcpIndex a).rtcpIndex = ix
  have hixn : ix.toNat = (a.rtcpIndex.toNat + 1) % 2 ^ 31 := by rw [← hix, toNat_nextRtcpIndex]
  generalize hct : crypt K srtp₀.rtcp (rtcpSsrc mb.left) ix.toUInt64 (mb.left.drop 8) = ct
  generalize hgtag : gcmTagOf K srtp₀.rtcp (rtcpSsrc mb.left) ix.toUInt64
    (mb.left.take 8 ++ be32 (eIndex true ix)) ct = gtag
  generalize heix : be32 (eIndex srtp₀.rtcp.aes.isSome ix) = eix
  -- the packet on the way, and its parts
  have htx := srtcpEncrypt_refines K tx mb
  rw [rtcpSend_eq hlen ((hasRoom_iff (hl.txStream _) hl.txCount).mpr hcard) hl.txRtcp
    (by rw [ha]; exact hix) hct hgtag heix, ha] at htx
  obtain ⟨hleft, -, -⟩ := left_of_refines htx rfl (by omega)
  have hrx := srtcpDecrypt_refines K rx (srtcpEncrypt K tx mb).mb
  rw [hleft] at hrx
  generalize htag : hmacTagOf K srtp₀.rtcp (mb.left.take 8 ++ (ct ++ (gtag ++ eix))) = tag
  rw [htag] at hrx htx
  have htake8 : (mb.left.take 8).length = 8 := length_take_of_le hlen
  have hp : RtcpParts rx.view.rtcp.tagLen (mb.left.take 8 ++ (ct ++ gtag ++ (eix ++ tag)))
      (mb.left.take 8) (ct ++ gtag) eix tag := by
    have hrtcp : rx.view.rtcp = srtp₀.rtcp := hl.rxRtcp
    refine ⟨rfl, htake8, by rw [← heix]; rfl, ?_⟩
    rw [← htag, hrtcp, length_hmacTagOf srtp₀.rtcp_valid]
  have hssrc : rtcpSsrc (mb.left.take 8 ++ (ct ++ gtag ++ (eix ++ tag))) = rtcpSsrc mb.left :=
    ofBe32_drop_congr (take_left' htake8) (by omega)
  rw [rtcpReceive_eq K hp (by rw [hssrc]; exact (hasRoom_iff (hl.rxStream _) hl.rxCount).mpr hcard),
    hssrc, hb, show rx.view.rtcp = srtp₀.rtcp from hl.rxRtcp] at hrx
  have hixlt : ix.toNat < 2 ^ 31 := by omega
  generalize hr : rtcpOpen K srtp₀.rtcp (rtcpSsrc mb.left) b (mb.left.take 8) (ct ++ gtag) eix tag
    = r
  have hcases := rtcpOpen_sealed hixlt b hct hgtag heix (htag.symm ▸ hr)
  rw [hr] at hrx
  have hwide : ix.toUInt64.toNat = ix.toNat := UInt32.toNat_toUInt64 ix
  rcases hcases with ⟨replay, hpermits, herr, hstrm, hplain⟩ | ⟨hh, hnone, herr⟩
  · have hlim : srtp₀.rtcp.hmac.isSome = true → t.rtcp (rtcpSsrc mb.left) + 1 < 2 ^ 31 ∧
        ix.toNat = t.rtcp (rtcpSsrc mb.left) + 1 ∧ replay.lix.toNat =
          t.rtcp (rtcpSsrc mb.left) + 1 := by
      intro hh
      obtain ⟨hn, hidx, hlix⟩ := hagree.rtcp hh
      have hval := lix_of_srtpReplayCheck (hpermits hh)
      have hpassed : ¬ b.replayRtcp.Refuses ix.toUInt64 := by
        grind [srtpReplayCheck_eq_none_iff]
      have htop : b.replayRtcp.window.top = b.replayRtcp.lix.toNat := rfl
      -- an index that has gone back to 0 is behind the window
      have hlim : t.rtcp (rtcpSsrc mb.left) + 1 < 2 ^ 31 := by
        by_contra hno
        exact hpassed ⟨by omega, .inl (by omega)⟩
      rw [if_pos (by rw [UInt64.lt_iff_toNat_lt]; omega)] at hval
      rw [hval]
      omega
    refine ⟨fun _ => ⟨?_, ?_⟩, fun hno => absurd ⟨hcard, fun hh => (hlim hh).1⟩ hno⟩
    · refine restored_of_refines htx rfl (show 0 < mb.left.length by omega) hrx herr ?_
      show mb.left.take 8 ++ r.plain = mb.left
      rw [hplain, take_append_drop]
    refine lockstep_update hl htx.view hrx.view hassrc (by simp [hstrm, hbssrc]) rfl
      (fun s hs => ⟨rfl, Function.update_of_ne hs _ _⟩) ?_
    have hn : (t.after (.rtcp mb)).rtcp (rtcpSsrc mb.left) = t.rtcp (rtcpSsrc mb.left) + 1 :=
      Function.update_self _ _ _
    rw [hn, hstrm]
    refine ⟨hagree.sender.of_eq rfl rfl rfl, hagree.receiver.of_eq rfl rfl rfl, hagree.replay, ?_⟩
    rw [hix]
    exact hlim
  · obtain ⟨hn, hidx, hlix⟩ := hagree.rtcp hh
    refine ⟨fun hlim => ?_, fun _ => .inr (hrx.err.trans herr)⟩
    have hbound := hlim.2 hh
    have hlt : b.replayRtcp.lix < ix.toUInt64 := by
      rw [UInt64.lt_iff_toNat_lt]
      omega
    obtain ⟨replay, hsome, -⟩ := srtpReplayCheck_of_lt hlt
    rw [hsome] at hnone
    cases hnone

/-! ## The run -/

theorem lockstep_start (hempty : srtp₀.streaml = .empty) (hash : Bool) :
    Lockstep srtp₀ hash srtp₀ srtp₀ .none := by
  have hnone : ∀ ssrc, srtp₀.view.stream ssrc = .none := by
    intro ssrc
    show srtp₀.streaml.find ssrc = .none
    rw [hempty]
    rfl
  have hof : ∀ ssrc, srtp₀.view.streamOf ssrc = freshStream ssrc := by
    simp [View.streamOf, hnone]
  have hcount : srtp₀.view.count = 0 := by
    show srtp₀.streaml.count = 0
    rw [hempty]
    rfl
  have hmem : ∀ ssrc, (srtp₀.view.stream ssrc).isSome = true ↔ ssrc ∈ Traffic.none.ssrcs := by
    intro ssrc
    rw [hnone]
    exact ⟨fun h => absurd h Bool.false_ne_true, fun h => absurd h (Finset.notMem_empty _)⟩
  refine ⟨rfl, rfl, rfl, rfl, hmem, hmem, hcount, hcount, fun ssrc => ?_⟩
  rw [hof]
  exact ⟨⟨rfl, rfl⟩, ⟨rfl, rfl⟩, rfl, fun _ => ⟨Nat.succ_pos _, rfl, rfl⟩⟩

/-- A ninth SSRC gets no stream. -/
theorem pass_noRoom (hl : Lockstep srtp₀ hash tx rx t) (hfit : s.Fits t)
    (hcard : ¬ (t.after s).ssrcs.card ≤ srtpMaxStreams) : (pass K tx rx s).1.err = some .ENOSR := by
  cases s with
  | rtp mb i =>
    have hroom : ¬ tx.view.HasRoom (rtpSsrc mb.left) :=
      fun h => hcard ((hasRoom_iff (hl.txStream _) hl.txCount).mp h)
    exact (srtpEncrypt_noRoom hfit.1 rfl hroom).1
  | rtcp mb =>
    have hlen : 8 ≤ mb.left.length := hfit
    have hroom : ¬ tx.view.HasRoom (rtcpSsrc mb.left) :=
      fun h => hcard ((hasRoom_iff (hl.txStream _) hl.txCount).mp h)
    show (srtcpEncrypt K tx mb).err = some .ENOSR
    rw [(srtcpEncrypt_refines K tx mb).err, rtcpSend, if_neg (by omega), if_pos hroom]
    rfl

theorem lockstep_pass (hl : Lockstep srtp₀ srtp₀.rtcp.hmac.isSome tx rx t) (hfit : s.Fits t) :
    Passes K srtp₀ srtp₀.rtcp.hmac.isSome tx rx t s := by
  by_cases hcard : (t.after s).ssrcs.card ≤ srtpMaxStreams
  · cases s with
    | rtp mb i => exact pass_rtp hl hfit hcard
    | rtcp mb => exact pass_rtcp hl hfit hcard
  · have herr := pass_noRoom (K := K) hl hfit hcard
    refine ⟨fun hlim => absurd ?_ hcard, fun _ => .inl herr⟩
    cases s with
    | rtp _ _ | rtcp _ => exact hlim.1

/-- A whole run within the limits. -/
theorem linkRun_lockstep (hempty : srtp₀.streaml = .empty)
    (hrun : LinkRun K (WithinLimits srtp₀.rtcp.hmac.isSome) srtp₀ tx rx t) :
    Lockstep srtp₀ srtp₀.rtcp.hmac.isSome tx rx t := by
  induction hrun with
  | start => exact lockstep_start hempty _
  | packet _ hfit hlim ih => exact ((lockstep_pass ih hfit).1 hlim).2

/-- After every run within the limits the next packet is restored exactly when it
is within the limits too, and refused by one of the two calls when it is not. -/
theorem round_trip_iff {suite : SrtpSuite} {key : Bytes} {flags : UInt32}
    (halloc : srtpAlloc K suite key flags = .ok srtp₀)
    (hrun : LinkRun K (WithinLimits suite.params.hash) srtp₀ tx rx t) {s : Sent} (hfit : s.Fits t) :
    (Restored s (pass K tx rx s) ↔ WithinLimits suite.params.hash t s) ∧
      (¬ WithinLimits suite.params.hash t s → Refused (pass K tx rx s)) := by
  obtain ⟨hempty, -, hhash, -⟩ := srtpAlloc_spec halloc
  rw [← hhash] at hrun ⊢
  obtain ⟨hin, hout⟩ := lockstep_pass (K := K) (linkRun_lockstep hempty hrun) hfit
  exact ⟨⟨fun hr => not_not.mp fun hno => (hout hno).not_restored hr, fun hlim => (hin hlim).1⟩,
    hout⟩

/-- The calls on the reference RTP packet. -/
def referenceLink : Outcome × Outcome :=
  pass referenceCrypto referenceRtcpSession referenceRtcpSession (.rtp (packetBuf referenceRtp) 1)

theorem linkRun_referenceLink :
    LinkRun referenceCrypto (WithinLimits true) referenceRtcpSession referenceLink.1.srtp
      referenceLink.2.srtp (Traffic.none.after (.rtp (packetBuf referenceRtp) 1)) := by
  have hfit : (Sent.rtp (packetBuf referenceRtp) 1).Fits .none :=
    ⟨by decide +kernel, by decide +kernel, show 1 < 65536 by decide⟩
  exact .packet .start hfit ⟨by decide +kernel, by decide⟩

/-- The reference RTCP packet may follow. -/
theorem fits_referenceRtcp :
    (Sent.rtcp (packetBuf referenceRtcp)).Fits
      (Traffic.none.after (.rtp (packetBuf referenceRtp) 1)) ∧
    WithinLimits true (Traffic.none.after (.rtp (packetBuf referenceRtp) 1))
      (.rtcp (packetBuf referenceRtcp)) :=
  ⟨show 8 ≤ (packetBuf referenceRtcp).left.length by decide +kernel,
    by decide +kernel, fun _ => by decide +kernel⟩

/-- The reference RTCP packet, after the reference RTP packet. -/
theorem round_trip_reference :
    Restored (.rtcp (packetBuf referenceRtcp)) (pass referenceCrypto referenceLink.1.srtp
      referenceLink.2.srtp (.rtcp (packetBuf referenceRtcp))) := by
  obtain ⟨hfit, hlim⟩ := fits_referenceRtcp
  exact (round_trip_iff srtpAlloc_referenceRtcp linkRun_referenceLink hfit).1.mpr hlim

/-- Eight bytes of RTCP. -/
def shortRtcp (ssrc : UInt32) : Mbuf := packetBuf (hexBytes 4 0x80c90001 ++ be32 ssrc)

/-- The ninth of nine senders is refused. -/
theorem ninth_ssrc_refused :
    ¬ ∀ (K : Crypto) (suite : SrtpSuite) (key : Bytes) (flags : UInt32) (srtp₀ tx rx : Srtp)
        (t : Traffic) (s : Sent), srtpAlloc K suite key flags = .ok srtp₀ →
        LinkRun K (fun _ _ => True) srtp₀ tx rx t → s.Fits t → Restored s (pass K tx rx s) := by
  intro hall
  have hstep : ∀ (ssrc : UInt32) {tx rx : Srtp} {t : Traffic},
      LinkRun referenceCrypto (fun _ _ => True) referenceRtcpSession tx rx t →
      LinkRun referenceCrypto (fun _ _ => True) referenceRtcpSession
        (srtcpEncrypt referenceCrypto tx (shortRtcp ssrc)).srtp
        (srtcpDecrypt referenceCrypto rx (srtcpEncrypt referenceCrypto tx (shortRtcp ssrc)).mb).srtp
        (t.after (.rtcp (shortRtcp ssrc))) := by
    intro ssrc tx rx t hrun
    have hfit : (Sent.rtcp (shortRtcp ssrc)).Fits t := le_refl 8
    exact hrun.packet hfit trivial
  have hrun := hstep 8 (hstep 7 (hstep 6 (hstep 5 (hstep 4 (hstep 3 (hstep 2 (hstep 1 .start)))))))
  have hrestored := hall _ _ _ _ _ _ _ _ (.rtcp (shortRtcp 9)) srtpAlloc_referenceRtcp hrun
    (le_refl 8)
  exact absurd hrestored.sent (by decide +kernel)

/-- After every run within the limits the two sessions have the same streams and
stand at the same index of each. -/
theorem sessions_agree {suite : SrtpSuite} {key : Bytes} {flags : UInt32}
    (halloc : srtpAlloc K suite key flags = .ok srtp₀)
    (hrun : LinkRun K (WithinLimits suite.params.hash) srtp₀ tx rx t) (ssrc : UInt32) :
    (tx.view.stream ssrc).isSome = (rx.view.stream ssrc).isSome ∧ ∃ high,
      StandsAt (tx.view.streamOf ssrc) high ∧ StandsAt (rx.view.streamOf ssrc) high := by
  obtain ⟨hempty, -, hhash, -⟩ := srtpAlloc_spec halloc
  have hl := linkRun_lockstep hempty (hhash ▸ hrun)
  exact ⟨Bool.eq_iff_iff.mpr ((hl.txStream ssrc).trans (hl.rxStream ssrc).symm), _,
    (hl.agree ssrc).sender, (hl.agree ssrc).receiver⟩

theorem StandsAt.eq_some (h : StandsAt strm high) (hset : strm.sLSet = true) :
    high = some (streamCount strm) := by
  cases high with
  | none => simp [h.1] at hset
  | some k => rw [h.2]

/-- After the reference RTP and RTCP packets both sides stand at index 1. -/
theorem sessions_agree_reference :
    let link := pass referenceCrypto referenceLink.1.srtp referenceLink.2.srtp
      (.rtcp (packetBuf referenceRtcp))
    (link.1.srtp.view.stream 0x01020304).isSome = (link.2.srtp.view.stream 0x01020304).isSome ∧
    StandsAt (link.1.srtp.view.streamOf 0x01020304) (some 1) ∧
    StandsAt (link.2.srtp.view.streamOf 0x01020304) (some 1) := by
  intro link
  obtain ⟨hfit, hlim⟩ := fits_referenceRtcp
  obtain ⟨hsome, high, htx, hrx⟩ :=
    sessions_agree srtpAlloc_referenceRtcp (.packet linkRun_referenceLink hfit hlim) 0x01020304
  have hcount : streamCount (link.1.srtp.view.streamOf 0x01020304) = 1 := by decide +kernel
  have hhigh := htx.eq_some (by decide +kernel)
  rw [hcount] at hhigh
  subst hhigh
  exact ⟨hsome, htx, hrx⟩

end LibRe.SRTP
