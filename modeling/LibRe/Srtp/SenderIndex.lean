/-
LibRe.Srtp.SenderIndex — the index a sender encrypts under.

`srtp_encrypt` steps the roll-over counter forward when a sequence number has
wrapped, and takes the counter as it is for every other packet. A packet sent
again after a wrap, with a sequence number from before it, is therefore given
the index of a packet one roll-over later: `sender_index_exact` says that this
is the only way the index goes wrong. As long as no packet of an earlier
roll-over is sent, every index is the true one, the stream stands at the
highest, and no two packets share an IV.

`resent_packet_shares_iv` is a run in which two packets do share one.
-/
import LibRe.Srtp.ReceiverIndex

namespace LibRe.SRTP

open Bytes Option

/-- A packet with true index `i`, less than 32768 away from the highest index
sent so far. The first packet is of roll-over 0, and the index has 48 bits. -/
structure Sendable (ssrc : UInt32) (high : Option Nat) (i : Nat) (pkt : Bytes) : Prop where
  header : headerLen pkt ≤ pkt.length
  ssrc : rtpSsrc pkt = ssrc
  seq : (rtpSeq pkt).toNat = i % 65536
  small : i < 281474976710656
  first : high = none → i < 65536
  near : ∀ h, high = some h → i < h + 32768 ∧ h < i + 32768

/-- The packet is not of an earlier roll-over than the highest one sent. -/
def NotEarlier (high : Option Nat) (i : Nat) : Prop :=
  ∀ h, high = some h → h / 65536 ≤ i / 65536

instance (high : Option Nat) (i : Nat) : Decidable (NotEarlier high i) :=
  match high with
  | none => .isTrue fun _ h => nomatch h
  | some h => decidable_of_iff (h / 65536 ≤ i / 65536)
      ⟨fun hle k hk => by cases hk; exact hle, fun hall => hall h rfl⟩

/-- A packet that was sent: its true index and the index it was encrypted under. -/
structure SentPacket where
  index : Nat
  used : UInt64
  deriving DecidableEq

/-- What was sent, after one more call. -/
def sentAfter (sent : List SentPacket) (o : Outcome) (i : Nat) : List SentPacket :=
  match o.ix with
  | some ix => ⟨i, ix⟩ :: sent
  | none => sent

/-- The runs of a sender over packets of one SSRC that all meet `P`, with the
highest index sent and the packets sent, the latest first. -/
inductive SenderRun (K : Crypto) (ssrc : UInt32) (P : Option Nat → Nat → Prop) (srtp₀ : Srtp) :
    Srtp → Option Nat → List SentPacket → Prop where
  | start : SenderRun K ssrc P srtp₀ srtp₀ none []
  | packet {srtp : Srtp} {high : Option Nat} {sent : List SentPacket} {mb : Mbuf} {i : Nat} :
      SenderRun K ssrc P srtp₀ srtp high sent →
      Sendable ssrc high i mb.left → P high i →
      SenderRun K ssrc P srtp₀ (srtpEncrypt K srtp mb).srtp
        (highest high (srtpEncrypt K srtp mb) i) (sentAfter sent (srtpEncrypt K srtp mb) i)

/-- What a run should give: each packet under its true index, the stream at the
highest one, and different IVs for different packets, in both layouts. -/
structure Faithful (ssrc : UInt32) (kS : Vect128) (srtp : Srtp) (high : Option Nat)
    (sent : List SentPacket) : Prop where
  used : ∀ p ∈ sent, p.used.toNat = p.index
  count : ∀ h, high = some h → ∃ strm, streamFind srtp ssrc = some strm ∧ streamCount strm = h
  ivCtr : ∀ p ∈ sent, ∀ q ∈ sent, p.index ≠ q.index →
    srtpIvCalc kS ssrc p.used ≠ srtpIvCalc kS ssrc q.used
  ivGcm : ∀ p ∈ sent, ∀ q ∈ sent, p.index ≠ q.index →
    srtpIvCalcGcm kS ssrc p.used ≠ srtpIvCalcGcm kS ssrc q.used

variable {K : Crypto} {ssrc : UInt32} {srtp₀ srtp : Srtp} {high : Option Nat} {i : Nat} {mb : Mbuf}
  {sent : List SentPacket}

/-! ## One packet -/

variable {strm : SrtpStream}

/-- A sender's call on a stream. -/
theorem srtpEncrypt_ok (hlen : headerLen mb.left ≤ mb.left.length)
    (hssrc : rtpSsrc mb.left = ssrc) (hroom : srtp.view.HasRoom ssrc)
    (hstrm : latchSeq (srtp.view.streamOf ssrc) (rtpSeq mb.left) = strm) :
    (srtpEncrypt K srtp mb).err = none ∧
    (srtpEncrypt K srtp mb).ix
      = some (sendIndex (rollOver strm (rtpSeq mb.left)).roc (rtpSeq mb.left)) ∧
    (srtpEncrypt K srtp mb).srtp.view
      = srtp.view.update (raiseSeq (rollOver strm (rtpSeq mb.left)) (rtpSeq mb.left)) := by
  have href := srtpEncrypt_refines K srtp mb
  subst hssrc
  rw [href.ix, href.err, href.view, rtpSend, if_neg (Nat.not_lt.mpr hlen),
    if_neg (not_not.mpr hroom), hstrm]
  exact ⟨rfl, rfl, rfl⟩

/-- A sender's call for an SSRC without room. -/
theorem srtpEncrypt_noRoom (hlen : headerLen mb.left ≤ mb.left.length)
    (hssrc : rtpSsrc mb.left = ssrc) (hroom : ¬ srtp.view.HasRoom ssrc) :
    (srtpEncrypt K srtp mb).err = some .ENOSR ∧ (srtpEncrypt K srtp mb).ix = none ∧
      (srtpEncrypt K srtp mb).srtp.view = srtp.view := by
  have href := srtpEncrypt_refines K srtp mb
  subst hssrc
  rw [href.ix, href.err, href.view, rtpSend, if_neg (Nat.not_lt.mpr hlen), if_pos hroom]
  exact ⟨rfl, rfl, rfl⟩

/-- What holds between the packets of a run. -/
structure SenderTracks (ssrc : UInt32) (srtp : Srtp) (high : Option Nat)
    (sent : List SentPacket) : Prop where
  unsent : high = none → (srtp.view.streamOf ssrc).sLSet = false ∧ (srtp.view.streamOf ssrc).roc = 0
  heard : ∀ h, high = some h → ∃ strm, streamFind srtp ssrc = some strm ∧ strm.sLSet = true ∧
    streamCount strm = h
  used : ∀ p ∈ sent, p.used.toNat = p.index ∧ p.index < 281474976710656

/-- The index of the next packet: right exactly when the packet is not of an
earlier roll-over, and then the stream goes on to the higher of the two counts. -/
theorem sender_heard {h : Nat} (hfind : streamFind srtp ssrc = some strm)
    (hset : strm.sLSet = true) (hcount : streamCount strm = h)
    (hs : Sendable ssrc (some h) i mb.left) :
    ∃ ix strm', (srtpEncrypt K srtp mb).err = none ∧ (srtpEncrypt K srtp mb).ix = some ix ∧
      (ix.toNat = i ↔ h / 65536 ≤ i / 65536) ∧
      streamFind (srtpEncrypt K srtp mb).srtp ssrc = some strm' ∧ strm'.sLSet = true ∧
      (h / 65536 ≤ i / 65536 → streamCount strm' = max i h) := by
  obtain ⟨ahead, behind⟩ := hs.near h rfl
  obtain ⟨hof, hroom⟩ := streamOf_of_find hfind
  have hi := hs.small
  have hssrc : strm.ssrc = ssrc := ssrc_of_find hfind
  have hlatch : latchSeq (srtp.view.streamOf ssrc) (rtpSeq mb.left) = strm := by
    rw [hof, latchSeq, if_pos hset]
  obtain ⟨herr, hix, hview⟩ := srtpEncrypt_ok (K := K) hs.header hs.ssrc hroom hlatch
  have hcases := stream_cases hcount hs.seq (by omega) behind
  have hfind' := find_of_view hview (by rw [raiseSeq_ssrc, rollOver_ssrc, hssrc])
  refine ⟨_, _, herr, hix, ?_, hfind', by rw [raiseSeq_sLSet, rollOver_sLSet, hset], ?_⟩
  · rw [toNat_sendIndex, hs.seq]
    constructor
    · intro hnum
      by_contra hlate
      have hroll : rollOver strm (rtpSeq mb.left) = strm := by
        rw [rollOver, if_neg (by omega)]
      have hroc := roc_eq_div strm
      rw [hroll] at hnum
      omega
    · intro hq
      have hroc := roc_rollOver hcount hs.seq (by omega) behind (by omega) (by omega)
      omega
  · intro hq
    exact streamCount_raiseSeq hcount hs.seq (by omega) behind (by omega) (by omega)
      (rollOver strm (rtpSeq mb.left)).replayRtp

/-- The first packet: its sequence number is latched, its roll-over counter is 0. -/
theorem sender_first (hu : (srtp.view.streamOf ssrc).sLSet = false)
    (hroc : (srtp.view.streamOf ssrc).roc = 0) (hroom : srtp.view.HasRoom ssrc)
    (hs : Sendable ssrc none i mb.left) :
    ∃ ix strm', (srtpEncrypt K srtp mb).err = none ∧ (srtpEncrypt K srtp mb).ix = some ix ∧
      ix.toNat = i ∧ streamFind (srtpEncrypt K srtp mb).srtp ssrc = some strm' ∧
      strm'.sLSet = true ∧ streamCount strm' = i := by
  have hi := hs.first rfl
  generalize hstrm : latchSeq (srtp.view.streamOf ssrc) (rtpSeq mb.left) = strm
  have hval : strm = { srtp.view.streamOf ssrc with sL := rtpSeq mb.left, sLSet := true } := by
    rw [← hstrm, latchSeq, if_neg (by rw [hu]; decide)]
  have hssrc : strm.ssrc = ssrc := by rw [← hstrm, latchSeq_ssrc, ssrc_streamOf]
  have hsL : strm.sL = rtpSeq mb.left := by rw [hval]
  have hroc0 : strm.roc.toNat = 0 := by
    simp [hval, hroc]
  have hroll : rollOver strm (rtpSeq mb.left) = strm := by
    rw [rollOver, if_neg (by rw [hsL, seqDiff_self]; decide)]
  have hraise : raiseSeq strm (rtpSeq mb.left) = strm := by
    rw [raiseSeq, if_neg (by rw [hsL]; simp)]
  obtain ⟨herr, hix, hview⟩ := srtpEncrypt_ok (K := K) hs.header hs.ssrc hroom hstrm
  rw [hroll] at hix hview
  rw [hraise] at hview
  refine ⟨_, strm, herr, hix, ?_, find_of_view hview hssrc, by rw [hval], ?_⟩
  · rw [toNat_sendIndex, hroc0, hs.seq]
    omega
  · grind [Sendable.seq, streamCount]

/-! ## The run -/

/-- One packet that is not of an earlier roll-over. -/
theorem senderTracks_step (ht : SenderTracks ssrc srtp high sent)
    (hs : Sendable ssrc high i mb.left) (hP : NotEarlier high i) :
    SenderTracks ssrc (srtpEncrypt K srtp mb).srtp (highest high (srtpEncrypt K srtp mb) i)
      (sentAfter sent (srtpEncrypt K srtp mb) i) := by
  have hused : ∀ ix : UInt64, ix.toNat = i → ∀ p ∈ (⟨i, ix⟩ : SentPacket) :: sent,
      p.used.toNat = p.index ∧ p.index < 281474976710656 := by
    intro ix hnum p hp
    rcases List.mem_cons.mp hp with rfl | hp
    · exact ⟨hnum, hs.small⟩
    · exact ht.used p hp
  cases high with
  | some h =>
    obtain ⟨strm, hfind, hset, hcount⟩ := ht.heard h rfl
    obtain ⟨ix, strm', herr, hix, hnum, hfind', hset', hcount'⟩ := sender_heard (K := K) hfind hset
      hcount hs
    rw [highest, if_pos herr, sentAfter, hix]
    refine ⟨fun hn => absurd hn (some_ne_none _), fun k hk => ?_, hused ix (hnum.mpr (hP h rfl))⟩
    cases hk
    exact ⟨strm', hfind', hset', hcount' (hP h rfl)⟩
  | none =>
    obtain ⟨hu, hroc⟩ := ht.unsent rfl
    by_cases hroom : srtp.view.HasRoom ssrc
    · obtain ⟨ix, strm', herr, hix, hnum, hfind', hset', hcount'⟩ := sender_first (K := K) hu hroc
        hroom hs
      rw [highest, if_pos herr, sentAfter, hix]
      refine ⟨fun hn => absurd hn (some_ne_none _), fun k hk => ?_, hused ix hnum⟩
      cases hk
      exact ⟨strm', hfind', hset', by rw [hcount', getD_none, max_self]⟩
    · obtain ⟨herr, hix, hview⟩ := srtpEncrypt_noRoom (K := K) hs.header hs.ssrc hroom
      rw [highest, if_neg (by rw [herr]; simp), sentAfter, hix]
      exact ⟨fun _ => by rw [hview]; exact ⟨hu, hroc⟩, fun k hk => absurd hk.symm (some_ne_none _),
        ht.used⟩

/-- Along a run without packets of an earlier roll-over. -/
theorem senderRun_tracks (hstart : Unheard srtp₀ ssrc)
    (hrun : SenderRun K ssrc NotEarlier srtp₀ srtp high sent) :
    SenderTracks ssrc srtp high sent := by
  induction hrun with
  | start =>
    exact ⟨fun _ => ⟨hstart.unset, hstart.roc⟩, fun h hh => (nomatch hh),
      fun p hp => absurd hp List.not_mem_nil⟩
  | packet _ hs hP ih => exact senderTracks_step ih hs hP

theorem SenderTracks.faithful (ht : SenderTracks ssrc srtp high sent) (kS : Vect128) :
    Faithful ssrc kS srtp high sent where
  used p hp := (ht.used p hp).1
  count h hh := by
    obtain ⟨strm, hfind, -, hcount⟩ := ht.heard h hh
    exact ⟨strm, hfind, hcount⟩
  ivCtr p hp q hq hne heq := by
    have hmod := srtpIvCalc_inj heq
    obtain ⟨hpu, hpl⟩ := ht.used p hp
    obtain ⟨hqu, hql⟩ := ht.used q hq
    omega
  ivGcm p hp q hq hne heq := by
    have hmod := srtpIvCalcGcm_inj heq
    obtain ⟨hpu, hpl⟩ := ht.used p hp
    obtain ⟨hqu, hql⟩ := ht.used q hq
    omega

/-- In every run without packets of an earlier roll-over, retransmissions
included, every index is the true one, the stream stands at the highest and the
IVs are different; and for the next packet this is exactly what its index needs. -/
theorem sender_index_exact (hstart : Unheard srtp₀ ssrc)
    (hrun : SenderRun K ssrc NotEarlier srtp₀ srtp high sent) :
    Faithful ssrc srtp₀.rtp.kS srtp high sent ∧
    ∀ (mb : Mbuf) (i : Nat), Sendable ssrc high i mb.left →
      ∀ ix, (srtpEncrypt K srtp mb).ix = some ix → (ix.toNat = i ↔ NotEarlier high i) := by
  have ht := senderRun_tracks hstart hrun
  refine ⟨ht.faithful _, fun mb i hs ix hix => ?_⟩
  cases high with
  | some h =>
    obtain ⟨strm, hfind, hset, hcount⟩ := ht.heard h rfl
    obtain ⟨ix', -, -, hix', hnum, -⟩ := sender_heard (K := K) hfind hset hcount hs
    rw [hix] at hix'
    cases hix'
    exact ⟨fun h' k hk => by cases hk; exact hnum.mp h', fun h' => hnum.mpr (h' h rfl)⟩
  | none =>
    obtain ⟨hu, hroc⟩ := ht.unsent rfl
    by_cases hroom : srtp.view.HasRoom ssrc
    · obtain ⟨ix', -, -, hix', hnum, -⟩ := sender_first (K := K) hu hroc hroom hs
      rw [hix] at hix'
      cases hix'
      exact ⟨fun _ k hk => (nomatch hk), fun _ => hnum⟩
    · grind [srtpEncrypt_noRoom, Sendable.header, Sendable.ssrc]

/-! ## Runs of headers without payload -/

/-- Where a run stands. -/
structure SenderState where
  srtp : Srtp
  high : Option Nat
  sent : List SentPacket

/-- One header without payload, with true index `i`. -/
def sendBare (K : Crypto) (ssrc : UInt32) (s : SenderState) (i : Nat) : SenderState :=
  let o := srtpEncrypt K s.srtp (barePacket ssrc (UInt16.ofNat i))
  ⟨o.srtp, highest s.high o i, sentAfter s.sent o i⟩

/-- The index may follow the highest one. -/
def mayFollow : Option Nat → Nat → Bool
  | none, i => i < 65536
  | some h, i => i < 281474976710656 && (i < h + 32768 && h < i + 32768)

/-- Each index of the list may follow the ones before it, and meets `P`. -/
def allFollow (K : Crypto) (ssrc : UInt32) (P : Option Nat → Nat → Prop)
    [∀ h i, Decidable (P h i)] : SenderState → List Nat → Bool
  | _, [] => true
  | s, i :: is => mayFollow s.high i && decide (P s.high i) &&
      allFollow K ssrc P (sendBare K ssrc s i) is

theorem sendable_bare (ssrc : UInt32) (h : mayFollow high i = true) :
    Sendable ssrc high i (barePacket ssrc (UInt16.ofNat i)).left := by
  have hleft : (barePacket ssrc (UInt16.ofNat i)).left = bareHeader ssrc (UInt16.ofNat i) := rfl
  have hlen : (bareHeader ssrc (UInt16.ofNat i)).length = 12 := rfl
  have hseq : (rtpSeq (bareHeader ssrc (UInt16.ofNat i))).toNat = i % 65536 := by
    rw [rtpSeq_bareHeader, UInt16.toNat_ofNat']
  rw [hleft]
  cases high with
  | none =>
    simp only [mayFollow, decide_eq_true_eq] at h
    exact ⟨by rw [headerLen_bareHeader, hlen], rtpSsrc_bareHeader _ _, hseq, by omega,
      fun _ => h, fun k hk => (nomatch hk)⟩
  | some k =>
    simp only [mayFollow, Bool.and_eq_true, decide_eq_true_eq] at h
    exact ⟨by rw [headerLen_bareHeader, hlen], rtpSsrc_bareHeader _ _, hseq, h.1,
      fun hn => (nomatch hn), fun m hm => by cases hm; exact h.2⟩

theorem senderRun_bare {P : Option Nat → Nat → Prop} [∀ h i, Decidable (P h i)] (is : List Nat) :
    ∀ s : SenderState, SenderRun K ssrc P srtp₀ s.srtp s.high s.sent →
      allFollow K ssrc P s is = true →
      SenderRun K ssrc P srtp₀ (is.foldl (sendBare K ssrc) s).srtp
        (is.foldl (sendBare K ssrc) s).high (is.foldl (sendBare K ssrc) s).sent := by
  induction is with
  | nil => intro s hrun _; exact hrun
  | cons i is ih =>
    intro s hrun hall
    simp only [allFollow, Bool.and_eq_true, decide_eq_true_eq] at hall
    exact ih (sendBare K ssrc s i) (.packet hrun (sendable_bare ssrc hall.1.1) hall.1.2) hall.2

/-- The packets of a reference session, sent from the start. -/
def referenceSent (is : List Nat) : SenderState :=
  is.foldl (sendBare referenceCrypto 0x01020304) ⟨referenceSession, none, []⟩

/-- A run with a retransmission and a wrap, in which every packet is of the
latest roll-over. -/
theorem sender_index_exact_reference :
    Faithful 0x01020304 referenceSession.rtp.kS (referenceSent [5, 30000, 5, 62000, 65537]).srtp
      (some 65537) [⟨65537, 65537⟩, ⟨62000, 62000⟩, ⟨5, 5⟩, ⟨30000, 30000⟩, ⟨5, 5⟩] := by
  have hrun := senderRun_bare [5, 30000, 5, 62000, 65537] ⟨referenceSession, none, []⟩
    (.start : SenderRun referenceCrypto 0x01020304 NotEarlier referenceSession referenceSession none
      [])
    (by decide +kernel)
  exact (sender_index_exact unheard_referenceSession hrun).1

/-- Packet 65530 is sent again after the wrap and gets the IV of packet 131066. -/
theorem resent_packet_shares_iv :
    ¬ ∀ (K : Crypto) (ssrc : UInt32) (srtp₀ srtp : Srtp) (high : Option Nat)
        (sent : List SentPacket), Reachable K srtp₀ → Unheard srtp₀ ssrc →
        SenderRun K ssrc (fun _ _ => True) srtp₀ srtp high sent →
        Faithful ssrc srtp₀.rtp.kS srtp high sent := by
  intro hall
  have hrun := senderRun_bare [0, 32767, 65530, 65541, 65530, 98308, 131066]
    ⟨referenceSession, none, []⟩
    (.start : SenderRun referenceCrypto 0x01020304 (fun _ _ => True) referenceSession
      referenceSession none [])
    (by decide +kernel)
  have hfaithful := hall _ _ _ _ _ _ reachable_referenceSession unheard_referenceSession hrun
  have hresent : (⟨65530, 131066⟩ : SentPacket) ∈
      (referenceSent [0, 32767, 65530, 65541, 65530, 98308, 131066]).sent := by decide +kernel
  have hlater : (⟨131066, 131066⟩ : SentPacket) ∈
      (referenceSent [0, 32767, 65530, 65541, 65530, 98308, 131066]).sent := by decide +kernel
  exact hfaithful.ivCtr _ hresent _ hlater (by decide) rfl

end LibRe.SRTP
