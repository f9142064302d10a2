/-
LibRe.Rtp.Source — the statistics of a source of RTP packets (`src/rtp/source.c`,
`rtcp_sess_rx_rtp` of `src/rtp/sess.c`).

A packet has the low 16 bits of its sequence number. The source keeps the highest
one it has seen and counts the cycles of 65536; `Tracks` says that the two are the
32 low bits of the highest true number, and `Tracks.step` that a packet that is at
most 99 behind or 2999 ahead of it keeps this. `Int` is used for the true numbers, as
a packet may be behind the first one.

Translation notes. `int` is `Int32`, and a conversion between `int` and `uint32_t`
keeps the 32 bits. The arrival time is an input, and none when the session has no
clock rate. The member of the session the source belongs to is looked up before; only
its source is modelled.
-/
import Mathlib.Data.UInt
import Mathlib.Tactic

namespace LibRe.Rtp

open List

/-- `struct rtp_source`, what the receiver of RTP packets uses of it. -/
structure RtpSource where
  maxSeq : UInt16
  cycles : UInt32
  baseSeq : UInt32
  badSeq : UInt32
  probation : UInt32
  received : UInt32
  expectedPrior : UInt32
  receivedPrior : UInt32
  transit : Int32
  jitter : UInt32
  rtpRxBytes : Nat
  lastRtpTs : UInt32
  deriving DecidableEq, Repr

/-- The source as `mem_zalloc` hands it out. -/
def RtpSource.zero : RtpSource :=
  { maxSeq := 0, cycles := 0, baseSeq := 0, badSeq := 0, probation := 0, received := 0
    expectedPrior := 0, receivedPrior := 0, transit := 0, jitter := 0, rtpRxBytes :=
      0, lastRtpTs := 0 }

/-- `RTP_SEQ_MOD` -/
def rtpSeqMod : Nat := 65536

/-- `rtp_source_init_seq` -/
def rtpSourceInitSeq (s : RtpSource) (seq : UInt16) : RtpSource :=
  { s with
    baseSeq := seq.toUInt32, maxSeq := seq, badSeq := UInt32.ofNat (rtpSeqMod + 1), cycles := 0
    received := 0, receivedPrior := 0, expectedPrior := 0 }

/-- `rtp_source_init_seq(s, seq)` with `s->received++` -/
def restartSeq (s : RtpSource) (seq : UInt16) : RtpSource :=
  let s := rtpSourceInitSeq s seq
  { s with received := s.received + 1 }

def maxDropout : Nat := 3000

def maxMisorder : Nat := 100

def minSequential : UInt32 := 2

/-- `rtp_source_update_seq` -/
def rtpSourceUpdateSeq (s : RtpSource) (seq : UInt16) : Bool × RtpSource :=
  if s.probation ≠ 0 then
    if seq.toNat = s.maxSeq.toNat + 1 then
      if s.probation - 1 = 0 then
        (true, restartSeq { s with probation := s.probation - 1, maxSeq := seq } seq)
      else (false, { s with probation := s.probation - 1, maxSeq := seq })
    else (false, { s with probation := minSequential - 1, maxSeq := seq })
  else if (seq - s.maxSeq).toNat < maxDropout then
    (true, { s with
      cycles := if seq < s.maxSeq then s.cycles + UInt32.ofNat rtpSeqMod else s.cycles
      maxSeq := seq, received := s.received + 1 })
  else if (seq - s.maxSeq).toNat ≤ rtpSeqMod - maxMisorder then
    if seq.toUInt32 = s.badSeq then (true, restartSeq s seq)
    else (false, { s with badSeq := UInt32.ofNat ((seq.toNat + 1) % rtpSeqMod) })
  else (true, { s with received := s.received + 1 })

/-- `rtp_source_calc_jitter` -/
def rtpSourceCalcJitter (s : RtpSource) (rtpTs arrival : UInt32) : RtpSource :=
  let transit := (arrival - rtpTs).toInt32
  let d := transit - s.transit
  if s.transit = 0 then { s with transit }
  else
    let d := if d < 0 then -d else d
    { s with transit, jitter := s.jitter + (d.toUInt32 - ((s.jitter + 8) >>> 4)) }

/-- `rtp_source_calc_lost` -/
def rtpSourceCalcLost (s : RtpSource) : Int :=
  let extendedMax : Int32 := (s.cycles + s.maxSeq.toUInt32).toInt32
  let expected : Int32 := (extendedMax.toUInt32 - s.baseSeq + 1).toInt32
  let lost : Int := (expected.toUInt32 - s.received).toInt32.toInt
  if lost > 0x7fffff then 0x7fffff
  else if lost < -0x7fffff then -0x7fffff
  else lost

/-- A packet, as `rtcp_sess_rx_rtp` sees it. -/
structure RtpArrival where
  seq : UInt16
  ts : UInt32
  arrive : Option UInt32
  payloadSize : Nat
  deriving DecidableEq, Repr

/-- `rtcp_sess_rx_rtp`, from the source of the member on; the first packet creates it.
The answer of `rtp_source_update_seq` says whether the packet was accepted. -/
def rtcpSessRxRtp (src : Option RtpSource) (pkt : RtpArrival) : Bool × RtpSource :=
  let s := src.getD (rtpSourceInitSeq RtpSource.zero pkt.seq)
  let (accepted, s) := rtpSourceUpdateSeq s pkt.seq
  let s :=
    match pkt.arrive with
    | some arrive => if pkt.ts ≠ s.lastRtpTs then rtpSourceCalcJitter s pkt.ts arrive else s
    | none => s
  (accepted, { s with lastRtpTs := pkt.ts, rtpRxBytes := s.rtpRxBytes + pkt.payloadSize })

/-- Packets one after the other: which of them were accepted, and the source. -/
def rxAll : RtpSource → List RtpArrival → List Bool × RtpSource
  | s, [] => ([], s)
  | s, pkt :: pkts =>
    let (accepted, s) := rtcpSessRxRtp (some s) pkt
    let (flags, s) := rxAll s pkts
    (accepted :: flags, s)

/-! ## The fields for the sequence numbers -/

/-- What the jitter and the other statistics leave alone. -/
theorem rtcpSessRxRtp_seq (src : Option RtpSource) (pkt : RtpArrival) :
    let u := rtpSourceUpdateSeq (src.getD (rtpSourceInitSeq RtpSource.zero pkt.seq)) pkt.seq
    let r := rtcpSessRxRtp src pkt
    r.1 = u.1 ∧ r.2.probation = u.2.probation ∧ r.2.maxSeq = u.2.maxSeq ∧ r.2.cycles = u.2.cycles ∧
      r.2.baseSeq = u.2.baseSeq ∧ r.2.received = u.2.received := by
  have hjitter : ∀ (s : RtpSource) (ts arrive : UInt32),
      (rtpSourceCalcJitter s ts arrive).probation = s.probation ∧
      (rtpSourceCalcJitter s ts arrive).maxSeq = s.maxSeq ∧
      (rtpSourceCalcJitter s ts arrive).cycles = s.cycles ∧
      (rtpSourceCalcJitter s ts arrive).baseSeq = s.baseSeq ∧
      (rtpSourceCalcJitter s ts arrive).received = s.received := by
    grind [rtpSourceCalcJitter]
  rw [rtcpSessRxRtp]
  simp only
  split
  · grind
  · exact ⟨trivial, rfl, rfl, rfl, rfl, rfl⟩

/-- The source has seen `n` packets since it became valid with the packet `base`, and
the highest of their numbers is `high`. -/
structure Tracks (base high : Int) (n : Nat) (s : RtpSource) : Prop where
  valid : s.probation = 0
  high_nonneg : 0 ≤ high
  seq : (s.maxSeq.toNat : Int) = high % 65536
  cycle : (s.cycles.toNat : Int) = high / 65536 * 65536 % 4294967296
  first : (s.baseSeq.toNat : Int) = base
  count : s.received.toNat = n % 4294967296

/-- A packet with its true number, of which it has the low 16 bits. -/
structure Numbered where
  number : Int
  pkt : RtpArrival
  seq_eq : (pkt.seq.toNat : Int) = number % 65536

section Step

variable {base high : Int} {n : Nat} {s : RtpSource}

theorem count_succ (h : s.received.toNat = n % 4294967296) :
    (s.received + 1).toNat = (n + 1) % 4294967296 := by
  simp [h]

variable {seq : UInt16} {number : Int}

/-- The distance of a packet from the highest one, as the source computes it. -/
theorem udelta_eq (hmax : (s.maxSeq.toNat : Int) = high % 65536)
    (hseq : (seq.toNat : Int) = number % 65536) :
    ((seq - s.maxSeq).toNat : Int) = (number - high) % 65536 := by
  rw [UInt16.toNat_sub]
  omega

/-- A packet near the highest one is accepted, and the source is right about it. -/
theorem Tracks.update (h : Tracks base high n s)
    (hseq : (seq.toNat : Int) = number % 65536) (hbehind : high - 99 ≤ number)
    (hahead : number ≤ high + 2999) :
    (rtpSourceUpdateSeq s seq).1 = true ∧
      Tracks base (max high number) (n + 1) (rtpSourceUpdateSeq s seq).2 := by
  obtain ⟨hvalid, hnonneg, hmax, hcycle, hfirst, hcount⟩ := h
  have hdelta := udelta_eq hmax hseq
  rw [rtpSourceUpdateSeq, if_neg (not_not_intro hvalid), maxDropout, maxMisorder, rtpSeqMod]
  rcases le_or_gt high number with hge | hless
  · -- in order, with a gap: the number is the new highest one
    have hgap : (seq - s.maxSeq).toNat < 3000 := by omega
    rw [if_pos hgap, max_eq_right hge]
    refine ⟨rfl, hvalid, by omega, hseq, ?_, hfirst, count_succ hcount⟩
    by_cases hwrap : seq < s.maxSeq
    · have hnat : seq.toNat < s.maxSeq.toNat := hwrap
      simp only [if_pos hwrap, UInt32.toNat_add]
      change (((s.cycles.toNat + 65536) % 4294967296 : Nat) : Int) = _
      omega
    · have hnat : s.maxSeq.toNat ≤ seq.toNat := Nat.le_of_not_lt hwrap
      simp only [if_neg hwrap]
      omega
  · -- a duplicate or a packet that is late
    have hlate : ¬ (seq - s.maxSeq).toNat < 3000 := by omega
    have hnear : ¬ (seq - s.maxSeq).toNat ≤ 65536 - 100 := by omega
    rw [if_neg hlate, if_neg hnear, max_eq_left hless.le]
    exact ⟨rfl, hvalid, hnonneg, hmax, hcycle, hfirst, count_succ hcount⟩

/-- Only `rtp_source_update_seq` counts. -/
theorem Tracks.rx {src : Option RtpSource} {pkt : RtpArrival}
    (h : Tracks base high n (rtpSourceUpdateSeq (src.getD (rtpSourceInitSeq RtpSource.zero pkt.seq))
      pkt.seq).2) :
    Tracks base high n (rtcpSessRxRtp src pkt).2 := by
  obtain ⟨-, hprob, hmax, hcycles, hbase, hrecv⟩ := rtcpSessRxRtp_seq src pkt
  exact ⟨hprob ▸ h.valid, h.high_nonneg, hmax ▸ h.seq, hcycles ▸ h.cycle, hbase ▸ h.first,
    hrecv ▸ h.count⟩

theorem Tracks.step (h : Tracks base high n s) (p : Numbered) (hbehind : high - 99 ≤ p.number)
    (hahead : p.number ≤ high + 2999) :
    (rtcpSessRxRtp (some s) p.pkt).1 = true ∧
      Tracks base (max high p.number) (n + 1) (rtcpSessRxRtp (some s) p.pkt).2 := by
  obtain ⟨htrue, hnext⟩ := h.update p.seq_eq hbehind hahead
  exact ⟨(rtcpSessRxRtp_seq (some s) p.pkt).1.trans htrue, hnext.rx⟩

end Step

/-! ## The first packet -/

/-- No packet has been accepted yet: there is no source, or it is in probation. -/
def Unvalidated : Option RtpSource → Prop
  | none => True
  | some s => s.probation ≠ 0

/-- The packet that ends the probation is the first one that counts. -/
theorem tracks_first {src : Option RtpSource} (hsrc : Unvalidated src) (p : Numbered)
    (hcycle : 0 ≤ p.number ∧ p.number < 65536)
    (hvalid : (rtcpSessRxRtp src p.pkt).2.probation = 0) :
    (rtcpSessRxRtp src p.pkt).1 = true ∧
      Tracks p.number p.number 1 (rtcpSessRxRtp src p.pkt).2 := by
  obtain ⟨hflag, hprob, -⟩ := rtcpSessRxRtp_seq src p.pkt
  rw [hprob] at hvalid
  have hseq := p.seq_eq
  have hinit : ∀ s : RtpSource, s.probation = 0 →
      Tracks p.number p.number 0 (rtpSourceInitSeq s p.pkt.seq) := by
    intro s hs
    refine ⟨hs, hcycle.1, hseq, ?_, ?_, rfl⟩
    · change (0 : Int) = _
      omega
    · change ((p.pkt.seq.toUInt32.toNat : Nat) : Int) = _
      rw [UInt16.toNat_toUInt32]
      omega
  suffices hupdate : (rtpSourceUpdateSeq (src.getD (rtpSourceInitSeq RtpSource.zero p.pkt.seq))
        p.pkt.seq).1 = true ∧
      Tracks p.number p.number 1
        (rtpSourceUpdateSeq (src.getD (rtpSourceInitSeq RtpSource.zero p.pkt.seq)) p.pkt.seq).2 from
    ⟨hflag.trans hupdate.1, hupdate.2.rx⟩
  cases src with
  | none =>
    -- the source is made for this packet, without a probation
    have hupdate := (hinit RtpSource.zero rfl).update hseq (by omega) (by omega)
    rwa [max_self] at hupdate
  | some s =>
    have hprob : s.probation ≠ 0 := hsrc
    rw [Option.getD_some, rtpSourceUpdateSeq, if_pos hprob] at hvalid ⊢
    by_cases hnext : p.pkt.seq.toNat = s.maxSeq.toNat + 1
    · rw [if_pos hnext] at hvalid ⊢
      by_cases hlast : s.probation - 1 = 0
      · rw [if_pos hlast]
        have hs := hinit { s with probation := s.probation - 1, maxSeq := p.pkt.seq } hlast
        exact ⟨rfl, hs.valid, hs.high_nonneg, hs.seq, hs.cycle, hs.first, rfl⟩
      · simp_all
    · simp_all [minSequential]

/-! ## Runs -/

/-- Every number is at most 99 behind and 2999 ahead of the highest one so far. -/
def InWindow : Int → List Int → Prop
  | _, [] => True
  | high, number :: numbers =>
    high - 99 ≤ number ∧ number ≤ high + 2999 ∧ InWindow (max high number) numbers

variable {base : Int}

theorem Tracks.run (ps : List Numbered) :
    ∀ {high : Int} {n : Nat} {s : RtpSource}, Tracks base high n s →
      InWindow high (ps.map Numbered.number) →
      (rxAll s (ps.map Numbered.pkt)).1.count true = ps.length ∧
        Tracks base ((ps.map Numbered.number).foldl max high) (n + ps.length)
          (rxAll s (ps.map Numbered.pkt)).2 := by
  induction ps with
  | nil =>
    intro high n s h _
    exact ⟨rfl, h⟩
  | cons p ps ih =>
    intro high n s h hwin
    obtain ⟨hbehind, hahead, hrest⟩ := hwin
    obtain ⟨hflag, hnext⟩ := h.step p hbehind hahead
    obtain ⟨hcount, htracks⟩ := ih hnext hrest
    rw [map_cons, map_cons, rxAll, foldl_cons, length_cons]
    refine ⟨?_, ?_⟩
    · simp only [hflag, count_cons_self, hcount]
    · grind

/-- `int` from `uint32_t` -/
theorem toInt_toInt32 (v : UInt32) : v.toInt32.toInt = Int.bmod v.toNat 4294967296 :=
  BitVec.toInt_eq_toNat_bmod _

/-- The packets that are lost, in 32 bits and between the limits. -/
theorem Tracks.calcLost {high : Int} {n : Nat} {s : RtpSource} (h : Tracks base high n s) :
    rtpSourceCalcLost s =
      max (-0x7fffff) (min 0x7fffff (Int.bmod (high - base + 1 - n) 4294967296)) := by
  obtain ⟨-, hnonneg, hmax, hcycle, hfirst, hcount⟩ := h
  have hlost : ((s.cycles + s.maxSeq.toUInt32).toInt32.toUInt32 - s.baseSeq + 1).toInt32.toUInt32
      - s.received = s.cycles + s.maxSeq.toUInt32 - s.baseSeq + 1 - s.received := rfl
  have hbits : Int.bmod ((s.cycles + s.maxSeq.toUInt32 - s.baseSeq + 1 - s.received).toNat : Int)
      4294967296 = Int.bmod (high - base + 1 - n) 4294967296 := by
    have hnat : ((s.cycles + s.maxSeq.toUInt32 - s.baseSeq + 1 - s.received).toNat : Int) =
        (high - base + 1 - n) % 4294967296 := by
      simp only [UInt32.toNat_sub, UInt32.toNat_add, UInt16.toNat_toUInt32, UInt32.toNat_one]
      have hb := s.baseSeq.toNat_lt
      omega
    rw [hnat]
    exact Int.emod_bmod _ _
  rw [rtpSourceCalcLost]
  simp only [hlost, toInt_toInt32, hbits]
  split
  · omega
  · split <;> omega

/-- The packets of a source from the one that ends its probation on, in any order and
with duplicates and losses, each at most 99 behind and 2999 ahead of the highest one
so far: `cycles + max_seq` is the highest number, `received` the number of packets that
were accepted, both in 32 bits, and the packets that are lost are those that were
expected less those that were received. -/
theorem source_tracks_highest (src : Option RtpSource) (hsrc : Unvalidated src) (first : Numbered)
    (hcycle : 0 ≤ first.number ∧ first.number < 65536)
    (hvalid : (rtcpSessRxRtp src first.pkt).2.probation = 0) (ps : List Numbered)
    (hwin : InWindow first.number (ps.map Numbered.number)) :
    let r := rxAll (rtcpSessRxRtp src first.pkt).2 (ps.map Numbered.pkt)
    let accepted := ((rtcpSessRxRtp src first.pkt).1 :: r.1).count true
    let highest := (ps.map Numbered.number).foldl max first.number
    (r.2.cycles.toNat + r.2.maxSeq.toNat : Int) = highest % 2 ^ 32 ∧
      r.2.received.toNat = accepted % 2 ^ 32 ∧
      rtpSourceCalcLost r.2 =
        max (-0x7fffff) (min 0x7fffff (Int.bmod (highest - first.number + 1 - accepted)
          (2 ^ 32))) := by
  obtain ⟨hflag, hfirst⟩ := tracks_first hsrc first hcycle hvalid
  obtain ⟨hcount, htracks⟩ := hfirst.run ps hwin
  have haccepted : ((rtcpSessRxRtp src first.pkt).1 ::
      (rxAll (rtcpSessRxRtp src first.pkt).2 (ps.map Numbered.pkt)).1).count true =
        1 + ps.length := by
    rw [hflag, count_cons_self, hcount, add_comm]
  simp only [haccepted]
  refine ⟨?_, htracks.count, htracks.calcLost⟩
  have hseq := htracks.seq
  have hcyc := htracks.cycle
  omega

/-- A packet with a number, and nothing else in it. -/
def numbered (number : Int) : Numbered where
  number := number
  pkt := { seq := UInt16.ofNat (number % 65536).toNat, ts := 0, arrive := none, payloadSize := 0 }
  seq_eq := by
    rw [UInt16.toNat_ofNat']
    omega

/-- A packet is lost where the sequence numbers wrap around, and one comes late. -/
theorem source_tracks_highest_wrap :
    let r := rxAll (rtcpSessRxRtp none (numbered 65535).pkt).2
      ([numbered 65537, numbered 65534].map Numbered.pkt)
    (r.2.cycles.toNat + r.2.maxSeq.toNat : Int) = 65537 ∧ r.2.received.toNat = 3 ∧
      rtpSourceCalcLost r.2 = 0 := by
  have h := source_tracks_highest none trivial (numbered 65535) (by decide) (by decide)
    [numbered 65537, numbered 65534] (by simp [InWindow, numbered])
  exact ⟨h.1, h.2.1.trans (by decide), h.2.2.trans (by decide)⟩

theorem duplicates (n : Nat) :
    InWindow 0 (replicate n 0) ∧ (replicate n (0 : Int)).foldl max 0 = 0 := by
  induction n with
  | zero => exact ⟨trivial, rfl⟩
  | succ n ih =>
    exact ⟨⟨by decide, by decide, ih.1⟩, ih.2⟩

/-- The loss has 24 bits with a sign. The lower limit of the code is not the lowest
number of this kind: with 8388610 packets of the same number the loss is -8388607. -/
theorem lost_limit_symmetric :
    ¬ ∀ (src : Option RtpSource) (first : Numbered) (ps : List Numbered), Unvalidated src →
      0 ≤ first.number ∧ first.number < 65536 → (rtcpSessRxRtp src first.pkt).2.probation = 0 →
      InWindow first.number (ps.map Numbered.number) →
      let r := rxAll (rtcpSessRxRtp src first.pkt).2 (ps.map Numbered.pkt)
      let accepted := ((rtcpSessRxRtp src first.pkt).1 :: r.1).count true
      let highest := (ps.map Numbered.number).foldl max first.number
      (r.2.cycles.toNat + r.2.maxSeq.toNat : Int) = highest ∧ r.2.received.toNat = accepted ∧
        rtpSourceCalcLost r.2 =
          max (-0x800000) (min 0x7fffff (highest - first.number + 1 - accepted)) := by
  intro h
  have hmap : (replicate 8388609 (numbered 0)).map Numbered.number = replicate 8388609 0 :=
    map_replicate
  obtain ⟨hwin, hmax⟩ := duplicates 8388609
  have hclaim := h none (numbered 0) (replicate 8388609 (numbered 0)) trivial (by decide)
    (by decide) (by rw [hmap]; exact hwin)
  have hnone : Unvalidated none := trivial
  obtain ⟨hflag, hfirst⟩ := tracks_first hnone (numbered 0) (by decide) (by decide)
  obtain ⟨hcount, htracks⟩ := hfirst.run (replicate 8388609 (numbered 0)) (by rw [hmap]; exact hwin)
  have hlost := htracks.calcLost
  rw [hmap, show (numbered 0).number = 0 from rfl, hmax, length_replicate] at hlost
  rw [length_replicate] at hcount
  obtain ⟨-, -, hwrong⟩ := hclaim
  rw [hlost, hmap, show (numbered 0).number = 0 from rfl, hmax, hflag, count_cons_self,
    hcount] at hwrong
  exact absurd hwrong (by decide)

end LibRe.Rtp
