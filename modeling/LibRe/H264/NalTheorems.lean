/-
LibRe.H264.NalTheorems — where the packets of `h264_packetize` lie.

The scanner, with its three loops, is a search for the first start code that has
a byte behind it, whatever the address of the buffer (`h264FindStartcodeInt_first`).
Behind a start code the size of the NAL unit is the distance to the next one less
the header byte. When the next start code follows at once there is no header
byte, and the size wraps around.
-/
import LibRe.H264.Nal
import LibRe.Lib.First

namespace LibRe.H264

open List Option Nat

variable {buf : Bytes} {base p q : Nat}

/-- A start code with a byte behind it. -/
def StartAt (buf : Bytes) (p : Nat) : Prop := p + 3 < buf.length ∧ startcodeAt buf p = true

theorem startcodeAt_iff : startcodeAt buf p = true ↔
    byteAt buf p = 0 ∧ byteAt buf (p + 1) = 0 ∧ byteAt buf (p + 2) = 1 := by
  simp only [startcodeAt, Bool.and_eq_true, beq_iff_eq, and_assoc]

/-! ## The scanner -/

/-- One test of the scanner, and the search behind it. -/
theorem first_test (hlt : p + 3 < buf.length) (h : First (StartAt buf) buf.length (p + 1) q) :
    First (StartAt buf) buf.length p (if startcodeAt buf p = true then p else q) := by
  split_ifs with hs
  · exact .here ⟨hlt, hs⟩ (by omega)
  · exact .step (fun h => hs h.2) h

theorem scanTail_first (n : Nat) : ∀ {p : Nat}, buf.length ≤ p + n → p ≤ buf.length →
    First (StartAt buf) buf.length p (scanTail buf n p) := by
  induction n with
  | zero => exact fun hn hp => .end_of_none hp fun k hk hs => by have := hs.1; omega
  | succ n ih =>
    intro p hn hp
    rw [scanTail]
    split
    · exact first_test ‹_› (ih (by omega) (by omega))
    · exact .end_of_none hp fun k hk hs => by have := hs.1; omega

/-- A bit that is set in three numbers is set in their conjunction. -/
theorem and_ne_zero_of_bit {a b c : Nat} (i : Nat) (ha : a / 2 ^ i % 2 = 1) (hb : b / 2 ^ i % 2 = 1)
    (hc : c / 2 ^ i % 2 = 1) : a &&& b &&& c ≠ 0 := by
  intro hzero
  have hbit : (a &&& b &&& c).testBit i = true := by
    rw [testBit_and, testBit_and, testBit_eq_decide_div_mod_eq,
      testBit_eq_decide_div_mod_eq, testBit_eq_decide_div_mod_eq, ha, hb, hc]
    rfl
  rw [hzero, zero_testBit] at hbit
  cases hbit

/-- The test of a word sees a zero byte: the lowest zero byte borrows, and has its
highest bit set after the subtraction. -/
theorem word_test_of_zero {j : Nat} (hj : j < 4) (h : byteAt buf (p + j) = 0) :
    ((wordAt buf p - 0x01010101) &&& ~~~wordAt buf p &&& 0x80808080 != 0) = true := by
  obtain ⟨b0, h0⟩ : ∃ b, (byteAt buf p).toNat = b := ⟨_, rfl⟩
  obtain ⟨b1, h1⟩ : ∃ b, (byteAt buf (p + 1)).toNat = b := ⟨_, rfl⟩
  obtain ⟨b2, h2⟩ : ∃ b, (byteAt buf (p + 2)).toNat = b := ⟨_, rfl⟩
  obtain ⟨b3, h3⟩ : ∃ b, (byteAt buf (p + 3)).toNat = b := ⟨_, rfl⟩
  have hlt0 : b0 < 256 := h0 ▸ (byteAt buf p).toNat_lt
  have hlt1 : b1 < 256 := h1 ▸ (byteAt buf (p + 1)).toNat_lt
  have hlt2 : b2 < 256 := h2 ▸ (byteAt buf (p + 2)).toNat_lt
  have hlt3 : b3 < 256 := h3 ▸ (byteAt buf (p + 3)).toNat_lt
  have hzero : b0 = 0 ∨ b1 = 0 ∨ b2 = 0 ∨ b3 = 0 := by
    interval_cases j
    · exact .inl (by rw [← h0, show byteAt buf p = 0 from h]; rfl)
    · exact .inr (.inl (by rw [← h1, h]; rfl))
    · exact .inr (.inr (.inl (by rw [← h2, h]; rfl)))
    · exact .inr (.inr (.inr (by rw [← h3, h]; rfl)))
  generalize hv : b0 + b1 * 2 ^ 8 + b2 * 2 ^ 16 + b3 * 2 ^ 24 = v
  have hvlt : v < 2 ^ 32 := by omega
  have hword : (wordAt buf p).toNat = v := by
    rw [wordAt, h0, h1, h2, h3, hv, UInt32.toNat_ofNat', mod_eq_of_lt hvlt]
  have hones : (0x01010101 : UInt32).toNat = 16843009 := rfl
  have hsize : UInt32.size = 4294967296 := rfl
  rw [bne_iff_ne, ne_eq, ← UInt32.toNat_inj, UInt32.toNat_and, UInt32.toNat_and, UInt32.toNat_sub,
    UInt32.toNat_not, hword, hones, hsize]
  by_cases hb0 : b0 = 0
  · exact and_ne_zero_of_bit 7 (by omega) (by omega) (by decide)
  by_cases hb1 : b1 = 0
  · exact and_ne_zero_of_bit 15 (by omega) (by omega) (by decide)
  · by_cases hb2 : b2 = 0
    · exact and_ne_zero_of_bit 23 (by omega) (by omega) (by decide)
    · exact and_ne_zero_of_bit 31 (by omega) (by omega) (by decide)

theorem scanWords_first (n : Nat) : ∀ {p : Nat}, p ≤ buf.length →
    First (StartAt buf) buf.length p (scanWords buf n p) := by
  induction n with
  | zero => exact fun hp => scanTail_first _ (by omega) hp
  | succ n ih =>
    intro p hp
    rw [scanWords]
    by_cases hlt : p + 6 < buf.length
    · rw [if_pos hlt]
      have hrest := ih (show p + 4 ≤ buf.length by omega)
      -- the conditions in the order of the source
      have hand0 : (byteAt buf (p + 1) == 0 && byteAt buf p == 0 && byteAt buf (p + 2) == 1)
          = startcodeAt buf p := by
        rw [startcodeAt, Bool.and_comm (byteAt buf (p + 1) == 0)]
      have hand2 : (byteAt buf (p + 3) == 0 && byteAt buf (p + 2) == 0 && byteAt buf (p + 4) == 1)
          = startcodeAt buf (p + 2) := by
        rw [startcodeAt, Bool.and_comm (byteAt buf (p + 3) == 0)]
      have hand1 : (byteAt buf (p + 1) == 0 && byteAt buf (p + 2) == 0 && byteAt buf (p + 3) == 1)
          = startcodeAt buf (p + 1) := rfl
      have hand3 : (byteAt buf (p + 3) == 0 && byteAt buf (p + 4) == 0 && byteAt buf (p + 5) == 1)
          = startcodeAt buf (p + 3) := rfl
      simp only [hand0, hand1, hand2, hand3]
      by_cases htest : ((wordAt buf p - 0x01010101) &&& ~~~wordAt buf p &&& 0x80808080 != 0) = true
      · rw [if_pos htest]
        exact first_test (by omega) (first_test (by omega) (first_test (by omega)
          (first_test (by omega) hrest)))
      rw [if_neg htest]
      have hnone : ∀ j < 4, ¬ StartAt buf (p + j) := fun j hj hs =>
        htest (word_test_of_zero hj (startcodeAt_iff.mp hs.2).1)
      exact .step (hnone 0 (by decide)) (.step (hnone 1 (by decide)) (.step (hnone 2 (by decide))
        (.step (hnone 3 (by decide)) hrest)))
    · simp [scanTail_first, hlt, hp]

theorem scanHead_first (n : Nat) : ∀ {p : Nat}, p ≤ buf.length →
    First (StartAt buf) buf.length p (scanHead buf n p) := by
  induction n with
  | zero => exact fun hp => scanWords_first _ hp
  | succ n ih =>
    intro p hp
    rw [scanHead]
    split
    · exact first_test ‹_› (ih (by omega))
    · exact scanWords_first _ hp

/-- The scanner finds the first start code, wherever the buffer lies. -/
theorem h264FindStartcodeInt_first (base : Nat) (hp : p ≤ buf.length) :
    First (StartAt buf) buf.length p (h264FindStartcodeInt base buf p) := scanHead_first _ hp

/-! ## NAL units -/

/-- A start code right behind another one, with the extra zero of a long start
code or without. -/
def Adjacent (buf : Bytes) (i : Nat) : Prop :=
  StartAt buf i ∧ (StartAt buf (i + 3) ∨ byteAt buf (i + 3) = 0 ∧ StartAt buf (i + 4))

/-- `h264_find_startcode` steps back over one zero. -/
theorem h264FindStartcode_cases (base : Nat) (hp : p ≤ buf.length) :
    ∃ q, First (StartAt buf) buf.length p q ∧
      h264FindStartcode base buf p = (if p < q ∧ q < buf.length ∧ byteAt buf (q - 1) =
        0 then q - 1 else q) :=
  ⟨_, h264FindStartcodeInt_first base hp, rfl⟩

theorem skipZeros_startcode (n : Nat) (hn : 3 ≤ n) (h : StartAt buf q) :
    skipZeros buf n q = some (q + 3) := by
  obtain ⟨h0, h1, h2⟩ := startcodeAt_iff.mp h.2
  obtain ⟨m, rfl⟩ : ∃ m, n = m + 3 := ⟨n - 3, by omega⟩
  have hone : ¬ byteAt buf (q + 1 + 1) = 0 := by
    simp [h2]
  rw [skipZeros, if_pos h0, skipZeros, if_pos h1, skipZeros, if_neg hone]

/-- The fragments of a NAL unit cover it, each with two bytes in front. -/
theorem fragmentLoop_covers {rtpTs : UInt64} {fuInd : UInt8} {sz : Nat} {last marker : Bool}
    (hsz : 1 ≤ sz) (n : Nat) : ∀ (fuHdr : UInt8) (off size : Nat), size < n →
    ∃ ps, fragmentLoop rtpTs fuInd sz last marker n fuHdr off size = some ps ∧
      (∀ p ∈ ps, p.off + p.size ≤ off + size ∧ p.hdr.length + p.size ≤ sz + 2) ∧
        ∃ p ∈ ps, p.off + p.size = off + size := by
  induction n with
  | zero => exact fun _ _ _ h => absurd h (not_lt_zero _)
  | succ n ih =>
    intro fuHdr off size hn
    rw [fragmentLoop]
    by_cases hmore : size > sz
    · obtain ⟨ps, hrun, hall, p, hp, hend⟩ := ih (fuHdr &&& ~~~((1 : UInt8) <<< (7 : UInt8)))
        (off + sz) (size - sz) (by omega)
      rw [if_pos hmore, hrun]
      refine ⟨_, rfl, ?_, p, mem_cons_of_mem _ hp, by omega⟩
      intro p hp
      rcases mem_cons.mp hp with rfl | hp
      · simp only [length_cons, length_nil]
        omega
      · have := hall p hp
        omega
    · simp [hmore]
      omega

theorem subSize_of_le {a b : Nat} (h : b ≤ a) (ha : a < 2 ^ 64) : subSize a b = a - b := by
  unfold subSize
  omega

/-- The packets of a NAL unit cover it, and keep to the packet size unless the unit goes into
one packet and has as many bytes behind its header. -/
theorem h264NalSend_covers {maxsz : Nat} (hmax : 3 ≤ maxsz) (hlt : maxsz < 2 ^ 64)
    (first last marker : Bool) (hdr : UInt8) (rtpTs : UInt64) (off size : Nat) :
    ∃ ps, h264NalSend first last marker hdr rtpTs off size maxsz = some ps ∧
      (∀ p ∈ ps, p.off + p.size ≤ off + size) ∧ (∃ p ∈ ps, p.off + p.size = off + size) ∧
      ((∀ p ∈ ps, p.hdr.length + p.size ≤ maxsz) ↔
        ¬ (first = true ∧ last = true ∧ size = maxsz)) := by
  have hsz : subSize maxsz 2 = maxsz - 2 := subSize_of_le (by omega) hlt
  rw [h264NalSend, hsz]
  by_cases hone : (first && last && decide (size ≤ maxsz)) = true
  · simp only [Bool.and_eq_true, decide_eq_true_eq] at hone
    simp [hone]
    omega
  rw [if_neg hone]
  obtain ⟨ps, hrun, hall, hend⟩ := fragmentLoop_covers (show 1 ≤ maxsz - 2 by omega) _ _ off size
    (lt_succ_self _)
  refine ⟨ps, hrun, fun p hp => (hall p hp).1, hend, iff_of_true (fun p hp => ?_) fun h =>
    hone (by simp [h])⟩
  have := (hall p hp).2
  omega

/-- Every packet has the packet size at most, unless `size <= maxsz`, which leaves out the
header byte, lets a unit through that is one byte too long. -/
theorem nal_packets_fit_iff {maxsz : Nat} (hmax : 3 ≤ maxsz) (hlt : maxsz < 2 ^ 64)
    (first last marker : Bool) (hdr : UInt8) (rtpTs : UInt64) (off size : Nat) :
    (∃ ps, h264NalSend first last marker hdr rtpTs off size maxsz = some ps ∧
        ∀ p ∈ ps, p.hdr.length + p.size ≤ maxsz) ↔
        ¬ (first = true ∧ last = true ∧ size = maxsz) := by
  obtain ⟨ps, hrun, -, -, hiff⟩ := h264NalSend_covers hmax hlt first last marker hdr rtpTs off size
  simp [hrun, hiff]

/-- Six bytes in packets of three. -/
theorem nal_packets_fit_six :
    ∃ ps, h264NalSend true true true 0x65 0 1 5 3 = some ps ∧ ∀ p ∈ ps, p.hdr.length + p.size ≤ 3 :=
  (nal_packets_fit_iff (by decide) (by decide) true true true 0x65 0 1 5).mpr (by decide)

/-- Four bytes in one packet. -/
theorem full_packet_too_long :
    ¬ ∀ (first last marker : Bool) (hdr : UInt8) (rtpTs : UInt64) (off size maxsz : Nat),
      3 ≤ maxsz → maxsz < 2 ^ 64 →
      ∃ ps, h264NalSend first last marker hdr rtpTs off size maxsz = some ps ∧ ∀ p ∈ ps,
      p.hdr.length + p.size ≤ maxsz := by
  intro hall
  obtain ⟨ps, hrun, hfit⟩ := hall true true true 0x65 0 1 3 3 (by decide) (by decide)
  cases hrun
  exact absurd (hfit _ mem_cons_self) (by decide)

/-- No start code begins inside another one. -/
theorem StartAt.not_inside (h : StartAt buf q) : ¬ StartAt buf (q + 1) ∧ ¬ StartAt buf (q + 2) := by
  obtain ⟨-, -, hone⟩ := startcodeAt_iff.mp h.2
  have hne : byteAt buf (q + 2) ≠ 0 := by
    rw [hone]
    decide
  exact ⟨fun h' => hne (startcodeAt_iff.mp h'.2).2.1, fun h' => hne (startcodeAt_iff.mp h'.2).1⟩

/-- Where the search behind a start code ends: at its end exactly when another
one is adjacent. -/
theorem find_behind (base : Nat) (h : StartAt buf q) :
    q + 3 ≤ h264FindStartcode base buf (q + 3) ∧ h264FindStartcode base buf (q + 3) ≤ buf.length ∧
      (h264FindStartcode base buf (q + 3) = q + 3 ↔ Adjacent buf q) := by
  have hlt := h.1
  obtain ⟨q', hfirst, hfind⟩ := h264FindStartcode_cases base (show q + 3 ≤ buf.length by omega)
  have hge := hfirst.ge
  have hle := hfirst.le
  rw [hfind]
  by_cases hback : q + 3 < q' ∧ q' < buf.length ∧ byteAt buf (q' - 1) = 0
  · rw [if_pos hback]
    refine ⟨by omega, by omega, fun heq => ?_, ?_⟩
    · obtain rfl : q' = q + 4 := by omega
      exact ⟨h, .inr ⟨hback.2.2, hfirst.found hback.2.1⟩⟩
    rintro ⟨-, hnext | ⟨-, hnext⟩⟩
    · exact absurd hnext (hfirst.none _ (le_refl _) hback.1)
    · by_cases hq : q + 4 < q'
      · exact absurd hnext (hfirst.none _ (by omega) hq)
      · omega
  · rw [if_neg hback]
    refine ⟨hge, hle, fun heq => ?_, ?_⟩
    · subst heq
      exact ⟨h, .inl (hfirst.found hlt)⟩
    rintro ⟨-, hnext | ⟨hzero, hnext⟩⟩
    · exact hfirst.unique (.here hnext (by omega))
    by_contra hne
    by_cases hq : q + 4 < q'
    · exact absurd hnext (hfirst.none _ (by omega) hq)
    · obtain rfl : q' = q + 4 := by omega
      exact hback ⟨by omega, by have := hnext.1; omega, hzero⟩

section

variable {pktsize : Nat} (base : Nat) (rtpTs : UInt64) (hlen : buf.length < 2 ^ 64)
  (hmax : 3 ≤ pktsize) (hpkt : pktsize < 2 ^ 64)
include hlen hmax hpkt

/-- One NAL unit: its packets lie in the buffer unless a start code is adjacent. -/
theorem nal_inside_iff (h : StartAt buf q) (marker : Bool) (hdr : UInt8) :
    ∃ ps, h264NalSend true true marker hdr rtpTs (q + 3 + 1)
        (subSize (h264FindStartcode base buf (q + 3)) (q + 3 + 1)) pktsize = some ps ∧
      ((∀ p ∈ ps, p.off + p.size ≤ buf.length) ↔ ¬ Adjacent buf q) := by
  obtain ⟨hge, hle, hiff⟩ := find_behind base h
  generalize h264FindStartcode base buf (q + 3) = r1 at hge hle hiff ⊢
  obtain ⟨ps, hrun, hall, ⟨p, hp, hend⟩, -⟩ :=
    h264NalSend_covers hmax hpkt true true marker hdr rtpTs (q + 3 + 1) (subSize r1 (q + 3 + 1))
  refine ⟨ps, hrun, ?_⟩
  rw [← hiff]
  constructor
  · intro hin heq
    have hout := hin p hp
    rw [hend, heq, subSize] at hout
    omega
  · intro hne p hp
    have hp' := hall p hp
    rw [subSize_of_le (by omega) (by omega)] at hp'
    omega

/-- One round, at the start code at `q` or at the zero in front of it. -/
theorem packetizeNal_inside_iff (h : StartAt buf q) {r : Nat}
    (hskip : skipZeros buf buf.length r = some (q + 3)) :
    ∃ ps, packetizeNal base rtpTs buf pktsize r = some (ps, h264FindStartcode base buf (q + 3)) ∧
      ((∀ p ∈ ps, p.off + p.size ≤ buf.length) ↔ ¬ Adjacent buf q) := by
  obtain ⟨ps, hsend, hin⟩ := nal_inside_iff base rtpTs hlen hmax hpkt h
    (decide (h264FindStartcode base buf (q + 3) ≥ buf.length)) (byteAt buf (q + 3))
  refine ⟨ps, ?_, hin⟩
  rw [packetizeNal, hskip, bind_some]
  exact congrArg (Option.map fun packets => (packets, h264FindStartcode base buf (q + 3))) hsend

/-- The loop, from the first start code behind `p` on. -/
theorem packetizeLoop_inside_iff (n : Nat) : ∀ {p : Nat}, p ≤ buf.length → buf.length < p + n →
    ∃ ps, packetizeLoop base rtpTs buf pktsize n (h264FindStartcode base buf p) = some ps ∧
      ((∀ x ∈ ps, x.off + x.size ≤ buf.length) ↔ ∀ i, p ≤ i → ¬ Adjacent buf i) := by
  induction n with
  | zero =>
    omega
  | succ n ih =>
    intro p hp hn
    obtain ⟨q, hfirst, hfind⟩ := h264FindStartcode_cases base hp
    have hge := hfirst.ge
    by_cases hend : q < buf.length
    · have hstart := hfirst.found hend
      have hlt := hstart.1
      have hskip : skipZeros buf buf.length (h264FindStartcode base buf p) = some (q + 3) := by
        rw [hfind]
        split
        · rename_i hback
          obtain ⟨m, hm⟩ : ∃ m, buf.length = m + 1 := ⟨buf.length - 1, by omega⟩
          rw [hm, skipZeros, if_pos hback.2.2, Nat.sub_add_cancel (by omega)]
          exact skipZeros_startcode m (by omega) hstart
        · exact skipZeros_startcode _ (by omega) hstart
      have hr : h264FindStartcode base buf p < buf.length := by
        grind
      obtain ⟨rest, hloop, hrest⟩ := ih (show q + 3 ≤ buf.length by omega) (by omega)
      obtain ⟨ps, hnal, hin⟩ := packetizeNal_inside_iff base rtpTs hlen hmax hpkt hstart hskip
      refine ⟨ps ++ rest, ?_, ?_⟩
      · simp [packetizeLoop, hr, hnal, hloop]
      rw [forall_mem_append, hin, hrest]
      constructor
      · rintro ⟨hq, hlater⟩ i hi hadj
        rcases lt_trichotomy i q with hlt' | rfl | hgt
        · exact hfirst.none i hi hlt' hadj.1
        · exact hq hadj
        by_cases hlater' : q + 3 ≤ i
        · exact hlater i hlater' hadj
        · obtain rfl | rfl : i = q + 1 ∨ i = q + 2 := by omega
          · exact hstart.not_inside.1 hadj.1
          · exact hstart.not_inside.2 hadj.1
      · exact fun hnone => ⟨hnone q hge, fun i hi => hnone i (by omega)⟩
    · obtain rfl : q = buf.length := le_antisymm hfirst.le (not_lt.mp hend)
      rw [hfind, if_neg (by omega), packetizeLoop, if_neg (lt_irrefl _)]
      refine ⟨[], rfl, fun _ i hi hadj => ?_, fun _ x hx => absurd hx not_mem_nil⟩
      have hi' := hadj.1.1
      exact hfirst.none i hi (by omega) hadj.1

end

/-- Every packet lies inside the buffer exactly when no start code follows
another one at once. -/
theorem packets_inside_iff {pktsize : Nat} (base : Nat) (rtpTs : UInt64)
    (hlen : buf.length < 2 ^ 64) (hmax : 3 ≤ pktsize) (hpkt : pktsize < 2 ^ 64) :
    (∃ ps, h264Packetize base rtpTs buf pktsize = some ps ∧
        ∀ p ∈ ps, p.off + p.size ≤ buf.length) ↔ ∀ i, ¬ Adjacent buf i := by
  obtain ⟨ps, hrun, hiff⟩ := packetizeLoop_inside_iff base rtpTs hlen hmax hpkt (buf.length + 1)
    (zero_le _) (by omega)
  rw [h264Packetize, hrun]
  constructor
  · rintro ⟨ps', hps, hin⟩ i
    obtain rfl := some.inj hps
    exact hiff.mp hin i (zero_le i)
  · exact fun hnone => ⟨ps, rfl, hiff.mpr fun i _ => hnone i⟩

instance (buf : Bytes) (i : Nat) : Decidable (StartAt buf i) :=
  inferInstanceAs (Decidable (_ ∧ _))

instance (buf : Bytes) (i : Nat) : Decidable (Adjacent buf i) :=
  inferInstanceAs (Decidable (_ ∧ _))

/-- Only the positions of the buffer matter. -/
theorem not_adjacent_of_all (h : ∀ i < buf.length, ¬ Adjacent buf i) (i : Nat) :
    ¬ Adjacent buf i := by
  intro hadj
  have hlt := hadj.1.1
  exact h i (by omega) hadj

/-- Two NAL units, the first behind a long start code, the second in fragments. -/
theorem packets_inside_two :
    ∃ ps, h264Packetize 0 0 [0, 0, 0, 1, 0x67, 0x42, 0, 0, 1, 0x65, 1, 2, 3, 4] 3 = some ps ∧
      ∀ p ∈ ps, p.off + p.size ≤ 14 :=
  (packets_inside_iff 0 0 (by decide) (by decide) (by decide)).mpr (not_adjacent_of_all (by decide))

/-- An empty NAL unit gives `r1 - r - 1 = SIZE_MAX`. -/
theorem adjacent_startcodes_escape :
    ¬ ∀ (base : Nat) (rtpTs : UInt64) (buf : Bytes) (pktsize : Nat), (∃ i, StartAt buf i) →
      buf.length < 2 ^ 64 → 3 ≤ pktsize → pktsize < 2 ^ 64 →
      ∃ ps, h264Packetize base rtpTs buf pktsize = some ps ∧ ∀ p ∈ ps,
      p.off + p.size ≤ buf.length := by
  intro hall
  obtain ⟨ps, hrun, hin⟩ := hall 0 0 [0, 0, 1, 0, 0, 1, 0x65] 1200 ⟨0, by decide⟩ (by decide)
    (by decide) (by decide)
  obtain ⟨ps', hrun', hiff⟩ := @packetizeLoop_inside_iff [0, 0, 1, 0, 0, 1, 0x65] 1200 0 0
    (by decide) (by decide) (by decide) 8 0 (by decide) (by decide)
  obtain rfl : ps = ps' := some.inj (hrun.symm.trans hrun')
  exact hiff.mp hin 0 (le_refl 0) (by decide)

end LibRe.H264
