/-
LibRe.Dns.TcpTheorems — the frames of a DNS connection, however it is cut.

One pass of the handler reads what `frameStep` reads from the bytes it still
keeps (`pending`) followed by the segment (`recvFrame_reads`); so the handler is
the receiver of `LibRe.Lib.Stream` for that reader (`tcpRecvHandler_feed`), and
the general result on segments applies.
-/
import LibRe.Dns.Tcp

namespace LibRe.Dns

open Bytes LibRe.Stream List Nat

variable {tc : TcpConn} {xs : Bytes} {evs : List Bytes}

variable {τ : Type} {recv : τ → Bytes → Option Errno × τ}

/-! ## What the handler keeps -/

/-- The bytes of the stream the handler has taken and not handed on. -/
def TcpConn.pending (tc : TcpConn) : Bytes :=
  if tc.flen = 0 then tc.mb.bytes else be16 tc.flen ++ tc.mb.bytes

/-- Between two segments: the buffer is written at its end, and it is not full. -/
structure TcpConn.Waiting (tc : TcpConn) : Prop where
  at_end : tc.mb.pos = tc.mb.end_
  room : tc.mb.end_ < if tc.flen = 0 then 2 else tc.flen.toNat

/-- The received bytes that `collect` moves to the end of the buffer. -/
theorem collect_moves {mb mbrx mb' mbrx' : Mbuf} {room : Nat} (h : mb.pos = mb.end_)
    (hc : collect mb mbrx room = (mb', mbrx')) :
    mb'.bytes = mb.bytes ++ mbrx.left.take (min room mbrx.left.length) ∧ mb'.pos = mb'.end_ ∧
      mb'.end_ = mb.end_ + min room mbrx.left.length ∧
      mbrx'.left = mbrx.left.drop (min room mbrx.left.length) := by
  have hlen : (mbrx.left.take (min room mbrx.left.length)).length = min room mbrx.left.length := by
    simp
  rw [collect, mbufGetLeft_eq] at hc
  injection hc with h1 h2
  subst h1 h2
  refine ⟨mbufWriteMem_bytes h _, ?_, ?_, mbufAdvance_left mbrx _⟩
  · rw [mbufWriteMem_end h, mbufWriteMem_pos, h]
  · rw [mbufWriteMem_end h, hlen]

/-! ## One frame -/

/-- A pass reads from `xs` what the reader of frames reads. -/
def Pass.Reads (recv : τ → Bytes → Option Errno × τ) (t : τ) (xs : Bytes) :
    Pass τ → Prop
  | .incomplete tc => frameStep recv t xs = .wait [] t ∧ tc.Waiting ∧ tc.pending = xs
  | .rejected msg => frameStep recv t xs = .stop [msg]
  | .accepted msg tc t' mbrx =>
    ∃ n, frameStep recv t xs = .take n [msg] t' ∧ tc.Waiting ∧ tc.pending = [] ∧
      mbrx.left = xs.drop n

/-- A frame whose content begins with `kept`, followed by `more`. -/
theorem complete_frame (flen : UInt16) (kept more : Bytes) :
    Complete (be16 flen ++ (kept ++ more)) ↔ flen.toNat ≤ kept.length + more.length := by
  rw [Complete, ofBe16_be16_append, length_append, length_append, length_be16]
  omega

theorem content_frame {flen : UInt16} {kept : Bytes} (hroom : kept.length ≤ flen.toNat)
    (more : Bytes) :
    content (be16 flen ++ (kept ++ more)) = kept ++ more.take (flen.toNat - kept.length) := by
  rw [content, ofBe16_be16_append]
  show (kept ++ more).take flen.toNat = _
  rw [take_append, take_of_length_le hroom]

theorem recvContent_reads (hend : tc.mb.pos = tc.mb.end_)
    (hroom : tc.mb.end_ ≤ tc.flen.toNat) (t : τ) (mbrx : Mbuf) :
    (recvContent recv tc t mbrx).Reads recv t (be16 tc.flen ++ (tc.mb.bytes ++ mbrx.left)) := by
  have hword : ofBe16 (be16 tc.flen ++ (tc.mb.bytes ++ mbrx.left)) = tc.flen :=
    ofBe16_be16_append _ _
  have hcomplete := complete_frame tc.flen tc.mb.bytes mbrx.left
  rw [length_bytes] at hcomplete
  rcases hcol : collect tc.mb mbrx (tc.flen.toNat - tc.mb.end_) with ⟨mb', mbrx'⟩
  obtain ⟨hbytes, hpos, hlen, hleft⟩ := collect_moves hend hcol
  simp only [recvContent, hcol]
  by_cases hfew : tc.mb.end_ + mbrx.left.length < tc.flen.toNat
  · -- the segment ends inside the content
    have hall : min (tc.flen.toNat - tc.mb.end_) mbrx.left.length = mbrx.left.length := by omega
    rw [hall, take_length] at hbytes
    have hne : ¬ tc.flen = 0 := by
      intro h0
      rw [h0] at hfew
      exact absurd hfew (not_lt_zero _)
    rw [if_pos (by omega)]
    refine ⟨?_, ⟨hpos, ?_⟩, ?_⟩
    · rw [frameStep, if_neg (by rw [hcomplete]; omega)]
    · simp [hne]
      omega
    · rw [TcpConn.pending, if_neg hne, hbytes]
  · have hfill : min (tc.flen.toNat - tc.mb.end_) mbrx.left.length =
        tc.flen.toNat - tc.mb.end_ := by
      omega
    rw [hfill] at hbytes hlen hleft
    have hmsg : (mbufSetPos mb' 0).left = content (be16 tc.flen ++ (tc.mb.bytes ++ mbrx.left)) := by
      simp [content_frame, left_eq, hroom, hbytes]
    have hrest : mbrx'.left = (be16 tc.flen ++ (tc.mb.bytes ++ mbrx.left)).drop
        (2 + tc.flen.toNat) := by
      have hkept : tc.mb.bytes.drop tc.flen.toNat = [] :=
        drop_eq_nil_of_le (by rw [length_bytes]; exact hroom)
      rw [← drop_drop]
      show mbrx'.left = (tc.mb.bytes ++ mbrx.left).drop tc.flen.toNat
      rw [drop_append, length_bytes, hkept, nil_append, hleft]
    rw [if_neg (by omega), hmsg]
    have hstep : frameStep recv t (be16 tc.flen ++ (tc.mb.bytes ++ mbrx.left)) = _ :=
      if_pos (hcomplete.mpr (by omega))
    rw [hword] at hstep
    cases hr : recv t (content (be16 tc.flen ++ (tc.mb.bytes ++ mbrx.left))) with
    | mk err t' =>
      rw [hr] at hstep
      cases err with
      | some e => exact hstep
      | none => exact ⟨_, hstep, ⟨rfl, zero_lt_two⟩, rfl, hrest⟩

theorem recvFrame_reads (h : tc.Waiting) (t : τ) (mbrx : Mbuf) :
    (recvFrame recv tc t mbrx).Reads recv t (tc.pending ++ mbrx.left) := by
  obtain ⟨hend, hroom⟩ := h
  by_cases h0 : tc.flen = 0
  · rw [if_pos h0] at hroom
    rcases hcol : collect tc.mb mbrx (2 - tc.mb.end_) with ⟨mb', mbrx'⟩
    obtain ⟨hbytes, hpos, hlen, hleft⟩ := collect_moves hend hcol
    simp only [recvFrame, hcol]
    rw [if_pos h0, TcpConn.pending, if_pos h0]
    by_cases hfew : tc.mb.end_ + mbrx.left.length < 2
    · -- the segment ends inside the length
      have hall : min (2 - tc.mb.end_) mbrx.left.length = mbrx.left.length := by omega
      rw [hall, take_length] at hbytes
      rw [if_pos (by omega)]
      refine ⟨?_, ⟨hpos, ?_⟩, ?_⟩
      · simp [Complete, frameStep]
        omega
      · simp [h0]
        omega
      · rw [TcpConn.pending, if_pos h0, hbytes]
    · rw [if_neg (by omega)]
      -- the two bytes are the length, and nothing of the content is there yet
      have htwo : mb'.bytes.length = 2 := by
        simp
        omega
      have hview : (mbufSetPos mb' 0).left = mb'.bytes := by
        rw [left_eq, mbufSetPos_bytes, mbufSetPos_pos, drop_zero]
      have hread : (mbufReadU16 (mbufSetPos mb' 0)).1 = ofBe16 mb'.bytes := by
        rw [mbufReadU16_ok (by rw [hview, htwo]), hview]
      have hsplit : tc.mb.bytes ++ mbrx.left = be16 (ofBe16 mb'.bytes) ++ ([] ++ mbrx'.left) := by
        rw [be16_ofBe16 htwo, hbytes, hleft, nil_append, append_assoc, take_append_drop]
      rw [hsplit, hread]
      exact recvContent_reads rfl (zero_le _) t _
  · rw [if_neg h0] at hroom
    rw [recvFrame, if_neg h0, TcpConn.pending, if_neg h0, append_assoc]
    exact recvContent_reads hend (le_of_lt hroom) t mbrx

/-! ## Segments -/

/-- A complete frame is the same frame when more bytes follow. -/
theorem Complete.append (h : Complete xs) (ys : Bytes) :
    Complete (xs ++ ys) ∧ ofBe16 (xs ++ ys) = ofBe16 xs ∧ content (xs ++ ys) = content xs := by
  have hword := ofBe16_append h.1 ys
  have hlen := h.2
  refine ⟨⟨?_, ?_⟩, hword, ?_⟩
  · simp
    omega
  · simp [hword]
    omega
  · rw [content, content, hword, drop_append_of_le_length h.1,
      take_append_of_le_length (by rw [length_drop]; omega)]

variable {t t' : τ} {n : Nat}

theorem frameStep_take
    (h : frameStep recv t xs = .take n evs t') : Complete xs ∧ n = 2 + (ofBe16 xs).toNat := by
  by_cases hc : Complete xs
  · rw [frameStep, if_pos hc] at h
    split at h
    · cases h
    · cases h
      exact ⟨hc, rfl⟩
  · simp_all [frameStep]

theorem frameStep_framed : Framed (frameStep recv) Complete where
  empty := by decide
  waits := fun t xs h => if_neg h
  reads := by
    grind [frameStep]
  append := fun t xs ys hc => by simp [Complete.append, frameStep, hc]
  bounds := by
    intro t xs n evs t' h
    obtain ⟨hc, rfl⟩ := frameStep_take h
    exact ⟨by omega, hc.2⟩

theorem frameStep_incremental : Incremental (frameStep recv) := frameStep_framed.incremental

/-- What is kept between two segments is not a whole frame. -/
theorem TcpConn.Waiting.incomplete (h : tc.Waiting) : ¬ Complete tc.pending := by
  have hroom := h.room
  by_cases h0 : tc.flen = 0
  · simp_all [pending, Complete]
  have hframe := complete_frame tc.flen tc.mb.bytes []
  rw [List.append_nil, length_bytes, length_nil, add_zero] at hframe
  rw [if_neg h0] at hroom
  rw [TcpConn.pending, if_neg h0, hframe]
  omega

/-- A frame that is complete now needs some of the bytes that have just arrived. -/
theorem length_pending_lt (hw : tc.Waiting) {ys : Bytes}
    (h : frameStep recv t (tc.pending ++ ys) = .take n evs t') :
    tc.pending.length < n := by
  obtain ⟨-, rfl⟩ := frameStep_take h
  by_contra hle
  have hword : ofBe16 (tc.pending ++ ys) = ofBe16 tc.pending := ofBe16_append (by omega) ys
  rw [hword] at hle
  exact hw.incomplete ⟨by omega, by omega⟩

/-- The passes over a segment are those of the receiver. -/
theorem tcpRecvLoop_drain (fuel : Nat) : ∀ (tc : TcpConn) (t : τ) (mbrx : Mbuf), tc.Waiting →
    mbrx.left.length < fuel →
    drainAll (frameStep recv) t (tc.pending ++ mbrx.left) = ((tcpRecvLoop recv fuel tc t mbrx).1,
          (tcpRecvLoop recv fuel tc t mbrx).2.map fun c => (c.2, c.1.pending)) ∧
      ∀ c ∈ (tcpRecvLoop recv fuel tc t mbrx).2, c.1.Waiting := by
  induction fuel with
  | zero =>
    omega
  | succ fuel ih =>
    intro tc t mbrx hw hfuel
    have hreads : (recvFrame recv tc t mbrx).Reads recv t (tc.pending ++ mbrx.left) :=
      recvFrame_reads hw t mbrx
    rw [tcpRecvLoop]
    cases hframe : recvFrame recv tc t mbrx with
    | incomplete tc' =>
      rw [hframe] at hreads
      obtain ⟨hstep, hw', hpending⟩ := hreads
      refine ⟨?_, ?_⟩
      · grind [drainAll_wait, frameStep_incremental]
      · simp [hw']
    | rejected msg =>
      rw [hframe] at hreads
      exact ⟨drainAll_stop frameStep_incremental hreads, nofun⟩
    | accepted msg tc' t' mbrx' =>
      rw [hframe] at hreads
      obtain ⟨n, hstep, hw', hpending, hleft⟩ := hreads
      have hlt := length_pending_lt hw hstep
      have hlen : mbrx'.left.length = tc.pending.length + mbrx.left.length - n := by
        rw [hleft, length_drop, length_append]
      rw [drainAll_take frameStep_incremental hstep, ← hleft]
      simp only [mbufGetLeft_eq]
      by_cases hmore : mbrx'.left.length > 0
      · obtain ⟨hrest, hw''⟩ := ih tc' t' mbrx' hw' (by omega)
        rw [hpending, nil_append] at hrest
        rw [if_pos hmore, hrest]
        exact ⟨rfl, hw''⟩
      · rw [if_neg hmore, eq_nil_of_length_eq_zero (Nat.eq_zero_of_not_pos hmore),
          drainAll_wait frameStep_incremental (frameStep_incremental.empty t')]
        refine ⟨?_, ?_⟩
        · show _ = ([msg], some (t', tc'.pending))
          rw [hpending]
          rfl
        · simp [hw']

theorem tcpRecvHandler_feed (hw : tc.Waiting) (t : τ) (seg : Bytes) :
    feed (frameStep recv) (some (t, tc.pending)) seg = ((tcpRecvHandler recv tc t seg).1,
          (tcpRecvHandler recv tc t seg).2.map fun c => (c.2, c.1.pending)) ∧
      ∀ c ∈ (tcpRecvHandler recv tc t seg).2, c.1.Waiting := by
  have hleft : (Mbuf.ofBytes seg 0).left = seg := by
    rw [left_eq, Mbuf.ofBytes_bytes]
    rfl
  have h : _ ∧ ∀ c ∈ (tcpRecvHandler recv tc t seg).2, c.1.Waiting :=
    tcpRecvLoop_drain (seg.length + 1) tc t (Mbuf.ofBytes seg 0) hw (by rw [hleft]; omega)
  rw [hleft] at h
  exact h

/-- The segments of a connection, as the receiver reads them. -/
theorem tcpRecvAll_feedAll (segs : List Bytes) :
    ∀ conn : Option (TcpConn × τ), (∀ c ∈ conn, c.1.Waiting) →
      (feedAll (frameStep recv) (conn.map fun c => (c.2, c.1.pending)) segs).1 =
        (tcpRecvAll recv conn segs).1 := by
  induction segs with
  | nil => intro conn _; rfl
  | cons seg segs ih =>
    intro conn hw
    cases conn with
    | none => rw [Option.map_none, feedAll_none, tcpRecvAll]
    | some c =>
      obtain ⟨tc, t⟩ := c
      obtain ⟨hfeed, hw'⟩ := tcpRecvHandler_feed (hw _ rfl) t seg
      have hrest := ih (tcpRecvHandler recv tc t seg).2 hw'
      rw [Option.map_some, feedAll, hfeed, tcpRecvAll]
      exact congrArg ((tcpRecvHandler recv tc t seg).1 ++ ·) hrest

/-- Read in one piece, the stream hands on its frames. -/
theorem drainAll_frames (xs : Bytes) (t : τ) :
    (drainAll (frameStep recv) t xs).1 = handed recv t (completeFrames xs) := by
  induction hlen : xs.length using Nat.strongRecOn generalizing xs t with
  | ind len ih =>
    rw [completeFrames]
    by_cases hc : Complete xs
    · have hstep : frameStep recv t xs = _ := if_pos hc
      rw [dif_pos hc, handed]
      cases hr : recv t (content xs) with
      | mk err t' =>
        rw [hr] at hstep
        cases err with
        | some e => rw [drainAll_stop frameStep_incremental hstep]
        | none =>
          have hlt : (xs.drop (2 + (ofBe16 xs).toNat)).length < len := by
            have h2 := hc.1
            rw [length_drop]
            omega
          rw [drainAll_take frameStep_incremental hstep]
          exact congrArg (content xs :: ·) (ih _ hlt _ t' rfl)
    · rw [dif_neg hc, drainAll_wait frameStep_incremental (if_neg hc)]
      rfl

/-- The handler over any cut of a stream, for any receiver of the messages. -/
theorem tcpRecvAll_frames (t : τ) (segs : List Bytes) :
    (tcpRecvAll recv (some (tcpconnAlloc, t)) segs).1 =
      handed recv t (completeFrames segs.flatten) := by
  have hstart : ∀ c ∈ some (tcpconnAlloc, t), c.1.Waiting := by
    rintro c ⟨⟩
    exact ⟨rfl, zero_lt_two⟩
  have hall : (feedAll (frameStep recv) (some (t, [])) segs).1 = _ :=
    tcpRecvAll_feedAll segs _ hstart
  have hcut : feedAll (frameStep recv) (some (t, [])) segs = _ :=
    frameStep_framed.feedAll_eq segs t
  rw [← hall, hcut, drainAll_frames]

/-- However a stream is cut into segments, `reply_recv` is handed its complete
frames in order, up to the first one it rejects. -/
theorem frames_handed_to_replyRecv (answer : τ → Dnsquery → Mbuf → Option Errno × τ) (t : τ)
    (segs : List Bytes) :
    (tcpRecvAll (replyRecv answer) (some (tcpconnAlloc, t)) segs).1 =
      handed (replyRecv answer) t (completeFrames segs.flatten) :=
  tcpRecvAll_frames t segs

/-- An empty message is no DNS message: the connection is closed, and the second
frame of the segment is not looked at. -/
theorem frames_behind_rejected :
    ¬ ∀ (answer : Unit → Dnsquery → Mbuf → Option Errno × Unit) (segs : List Bytes),
      (tcpRecvAll (replyRecv answer) (some (tcpconnAlloc, ())) segs).1 =
        completeFrames segs.flatten := by
  intro h
  have h1 := h (fun _ _ _ => (none, ())) [[0, 0, 0, 0]]
  have hframes : completeFrames [0, 0, 0, 0] = [[], []] := by
    rw [completeFrames, dif_pos (by decide), completeFrames, dif_pos (by decide), completeFrames,
      dif_neg (by decide)]
    rfl
  rw [tcpRecvAll_frames] at h1
  change handed _ () (completeFrames [0, 0, 0, 0]) = completeFrames [0, 0, 0, 0] at h1
  rw [hframes] at h1
  exact absurd h1 (by decide)

end LibRe.Dns
