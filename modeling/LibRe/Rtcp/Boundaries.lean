/-
LibRe.Rtcp.Boundaries — the packets of an RTCP buffer.

Nothing makes the fields of a packet agree with its length field. `decode_keeps_to_packet_iff`
says that `rtcp_decode` ends at the boundary and has read nothing behind it exactly if they
agree (`FieldsFill`), and that `rtcp_recv_handler` then goes from boundary to boundary.
`unknown_feedback_not_skipped` is a packet where they do not: the control information of
a feedback format that is not known is left to be read as the next packet.
-/
import LibRe.Rtcp.Sizes

namespace LibRe.Rtcp

open Bytes Reader Read List

/-! ## The deltas of a transport-wide feedback message -/

/-- Where the deltas of a feedback message end behind the header; zero for other packets. -/
def deltasEnd (hdr : RtcpHdr) (body : Bytes) : Nat :=
  if rtcpType hdr.pt = some .RTPFB ∧ hdr.count = rtpfbTwcc then
    let info := twccInfo ((body.drop 8).take 8)
    let asks := twccAsks (body.drop 16).length info.count.toNat (body.drop 16)
    16 + asks.1 + asks.2
  else 0

def Fci.deltas : Fci → Option Ref
  | .twccv v => some v.deltas
  | _ => none

def Body.deltas : Body → Option Ref
  | .fb _ _ _ fci => fci.deltas
  | _ => none

/-- The bytes that a message refers to, in the buffer it was decoded from. -/
def RtcpMsg.deltas (msg : RtcpMsg) (xs : Bytes) : Bytes :=
  match msg.body.deltas with
  | some ref => (xs.drop (xs.length - ref.left)).take ref.size
  | none => []

theorem gives_rtcpPsfbDecode (hdr : RtcpHdr) (n : Nat) :
    Gives (rtcpPsfbDecode hdr n) fun v => v.2.deltas = none := by
  unfold rtcpPsfbDecode
  split
  · exact gives_give rfl
  split
  · exact Gives.need (gives_andThen fun v => gives_give (by rfl)) _ _
  split
  · exact gives_andThen fun v => gives_give rfl
  split
  · exact Gives.need (gives_andThen fun v => gives_give (by rfl)) _ _
  · exact gives_give rfl

theorem gives_xrDecode : Gives xrDecode fun body => body.deltas = none := by
  refine gives_andThen fun ssrc => gives_andThen fun bt => gives_andThen fun _ =>
    gives_andThen fun blockLen => ?_
  split
  · split
    · exact gives_fail _ _
    · exact gives_andThen fun msw => gives_andThen fun lsw => gives_give rfl
  split
  · split
    · exact gives_fail _ _
    · exact gives_andThen fun src => gives_andThen fun lrr => gives_andThen fun dlrr =>
        gives_give rfl
  · exact gives_give rfl

theorem gives_byeDecode (count rem : Nat) :
    Gives (byeDecode count rem) fun body => body.deltas = none := by
  refine (gives_andThen fun srcv => ?_).need _ _
  split
  · exact gives_andThen fun len => gives_andThen fun reason => gives_give rfl
  · exact gives_give rfl

theorem gives_appDecode (rem : Nat) : Gives (appDecode rem) fun body => body.deltas = none := by
  refine gives_andThen fun src => ?_
  simp only
  split
  · exact gives_andThen fun data => gives_give rfl
  · exact gives_give rfl

/-- No other packet refers to bytes of the buffer. -/
theorem gives_bodyDecode (hdr : RtcpHdr)
    (h : ¬ (rtcpType hdr.pt = some .RTPFB ∧ hdr.count = rtpfbTwcc)) :
    Gives (bodyDecode hdr) fun body => body.deltas = none := by
  unfold bodyDecode
  cases hpt : rtcpType hdr.pt with
  | none => exact gives_andThen fun _ => gives_give rfl
  | some type =>
    cases type with
    | SR | RR => exact gives_andThen fun _ => gives_andThen fun _ => gives_give rfl
    | SDES | FIR | AVB => exact gives_andThen fun _ => gives_give rfl
    | BYE => exact gives_byeDecode _ _
    | APP => exact gives_appDecode _
    | NACK => exact gives_fields _ fun _ _ => rfl
    | XR => exact gives_xrDecode
    | PSFB =>
      simp only
      split
      · exact gives_fail _ _
      · exact gives_andThen fun src => (gives_rtcpPsfbDecode hdr _).andThen fun v hv =>
          gives_give hv
    | RTPFB =>
      have hcount : hdr.count ≠ rtpfbTwcc := fun hcount => h ⟨hpt, hcount⟩
      simp only [rtcpRtpfbDecode, if_neg hcount]
      split
      · exact gives_fail _ _
      refine gives_andThen fun src => ?_
      split
      · exact Gives.andThen (P := fun fci => fci.deltas = none)
          (Gives.need (gives_andThen fun v => gives_give (by rfl)) _ _) fun fci hfci =>
            gives_give hfci
      · exact Gives.andThen (P := fun fci => fci.deltas = none)
          (gives_give rfl) fun fci hfci => gives_give hfci

variable {rest xs : Bytes} {msg : RtcpMsg}

theorem twccBody_deltas {hdr : RtcpHdr} (hpt : rtcpType hdr.pt = some .RTPFB)
    (hcount : hdr.count = rtpfbTwcc) {body : Body} (h : bodyDecode hdr xs = .ok (body, rest)) :
    ∃ start size, body.deltas = some ⟨xs.length - start, size⟩ ∧ start ≤ 4 * hdr.length ∧
      start + size ≤ xs.length ∧ deltasEnd hdr xs = start + size := by
  rw [bodyDecode, hpt] at h
  by_cases hlen : hdr.length < 2
  · rw [if_pos hlen] at h
    cases h
  rw [if_neg hlen] at h
  obtain ⟨src, ys, hsrc, h⟩ := andThen_ok h
  rw [fbSources] at hsrc
  obtain ⟨hle, -, rfl⟩ := fields_ok hsrc
  obtain ⟨fci, ws, hfci, h⟩ := andThen_ok h
  cases h
  rw [rtcpRtpfbDecode, hcount, if_neg (by decide), if_pos rfl] at hfci
  obtain ⟨-, hfci⟩ := need_ok hfci
  obtain ⟨v, vs, hv, hfci⟩ := andThen_ok hfci
  cases hfci
  obtain ⟨m, sz, hasks, hm, -, hsz, -, -, rfl⟩ := twccDecode_ok hv
  rw [length_drop] at hsz
  refine ⟨16 + m, sz, ?_, by omega, by omega, ?_⟩
  · simp only [Body.deltas, Fci.deltas, length_drop]
    congr 2
    omega
  · rw [deltasEnd, if_pos ⟨hpt, hcount⟩]
    rw [drop_drop] at hasks
    simp only [hasks]

/-- The part of the buffer a message refers to, and where it ends. -/
theorem rtcpDecode_deltas (h : rtcpDecode xs = .ok (msg, rest)) :
    ∃ start size,
      (∀ ys : Bytes, ys.length = xs.length → msg.deltas ys = (ys.drop start).take size) ∧
      start ≤ 4 + 4 * msg.hdr.length ∧ start + size ≤ xs.length ∧
      (start + size ≤ 4 + 4 * msg.hdr.length ↔
        deltasEnd msg.hdr (xs.drop 4) ≤ 4 * msg.hdr.length) := by
  obtain ⟨hle, -, -, zs, hbody⟩ := rtcpDecode_ok h
  by_cases htwcc : rtcpType msg.hdr.pt = some .RTPFB ∧ msg.hdr.count = rtpfbTwcc
  · obtain ⟨start, size, href, hstart, hsize, hend⟩ := twccBody_deltas htwcc.1 htwcc.2 hbody
    rw [length_drop] at href hsize
    refine ⟨4 + start, size, ?_, by omega, by omega, by omega⟩
    intro ys hys
    have hleft : xs.length - (xs.length - 4 - start) = 4 + start := by omega
    simp only [RtcpMsg.deltas, href, hys, hleft]
  · have hnone : msg.body.deltas = none := gives_bodyDecode msg.hdr htwcc _ _ _ hbody
    refine ⟨0, 0, ?_, by omega, by omega, ?_⟩
    · simp [RtcpMsg.deltas, hnone]
    · simp [deltasEnd, htwcc]

/-- A part of a list is the same in all lists that begin alike, exactly if it lies in
what they have in common. -/
theorem part_fixed_iff {k start size : Nat} (hstart : start ≤ k)
    (hsize : start + size ≤ xs.length) :
    (∀ ys : Bytes, ys.length = xs.length → ys.take k = xs.take k →
      (ys.drop start).take size = (xs.drop start).take size) ↔ start + size ≤ k := by
  constructor
  · intro h
    by_contra hlong
    -- the part holds the unit at `k`, which may be another one
    have hk : k < xs.length := by omega
    have hpart := h (xs.set k (xs[k] + 1)) length_set (take_set_of_le (le_refl k))
    have hunit := congrArg (·[k - start]?) hpart
    have hindex : start + (k - start) = k := by omega
    simp only [getElem?_take, if_pos (show k - start < size by omega), getElem?_drop, hindex,
      getElem?_set_self hk, getElem?_eq_getElem hk, Option.some.injEq] at hunit
    exact absurd hunit (by intro hone; have := congrArg UInt8.toNat hone; grind)
  · intro hle ys _ htake
    have hcut : ∀ zs : Bytes, (zs.drop start).take size = ((zs.take k).drop start).take size := by
      simp [drop_take, take_take]
      omega
    rw [hcut ys, hcut xs, htake]

/-! ## One call of the decoder -/

/-- The decoder has gone to the end of the packet its length field describes, and has
read nothing else: other bytes behind the packet would have given the same message,
with the same bytes in the part of the buffer it refers to. -/
def InsidePacket (xs : Bytes) (msg : RtcpMsg) (rest : Bytes) : Prop :=
  rest = xs.drop (4 + 4 * msg.hdr.length) ∧
    ∀ ys : Bytes, ys.length = xs.length →
      ys.take (4 + 4 * msg.hdr.length) = xs.take (4 + 4 * msg.hdr.length) →
        rtcpDecode ys = .ok (msg, ys.drop (4 + 4 * msg.hdr.length)) ∧ msg.deltas ys = msg.deltas xs

/-- What the packet in front holds has the size that its length field announces. -/
def FieldsFill (xs : Bytes) : Prop :=
  match rtcpHdrDecode xs with
  | .error _ => False
  | .ok (hdr, body) =>
    roundUp (fieldsSize hdr body) = 4 * hdr.length ∧ deltasEnd hdr body ≤ 4 * hdr.length

instance (xs : Bytes) : Decidable (FieldsFill xs) := by
  unfold FieldsFill
  split <;> infer_instance

theorem fieldsFill_iff (h : rtcpDecode xs = .ok (msg, rest)) :
    FieldsFill xs ↔ roundUp (fieldsSize msg.hdr (xs.drop 4)) = 4 * msg.hdr.length ∧
      deltasEnd msg.hdr (xs.drop 4) ≤ 4 * msg.hdr.length := by
  obtain ⟨-, hhdr, -⟩ := rtcpDecode_ok h
  rw [FieldsFill, hhdr]

theorem insidePacket_iff
    (h : rtcpDecode xs = .ok (msg, rest)) : InsidePacket xs msg rest ↔ FieldsFill xs := by
  obtain ⟨start, size, hdeltas, hstart, hsize, hend⟩ := rtcpDecode_deltas h
  have hpart := part_fixed_iff hstart hsize
  rw [fieldsFill_iff h, ← rest_eq_drop_iff h, ← hend, ← hpart]
  constructor
  · rintro ⟨hrest, hsame⟩
    refine ⟨hrest, fun ys hys htake => ?_⟩
    rw [← hdeltas ys hys, ← hdeltas xs rfl]
    exact (hsame ys hys htake).2
  · rintro ⟨hrest, hsame⟩
    refine ⟨hrest, fun ys hys htake => ⟨?_, ?_⟩⟩
    · obtain ⟨hrest', hle, hread⟩ := (rtcpDecode_sized h).2 _ _ h
      generalize min (roundUp (4 + fieldsSize msg.hdr (xs.drop 4))) xs.length =
        n at hrest' hle hread
      obtain rfl : n = 4 + 4 * msg.hdr.length := by
        have hneed := (rtcpDecode_ok h).2.2.1
        have hlen := congrArg length (hrest'.symm.trans hrest)
        simp only [length_drop] at hlen
        omega
      have hother := hread (ys.drop (4 + 4 * msg.hdr.length))
        (.inr (by rw [hrest, length_drop, length_drop, hys]))
      rwa [← htake, take_append_drop] at hother
    · simp [hdeltas, hys, hsame, htake]

/-! ## The packets of a buffer -/

/-- The offsets at which packets begin, by the length fields alone. -/
def boundariesFrom : Nat → Nat → Bytes → List Nat
  | 0, _, _ => []
  | fuel + 1, pos, xs =>
    match rtcpHdrDecode xs with
    | .error _ => []
    | .ok (hdr, _) =>
      pos :: boundariesFrom fuel (pos + (4 + 4 * hdr.length)) (xs.drop (4 + 4 * hdr.length))

def boundaries (xs : Bytes) : List Nat := boundariesFrom xs.length 0 xs

/-- `rtcp_decode` succeeds at an offset. -/
def decodesAt (xs : Bytes) (pos : Nat) : Bool :=
  match rtcpDecode (xs.drop pos) with
  | .error _ => false
  | .ok _ => true

/-- The offsets `rtcp_recv_handler` has to visit: the boundaries, up to the first packet
that is refused. -/
def packetOffsets (xs : Bytes) : List Nat := (boundaries xs).takeWhile (decodesAt xs)

/-- Every call the loop makes keeps to its packet, and the loop goes from boundary to
boundary. -/
def VisitsBoundaries (xs : Bytes) : Prop :=
  (∀ pos msg, (pos, msg) ∈ rtcpRecvHandler xs →
      ∃ rest, rtcpDecode (xs.drop pos) = .ok (msg, rest) ∧ InsidePacket (xs.drop pos) msg rest) ∧
    (rtcpRecvHandler xs).map Prod.fst = packetOffsets xs

/-- Behind a decoded packet the buffer goes on. -/
theorem rest_eq_drop (h : rtcpDecode xs = .ok (msg, rest)) :
    rest = xs.drop (xs.length - rest.length) := by
  obtain ⟨rfl, hle, -⟩ := (rtcpDecode_sized h).2 _ _ h
  rw [length_drop, Nat.sub_sub_self hle]

/-- A visited offset is one where the packet was decoded. As long as the packets are filled, the
loop and the length fields go to the same offsets, step by step. -/
theorem recvLoop_spec (full : Bytes) (fuel : Nat) : ∀ pos : Nat,
    (∀ p msg, (p, msg) ∈ rtcpRecvLoop fuel pos (full.drop pos) → ∃ rest, rtcpDecode (full.drop p) =
      .ok (msg, rest)) ∧
    ((∀ p ∈ (boundariesFrom fuel pos (full.drop pos)).takeWhile (decodesAt full),
      FieldsFill (full.drop p)) →
      (rtcpRecvLoop fuel pos (full.drop pos)).map Prod.fst =
        (boundariesFrom fuel pos (full.drop pos)).takeWhile (decodesAt full)) := by
  induction fuel with
  | zero => exact fun pos => ⟨fun p msg h => absurd h not_mem_nil, fun _ => rfl⟩
  | succ fuel ih =>
    intro pos
    rw [boundariesFrom, rtcpRecvLoop]
    cases hdec : rtcpDecode (full.drop pos) with
    | error err =>
      have hstop : decodesAt full pos = false := by rw [decodesAt, hdec]
      refine ⟨by simp, fun _ => ?_⟩
      cases rtcpHdrDecode (full.drop pos) with
      | error err => rfl
      | ok r => exact (takeWhile_cons_of_neg (by rw [hstop]; exact Bool.false_ne_true)).symm
    | ok r =>
      obtain ⟨msg, rest⟩ := r
      have hgo : decodesAt full pos = true := by rw [decodesAt, hdec]
      obtain ⟨-, hhdr, hneed, -⟩ := rtcpDecode_ok hdec
      rw [hhdr]
      simp only [takeWhile_cons_of_pos hgo]
      constructor
      · intro p msg' h
        rcases mem_cons.mp h with heq | hmem
        · cases heq
          exact ⟨rest, hdec⟩
        · have hrest := rest_eq_drop hdec
          generalize (full.drop pos).length - rest.length = n at hmem hrest
          rw [hrest, drop_drop] at hmem
          exact (ih _).1 p msg' hmem
      · intro hfill
        have hrest := ((insidePacket_iff hdec).mpr (hfill pos mem_cons_self)).1
        have hsize : (full.drop pos).length - rest.length = 4 + 4 * msg.hdr.length := by
          grind
        rw [map_cons, hsize, hrest, drop_drop]
        rw [drop_drop] at hfill
        rw [(ih _).2 fun p hp => hfill p (mem_cons_of_mem _ hp)]

theorem visitsBoundaries_iff (xs : Bytes) :
    VisitsBoundaries xs ↔ ∀ pos ∈ packetOffsets xs, FieldsFill (xs.drop pos) := by
  constructor
  · rintro ⟨hinside, hoffsets⟩ pos hpos
    rw [← hoffsets] at hpos
    obtain ⟨⟨p, msg⟩, hmem, rfl⟩ := List.mem_map.mp hpos
    obtain ⟨rest, hdec, hin⟩ := hinside p msg hmem
    exact (insidePacket_iff hdec).mp hin
  · intro hfill
    have hoffsets : (rtcpRecvHandler xs).map Prod.fst = packetOffsets xs :=
      (recvLoop_spec xs xs.length 0).2 hfill
    refine ⟨fun pos msg hmem => ?_, hoffsets⟩
    obtain ⟨rest, hdec⟩ := (recvLoop_spec xs xs.length 0).1 pos msg hmem
    have hpos : pos ∈ packetOffsets xs := by
      grind
    exact ⟨rest, hdec, (insidePacket_iff hdec).mpr (hfill pos hpos)⟩

/-- `rtcp_decode` keeps to the packet of the length field exactly if the packet is
filled by its fields, and `rtcp_recv_handler` visits the boundaries of a buffer exactly
if this holds of the packets at them. -/
theorem decode_keeps_to_packet_iff (xs : Bytes) :
    (∀ (msg : RtcpMsg) (rest : Bytes), rtcpDecode xs = .ok (msg, rest) →
      (InsidePacket xs msg rest ↔ FieldsFill xs)) ∧
    (VisitsBoundaries xs ↔ ∀ pos ∈ packetOffsets xs, FieldsFill (xs.drop pos)) :=
  ⟨fun _ _ h => insidePacket_iff h, visitsBoundaries_iff xs⟩

/-- A receiver report and a goodbye. -/
theorem decode_keeps_to_packet_report :
    packetOffsets [0x80, 201, 0, 1, 1, 2, 3, 4, 0x81, 203, 0, 1, 1, 2, 3, 4] = [0, 8] ∧
      VisitsBoundaries [0x80, 201, 0, 1, 1, 2, 3, 4, 0x81, 203, 0, 1, 1, 2, 3, 4] :=
  ⟨by decide, (decode_keeps_to_packet_iff _).2.mpr (by decide)⟩

/-- A request for a bit rate (transport feedback with format 3): eight of the sixteen
bytes behind the header are read. -/
theorem unknown_feedback_not_skipped :
    ¬ ∀ (xs : Bytes) (msg : RtcpMsg) (rest : Bytes), rtcpDecode xs = .ok (msg, rest) →
      InsidePacket xs msg rest := by
  intro h
  have hinside := h [0x83, 205, 0, 4, 0, 0, 0, 1, 0, 0, 0, 2, 0, 0, 0, 3, 0, 0, 0, 4]
    ⟨⟨2, 0, 3, 205, 4⟩, .fb 1 2 2 .unknown⟩ [0, 0, 0, 3, 0, 0, 0, 4] (by decide)
  exact absurd hinside.1 (by decide)

end LibRe.Rtcp
