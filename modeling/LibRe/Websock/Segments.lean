/-
LibRe.Websock.Segments — a WebSocket stream cut into segments.

`recv_handler` is the receiver of `LibRe.Lib.Stream` for the reader `frameStep`:
it keeps the bytes of the frame it waits for, and a frame is read the same way
whatever follows it. A frame that is not complete is left as it is, so no byte is
unmasked twice. It follows that the way a stream is cut makes no difference, as
long as the limit on the buffer is not met.
-/
import LibRe.Lib.Stream
import LibRe.Websock.Decode

namespace LibRe.Websock

open Bytes LibRe.Stream List Option

variable {xs : Bytes} {hdr : WebsockHdr}

/-! ## Reading frames from a stream -/

/-- One frame, as a reader of the stream sees it. -/
def frameStep (active : Bool) (state : WebsockState) (_ : Unit) (xs : Bytes) : Step Unit Event :=
  match frameOf xs with
  | .more => .wait [] ()
  | .wraps => .stop [.undefined]
  | .frame hdr n payload =>
    if active = hdr.mask then .stop (failWith state .EPROTO)
    else if hdr.rsv1 ∨ hdr.rsv2 ∨ hdr.rsv3 then .stop (failWith state .EPROTO)
    else if (handleFrame state hdr payload).2 then .take n (handleFrame state hdr payload).1 ()
    else .stop (handleFrame state hdr payload).1

theorem lenField_append {len l k : Nat} (h : lenField len xs = some (l, k))
    (ys : Bytes) : k ≤ xs.length ∧ lenField len (xs ++ ys) = some (l, k) := by
  rcases lenField_cases h with ⟨rfl, hlen, rfl, rfl⟩ | ⟨rfl, hlen, rfl, rfl⟩ | ⟨h126,
    h127, rfl, rfl⟩
  · simp [lenField, ofBe16_append hlen]
    omega
  · simp [lenField, take_append_of_le_length hlen]
    omega
  · simp [lenField, h126, h127]

/-- The rest of a frame does not depend on what follows it. -/
theorem bodyOf_append {size : Nat} {body : Bytes} (h : bodyOf hdr size body ≠ .more) (ys : Bytes) :
    bodyOf hdr size (body ++ ys) = bodyOf hdr size body := by
  rw [bodyOf] at h
  rw [bodyOf, bodyOf, length_append]
  by_cases hmask : hdr.mask = true
  · rw [if_pos hmask] at h ⊢
    rw [if_pos hmask]
    by_cases hfew : body.length < maskedSize hdr.len
    · simp_all
    rw [if_neg (by omega), if_neg hfew]
    by_cases hwrap : 2 ^ 64 ≤ 4 + hdr.len
    · rw [if_pos hwrap, if_pos hwrap]
    have hsum : maskedSize hdr.len = 4 + hdr.len := Nat.mod_eq_of_lt (by omega)
    have hbody : hdr.len ≤ (body.drop 4).length := by
      simp
      omega
    rw [if_neg hwrap, if_neg hwrap, take_append_of_le_length (by omega),
      drop_append_of_le_length (by omega), take_append_of_le_length hbody]
  · rw [if_neg hmask] at h ⊢
    rw [if_neg hmask]
    by_cases hfew : body.length < hdr.len
    · simp_all
    · rw [if_neg (by omega), if_neg hfew, take_append_of_le_length (by omega)]

theorem frameOf_append (h : frameOf xs ≠ .more) (ys : Bytes) :
    frameOf (xs ++ ys) = frameOf xs := by
  match xs with
  | [] | [_] => exact absurd rfl h
  | v :: w :: rest =>
    show frameOf (v :: w :: (rest ++ ys)) = _
    rw [frameOf] at h
    rw [frameOf, frameOf]
    cases hfield : lenField (firstBytes v w).len rest with
    | none =>
      simp_all
    | some r =>
      obtain ⟨hk, happ⟩ := lenField_append hfield ys
      rw [hfield] at h
      rw [happ]
      simp only
      rw [drop_append_of_le_length hk]
      exact bodyOf_append h ys

variable {n : Nat} {payload : Bytes} {active : Bool}

/-- A frame has at least the two bytes of its header, and it is all there. -/
theorem frameOf_size (h : frameOf xs = .frame hdr n payload) : 2 ≤ n ∧ n ≤ xs.length := by
  match xs with
  | [] | [_] => cases h
  | v :: w :: rest =>
    rw [frameOf] at h
    cases hfield : lenField (firstBytes v w).len rest with
    | none => rw [hfield] at h; cases h
    | some r =>
      obtain ⟨hk, -⟩ := lenField_append hfield []
      rw [hfield] at h
      simp only [bodyOf, length_drop] at h
      split at h
      · split at h
        · cases h
        · split at h
          · cases h
          · grind [maskedSize]
      · grind

section Reader

variable {active : Bool} {state : WebsockState}

theorem frameStep_framed : Framed (frameStep active state) (frameOf · ≠ .more) where
  empty := not_not_intro rfl
  waits := by
    simp_all [frameStep]
  reads := by
    intro u xs evs u' h
    rw [frameStep]
    split
    · exact absurd ‹_› h
    · nofun
    · split
      · nofun
      · grind
  append := by
    simp_all [frameOf_append, frameStep]
  bounds := by
    intro u xs n evs u' h
    rw [frameStep] at h
    split at h
    · cases h
    · cases h
    rename_i hdr m payload hfront
    obtain ⟨h2, hle⟩ := frameOf_size hfront
    split at h
    · cases h
    split at h
    · cases h
    · split at h
      · cases h
        exact ⟨by omega, hle⟩
      · cases h

end Reader

/-! ## The handler -/

/-- The bytes of the frame the connection waits for. -/
def WebsockConn.pending (conn : WebsockConn) : Bytes := (conn.mb.map Mbuf.left).getD []

/-- The buffer is one that is being read. -/
def WebsockConn.Sound (conn : WebsockConn) : Prop := ∀ mb ∈ conn.mb, mb.pos ≤ mb.end_

variable {seg : Bytes} {mb : Mbuf} {conn : WebsockConn}

/-- The payload of a decoded frame, and the copy of what follows it. -/
theorem frame_cut {mb' : Mbuf} (hpos : mb'.pos + hdr.len = mb.pos + n) (hend : mb'.end_ = mb.end_)
    (hn : 2 ≤ n) (hle : n ≤ mb.left.length) (hleft : mb'.left = payload ++ mb.left.drop n)
    (hlen : payload.length = hdr.len) :
    (mbufSetEnd mb' (mb'.pos + hdr.len)).left = payload ∧
      ((copyRest (mbufSetEnd mb' (mb'.pos + hdr.len)) mb'.end_).map Mbuf.left).getD []
        = mb.left.drop n := by
  have hall := length_left mb
  have hcut : mb'.pos + hdr.len ≤ mb'.end_ := by omega
  have hdrop : mb'.left.drop hdr.len = mb.left.drop n := by rw [hleft, ← hlen, drop_left]
  refine ⟨?_, ?_⟩
  · rw [left_eq, mbufSetEnd_pos, mbufSetEnd_bytes hcut, drop_take, Nat.add_sub_cancel_left,
      ← left_eq, hleft, ← hlen, take_left]
  rw [copyRest, mbufSetEnd_end hcut, slice_mbufSetEnd]
  by_cases hmore : mb'.end_ > mb'.pos + hdr.len
  · rw [if_pos hmore]
    show (Mbuf.ofBytes (mb'.slice (mb'.pos + hdr.len) mb'.end_) 0).left = _
    rw [left_eq, Mbuf.ofBytes_bytes, ← hdrop, left_eq mb', drop_drop, slice_eq (le_refl _),
      take_of_length_le (by rw [length_bytes])]
    rfl
  · simp [hmore]
    omega

theorem copyRest_sound (conn : WebsockConn) (mb : Mbuf) (end_ : Nat) :
    { conn with mb := copyRest mb end_ : WebsockConn }.Sound := by
  intro m hm
  simp only [copyRest] at hm
  split at hm
  · cases hm
    exact Nat.zero_le _
  · cases hm

/-- A round of the handler does what the reader says; it goes on with a copy of what
follows the frame. -/
theorem recvLoop_round (fuel : Nat) (hmb : conn.mb = some mb) (hmax : mb.left.length ≤ sizeMax) :
    ∃ rest, { conn with mb := rest : WebsockConn }.Sound ∧
      match frameStep conn.active conn.state () mb.left with
      | .wait evs _ => recvLoop (fuel + 1) conn = (evs, some conn)
      | .stop evs => recvLoop (fuel + 1) conn = (evs, none)
      | .take n evs _ => { conn with mb := rest : WebsockConn }.pending = mb.left.drop n ∧
          recvLoop (fuel + 1) conn = (evs ++ (recvLoop fuel { conn with mb := rest }).1,
              (recvLoop fuel { conn with mb := rest }).2) := by
  have hdec := websockDecode_frameOf hmax
  simp only [recvLoop, hmb]
  cases hfront : frameOf mb.left with
  | more =>
    rw [hfront] at hdec
    refine ⟨none, nofun, ?_⟩
    simp only [frameStep, hfront]
    rw [show websockDecode mb = _ from hdec]
  | wraps =>
    rw [hfront] at hdec
    obtain ⟨fault, hrun⟩ := hdec
    refine ⟨none, nofun, ?_⟩
    simp only [frameStep, hfront, hrun]
  | frame hdr n payload =>
    rw [hfront] at hdec
    obtain ⟨mb', hrun, hpos, hend, hle, hleft, hlen⟩ := hdec
    obtain ⟨h2, -⟩ := frameOf_size hfront
    obtain ⟨hpay, hrest⟩ := frame_cut hpos hend h2 hle hleft hlen
    refine ⟨copyRest (mbufSetEnd mb' (mb'.pos + hdr.len)) mb'.end_, copyRest_sound _ _ _, ?_⟩
    simp only [frameStep, hfront, hrun, hpay]
    by_cases hmask : conn.active = hdr.mask
    · simp only [if_pos hmask]
    by_cases hrsv : hdr.rsv1 ∨ hdr.rsv2 ∨ hdr.rsv3
    · simp only [if_neg hmask, if_pos hrsv]
    by_cases halive : (handleFrame conn.state hdr payload).2 = true
    · simp only [if_neg hmask, if_neg hrsv, if_pos halive]
      exact ⟨hrest, trivial⟩
    · simp only [if_neg hmask, if_neg hrsv, if_neg halive]

/-- The rounds of the handler are those of the receiver. -/
theorem recvLoop_drain (fuel : Nat) : ∀ conn : WebsockConn, conn.Sound →
    conn.pending.length ≤ sizeMax → conn.pending.length < fuel →
    drainAll (frameStep conn.active conn.state) () conn.pending =
        ((recvLoop fuel conn).1, (recvLoop fuel conn).2.map fun c => ((), c.pending)) ∧
      ∀ c ∈ (recvLoop fuel conn).2, c.Sound ∧ c.active = conn.active ∧ c.state = conn.state := by
  induction fuel with
  | zero =>
    omega
  | succ fuel ih =>
    intro conn hsound hmax hfuel
    have inc : Incremental (frameStep conn.active conn.state) := frameStep_framed.incremental
    cases hmb : conn.mb with
    | none =>
      have hpending : conn.pending = [] := by rw [WebsockConn.pending, hmb]; rfl
      rw [hpending, drainAll_wait inc (inc.empty ())]
      simp [recvLoop, hmb, hpending, hsound]
    | some mb =>
      have hpending : conn.pending = mb.left := by rw [WebsockConn.pending, hmb]; rfl
      rw [hpending] at hmax hfuel ⊢
      obtain ⟨rest, hrest, hround⟩ := recvLoop_round fuel hmb hmax
      cases hstep : frameStep conn.active conn.state () mb.left with
      | wait evs u =>
        rw [hstep] at hround
        rw [drainAll_wait inc hstep, show recvLoop (fuel + 1) conn = _ from hround]
        simp [hpending, hsound]
      | stop evs =>
        rw [hstep] at hround
        rw [drainAll_stop inc hstep, show recvLoop (fuel + 1) conn = _ from hround]
        exact ⟨rfl, nofun⟩
      | take n evs u =>
        rw [hstep] at hround
        obtain ⟨hdrop, hrun⟩ := hround
        have hbound := frameStep_framed.bounds _ _ _ _ _ hstep
        obtain ⟨hdrain, hkeep⟩ := ih { conn with mb := rest } hrest
          (by rw [hdrop, length_drop]; omega) (by rw [hdrop, length_drop]; omega)
        rw [hdrop] at hdrain
        rw [drainAll_take inc hstep, hdrain, hrun]
        exact ⟨rfl, hkeep⟩

/-- A buffered part of a frame and the segment stay within `BUFSIZE_MAX`. -/
def Fits (conn : WebsockConn) (seg : Bytes) : Prop :=
  ∀ mb ∈ conn.mb, mbufGetLeft mb + seg.length ≤ bufsizeMax

/-- The handler behind the place where it has put the segment behind the bytes it waits with. -/
theorem recvLoop_feed (hleft : mb.left = conn.pending ++ seg)
    (hpos : mb.pos ≤ mb.end_) (hmax : mb.left.length ≤ sizeMax)
    {r : List Event × Option WebsockConn}
    (hr : recvLoop (mb.left.length + 1) { conn with mb := some mb } = r) :
    feed (frameStep conn.active conn.state) (some ((), conn.pending)) seg =
      (r.1, r.2.map fun c => ((), c.pending)) ∧
      ∀ c ∈ r.2, c.Sound ∧ c.active = conn.active ∧ c.state = conn.state := by
  have hsound : { conn with mb := some mb : WebsockConn }.Sound := by
    rintro m ⟨⟩
    exact hpos
  rw [feed_some, ← hleft, ← hr]
  exact recvLoop_drain _ { conn with mb := some mb } hsound hmax (Nat.lt_succ_self _)

theorem recvHandler_feed (hsound : conn.Sound)
    (hfit : Fits conn seg) (hseg : seg.length ≤ sizeMax) :
    feed (frameStep conn.active conn.state) (some ((), conn.pending)) seg =
        ((recvHandler conn seg).1, (recvHandler conn seg).2.map fun c => ((), c.pending)) ∧
      ∀ c ∈ (recvHandler conn seg).2, c.Sound ∧ c.active = conn.active ∧ c.state = conn.state := by
  rw [recvHandler]
  cases hmb : conn.mb with
  | none =>
    have hleft : (Mbuf.ofBytes seg 0).left = seg := by
      rw [left_eq, Mbuf.ofBytes_bytes]
      rfl
    exact recvLoop_feed (by rw [WebsockConn.pending, hmb, hleft]; rfl) (Nat.zero_le _)
      (by rw [hleft]; exact hseg) (by rw [hleft])
  | some mb =>
    have hroom := hfit mb hmb
    obtain ⟨hleft, hpos⟩ := append_left (hsound mb hmb) seg
    simp only
    rw [if_neg (by omega), mbufGetLeft_eq]
    rw [mbufGetLeft_eq, bufsizeMax] at hroom
    exact recvLoop_feed (by rw [WebsockConn.pending, hmb, hleft]; rfl) hpos
      (by rw [hleft, length_append, sizeMax]; omega) rfl

/-- No segment of the run meets the limit on the buffer. -/
def FitsAll : Option WebsockConn → List Bytes → Prop
  | some conn, seg :: segs => Fits conn seg ∧ FitsAll (recvHandler conn seg).2 segs
  | _, _ => True

/-- The segments of a connection, as the receiver reads them. -/
theorem recvAll_feedAll {state : WebsockState} (segs : List Bytes) :
    ∀ conn : Option WebsockConn, (∀ c ∈ conn, c.Sound ∧ c.active = active ∧ c.state = state) →
      (∀ seg ∈ segs, seg.length ≤ sizeMax) → FitsAll conn segs →
      feedAll (frameStep active state) (conn.map fun c => ((), c.pending)) segs =
        ((recvAll conn segs).1, (recvAll conn segs).2.map fun c => ((), c.pending)) := by
  induction segs with
  | nil =>
    simp [feedAll, recvAll]
  | cons seg segs ih =>
    intro conn hconn hmax hfit
    cases conn with
    | none => rw [map_none, feedAll_none, recvAll, map_none]
    | some conn =>
      obtain ⟨hsound, rfl, rfl⟩ := hconn conn rfl
      obtain ⟨hfirst, hrest⟩ := hfit
      obtain ⟨hfeed, hkeep⟩ := recvHandler_feed hsound hfirst (hmax seg (mem_cons_self))
      have hnext := ih (recvHandler conn seg).2 hkeep
        (fun s hs => hmax s (mem_cons_of_mem _ hs)) hrest
      rw [map_some, feedAll, hfeed, hnext, recvAll]
      rfl

/-! ## Pings -/

/-- Every ping is followed at once by a pong with its payload. -/
def PingsAnswered : List Event → Prop
  | [] => True
  | .control hdr payload :: evs =>
    (hdr.opcode = WebsockOpcode.PING.code → evs.head? = some (.sent .PONG payload)) ∧
      PingsAnswered evs
  | _ :: evs => PingsAnswered evs

theorem PingsAnswered.append {l₁ l₂ : List Event} (h₁ : PingsAnswered l₁) (h₂ : PingsAnswered l₂) :
    PingsAnswered (l₁ ++ l₂) := by
  induction l₁ with
  | nil => exact h₂
  | cons ev l₁ ih =>
    cases ev with
    | control hdr payload =>
      obtain ⟨hping, hrest⟩ := h₁
      refine ⟨fun hop => ?_, ih hrest⟩
      show (l₁ ++ l₂).head? = _
      rw [head?_append, hping hop]
      rfl
    | recvh _ _ | sent _ _ | closed _ | undefined => exact ih h₁

theorem handleFrame_pings (hdr : WebsockHdr) (payload : Bytes) :
    PingsAnswered (handleFrame .OPEN hdr payload).1 := by
  rw [handleFrame]
  split
  · exact trivial
  split
  · rename_i hclose
    refine ⟨fun hping => ?_, trivial⟩
    rw [hclose] at hping
    exact absurd hping (by decide)
  · split
    · exact ⟨fun _ => rfl, trivial⟩
    split
    · rename_i hpong
      refine ⟨fun hping => ?_, trivial⟩
      rw [hpong] at hping
      exact absurd hping (by decide)
    · exact trivial

theorem frameStep_pings (u : Unit) (xs : Bytes) :
    PingsAnswered (frameStep active .OPEN u xs).events := by
  rw [frameStep]
  cases frameOf xs with
  | more | wraps => exact trivial
  | frame hdr n payload =>
    simp only
    split
    · exact trivial
    · split
      · exact trivial
      · split <;> exact handleFrame_pings hdr payload

/-! ## Any cut of a stream -/

/-- However a stream is cut into segments, the connection does what it does when
the stream arrives in one segment: it hands the same frames to the application,
answers the same pings, each with its payload, and ends at the same frame. -/
theorem segments_like_one_segment (active : Bool) (segs : List Bytes)
    (hmax : segs.flatten.length ≤ sizeMax) (hfit : FitsAll (some (openConn active)) segs) :
    let cut := recvAll (some (openConn active)) segs
    let whole := recvHandler (openConn active) segs.flatten
    cut.1 = whole.1 ∧ cut.2.map WebsockConn.pending = whole.2.map WebsockConn.pending ∧
      PingsAnswered cut.1 := by
  have hsound : (openConn active).Sound := nofun
  have hcut : feedAll (frameStep active .OPEN) (some ((), [])) segs = _ :=
    recvAll_feedAll segs (some (openConn active)) (by rintro c ⟨⟩; exact ⟨hsound, rfl, rfl⟩)
      (fun seg hseg => (sublist_flatten_of_mem hseg).length_le.trans hmax) hfit
  have hwhole : feed (frameStep active .OPEN) (some ((), [])) segs.flatten = _ :=
    (recvHandler_feed hsound nofun hmax).1
  have hsame : drainAll (frameStep active .OPEN) () segs.flatten = _ :=
    (frameStep_framed.feedAll_eq segs ()).symm.trans hcut
  have heq := hsame.symm.trans hwhole
  injection heq with hevents hstate
  refine ⟨hevents, ?_, ?_⟩
  · have hmap := congrArg (Option.map Prod.snd) hstate
    rw [Option.map_map, Option.map_map] at hmap
    exact hmap
  · have hpings : PingsAnswered (drainAll (frameStep active .OPEN) () segs.flatten).1 :=
      drainAll_events trivial (fun _ _ => PingsAnswered.append) frameStep_pings () segs.flatten
    rw [hsame] at hpings
    exact hpings

/-- A masked ping whose payload arrives later, and a text message behind it. -/
def pingThenText : List Bytes :=
  [[0x89, 0x82, 1, 2, 3, 4, 0x40], [0x40, 0x81, 0x81], [5, 6, 7, 8, 0x44]]

theorem segments_like_one_segment_ping :
    FitsAll (some (openConn false)) pingThenText ∧
      (recvAll (some (openConn false)) pingThenText).1 =
        (recvHandler (openConn false) pingThenText.flatten).1 ∧
      (recvAll (some (openConn false)) pingThenText).1.length = 3 := by
  have hfit : FitsAll (some (openConn false)) pingThenText := by
    refine ⟨nofun, ?_, ?_, trivial⟩
    · rintro mb ⟨⟩
      decide
    · rintro mb ⟨⟩
      decide
  have h := segments_like_one_segment false pingThenText (by decide) hfit
  exact ⟨hfit, h.1, by decide⟩

end LibRe.Websock
