/-
LibRe.Tcp.SendTheorems — what goes over a TCP connection.

While there is a socket, the bytes it has taken and the bytes in the queue are together
the buffers of the calls of `tcp_send` that returned 0 (`Kept`). One step can break this:
the socket takes a part of a buffer and the queue refuses the rest, so that the call
fails with a part of its buffer on the wire. `sent_is_accepted_iff` says that nothing else
does.
-/
import LibRe.Lib.Machine
import LibRe.Mbuf.MbufTheorems
import LibRe.Tcp.Send

namespace LibRe.Tcp

open Machine List Option

/-- The bytes in the queue that are not sent. -/
def queued (tc : TcpConn) : Bytes := tc.sendq.flatMap Mbuf.left

/-- The socket has got a prefix of what was accepted, and `txqsz` counts the queue. -/
def InOrder (s : Sending) : Prop := s.wire <+: s.accepted ∧ s.tc.txqsz = (queued s.tc).length

/-- A call of `tcp_send` that fails adds nothing to the wire or to the queue. -/
def ErrorSendsNothing (s : Sending) : Event → Prop
  | .send mb sock env =>
    (tcpSend s.tc mb sock env).1.isSome →
      (step s (.send mb sock env)).wire = s.wire ∧
      queued (step s (.send mb sock env)).tc = queued s.tc
  | _ => True

/-- If the socket takes a part of a buffer only, the rest can be queued: there is room
for it, `fd_listen` succeeds where it is needed, and there is memory. -/
def RestFits (s : Sending) : Event → Prop
  | .send mb (.wrote n) env =>
    s.tc.fdc → s.tc.sendq = [] → 0 < n → n < mbufGetLeft mb →
      mbufGetLeft mb - n ≤ s.tc.txqszMax ∧ (s.tc.sendh ∨ env.listen = none) ∧ env.mem
  | _ => True

/-! ## The queue -/

variable {tc tc' : TcpConn} {mb : Mbuf} {env : Env} {err : Option Errno}

/-- A queue entry has the bytes it was made of. -/
theorem qent_left (xs : Bytes) :
    (mbufSetPos (mbufWriteMem mbufInit xs) 0).left = xs ∧
    (mbufSetPos (mbufWriteMem mbufInit xs) 0).end_ = xs.length := by
  have hpos : mbufInit.pos = mbufInit.end_ := rfl
  refine ⟨?_, ?_⟩
  · rw [left_eq, mbufSetPos_bytes, mbufSetPos_pos, drop_zero, mbufWriteMem_bytes hpos]
    rfl
  · exact zero_add _

/-- The queue takes the buffer. -/
def Room (tc : TcpConn) (mb : Mbuf) (env : Env) : Prop :=
  tc.txqsz + mbufGetLeft mb ≤ tc.txqszMax ∧ (tc.sendq = [] → tc.sendh ∨ env.listen = none) ∧ env.mem

/-- `enqueue` refuses the buffer and changes nothing, or puts it behind the others. -/
theorem enqueue_cases (h : enqueue tc mb env = (err, tc')) (hsize : tc.txqsz = (queued tc).length) :
    (err.isSome ∧ tc' = tc ∧ ¬ Room tc mb env) ∨
      (err = none ∧ Room tc mb env ∧ queued tc' = queued tc ++ mb.left ∧
        tc'.txqsz = (queued tc').length ∧ tc'.fdc = tc.fdc) := by
  unfold enqueue at h
  simp only at h
  split at h
  · cases h
    exact .inl ⟨rfl, rfl, fun hroom => absurd hroom.1 (by omega)⟩
  split at h
  · next hlisten =>
      cases h
      refine .inl ⟨hlisten.2.2, rfl, fun hroom => ?_⟩
      have hor := hroom.2.1 (by simpa using hlisten.1)
      simp_all
  · next hlisten =>
    split at h
    · next hmem =>
        cases h
        exact .inl ⟨rfl, rfl, fun hroom => hmem hroom.2.2⟩
    · cases h
      obtain ⟨hleft, hend⟩ := qent_left mb.left
      refine .inr ⟨rfl, ⟨by omega, ?_, by simp_all⟩, ?_, ?_, rfl⟩
      · refine fun hempty => or_iff_not_imp_left.mpr fun hsendh => ?_
        by_contra hno
        exact hlisten ⟨by simp [hempty], hsendh, isSome_iff_ne_none.mpr hno⟩
      · simp [queued, hleft]
      · exact (congrArg (tc.txqsz + ·) hend).trans (by simp [queued, hleft, hsize])

variable {e : Event} {sock : SockSend} {sent : Bytes}

/-- `dequeue` sends the first bytes of the queue. -/
theorem dequeue_cases (h : dequeue tc sock = (err, tc', sent))
    (hsize : tc.txqsz = (queued tc).length) :
    sent ++ queued tc' = queued tc ∧ tc'.txqsz = (queued tc').length ∧ tc'.fdc = tc.fdc := by
  unfold dequeue at h
  cases hq : tc.sendq with
  | nil =>
    simp_all
  | cons qe rest =>
    have hqueued : queued tc = qe.left ++ rest.flatMap Mbuf.left := by
      rw [queued, hq, flatMap_cons]
    cases sock with
    | failed _ | wouldBlock =>
      simp_all
    | wrote n =>
      simp only [hq] at h
      cases h
      generalize hk : min n (mbufGetLeft qe) = k
      have hkle : k ≤ qe.left.length := by
        grind [mbufGetLeft_eq]
      -- an entry that is sent to its end has nothing left
      have hrest : queued { tc with
            txqsz := tc.txqsz - k
            sendq := if (mbufAdvance qe k).pos ≥ (mbufAdvance qe k).end_ then rest
              else mbufAdvance qe k :: rest } =
          qe.left.drop k ++ rest.flatMap Mbuf.left := by
        split
        · next hdone =>
            have hnil : qe.left.drop k = [] := by
              grind [mbufAdvance_left, length_left]
            rw [hnil]
            rfl
        · show (mbufAdvance qe k :: rest).flatMap Mbuf.left = _
          rw [flatMap_cons, mbufAdvance_left]
      refine ⟨?_, ?_, rfl⟩
      · rw [hrest, ← append_assoc, take_append_drop, hqueued]
      · grind

/-- What a call of `tcp_send` can do: it fails and does nothing; it succeeds, and what is
sent and queued has grown by its buffer; or it fails with a part of it on the wire. -/
theorem tcpSend_cases
    (h : tcpSend s.tc mb sock env = (err, tc', sent)) (hsize : s.tc.txqsz = (queued s.tc).length) :
    (err.isSome ∧ tc' = s.tc ∧ sent = [] ∧ RestFits s (.send mb sock env)) ∨
      (err = none ∧ s.tc.fdc ∧ sent ++ queued tc' = queued s.tc ++ mb.left ∧
        tc'.txqsz = (queued tc').length ∧ tc'.fdc = s.tc.fdc ∧ RestFits s (.send mb sock env)) ∨
      (err.isSome ∧ tc' = s.tc ∧ sent ≠ [] ∧ s.tc.fdc ∧ s.tc.sendq = [] ∧
        ¬ RestFits s (.send mb sock env)) := by
  -- the whole buffer goes to the queue
  have hwhole : s.tc.fdc → (let r := enqueue s.tc mb env; (r.1, r.2, ([] : Bytes))) =
      (err, tc', sent) →
      RestFits s (.send mb sock env) → (err.isSome ∧ tc' = s.tc ∧ sent = [] ∧
        RestFits s (.send mb sock env)) ∨
        (err = none ∧ s.tc.fdc ∧ sent ++ queued tc' = queued s.tc ++ mb.left ∧
          tc'.txqsz = (queued tc').length ∧ tc'.fdc = s.tc.fdc ∧
          RestFits s (.send mb sock env)) := by
    intro hfdc h hfits
    cases henq : enqueue s.tc mb env with
    | mk err₁ tc₁ =>
      simp only [henq] at h
      cases h
      rcases enqueue_cases henq hsize with ⟨herr, htc, -⟩ | ⟨herr, -, hqueued, htxqsz, hfd⟩
      · exact .inl ⟨herr, htc, rfl, hfits⟩
      · exact .inr ⟨herr, hfdc, hqueued, htxqsz, hfd, hfits⟩
  unfold tcpSend at h
  split at h
  · next hfdc =>
      cases h
      refine .inl ⟨rfl, rfl, rfl, ?_⟩
      cases sock <;> simp_all [RestFits]
  next hfdc =>
  rw [not_not] at hfdc
  split at h
  · next hleft =>
      cases h
      refine .inl ⟨rfl, rfl, rfl, ?_⟩
      cases sock <;> simp [RestFits, hleft]
  next hleft =>
  split at h
  · next hbusy =>
      refine or_assoc.mp (.inl (hwhole hfdc h ?_))
      cases sock <;> simp_all [RestFits]
  next hempty =>
  rw [not_not, List.isEmpty_iff] at hempty
  have hnone : queued s.tc = [] := by rw [queued, hempty, flatMap_nil]
  cases sock with
  | failed e =>
    cases h
    exact .inl ⟨rfl, rfl, rfl, trivial⟩
  | wouldBlock => exact or_assoc.mp (.inl (hwhole hfdc h trivial))
  | wrote n =>
    simp only at h
    by_cases hpart : n < mbufGetLeft mb
    case neg =>
      have hmin : min n (mbufGetLeft mb) = mbufGetLeft mb := min_eq_right (Nat.le_of_not_lt hpart)
      rw [hmin, if_neg (lt_irrefl _), mbufGetLeft_eq, take_length] at h
      cases h
      refine .inr (.inl ⟨rfl, hfdc, ?_, hsize, rfl, fun _ _ _ hlt => absurd hlt hpart⟩)
      rw [hnone, append_nil, nil_append]
    rw [min_eq_left (le_of_lt hpart), if_pos hpart] at h
    have hroom : Room s.tc (mbufAdvance mb n) env ↔
        mbufGetLeft mb - n ≤ s.tc.txqszMax ∧ (s.tc.sendh ∨ env.listen = none) ∧ env.mem := by
      simp [Room, hsize, hnone, hempty, mbufGetLeft_eq, mbufAdvance_left]
    cases henq : enqueue s.tc (mbufAdvance mb n) env with
    | mk err₁ tc₁ =>
      rw [henq] at h
      cases h
      rcases enqueue_cases henq hsize with ⟨herr, htc, hfull⟩ | ⟨herr, hfits, hqueued, htxqsz, hfd⟩
      · rcases Nat.eq_zero_or_pos n with rfl | hn
        · exact .inl ⟨herr, htc, rfl, fun _ _ hn => absurd hn (lt_irrefl 0)⟩
        · refine .inr (.inr ⟨herr, htc, ?_, hfdc, hempty, fun hfits =>
            hfull (hroom.mpr (hfits hfdc hempty hn hpart))⟩)
          rw [mbufGetLeft_eq] at hpart
          exact ne_nil_of_length_pos (by rw [length_take]; omega)
      · refine .inr (.inl ⟨herr, hfdc, ?_, htxqsz, hfd, fun _ _ _ _ => hroom.mp hfits⟩)
        rw [hqueued, hnone, mbufAdvance_left, nil_append, nil_append, take_append_drop]

/-! ## Runs -/

/-- What is sent and queued is what was accepted, until the connection is closed. -/
structure Kept (s : Sending) : Prop where
  size : s.tc.txqsz = (queued s.tc).length
  sent : s.tc.fdc → s.wire ++ queued s.tc = s.accepted
  closed : ¬ s.tc.fdc → s.wire <+: s.accepted

variable {s : Sending}

section

variable (h : Kept s)
include h

theorem Kept.prefixed : s.wire <+: s.accepted := by
  by_cases hfdc : s.tc.fdc
  · exact ⟨queued s.tc, h.sent hfdc⟩
  · exact h.closed hfdc

theorem Kept.inOrder : InOrder s := ⟨h.prefixed, h.size⟩

theorem Kept.close (tc : TcpConn) : Kept { s with tc := connClose tc } where
  size := rfl
  sent := fun hfdc => nomatch hfdc
  closed := fun _ => h.prefixed

theorem Kept.send (hfits : RestFits s (.send mb sock env)) : Kept (step s (.send mb sock env)) := by
  rw [step]
  cases hsend : tcpSend s.tc mb sock env with
  | mk err r =>
    obtain ⟨tc', sent⟩ := r
    rcases tcpSend_cases hsend h.size with ⟨herr, rfl, rfl, -⟩ | ⟨rfl, hfdc, hsent, hsize,
      hfd, -⟩ | hbad
    · obtain ⟨e, rfl⟩ := isSome_iff_exists.mp herr
      have hsame : Kept { tc := s.tc, wire := s.wire ++ [], accepted := s.accepted ++ [] } := by
        simp [h]
      exact hsame
    · refine ⟨hsize, ?_, ?_⟩
      · grind [sent]
      · simp_all
    · exact absurd hfits hbad.2.2.2.2.2

theorem Kept.writable (sock : SockSend) (listen : Option Errno) :
    Kept (step s (.writable sock listen)) := by
  rw [step]
  unfold writeHandler
  by_cases hfdc : s.tc.fdc
  case neg =>
    simp [hfdc, h]
  rw [if_neg (not_not.mpr hfdc)]
  by_cases hconn : s.tc.connected
  case neg =>
    rw [if_neg hconn]
    by_cases hlisten : listen.isSome
    · grind [close]
    · rw [if_neg hlisten]
      show Kept { s with tc := { s.tc with connected := true }, wire := s.wire ++ [] }
      rw [append_nil]
      exact ⟨h.size, h.sent, h.closed⟩
  rw [if_pos hconn]
  cases hdeq : dequeue s.tc sock with
  | mk err r =>
    obtain ⟨tc', sent⟩ := r
    obtain ⟨hqueued, hsize, hfd⟩ := dequeue_cases hdeq h.size
    have hall : s.wire ++ sent ++ queued tc' = s.accepted := by
      rw [append_assoc, hqueued, h.sent hfdc]
    -- the connection after `dequeue`, closed or not
    have hkept : Kept { s with tc := tc', wire := s.wire ++ sent } :=
      ⟨hsize, fun _ => hall, fun hno => absurd (hfd.trans hfdc) hno⟩
    cases err with
    | some err => exact hkept.close tc'
    | none =>
      simp only
      split
      · exact hkept.close tc'
      · exact hkept

theorem kept_step (hfits : RestFits s e) : Kept (step s e) := by
  cases e with
  | send mb sock env => exact h.send hfits
  | writable sock listen => exact h.writable sock listen
  | close => exact h.close s.tc

/-- Bytes of a call that fails are on the wire, but not accepted. -/
theorem restFits_of_inOrder (horder : InOrder (step s e)) : RestFits s e := by
  cases e with
  | writable _ _ | close => trivial
  | send mb sock env =>
    rw [step] at horder
    cases hsend : tcpSend s.tc mb sock env with
    | mk err r =>
      obtain ⟨tc', sent⟩ := r
      rcases tcpSend_cases hsend h.size with hcase | hcase | ⟨herr, -, hsent, hfdc, hempty, -⟩
      · exact hcase.2.2.2
      · exact hcase.2.2.2.2.2
      obtain ⟨e, rfl⟩ := isSome_iff_exists.mp herr
      rw [hsend] at horder
      have hwire : s.wire = s.accepted := by
        have hall := h.sent hfdc
        rw [queued, hempty, flatMap_nil, append_nil] at hall
        exact hall
      have hlen := horder.1.length_le
      simp only [length_append, hwire] at hlen
      have hnil : sent = [] := eq_nil_of_length_eq_zero (by simpa using hlen)
      exact absurd hnil hsent

theorem errorSendsNothing_of_kept (hfits : RestFits s e) : ErrorSendsNothing s e := by
  cases e with
  | writable _ _ | close => trivial
  | send mb sock env =>
    intro herr
    rw [step]
    cases hsend : tcpSend s.tc mb sock env with
    | mk err r =>
      obtain ⟨tc', sent⟩ := r
      rw [hsend] at herr
      rcases tcpSend_cases hsend h.size with ⟨-, rfl, rfl, -⟩ | ⟨rfl, -⟩ | hbad
      · exact ⟨append_nil _, rfl⟩
      · cases herr
      · exact absurd hfits hbad.2.2.2.2.2

end

/-- For every sequence of calls of `tcp_send`, of events of the socket and of answers: the
socket has always got a prefix of the buffers of the calls that returned 0, `txqsz` is
the number of unsent bytes in the queue, and a call that fails adds nothing, if and only if
whenever the socket takes a part of a buffer the rest can be queued. -/
theorem sent_is_accepted_iff (txqszMax : Nat) (sendh connected : Bool) (events : List Event) :
    (Always step InOrder (start txqszMax sendh connected) events ∧
        Each step ErrorSendsNothing (start txqszMax sendh connected) events) ↔
      Each step RestFits (start txqszMax sendh connected) events := by
  have hstart : Kept (start txqszMax sendh connected) := ⟨rfl, fun _ => rfl, fun _ => prefix_refl _⟩
  have hiff : Always step InOrder (start txqszMax sendh connected) events ↔
      Each step RestFits (start txqszMax sendh connected) events :=
    always_iff_each (fun s e h _ hfits => kept_step h hfits) (fun s h => h.inOrder)
      (fun s e h _ horder => restFits_of_inOrder h horder) hstart each_true
  constructor
  · intro h
    exact hiff.mp h.1
  · intro h
    have hkept : Always step Kept (start txqszMax sendh connected) events :=
      Each.always (fun s e hs hfits => kept_step hs hfits) hstart h
    exact ⟨hiff.mpr h, Each.of_always (fun s e => errorSendsNothing_of_kept) hkept h⟩

/-- Six bytes, of which the socket takes four, to a queue of one byte. -/
theorem part_on_the_wire :
    ¬ ∀ (txqszMax : Nat) (sendh connected : Bool) (events : List Event),
      Always step InOrder (start txqszMax sendh connected) events ∧
        Each step ErrorSendsNothing (start txqszMax sendh connected) events := by
  intro hall
  obtain ⟨⟨-, hprefix, -⟩, -⟩ := hall 1 false true
    [.send { buf := [1, 2, 3, 4, 5, 6], pos := 0, end_ := 6, end_le := by decide } (.wrote 4)
      ⟨none, true⟩]
  exact absurd hprefix (by decide)

end LibRe.Tcp
