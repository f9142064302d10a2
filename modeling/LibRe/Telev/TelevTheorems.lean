/-
LibRe.Telev.TelevTheorems — telephone events from the keypad to the other end.

`Progress` says where the sender is in the sequence of keys that were pressed: which
events have been sent completely, which one is being sent and how far, and that the
queue holds what comes next. Every call of `telev_send` and `telev_poll` keeps it, so
when the sender is empty every event has been sent, each as `eventPackets` says.
The receiver reports such packets correctly as long as one packet of the event
itself and one packet of its end arrive.
-/
import LibRe.Mbuf.MbufTheorems
import LibRe.Telev.Telev

namespace LibRe.Telev

open Bytes List

variable {tel : Telev} {packets pkts : List Packet} {event : UInt8} {groups : List (List Packet)}

/-! ## Keys -/

/-- A key that is pressed, and released if there is the event of a release. -/
structure Press where
  event : Nat
  valid : event ≤ 254
  release : Option Int

variable {presses : List Press}

/-- The calls of `telev_send` for a key. -/
def Press.calls (p : Press) : List (Int × Bool) :=
  ((p.event : Int), false) :: (p.release.map fun event => (event, true)).toList

/-- The code of the event on the wire. -/
def Press.code (p : Press) : UInt8 := UInt8.ofNat p.event

theorem Press.code_ne (p : Press) : p.code ≠ eventEnd := by
  intro h
  have hcode : (UInt8.ofNat p.event).toNat = 255 := congrArg UInt8.toNat h
  have hvalid := p.valid
  rw [UInt8.toNat_ofNat'] at hcode
  omega

/-- The byte `telev_send` puts in the queue. -/
def callByte (call : Int × Bool) : UInt8 := if call.2 then eventEnd else UInt8.ofInt call.1

/-- The byte in the queue for a release. -/
def Press.releaseBytes (p : Press) : Bytes := if p.release.isSome then [eventEnd] else []

/-- The bytes in the queue for a sequence of keys. -/
def queueBytes (presses : List Press) : Bytes :=
  presses.flatMap fun p => p.code :: p.releaseBytes

theorem Press.calls_bytes (p : Press) : p.calls.map callByte = p.code :: p.releaseBytes := by
  have hcode : UInt8.ofInt (p.event : Int) = p.code := by
    rw [UInt8.ofInt, Press.code]
    apply UInt8.toNat_inj.mp
    rw [UInt8.toNat_ofNat', UInt8.toNat_ofNat']
    omega
  cases hr : p.release with
  | none | some _ => simp [Press.calls, Press.releaseBytes, callByte, hr, hcode]

theorem calls_queueBytes (presses : List Press) :
    (presses.flatMap Press.calls).map callByte = queueBytes presses := by
  simp [Press.calls_bytes, map_flatMap, queueBytes]

/-! ## The queue -/

section Queue

variable {mb : Mbuf} {b : UInt8} {bs : Bytes}

theorem mbufReadU8_left (h : mb.left = b :: bs) :
    (mbufReadU8 mb).1 = b ∧ (mbufReadU8 mb).2.left = bs ∧
      (mbufReadU8 mb).2.pos = mb.pos + 1 ∧ (mbufReadU8 mb).2.pos ≤ (mbufReadU8 mb).2.end_ := by
  have hlen := length_left mb
  rw [h, length_cons] at hlen
  rw [mbufReadU8_ok (by rw [h, length_cons]; omega)]
  refine ⟨by rw [h]; rfl, by rw [mbufAdvance_left, h]; rfl, rfl, ?_⟩
  rw [mbufAdvance_pos, mbufAdvance_end]
  omega

theorem readRelease_left (h : mb.left = b :: bs) :
    (readRelease mb).left = (if b = eventEnd then bs else b :: bs) ∧
      (readRelease mb).pos ≤ (readRelease mb).end_ := by
  obtain ⟨hb, hbs, hpos, hle⟩ := mbufReadU8_left h
  by_cases hend : b = eventEnd
  · rw [readRelease, hb, if_neg (not_not_intro hend), if_pos hend]
    exact ⟨hbs, hle⟩
  rw [readRelease, hb, if_pos hend, if_neg hend, hpos, Nat.add_sub_cancel]
  have hok : mbufReadU8 mb = (_, mbufAdvance mb 1) :=
    mbufReadU8_ok (by rw [h, length_cons]; omega)
  rw [hok] at hpos hle ⊢
  refine ⟨?_, ?_⟩
  · rw [left_eq, mbufSetPos_bytes, mbufSetPos_pos, mbufAdvance_bytes, ← left_eq, h]
  · grind [mbufSetPos_pos, mbufSetPos_end]

theorem mbufRewind_left (mb : Mbuf) : (mbufRewind mb).left = [] := by
  rfl

end Queue

/-! ## The packets of an event -/

/-- The packets of an event that is held: the first one with the marker bit, and `k`
more, with the durations `dur 0`, `dur 1`, … -/
def heldPackets (dur : Nat → UInt16) (event : UInt8) (k : Nat) : List Packet :=
  ⟨true, payloadEncode event false (dur 0)⟩ ::
    (List.range k).map fun i => ⟨false, payloadEncode event false (dur (i + 1))⟩

/-- The packet of its end. -/
def endPacket (dur : Nat → UInt16) (event : UInt8) (k : Nat) : Packet :=
  ⟨false, payloadEncode event true (dur k)⟩

/-- All packets of an event: the end has the last duration, and is sent three times. -/
def eventPackets (dur : Nat → UInt16) (event : UInt8) (k : Nat) : List Packet :=
  heldPackets dur event k ++ List.replicate 3 (endPacket dur event k)

/-- Durations that increase by the duration of a packet, in the 16 bits of the field. -/
def ticks (pdur : UInt16) : Nat → UInt16
  | 0 => pdur
  | n + 1 => ticks pdur n + pdur

/-- At least eight packets follow the one with the marker bit. -/
def SentAs (pdur : UInt16) (p : Press) (packets : List Packet) : Prop :=
  ∃ k, 8 ≤ k ∧ packets = eventPackets (ticks pdur) p.code k

theorem heldPackets_succ (dur : Nat → UInt16) (event : UInt8) (k : Nat) :
    heldPackets dur event (k + 1) =
      heldPackets dur event k ++ [⟨false, payloadEncode event false (dur (k + 1))⟩] := by
  simp [heldPackets, range_succ]

/-! ## The sender -/

/-- Where the sender is in a sequence of keys: `packets` have been sent, `rest` are the
keys that come after the event that is being sent, and `future` are the bytes that
are still to be put in the queue. -/
inductive Progress (presses : List Press) (future : Bytes) (tel : Telev) :
    List Press → List Packet → Prop where
  | idle (done rest : List Press) (groups : List (List Packet))
      (split : presses = done ++ rest) (sent : List.Forall₂ (SentAs tel.pdur) done groups)
      (state : tel.state = .IDLE) (queue : tel.mb.left ++ future = queueBytes rest) :
      Progress presses future tel rest groups.flatten
  | sending (done rest : List Press) (p : Press) (groups : List (List Packet)) (k : Nat)
      (split : presses = done ++ p :: rest) (sent : List.Forall₂ (SentAs tel.pdur) done groups)
      (state : tel.state = .SENDING) (event : tel.event = p.code)
      (txc : tel.txc = UInt32.ofNat (k + 1)) (dur : tel.dur = ticks tel.pdur k)
      (queue : tel.mb.left ++ future = p.releaseBytes ++ queueBytes rest) :
      Progress presses future tel rest (groups.flatten ++ heldPackets (ticks tel.pdur) p.code k)
  | ending (done rest : List Press) (p : Press) (groups : List (List Packet)) (k j : Nat)
      (split : presses = done ++ p :: rest) (sent : List.Forall₂ (SentAs tel.pdur) done groups)
      (held : 8 ≤ k) (ends : j < 3) (state : tel.state = .ENDING) (event : tel.event = p.code)
      (txc : tel.txc = UInt32.ofNat j) (dur : tel.dur = ticks tel.pdur k)
      (queue : tel.mb.left ++ future = queueBytes rest) :
      Progress presses future tel rest (groups.flatten ++ (heldPackets (ticks tel.pdur) p.code k ++
          List.replicate j (endPacket (ticks tel.pdur) p.code k)))

/-- The position of the queue is not behind its end. -/
def Sound (tel : Telev) : Prop := tel.mb.pos ≤ tel.mb.end_

/-- A byte that is put in the queue comes next in the sequence. -/
theorem Progress.enqueue {rest : List Press} {future : Bytes} {b : UInt8}
    (h : Progress presses (b :: future) tel rest packets)
    {mb : Mbuf} (hleft : mb.left = tel.mb.left ++ [b]) :
    Progress presses future { tel with mb } rest packets := by
  have hqueue : mb.left ++ future = tel.mb.left ++ b :: future := by
    rw [hleft, append_assoc, singleton_append]
  cases h with
  | idle done _ groups split sent state queue =>
    exact .idle done rest groups split sent state (hqueue.trans queue)
  | sending done _ p groups k split sent state event txc dur queue =>
    have hnow : { tel with mb }.mb.left ++ future = _ := hqueue.trans queue
    exact .sending done rest p groups k split sent state event txc dur hnow
  | ending done _ p groups k j split sent held ends state event txc dur queue =>
    have hnow : { tel with mb }.mb.left ++ future = _ := hqueue.trans queue
    exact .ending done rest p groups k j split sent held ends state event txc dur hnow

/-- The packet of a poll. -/
def polled (tel : Telev) : List Packet :=
  match (televPoll tel).1 with
  | .ok (marker, payload) => [⟨marker, payload⟩]
  | .error _ => []

/-- The polls that are needed until nothing is left, if the queue says when the
event that is being sent is over. -/
def pollsLeft (tel : Telev) (rest : List Press) : Nat :=
  match tel.state with
  | .IDLE => 12 * rest.length
  | .SENDING => 4 + (9 - (tel.txc + 1).toNat) + 12 * rest.length
  | .ENDING => 3 - tel.txc.toNat + 12 * rest.length

/-- The sender has nothing to read where it needs something. -/
def Starved (tel : Telev) : Prop := tel.mb.left = [] ∧ tel.state ≠ .ENDING

/-- What a poll does to the progress of the sender. -/
def Advances (presses : List Press) (future : Bytes) (tel : Telev) (rest : List Press)
    (packets : List Packet) : Prop :=
  ∃ rest', Progress presses future (televPoll tel).2 rest' (packets ++ polled tel) ∧
    (¬ Starved tel → pollsLeft (televPoll tel).2 rest' < pollsLeft tel rest)

section Poll

variable {presses done rest : List Press} {future : Bytes} {tel : Telev}
  {groups : List (List Packet)}

theorem getLeft_eq_zero {mb : Mbuf} : mbufGetLeft mb = 0 ↔ mb.left = [] := by
  rw [mbufGetLeft_eq, length_eq_zero_iff]

theorem poll_idle (split : presses = done ++ rest)
    (sent : List.Forall₂ (SentAs tel.pdur) done groups) (state : tel.state = .IDLE)
    (queue : tel.mb.left ++ future = queueBytes rest) :
    Advances presses future tel rest groups.flatten := by
  cases hleft : tel.mb.left with
  | nil =>
    have hpoll : televPoll tel = (.error .ENOENT, tel) := by
      simp only [televPoll, state, if_pos (getLeft_eq_zero.mpr hleft)]
    have hnone : polled tel = [] := by rw [polled, hpoll]
    refine ⟨rest, ?_, fun h => absurd ⟨hleft, by rw [state]; nofun⟩ h⟩
    rw [hnone, append_nil, hpoll]
    exact .idle done rest groups split sent state queue
  | cons b bs =>
    obtain ⟨hb, hbs, -, -⟩ := mbufReadU8_left hleft
    have hne : ¬ mbufGetLeft tel.mb = 0 := by
      simp [getLeft_eq_zero, hleft]
    have hpoll : televPoll tel = (.ok (true, payloadEncode b false tel.pdur),
        { tel with
          mb := (mbufReadU8 tel.mb).2, event := b, dur := tel.pdur, state :=
            .SENDING, txc := 1 }) := by
      simp only [televPoll, state, if_neg hne, hb]
    -- the byte is the code of the next key
    rw [hleft] at queue
    cases rest with
    | nil => cases queue
    | cons p rest =>
      injection queue with hcode hqueue
      subst hcode
      have hpkt : polled tel = heldPackets (ticks tel.pdur) p.code 0 := by
        rw [polled, hpoll]
        rfl
      refine ⟨rest, ?_, fun _ => ?_⟩
      · rw [hpkt, hpoll]
        exact .sending done rest p groups 0 split sent rfl rfl rfl rfl
          ((congrArg (· ++ future) hbs).trans hqueue)
      · simp [pollsLeft, hpoll, state]
        omega

section Event

variable {p : Press} {k j : Nat} (split : presses = done ++ p :: rest)
  (sent : List.Forall₂ (SentAs tel.pdur) done groups) (hevent : tel.event = p.code)
  (dur : tel.dur = ticks tel.pdur k)
include split sent hevent dur

theorem poll_sending (state : tel.state = .SENDING) (txc : tel.txc = UInt32.ofNat (k + 1))
    (queue : tel.mb.left ++ future = p.releaseBytes ++ queueBytes rest) :
    Advances presses future tel rest (groups.flatten ++ heldPackets (ticks tel.pdur) p.code k) := by
  have hdur : tel.dur + tel.pdur = ticks tel.pdur (k + 1) := by rw [dur, ticks]
  have htxc : tel.txc + 1 = UInt32.ofNat (k + 1 + 1) := by
    simp [txc]
  have hone : polled tel = [⟨false, payloadEncode p.code false (ticks tel.pdur (k + 1))⟩] := by
    simp only [polled, televPoll, state, hevent, hdur]
  rw [Advances, hone, append_assoc, ← heldPackets_succ]
  by_cases hstay : tel.txc + 1 < txcDigitMin ∨ tel.mb.left = []
  · -- the event is short, or the key is held: nothing says that the event is over
    have hpoll : (televPoll tel).2 =
        { tel with dur := tel.dur + tel.pdur, txc := tel.txc + 1 } := by
      rcases hstay with h | h <;> simp [televPoll, state, getLeft_eq_zero, h]
    rw [hpoll]
    refine ⟨rest, .sending done rest p groups (k + 1) split sent state hevent htxc hdur queue,
      fun hfed => ?_⟩
    have hlt : (tel.txc + 1).toNat < 9 :=
      hstay.resolve_right fun hleft => hfed ⟨hleft, by rw [state]; nofun⟩
    have hsucc : (tel.txc + 1 + 1).toNat = (tel.txc + 1).toNat + 1 := by
      grind [UInt32.toNat_add]
    simp only [pollsLeft, state, hsucc]
    omega
  · obtain ⟨hmin, hleft⟩ := not_or.mp hstay
    obtain ⟨b, bs, hbs⟩ := exists_cons_of_ne_nil hleft
    obtain ⟨hrest, -⟩ := readRelease_left hbs
    have hpoll : (televPoll tel).2 = { tel with
        mb := readRelease tel.mb, dur := tel.dur + tel.pdur, state := .ENDING, txc := 0 } := by
      simp only [televPoll, state, if_neg hmin, getLeft_eq_zero, if_neg hleft]
    have hmany : 9 ≤ (tel.txc + 1).toNat := Nat.le_of_not_lt hmin
    have hheld : 8 ≤ k + 1 := by
      rw [htxc, UInt32.toNat_ofNat'] at hmany
      omega
    -- a release is taken from the queue, the next key stays there
    have hqueue : (readRelease tel.mb).left ++ future = queueBytes rest := by
      rw [hrest]
      rw [hbs, cons_append] at queue
      cases hrel : p.release with
      | some event' =>
        rw [Press.releaseBytes, hrel] at queue
        injection queue with hb hq
        rw [if_pos hb]
        exact hq
      | none =>
        rw [Press.releaseBytes, hrel] at queue
        cases rest with
        | nil => cases queue
        | cons q rest =>
          have hq : b :: (bs ++ future) = queueBytes (q :: rest) := queue
          have hb : b = q.code := by
            injection hq
          rw [if_neg (hb ▸ q.code_ne)]
          exact hq
    rw [hpoll]
    refine ⟨rest, ?_, fun _ => ?_⟩
    · have h : Progress presses future { tel with
          mb := readRelease tel.mb, dur := tel.dur + tel.pdur, state := .ENDING, txc :=
            0 } rest _ :=
        .ending done rest p groups (k + 1) 0 split sent hheld (Nat.zero_lt_succ _) rfl hevent rfl
          hdur hqueue
      rwa [replicate_zero, append_nil] at h
    · simp [pollsLeft, state]
      omega

theorem poll_ending (held : 8 ≤ k) (ends : j < 3) (state : tel.state = .ENDING)
    (txc : tel.txc = UInt32.ofNat j) (queue : tel.mb.left ++ future = queueBytes rest) :
    Advances presses future tel rest (groups.flatten ++ (heldPackets (ticks tel.pdur) p.code k ++
        replicate j (endPacket (ticks tel.pdur) p.code k))) := by
  have htxc : tel.txc + 1 = UInt32.ofNat (j + 1) := by
    simp [txc]
  have hnat : tel.txc.toNat = j ∧ (tel.txc + 1).toNat = j + 1 := by
    simp [txc]
    omega
  have hone : polled tel = [endPacket (ticks tel.pdur) p.code k] := by
    simp only [polled, televPoll, state, hevent, dur, endPacket]
  rw [Advances, hone, append_assoc, append_assoc, ← replicate_succ']
  by_cases hmore : tel.txc + 1 < txcEnd
  · have hpoll : (televPoll tel).2 = { tel with txc := tel.txc + 1 } := by
      simp only [televPoll, state, if_pos hmore]
    have hlt : (tel.txc + 1).toNat < 3 := hmore
    rw [hpoll]
    refine ⟨rest, .ending done rest p groups k (j + 1) split sent held (by omega) state hevent htxc
      dur queue, fun _ => ?_⟩
    simp only [pollsLeft, state]
    omega
  · have hpoll : (televPoll tel).2 = { tel with
        mb := if mbufGetLeft tel.mb = 0 then mbufRewind tel.mb else tel.mb
        state := .IDLE, txc := tel.txc + 1 } := by
      simp only [televPoll, state, if_neg hmore]
    have hge : 3 ≤ (tel.txc + 1).toNat := Nat.le_of_not_lt hmore
    have hlast : j + 1 = 3 := by omega
    -- an empty queue starts again at the front of its buffer
    have hmb : (if mbufGetLeft tel.mb = 0 then mbufRewind tel.mb else tel.mb).left =
        tel.mb.left := by
      by_cases hleft : mbufGetLeft tel.mb = 0
      · rw [if_pos hleft, mbufRewind_left, getLeft_eq_zero.mp hleft]
      · rw [if_neg hleft]
    rw [hpoll, hlast]
    refine ⟨rest, ?_, fun _ => ?_⟩
    · have hdone : List.Forall₂ (SentAs tel.pdur) (done ++ [p])
          (groups ++ [eventPackets (ticks tel.pdur) p.code k]) :=
        rel_append sent (.cons ⟨k, held, rfl⟩ .nil)
      have h : Progress presses future { tel with
          mb := _, state := .IDLE, txc := tel.txc + 1 } rest _ :=
        .idle (done ++ [p]) rest _ (by rw [split, append_assoc]; rfl) hdone rfl
          ((congrArg (· ++ future) hmb).trans queue)
      rwa [flatten_append, flatten_singleton] at h
    · simp only [pollsLeft, state]
      omega

end Event

/-- A poll keeps the progress of the sender. -/
theorem Progress.poll
    (h : Progress presses future tel rest packets) : Advances presses future tel rest packets := by
  cases h with
  | idle done _ groups split sent state queue => exact poll_idle split sent state queue
  | sending done _ p groups k split sent state event txc dur queue =>
    exact poll_sending split sent event dur state txc queue
  | ending done _ p groups k j split sent held ends state event txc dur queue =>
    exact poll_ending split sent event dur held ends state txc queue

end Poll

/-! ## Runs of the sender -/

/-- What every call keeps: whatever is still to be put in the queue, the sender is in
the sequence where the calls have brought it. -/
structure RunInv (presses : List Press) (pdur : UInt16) (r : Sent) : Prop where
  progress : ∀ future, r.calls.map callByte ++ future = queueBytes presses →
    ∃ rest, Progress presses future r.tel rest r.packets
  sound : Sound r.tel
  pdur_eq : r.tel.pdur = pdur

theorem televPoll_pdur (tel : Telev) : (televPoll tel).2.pdur = tel.pdur := by
  rw [televPoll]
  cases tel.state <;> grind

theorem televPoll_sound (h : Sound tel) : Sound (televPoll tel).2 := by
  have hread : ¬ mbufGetLeft tel.mb = 0 → ∃ b bs, tel.mb.left = b :: bs := by
    simp_all [getLeft_eq_zero, exists_cons_of_ne_nil]
  rw [televPoll]
  cases tel.state with
  | IDLE =>
    simp only
    split
    · exact h
    · obtain ⟨b, bs, hbs⟩ := hread ‹_›
      exact (mbufReadU8_left hbs).2.2.2
  | SENDING =>
    simp only
    split
    · exact h
    · split
      · exact h
      · obtain ⟨b, bs, hbs⟩ := hread ‹_›
        exact (readRelease_left hbs).2
  | ENDING =>
    simp only
    split
    · exact h
    · split
      · exact le_refl _
      · exact h

theorem exec_poll (r : Sent) :
    exec r .poll = { r with packets := r.packets ++ polled r.tel, tel := (televPoll r.tel).2 } := by
  rw [exec, polled]
  rcases televPoll r.tel with ⟨err | ⟨marker, payload⟩, tel⟩
  · simp only [append_nil]
  · rfl

section Run

variable {presses : List Press} {pdur : UInt16} {r : Sent}

theorem RunInv.exec (h : RunInv presses pdur r) (op : Op) : RunInv presses pdur (exec r op) := by
  cases op with
  | send event end_ =>
    by_cases hfull : r.tel.mb.end_ ≥ queueSize
    · have hsend : televSend r.tel event end_ = (some .EOVERFLOW, r.tel) := if_pos hfull
      simp only [Telev.exec, hsend]
      exact h
    have hsend : televSend r.tel event end_ = (none, _) := if_neg hfull
    obtain ⟨hleft, hle⟩ := append_left h.sound [callByte (event, end_)]
    simp only [Telev.exec, hsend]
    refine ⟨fun future hcalls => ?_, hle, h.pdur_eq⟩
    rw [map_append, append_assoc] at hcalls
    obtain ⟨rest, hprog⟩ := h.progress (callByte (event, end_) :: future) hcalls
    exact ⟨rest, hprog.enqueue hleft⟩
  | poll =>
    rw [exec_poll]
    refine ⟨fun future hcalls => ?_, ?_, (televPoll_pdur _).trans h.pdur_eq⟩
    · obtain ⟨rest, hprog⟩ := h.progress future hcalls
      obtain ⟨rest', hnext, -⟩ := hprog.poll
      exact ⟨rest', hnext⟩
    · exact televPoll_sound h.sound

theorem RunInv.foldl (h : RunInv presses pdur r) (ops : List Op) :
    RunInv presses pdur (ops.foldl Telev.exec r) :=
  foldlRecOn ops Telev.exec h fun _ hr op _ => hr.exec op

variable {rest : List Press}

/-- The sender stops only where the sequence ends, or where it ends with a key that
is held. -/
theorem Progress.not_starved (h : Progress presses [] tel rest packets)
    (hlast : ∀ p ∈ presses.getLast?, p.release.isSome) (hempty : televIsEmpty tel = false) :
    ¬ Starved tel := by
  rintro ⟨hleft, hstate⟩
  cases h with
  | idle done _ groups split sent state queue =>
    have htrue : televIsEmpty tel = true := decide_eq_true ⟨state, getLeft_eq_zero.mpr hleft⟩
    rw [htrue] at hempty
    cases hempty
  | sending done _ p groups k split sent state event txc dur queue =>
    rw [hleft, append_nil] at queue
    obtain ⟨hrel, hrest⟩ := append_eq_nil_iff.mp queue.symm
    cases rest with
    | cons q rest => cases hrest
    | nil =>
      have hsome := hlast p (by rw [split, getLast?_concat]; rfl)
      rw [Press.releaseBytes, if_pos hsome] at hrel
      cases hrel
  | ending done _ p groups k j split sent held ends state event txc dur queue =>
    exact hstate state

/-- Enough polls send everything that is in the queue. -/
theorem polls_drain (hlast : ∀ p ∈ presses.getLast?, p.release.isSome) (m : Nat) :
    ∀ (r : Sent) (rest : List Press), Progress presses [] r.tel rest r.packets →
      pollsLeft r.tel rest < m →
      ∃ n, televIsEmpty ((replicate n Op.poll).foldl Telev.exec r).tel = true := by
  induction m with
  | zero => exact fun r rest h hm => absurd hm (Nat.not_lt_zero _)
  | succ m ih =>
    intro r rest h hm
    by_cases hempty : televIsEmpty r.tel = true
    · exact ⟨0, hempty⟩
    obtain ⟨rest', hnext, hless⟩ := h.poll
    have hlt := hless (h.not_starved hlast (Bool.eq_false_iff.mpr hempty))
    obtain ⟨n, hn⟩ := ih (Telev.exec r .poll) rest' (by rw [exec_poll]; exact hnext)
      (by rw [exec_poll]; exact hlt.trans_le (Nat.le_of_lt_succ hm))
    exact ⟨n + 1, hn⟩

theorem polls_calls (n : Nat) (r : Sent) :
    ((replicate n Op.poll).foldl Telev.exec r).calls = r.calls := by
  induction n generalizing r with
  | zero => rfl
  | succ n ih =>
    rw [replicate_succ, foldl_cons, ih, exec_poll]

/-- An empty sender has sent all events. -/
theorem Progress.all_sent
    (h : Progress presses [] tel rest packets) (hempty : televIsEmpty tel = true) :
    ∃ groups, packets = groups.flatten ∧ List.Forall₂ (SentAs tel.pdur) presses groups := by
  obtain ⟨hidle, hzero⟩ := of_decide_eq_true hempty
  cases h with
  | idle done _ groups split sent state queue =>
    rw [getLeft_eq_zero.mp hzero, append_nil] at queue
    cases rest with
    | nil =>
      rw [append_nil] at split
      exact ⟨groups, rfl, split ▸ sent⟩
    | cons p rest => cases queue
  | sending _ _ _ _ _ _ _ _ _ _ _ _ | ending _ _ _ _ _ _ _ _ _ _ _ _ _ _ _ =>
    simp_all

end Run

/-! ## The receiver -/

@[simp] theorem payloadDecode_encode (event : UInt8) (end_ : Bool) (dur : UInt16) :
    payloadDecode (payloadEncode event end_ dur) = .ok ⟨event, end_, volume, dur⟩ := by
  have hdur : ofBe16 (be16 dur) = dur := by
    have h := ofBe16_be16_append dur []
    rwa [append_nil] at h
  have hdec : payloadDecode (payloadEncode event end_ dur) =
      .ok ⟨event, ((if end_ then (0x80 : UInt8) else 0x00) ||| (volume &&& 0x3f)) &&& 0x80 == 0x80,
        ((if end_ then (0x80 : UInt8) else 0x00) ||| (volume &&& 0x3f)) &&& 0x3f,
        ofBe16 (be16 dur)⟩ := rfl
  rw [hdec, hdur]
  cases end_ <;> rfl

/-- The packet says that the event has ended. -/
def Packet.isEnd (pkt : Packet) : Bool :=
  match payloadDecode pkt.payload with
  | .ok fmt => fmt.end_
  | .error _ => false

/-- The packet is one of the event, or of its end. -/
def Carries (event : UInt8) (end_ : Bool) (pkt : Packet) : Prop :=
  ∃ dur, pkt.payload = payloadEncode event end_ dur

variable {end_ : Bool} {dur : Nat → UInt16} {k : Nat} {pdur : UInt16}

theorem Carries.isEnd_eq {pkt : Packet} (h : Carries event end_ pkt) : pkt.isEnd = end_ := by
  obtain ⟨dur, h⟩ := h
  rw [Packet.isEnd, h, payloadDecode_encode]

theorem heldPackets_carry : ∀ pkt ∈ heldPackets dur event k, Carries event false pkt := by
  intro pkt hpkt
  rcases mem_cons.mp hpkt with rfl | hmem
  · exact ⟨_, rfl⟩
  · obtain ⟨i, -, rfl⟩ := mem_map.mp hmem
    exact ⟨_, rfl⟩

/-- Of packets that say the same the first one is reported, if it is news, and the
others are not. -/
theorem recvAll_repeated {tel' : Telev} (hne : pkts ≠ [])
    (hpkts : ∀ pkt ∈ pkts, Carries event end_ pkt)
    (hnews : ∀ dur, televRecv tel (payloadEncode event end_ dur) = (.ok (event.toNat, end_), tel'))
    (hagain : ∀ dur, televRecv tel' (payloadEncode event end_ dur) = (.error .EALREADY, tel'))
    (rest : List Bytes) :
    recvAll tel (pkts.map Packet.payload ++ rest) = ((event.toNat : Int), end_) ::
      recvAll tel' rest := by
  have hskip : ∀ l : List Packet, (∀ pkt ∈ l, pkt ∈ pkts) →
      recvAll tel' (l.map Packet.payload ++ rest) = recvAll tel' rest := by
    intro l hl
    induction l with
    | nil => rfl
    | cons pkt l ih =>
      obtain ⟨dur, hpay⟩ := hpkts pkt (hl pkt mem_cons_self)
      rw [map_cons, cons_append, recvAll, hpay, hagain]
      exact ih fun q hq => hl q (mem_cons_of_mem _ hq)
  cases pkts with
  | nil => exact absurd rfl hne
  | cons pkt pkts =>
    obtain ⟨dur, hpay⟩ := hpkts pkt mem_cons_self
    rw [map_cons, cons_append, recvAll, hpay, hnews]
    exact congrArg _ (hskip pkts fun _ => mem_cons_of_mem _)

/-- Packets of an event that is new. -/
theorem recvAll_start (hidle : tel.rxEvent = -1)
    (hne : pkts ≠ []) (hpkts : ∀ pkt ∈ pkts, Carries event false pkt) (rest : List Bytes) :
    recvAll tel (pkts.map Packet.payload ++ rest) = ((event.toNat : Int), false) ::
        recvAll { tel with rxEvent := event.toNat, rxEnd := false } rest := by
  have hnew : ¬ (event.toNat : Int) = tel.rxEvent := by omega
  exact recvAll_repeated hne hpkts (by simp [televRecv, hnew]) (by simp [televRecv]) rest

/-- Packets of the end of an event. -/
theorem recvAll_end (hend : tel.rxEnd = false)
    (hne : pkts ≠ []) (hpkts : ∀ pkt ∈ pkts, Carries event true pkt) (rest : List Bytes) :
    recvAll tel (pkts.map Packet.payload ++ rest) =
      ((event.toNat : Int), true) :: recvAll { tel with rxEvent := -1, rxEnd := true } rest :=
  recvAll_repeated hne hpkts (by simp [televRecv, hend]) (by simp [televRecv]) rest

/-- What arrives of the packets of an event: at least one packet of the event itself
and one of its end, in the order in which they were sent. -/
def Admissible (sent kept : List Packet) : Prop :=
  kept.Sublist sent ∧ (∃ pkt ∈ kept, pkt.isEnd = false) ∧ ∃ pkt ∈ kept, pkt.isEnd = true

theorem recvAll_event {kept : List Packet}
    (h : Admissible (eventPackets dur event k) kept) (hidle : tel.rxEvent = -1)
    (rest : List Bytes) :
    recvAll tel (kept.map Packet.payload ++ rest) =
      ((event.toNat : Int), false) :: ((event.toNat : Int), true) ::
        recvAll { tel with rxEvent := -1, rxEnd := true } rest := by
  obtain ⟨hsub, ⟨a, ha, haend⟩, b, hb, hbend⟩ := h
  obtain ⟨held, ends, rfl, hheld, hends⟩ := sublist_append_iff.mp hsub
  have hcheld : ∀ pkt ∈ held, Carries event false pkt := fun pkt hp =>
    heldPackets_carry pkt (hheld.subset hp)
  have hcends : ∀ pkt ∈ ends, Carries event true pkt := by
    intro pkt hp
    obtain ⟨-, rfl⟩ := mem_replicate.mp (hends.subset hp)
    exact ⟨_, rfl⟩
  have hheldne : held ≠ [] := by
    grind
  have hendsne : ends ≠ [] := by
    grind [Carries.isEnd_eq]
  rw [map_append, append_assoc, recvAll_start hidle hheldne hcheld, recvAll_end rfl hendsne hcends]

theorem recvAll_events (hsent : List.Forall₂ (SentAs pdur) presses groups) :
    ∀ {kept : List (List Packet)} {tel : Telev}, tel.rxEvent = -1 →
      List.Forall₂ Admissible groups kept →
      recvAll tel (kept.flatten.map Packet.payload) =
        presses.flatMap fun p => [((p.event : Int), false), ((p.event : Int), true)] := by
  induction hsent with
  | nil =>
    intro kept tel _ hkept
    cases hkept
    rfl
  | @cons p g presses groups hp _ ih =>
    intro kept tel hidle hkept
    cases hkept with
    | @cons _ a _ kept hadm hrest =>
      obtain ⟨k, -, rfl⟩ := hp
      have hcode : p.code.toNat = p.event := by
        have hvalid := p.valid
        rw [Press.code, UInt8.toNat_ofNat']
        omega
      rw [flatten_cons, map_append, recvAll_event hadm hidle, ih rfl hrest, hcode]
      rfl

/-! ## From the keypad to the other end -/

theorem exists_sent
    (h : List.Forall₂ (SentAs pdur) presses groups) {g : List Packet} (hg : g ∈ groups) :
    ∃ p ∈ presses, SentAs pdur p g := by
  induction h with
  | nil => cases hg
  | cons hp _ ih =>
    rcases mem_cons.mp hg with rfl | hmem
    · exact ⟨_, mem_cons_self, hp⟩
    · simp [ih, hmem]

/-- Keys are pressed and released, with polls in between, on a sender that is empty at
first. If the last key is released, enough polls empty the sender. Whenever it is empty,
every key has been sent as one packet with the marker bit, at least eight more packets
with durations that increase by the packet duration in 16 bits, and three packets of the
end with the last duration; and a receiver that gets at least one packet of each event
itself and one of its end, in order, reports the start and the end of every event. -/
theorem events_sent_and_reported (tel : Telev) (hfresh : televIsEmpty tel = true)
    (hsound : Sound tel) (presses : List Press) (ops : List Op)
    (hcalls : (run tel ops).calls = presses.flatMap Press.calls) :
    ((∀ p ∈ presses.getLast?, p.release.isSome) →
      ∃ n, televIsEmpty (run tel (ops ++ replicate n .poll)).tel = true) ∧
    ∀ n, televIsEmpty (run tel (ops ++ replicate n .poll)).tel = true →
      ∃ groups, (run tel (ops ++ replicate n .poll)).packets = groups.flatten ∧
        List.Forall₂ (SentAs tel.pdur) presses groups ∧
        ∀ (rx : Telev) (kept : List (List Packet)), rx.rxEvent = -1 →
          List.Forall₂ Admissible groups kept →
          recvAll rx (kept.flatten.map Packet.payload) =
            presses.flatMap fun p => [((p.event : Int), false), ((p.event : Int), true)] := by
  obtain ⟨hidle, hzero⟩ := of_decide_eq_true hfresh
  have hstart : RunInv presses tel.pdur ⟨[], [], tel⟩ := by
    refine ⟨fun future hqueue => ⟨presses, ?_⟩, hsound, rfl⟩
    exact .idle [] presses [] rfl .nil hidle (by rw [getLeft_eq_zero.mp hzero]; exact hqueue)
  have hbytes : (run tel ops).calls.map callByte ++ [] = queueBytes presses := by
    rw [hcalls, calls_queueBytes, append_nil]
  have hpolls : ∀ n, run tel (ops ++ replicate n .poll) =
      (replicate n Op.poll).foldl exec (run tel ops) := fun n => foldl_append
  refine ⟨fun hlast => ?_, fun n hempty => ?_⟩
  · obtain ⟨rest, hprog⟩ := (hstart.foldl ops).progress [] hbytes
    obtain ⟨n, hn⟩ := polls_drain hlast _ (run tel ops) rest hprog (Nat.lt_succ_self _)
    exact ⟨n, by rw [hpolls]; exact hn⟩
  have hinv := hstart.foldl (ops ++ replicate n .poll)
  have hsame : (run tel (ops ++ replicate n .poll)).calls = (run tel ops).calls := by
    simp [polls_calls, hpolls]
  obtain ⟨rest, hprog⟩ := hinv.progress [] (by rw [← hbytes, ← hsame]; rfl)
  obtain ⟨groups, hpackets, hsent⟩ := hprog.all_sent hempty
  rw [hinv.pdur_eq] at hsent
  exact ⟨groups, hpackets, hsent, fun rx kept hrx hkept => recvAll_events hsent hrx hkept⟩

theorem newSender_end_le : 0 ≤ (replicate 16 (0 : UInt8)).length := Nat.zero_le _

/-- A new sender with packets of 50 ms, at a clock rate of 48 kHz. -/
def newSender : Telev :=
  { mb := ⟨replicate 16 0, 0, 0, newSender_end_le⟩, ptime := 50, pdur := 2400
    state := .IDLE, event := 0, dur := 0, txc := 0, rxEvent := -1, rxEnd := false }

example : ((televAlloc 50).bind fun tel => televSetSrate tel 48000) = .ok newSender := by
  decide +kernel

/-- The key 5, pressed and released. -/
def keyFive : Press := ⟨5, by decide, some 5⟩

/-- The same key twice, the second time before the first event has been sent. -/
theorem events_sent_and_reported_twice :
    ∃ n groups, (run newSender ([.send 5 false, .poll, .send 5 true, .send 5 false, .send 5 true] ++
        replicate n .poll)).packets = groups.flatten ∧
      List.Forall₂ (SentAs 2400) [keyFive, keyFive] groups ∧
      recvAll newSender (groups.flatten.map Packet.payload) =
        [(5, false), (5, true), (5, false), (5, true)] := by
  obtain ⟨hdrains, hsent⟩ := events_sent_and_reported newSender rfl (le_refl _)
    [keyFive, keyFive] [.send 5 false, .poll, .send 5 true, .send 5 false, .send 5 true] rfl
  obtain ⟨n, hn⟩ := hdrains (by rintro p ⟨⟩; rfl)
  obtain ⟨groups, hpackets, hall, hreported⟩ := hsent n hn
  refine ⟨n, groups, hpackets, hall, hreported newSender groups rfl ?_⟩
  refine forall₂_same.mpr fun g hg => ⟨List.Sublist.refl _, ?_, ?_⟩
  · obtain ⟨p, -, k, -, rfl⟩ := exists_sent hall hg
    exact ⟨_, mem_append_left _ (mem_cons_self), (Carries.isEnd_eq ⟨_, rfl⟩)⟩
  · obtain ⟨p, -, k, -, rfl⟩ := exists_sent hall hg
    exact ⟨_, mem_append_right _ (mem_cons_self), (Carries.isEnd_eq ⟨_, rfl⟩)⟩

/-- As `SentAs`, with durations that are numbers and not 16 bits of them. -/
def SentIncreasing (pdur : UInt16) (p : Press) (packets : List Packet) : Prop :=
  ∃ k dur, 8 ≤ k ∧ packets = eventPackets dur p.code k ∧
    ∀ i ≤ k, (dur i).toNat = (i + 1) * pdur.toNat

/-- The key is held for 28 packets of 2400 units each. -/
def heldFive : List Op :=
  .send 5 false :: List.replicate 28 .poll ++ .send 5 true :: List.replicate 4 .poll

/-- The duration of an event that is held for long enough wraps around. -/
theorem held_duration_wraps :
    ¬ ∀ (tel : Telev) (presses : List Press) (ops : List Op),
      televIsEmpty tel = true → Sound tel → (run tel ops).calls = presses.flatMap Press.calls →
      televIsEmpty (run tel ops).tel = true →
      ∃ groups, (run tel ops).packets = groups.flatten ∧
        List.Forall₂ (SentIncreasing tel.pdur) presses groups := by
  intro h
  obtain ⟨groups, hpackets, hsent⟩ :=
    h newSender [keyFive] heldFive rfl (le_refl _) (by decide +kernel) (by decide +kernel)
  obtain ⟨g, rfl, k, dur, -, hg, hdur⟩ : ∃ g, groups = [g] ∧ SentIncreasing 2400 keyFive g := by
    cases hsent with
    | cons hfirst hrest =>
      cases hrest
      exact ⟨_, rfl, hfirst⟩
  have hlen := congrArg length hpackets
  rw [flatten_singleton, hg] at hlen
  have hcount : (run newSender heldFive).packets.length = 32 := by decide +kernel
  simp only [hcount, eventPackets, heldPackets, length_append, length_cons, length_map,
    length_range, length_replicate] at hlen
  have hk : k = 28 := by omega
  subst hk
  have hlast : (dur 28).toNat = 69600 := hdur 28 (le_refl _)
  have hfits := (dur 28).toNat_lt
  omega

end LibRe.Telev
