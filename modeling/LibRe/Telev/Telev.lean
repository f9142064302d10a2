/-
LibRe.Telev.Telev — telephone events (`src/telev/telev.c`).

`telev_send` puts one byte for a key that is pressed or released in a queue.
`telev_poll`, called in every packet interval, is the sender: it sends the event at
the front of the queue until the queue says that it is over, and then the end of it
three times. `telev_recv` reports an event when it starts and when it ends.

Translation notes. The bytes `payload_encode` writes to the caller's buffer, and the
bytes `payload_decode` finds there, are lists. `int event` of the sender is a byte,
as it is only assigned from `mbuf_read_u8`.
-/
import LibRe.Mbuf.Mbuf

namespace LibRe

open Bytes

/-- `enum state` -/
inductive Telev.State where
  | IDLE | SENDING | ENDING
  deriving DecidableEq, Repr

/-- `struct telev` -/
structure Telev where
  mb : Mbuf
  ptime : UInt32
  pdur : UInt16
  state : Telev.State
  event : UInt8
  dur : UInt16
  txc : UInt32
  rxEvent : Int
  rxEnd : Bool
  deriving DecidableEq, Repr

namespace Telev

/-- `TXC_DIGIT_MIN` -/
def txcDigitMin : UInt32 := 9

/-- `TXC_END` -/
def txcEnd : UInt32 := 3

/-- `EVENT_END` -/
def eventEnd : UInt8 := 0xff

/-- `PAYLOAD_SIZE` -/
def payloadSize : Nat := 4

/-- `VOLUME` -/
def volume : UInt8 := 10

/-- `QUEUE_SIZE` -/
def queueSize : Nat := 8192

/-- `struct telev_fmt` -/
structure TelevFmt where
  event : UInt8
  end_ : Bool
  vol : UInt8
  dur : UInt16
  deriving DecidableEq, Repr

/-- `payload_encode`: the bytes it writes. -/
def payloadEncode (event : UInt8) (end_ : Bool) (dur : UInt16) : Bytes :=
  event :: ((if end_ then 0x80 else 0x00) ||| (volume &&& 0x3f)) :: be16 dur

/-- `payload_decode` -/
def payloadDecode : Bytes → Except Errno TelevFmt
  | event :: b :: hi :: lo :: _ =>
    .ok { event, end_ := (b &&& 0x80) == 0x80, vol := b &&& 0x3f, dur := ofBe16 [hi, lo] }
  | _ => .error .ENOENT

/-- `telev_alloc` -/
def televAlloc (ptime : UInt32) : Except Errno Telev :=
  if ptime = 0 then .error .EINVAL
  else
    .ok { mb := ⟨List.replicate 16 0, 0, 0, Nat.zero_le _⟩, ptime, pdur := (ptime * 8).toUInt16
          state := .IDLE, event := 0, dur := 0, txc := 0, rxEvent := -1, rxEnd := false }

variable (tel : Telev)

/-- `telev_set_srate` -/
def televSetSrate (srate : UInt32) : Except Errno Telev :=
  if srate = 0 then .error .EINVAL
  else .ok { tel with pdur := (tel.ptime * srate / 1000).toUInt16 }

/-- `telev_send` -/
def televSend (event : Int) (end_ : Bool) : Option Errno × Telev :=
  if tel.mb.end_ ≥ queueSize then (some .EOVERFLOW, tel)
  else
    (none, { tel with
      mb := mbufSetPos
        (mbufWriteU8 (mbufSetPos tel.mb tel.mb.end_) (if end_ then eventEnd else UInt8.ofInt event))
        tel.mb.pos })

/-- `telev_recv`: the event and the end flag, and the state. -/
def televRecv (mb : Bytes) : Except Errno (Int × Bool) × Telev :=
  match payloadDecode mb with
  | .error err => (.error err, tel)
  | .ok fmt =>
    if fmt.end_ then
      if tel.rxEnd then (.error .EALREADY, tel)
      else (.ok (fmt.event.toNat, true), { tel with rxEvent := -1, rxEnd := true })
    else if (fmt.event.toNat : Int) = tel.rxEvent then (.error .EALREADY, tel)
    else (.ok (fmt.event.toNat, false), { tel with rxEvent := fmt.event.toNat, rxEnd := false })

/-- `if (mbuf_read_u8(tel->mb) != EVENT_END) tel->mb->pos--;` -/
def readRelease (mb : Mbuf) : Mbuf :=
  if (mbufReadU8 mb).1 ≠ eventEnd then mbufSetPos (mbufReadU8 mb).2 ((mbufReadU8 mb).2.pos - 1)
  else (mbufReadU8 mb).2

/-- `telev_poll`: the marker bit and the payload, and the state. -/
def televPoll : Except Errno (Bool × Bytes) × Telev :=
  match tel.state with
  | .IDLE =>
    if mbufGetLeft tel.mb = 0 then (.error .ENOENT, tel)
    else
      (.ok (true, payloadEncode (mbufReadU8 tel.mb).1 false tel.pdur),
        { tel with
          mb := (mbufReadU8 tel.mb).2, event := (mbufReadU8 tel.mb).1, dur := tel.pdur
          state := .SENDING, txc := 1 })
  | .SENDING =>
    (.ok (false, payloadEncode tel.event false (tel.dur + tel.pdur)),
      if tel.txc + 1 < txcDigitMin then { tel with dur := tel.dur + tel.pdur, txc := tel.txc + 1 }
      else if mbufGetLeft tel.mb = 0 then { tel with dur := tel.dur + tel.pdur, txc := tel.txc + 1 }
      else
        { tel with
          mb := readRelease tel.mb, dur := tel.dur + tel.pdur, state := .ENDING, txc := 0 })
  | .ENDING =>
    (.ok (false, payloadEncode tel.event true tel.dur),
      if tel.txc + 1 < txcEnd then { tel with txc := tel.txc + 1 }
      else
        { tel with
          mb := if mbufGetLeft tel.mb = 0 then mbufRewind tel.mb else tel.mb
          state := .IDLE, txc := tel.txc + 1 })

/-- `telev_is_empty` -/
def televIsEmpty : Bool := tel.state = .IDLE ∧ mbufGetLeft tel.mb = 0

/-! ## Runs -/

/-- What the application does with the sender. -/
inductive Op where
  | send (event : Int) (end_ : Bool)
  | poll
  deriving DecidableEq, Repr

/-- A packet that is sent. -/
structure Packet where
  marker : Bool
  payload : Bytes
  deriving DecidableEq, Repr

/-- The sender behind some calls: the calls of `telev_send` that were not refused, the
packets, and the state. -/
structure Sent where
  calls : List (Int × Bool)
  packets : List Packet
  tel : Telev

/-- One call. -/
def exec (r : Sent) : Op → Sent
  | .send event end_ =>
    match televSend r.tel event end_ with
    | (some _, tel) => { r with tel }
    | (none, tel) => { r with calls := r.calls ++ [(event, end_)], tel }
  | .poll =>
    match televPoll r.tel with
    | (.error _, tel) => { r with tel }
    | (.ok (marker, payload), tel) =>
      { r with packets := r.packets ++ [⟨marker, payload⟩], tel }

/-- One call after the other. -/
def run (ops : List Op) : Sent := ops.foldl exec ⟨[], [], tel⟩

/-- The receiver: what `telev_recv` reports of the payloads that arrive. -/
def recvAll : Telev → List Bytes → List (Int × Bool)
  | _, [] => []
  | tel, mb :: mbs =>
    match televRecv tel mb with
    | (.ok report, tel) => report :: recvAll tel mbs
    | (.error _, tel) => recvAll tel mbs

end Telev

end LibRe
