/-
LibRe.Dns.Tcp — DNS messages over TCP (`tcp_recv_handler` of `src/dns/client.c`).

Every message is preceded by its length in two bytes. The handler collects the
length and then the message in one buffer that lives as long as the connection,
and hands every complete message to `reply_recv`. When that returns an error
the connection is closed.

However the stream is cut into segments, `reply_recv` is handed the complete
frames of the stream, in order, up to the first one it rejects. The handler
never keeps more than one unfinished frame, so it is a receiver in the sense of
`LibRe.Lib.Stream` although it does not store the length it has read as bytes.

Translation notes. `reply_recv` is translated up to the question section; what
it does with the answer to a query (`answer`) is a parameter, over any state of
the client. It gets the buffer as the bytes in use, which is all its readers
look at. The subtractions `2 - mb->end` and `flen - mb->end` never wrap, because
the handler returns as soon as the buffer is full.
-/
import LibRe.Lib.Stream
import LibRe.Mbuf.Parse
import LibRe.Dns.Dname

namespace LibRe.Dns

open Bytes LibRe.Stream

/-! ## The messages -/

/-- `struct dnshdr` -/
structure Dnshdr where
  id : UInt16
  qr : Bool
  opcode : UInt8
  aa : Bool
  tc : Bool
  rd : Bool
  ra : Bool
  z : UInt8
  rcode : UInt8
  nq : UInt16
  nans : UInt16
  nauth : UInt16
  nadd : UInt16
  deriving DecidableEq, Repr

/-- `DNS_HEADER_SIZE` -/
def dnsHeaderSize : Nat := 12

/-- `0x1 & (flags >> n)` -/
def flag (flags : UInt16) (n : Nat) : Bool := flags.toNat.testBit n

/-- `dns_hdr_decode` -/
def dnsHdrDecode (mb : Mbuf) : Except Errno (Dnshdr × Mbuf) :=
  if mbufGetLeft mb < dnsHeaderSize then .error .EINVAL
  else
    let (id, mb) := mbufReadU16 mb
    let (flags, mb) := mbufReadU16 mb
    let (nq, mb) := mbufReadU16 mb
    let (nans, mb) := mbufReadU16 mb
    let (nauth, mb) := mbufReadU16 mb
    let (nadd, mb) := mbufReadU16 mb
    .ok ({ id, qr := flag flags 15
           opcode := UInt8.ofNat (flags.toNat / 2048 % 16)
           aa := flag flags 10, tc := flag flags 9, rd := flag flags 8, ra := flag flags 7
           z := UInt8.ofNat (flags.toNat / 16 % 8)
           rcode := UInt8.ofNat (flags.toNat % 16)
           nq, nans, nauth, nadd }, mb)

/-- `struct dnsquery`, as `reply_recv` fills it in. -/
structure Dnsquery where
  hdr : Dnshdr
  name : Bytes
  type : UInt16
  dnsclass : UInt16
  deriving DecidableEq, Repr

variable {τ : Type}

/-- `reply_recv`: the error code it returns and the state of the client behind. -/
def replyRecv (answer : τ → Dnsquery → Mbuf → Option Errno × τ) (t : τ) (msg : Bytes) :
    Option Errno × τ :=
  match dnsHdrDecode (Mbuf.ofBytes msg 0) with
  | .error _ => (some .EBADMSG, t)
  | .ok (hdr, mb) =>
    if hdr.qr = false then (some .EBADMSG, t)
    else
      match dnsDnameDecode 0 mb with
      | .error err => (some err, t)
      | .ok (name, mb) =>
        if mbufGetLeft mb < 4 then (some .EBADMSG, t)
        else
          let (type, mb) := mbufReadU16 mb
          let (dnsclass, mb) := mbufReadU16 mb
          answer t { hdr, name, type, dnsclass } mb

/-! ## The handler -/

/-- `struct tcpconn`: what the handler keeps between two segments. -/
structure TcpConn where
  flen : UInt16
  mb : Mbuf

/-- `tcpconn_alloc`: nothing has been received. -/
def tcpconnAlloc : TcpConn where
  flen := 0
  mb := { buf := List.replicate 1500 0, pos := 0, end_ := 0, end_le := Nat.zero_le _ }

/-- `mbuf_write_mem(mb, mbuf_buf(mbrx), n)` and `mbrx->pos += n` for
`n = min(room, mbuf_get_left(mbrx))`. -/
def collect (mb mbrx : Mbuf) (room : Nat) : Mbuf × Mbuf :=
  let n := min room (mbufGetLeft mbrx)
  (mbufWriteMem mb (mbrx.left.take n), mbufAdvance mbrx n)

/-- What one pass of the handler from `next:` on leads to. -/
inductive Pass (τ : Type) where
  | incomplete (tc : TcpConn)
  | rejected (msg : Bytes)
  | accepted (msg : Bytes) (tc : TcpConn) (t : τ) (mbrx : Mbuf)

variable (recv : τ → Bytes → Option Errno × τ) (tc : TcpConn) (t : τ) (mbrx : Mbuf)

/-- `/* content */` -/
def recvContent :
    Pass τ :=
  let (mb, mbrx) := collect tc.mb mbrx (tc.flen.toNat - tc.mb.end_)
  if mb.end_ < tc.flen.toNat then .incomplete { tc with mb }
  else
    let msg := (mbufSetPos mb 0).left
    match recv t msg with
    | (some _, _) => .rejected msg
    | (none, t) => .accepted msg { flen := 0, mb := mbufRewind mb } t mbrx

/-- `/* frame length */`, when it is not known yet, and the content behind it. -/
def recvFrame :
    Pass τ :=
  if tc.flen = 0 then
    let (mb, mbrx) := collect tc.mb mbrx (2 - tc.mb.end_)
    if mb.end_ < 2 then .incomplete { tc with mb }
    else recvContent recv { flen := (mbufReadU16 (mbufSetPos mb 0)).1, mb := mbufRewind mb } t mbrx
  else recvContent recv tc t mbrx

/-- The passes over one segment: the messages handed to `reply_recv`, and the
connection, unless it was closed. -/
def tcpRecvLoop (recv : τ → Bytes → Option Errno × τ) :
    Nat → TcpConn → τ → Mbuf → List Bytes × Option (TcpConn × τ)
  | 0, tc, t, _ => ([], some (tc, t))
  | fuel + 1, tc, t, mbrx =>
    match recvFrame recv tc t mbrx with
    | .incomplete tc => ([], some (tc, t))
    | .rejected msg => ([msg], none)
    | .accepted msg tc t mbrx =>
      if mbufGetLeft mbrx > 0 then
        let r := tcpRecvLoop recv fuel tc t mbrx
        (msg :: r.1, r.2)
      else ([msg], some (tc, t))

/-- `tcp_recv_handler` -/
def tcpRecvHandler (seg : Bytes) : List Bytes × Option (TcpConn × τ) :=
  tcpRecvLoop recv (seg.length + 1) tc t (Mbuf.ofBytes seg 0)

/-- The segments of a connection, one after the other; none is read behind a close. -/
def tcpRecvAll (recv : τ → Bytes → Option Errno × τ) :
    Option (TcpConn × τ) → List Bytes → List Bytes × Option (TcpConn × τ)
  | conn, [] => ([], conn)
  | none, _ :: _ => ([], none)
  | some (tc, t), seg :: segs =>
    let r := tcpRecvHandler recv tc t seg
    let r' := tcpRecvAll recv r.2 segs
    (r.1 ++ r'.1, r'.2)

/-! ## The frames of a stream -/

/-- A complete frame stands at the front. -/
def Complete (xs : Bytes) : Prop := 2 ≤ xs.length ∧ 2 + (ofBe16 xs).toNat ≤ xs.length

instance (xs : Bytes) : Decidable (Complete xs) := inferInstanceAs (Decidable (_ ∧ _))

/-- The content of the frame at the front. -/
def content (xs : Bytes) : Bytes := (xs.drop 2).take (ofBe16 xs).toNat

/-- The successive frames of a stream that are complete. -/
def completeFrames (xs : Bytes) : List Bytes :=
  if h : Complete xs then content xs :: completeFrames (xs.drop (2 + (ofBe16 xs).toNat)) else []
termination_by xs.length
decreasing_by
  have hlen := h.1
  rw [List.length_drop]
  omega

/-- The messages that `recv` is handed out of a sequence of them: it is not
called again behind the first one it rejects. -/
def handed (recv : τ → Bytes → Option Errno × τ) : τ → List Bytes → List Bytes
  | _, [] => []
  | t, msg :: msgs =>
    match recv t msg with
    | (some _, _) => [msg]
    | (none, t) => msg :: handed recv t msgs

/-- One frame of a stream, as a reader of the stream sees it. -/
def frameStep (xs : Bytes) :
    Step τ Bytes :=
  if Complete xs then
    match recv t (content xs) with
    | (some _, _) => .stop [content xs]
    | (none, t) => .take (2 + (ofBe16 xs).toNat) [content xs] t
  else .wait [] t

end LibRe.Dns
