/-
LibRe.Websock.Websock — receiving WebSocket frames (`src/websock/websock.c`).

`websock_decode` reads a frame header and unmasks the payload in place, or finds
that the frame is not complete. `recv_handler` collects segments in the
connection's buffer, decodes one frame after the other, copies what follows a
frame to a new buffer, and hands data frames to the application, answers pings
and close frames, and closes the connection on a protocol error.

Translation notes. The payload length is the 64-bit number of the wire, and
`4 + hdr->len` is computed in 64 bits. A byte that is read or written outside the
bytes in use is a `Fault`; what the program does after one is undefined, so the
run ends there. What the application does inside its handler is not modelled,
nor are timers: the connection is open until `recv_handler` closes it.
-/
import LibRe.Lib.Checked
import LibRe.Lib.Words
import LibRe.Mbuf.Parse

namespace LibRe.Websock

open Bytes Checked

/-! ## Frames -/

/-- `enum websock_opcode` -/
inductive WebsockOpcode where
  | CONT | TEXT | BIN | CLOSE | PING | PONG
  deriving DecidableEq, Repr

def WebsockOpcode.code : WebsockOpcode → Nat
  | .CONT => 0x0
  | .TEXT => 0x1
  | .BIN => 0x2
  | .CLOSE => 0x8
  | .PING => 0x9
  | .PONG => 0xa

/-- `struct websock_hdr`. `opcode` has four bits, so it may be none of the
enumeration; `mkey` is empty when the frame is not masked. -/
structure WebsockHdr where
  fin : Bool
  rsv1 : Bool
  rsv2 : Bool
  rsv3 : Bool
  opcode : Nat
  mask : Bool
  len : Nat
  mkey : Bytes
  deriving DecidableEq, Repr

/-- The fields of the first two bytes; the length is not known yet. -/
def firstBytes (v w : UInt8) : WebsockHdr where
  fin := v.toNat.testBit 7
  rsv1 := v.toNat.testBit 6
  rsv2 := v.toNat.testBit 5
  rsv3 := v.toNat.testBit 4
  opcode := v.toNat % 16
  mask := w.toNat.testBit 7
  len := w.toNat % 128
  mkey := []

/-- `sys_ntohll(mbuf_read_u64(mb))` -/
def mbufReadU64 (mb : Mbuf) : Nat × Mbuf :=
  match mbufReadMem mb 8 with
  | .ok (xs, mb) => (ofBe xs, mb)
  | .error _ => (0, mb)

/-- `hdr->len`, which follows in 2 or 8 bytes when it does not fit in 7 bits. -/
def readLen (len : Nat) (mb : Mbuf) : Except Errno (Nat × Mbuf) :=
  if len = 126 then
    if mbufGetLeft mb < 2 then .error .ENODATA
    else
      let (v, mb) := mbufReadU16 mb
      .ok (v.toNat, mb)
  else if len = 127 then
    if mbufGetLeft mb < 8 then .error .ENODATA else .ok (mbufReadU64 mb)
  else .ok (len, mb)

/-- `for (…; i<hdr->len; i++) p[i] = p[i] ^ hdr->mkey[i%4];` with `n` rounds left. -/
def unmaskLoop (mkey : Bytes) : Nat → Nat → Mbuf → Except Fault Mbuf
  | 0, _, mb => .ok mb
  | n + 1, i, mb =>
    if mb.pos + i < mb.end_ then
      unmaskLoop mkey n (i + 1)
        (mb.store (mb.pos + i) [mb.buf.getD (mb.pos + i) 0 ^^^ mkey.getD (i % 4) 0])
    else .error (.index mb.end_ (mb.pos + i))

/-- `hdr->mkey` -/
def readKey (mb : Mbuf) : Bytes × Mbuf :=
  let (k0, mb) := mbufReadU8 mb
  let (k1, mb) := mbufReadU8 mb
  let (k2, mb) := mbufReadU8 mb
  let (k3, mb) := mbufReadU8 mb
  ([k0, k1, k2, k3], mb)

/-- `4 + hdr->len` -/
def maskedSize (len : Nat) : Nat := (4 + len) % 2 ^ 64

/-- The part of `websock_decode` behind the length. -/
def decodeBody (hdr : WebsockHdr) (mb : Mbuf) : Except Fault (Except Errno (WebsockHdr × Mbuf)) :=
  if hdr.mask then
    if mbufGetLeft mb < maskedSize hdr.len then .ok (.error .ENODATA)
    else
      let (mkey, mb) := readKey mb
      match unmaskLoop mkey hdr.len 0 mb with
      | .error fault => .error fault
      | .ok mb => .ok (.ok ({ hdr with mkey }, mb))
  else if mbufGetLeft mb < hdr.len then .ok (.error .ENODATA)
  else .ok (.ok (hdr, mb))

/-- `websock_decode` -/
def websockDecode (mb : Mbuf) : Except Fault (Except Errno (WebsockHdr × Mbuf)) :=
  if mbufGetLeft mb < 2 then .ok (.error .ENODATA)
  else
    let (v, mb) := mbufReadU8 mb
    let (w, mb) := mbufReadU8 mb
    match readLen (firstBytes v w).len mb with
    | .error err => .ok (.error err)
    | .ok (len, mb) => decodeBody { firstBytes v w with len } mb

/-! ## The connection -/

/-- `enum websock_state` -/
inductive WebsockState where
  | ACCEPTING
  | CONNECTING
  | OPEN
  | CLOSING
  | CLOSED
  deriving DecidableEq, Repr

/-- `struct websock_conn`, what the receiver uses of it. -/
structure WebsockConn where
  active : Bool
  state : WebsockState
  mb : Option Mbuf

/-- `BUFSIZE_MAX` -/
def bufsizeMax : Nat := 131072

/-- What `recv_handler` does that can be seen from outside. -/
inductive Event where
  | recvh (hdr : WebsockHdr) (payload : Bytes)
  | control (hdr : WebsockHdr) (payload : Bytes)
  | sent (opcode : WebsockOpcode) (payload : Bytes)
  | closed (err : Option Errno)
  | undefined
  deriving DecidableEq, Repr

/-- `websock_send`: nothing goes out unless the connection is open. -/
def websockSend (state : WebsockState) (opcode : WebsockOpcode) (payload : Bytes) :
    List Event :=
  if state = .OPEN then [.sent opcode payload] else []

/-- `websock_err2scode` -/
def websockErr2scode : Errno → UInt16
  | .EOVERFLOW => 1009
  | .EPROTO => 1002
  | .EBADMSG => 1002
  | _ => 1011

/-- The label `out:` with an error: `websock_close` and `conn_close`. -/
def failWith (state : WebsockState) (err : Errno) : List Event :=
  websockSend state .CLOSE (be16 (websockErr2scode err)) ++ [.closed (some err)]

/-- `switch (hdr.opcode)`: what is done with a frame, and whether the
connection lives on. -/
def handleFrame (state : WebsockState) (hdr : WebsockHdr) (payload : Bytes) :
    List Event × Bool :=
  if hdr.opcode = WebsockOpcode.CONT.code ∨ hdr.opcode = WebsockOpcode.TEXT.code ∨
      hdr.opcode = WebsockOpcode.BIN.code then
    ([.recvh hdr payload], true)
  else if hdr.opcode = WebsockOpcode.CLOSE.code then
    (.control hdr payload :: websockSend state .CLOSE payload ++ [.closed none], false)
  else if hdr.opcode = WebsockOpcode.PING.code then
    (.control hdr payload :: websockSend state .PONG payload, true)
  else if hdr.opcode = WebsockOpcode.PONG.code then ([.control hdr payload], true)
  else (failWith state .EPROTO, false)

/-- The copy of what follows the frame, `mb->end` being the end of the frame already. -/
def copyRest (mb : Mbuf) (end_ : Nat) : Option Mbuf :=
  if end_ > mb.end_ then some (Mbuf.ofBytes (mb.slice mb.end_ end_) 0) else none

/-- `while (conn->mb)` -/
def recvLoop : Nat → WebsockConn → List Event × Option WebsockConn
  | 0, conn => ([], some conn)
  | fuel + 1, conn =>
    match conn.mb with
    | none => ([], some conn)
    | some mb =>
      match websockDecode mb with
      | .error _ => ([.undefined], none)
      | .ok (.error .ENODATA) => ([], some conn)
      | .ok (.error err) => (failWith conn.state err, none)
      | .ok (.ok (hdr, mb)) =>
        if conn.active = hdr.mask then (failWith conn.state .EPROTO, none)
        else if hdr.rsv1 ∨ hdr.rsv2 ∨ hdr.rsv3 then (failWith conn.state .EPROTO, none)
        else
          let mb' := mbufSetEnd mb (mb.pos + hdr.len)
          let (evs, alive) := handleFrame conn.state hdr mb'.left
          if alive then
            let r := recvLoop fuel { conn with mb := copyRest mb' mb.end_ }
            (evs ++ r.1, r.2)
          else (evs, none)

/-- `recv_handler` -/
def recvHandler (conn : WebsockConn) (seg : Bytes) : List Event × Option WebsockConn :=
  match conn.mb with
  | some mb =>
    if mbufGetLeft mb + seg.length > bufsizeMax then (failWith conn.state .EOVERFLOW, none)
    else
      let mb := mbufSetPos (mbufWriteMem (mbufSetPos mb mb.end_) seg) mb.pos
      recvLoop (mbufGetLeft mb + 1) { conn with mb := some mb }
  | none => recvLoop (seg.length + 1) { conn with mb := some (Mbuf.ofBytes seg 0) }

/-- The segments of a connection, one after the other; none is read behind the
end of the connection. -/
def recvAll : Option WebsockConn → List Bytes → List Event × Option WebsockConn
  | conn, [] => ([], conn)
  | none, _ :: _ => ([], none)
  | some conn, seg :: segs =>
    let r := recvHandler conn seg
    let r' := recvAll r.2 segs
    (r.1 ++ r'.1, r'.2)

/-- A connection behind the handshake. -/
def openConn (active : Bool) : WebsockConn where
  active := active
  state := .OPEN
  mb := none

end LibRe.Websock
