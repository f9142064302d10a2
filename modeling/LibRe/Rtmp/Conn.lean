/-
LibRe.Rtmp.Conn — the receiving side of an RTMP connection behind the handshake
(`src/rtmp/conn.c`).

Segments are collected in the connection's buffer. Chunks are read from it until
it is empty or a chunk is not complete; then the position goes back to the start
of that chunk, and the chunk is read again when more data is there. Any other
error closes the connection.

Translation notes. `rtmp_dechunk_handler` is translated for the messages of the
protocol control; what it does with the others (`app`) is a parameter, over any
state of the application; a handler that closes the connection itself is one that
answers with an error. The acknowledgements `tcp_recv_handler` sends are left out.
-/
import LibRe.Rtmp.Chunk

namespace LibRe.Rtmp

open Bytes

variable {τ : Type}

/-- The message types `rtmp_dechunk_handler` looks into itself. -/
inductive ControlType where
  | SET_CHUNK_SIZE | ACKNOWLEDGEMENT | USER_CONTROL_MSG | WINDOW_ACK_SIZE | SET_PEER_BANDWIDTH
  deriving DecidableEq, Repr

def ControlType.code : ControlType → UInt8
  | .SET_CHUNK_SIZE => 1
  | .ACKNOWLEDGEMENT => 3
  | .USER_CONTROL_MSG => 4
  | .WINDOW_ACK_SIZE => 5
  | .SET_PEER_BANDWIDTH => 6

/-- The bytes such a message must have. -/
def ControlType.size : ControlType → Nat
  | .SET_CHUNK_SIZE => 4
  | .ACKNOWLEDGEMENT => 4
  | .USER_CONTROL_MSG => 6
  | .WINDOW_ACK_SIZE => 4
  | .SET_PEER_BANDWIDTH => 5

def controlType (typeId : UInt8) : Option ControlType :=
  [.SET_CHUNK_SIZE, .ACKNOWLEDGEMENT, .USER_CONTROL_MSG, .WINDOW_ACK_SIZE,
    .SET_PEER_BANDWIDTH].find? fun c => c.code = typeId

/-- `rtmp_dechunker_set_chunksize` -/
def setChunksize (old new : Nat) : Nat := if new = 0 then old else new

/-- `rtmp_dechunk_handler` -/
def rtmpDechunkHandler (app : τ → Message → Option Errno × τ) : DechunkHandler τ :=
  fun (t, chunkSz) msg =>
    match controlType msg.hdr.typeId with
    | none =>
      let (err, t) := app t msg
      (err, t, chunkSz)
    | some c =>
      if msg.payload.length < c.size then (some .EBADMSG, t, chunkSz)
      else
        match c with
        | .SET_CHUNK_SIZE =>
          (none, t, setChunksize chunkSz ((ofBe32 msg.payload).toNat % 2 ^ 31))
        | .ACKNOWLEDGEMENT => (none, t, chunkSz)
        | _ =>
          let (err, t) := app t msg
          (err, t, chunkSz)

/-- `struct rtmp_conn`, what the receiver uses of it: the bytes left in the buffer
(none when there is no buffer), the dechunker, and the state of the application. -/
structure RtmpConn (τ : Type) where
  mb : Option Bytes
  rd : Dechunker
  app : τ

/-- `RTMP_MESSAGE_LEN_MAX` -/
def rtmpMessageLenMax : Nat := 524288

/-- The loop of `tcp_recv_handler` over the bytes in the buffer. The buffer is given
up when the last of its bytes has been read. -/
def handlePackets (chunkh : DechunkHandler τ) (s : Dechunker × τ) (xs : Bytes) :
    List Message × Option (RtmpConn τ) :=
  if xs.length = 0 then ([], some ⟨some xs, s.1, s.2⟩)
  else
    match receiveAll chunkh s xs with
    | (msgs, none, s, _) => (msgs, some ⟨none, s.1, s.2⟩)
    | (msgs, some err, s, rest) =>
      (msgs, if err = .ENODATA then some ⟨some rest, s.1, s.2⟩ else none)

/-- `tcp_recv_handler`: the messages that are delivered, and the connection unless
it is closed. -/
def tcpRecvHandler (chunkh : DechunkHandler τ) (conn : RtmpConn τ) (seg : Bytes) :
    List Message × Option (RtmpConn τ) :=
  match conn.mb with
  | some xs =>
    if xs.length + seg.length > rtmpMessageLenMax then ([], none)
    else handlePackets chunkh (conn.rd, conn.app) (xs ++ seg)
  | none => handlePackets chunkh (conn.rd, conn.app) seg

/-- The segments of a connection, one after the other; none is read behind a close. -/
def tcpRecvAll (chunkh : DechunkHandler τ) :
    Option (RtmpConn τ) → List Bytes → List Message × Option (RtmpConn τ)
  | conn, [] => ([], conn)
  | none, _ :: _ => ([], none)
  | some conn, seg :: segs =>
    let r := tcpRecvHandler chunkh conn seg
    let r' := tcpRecvAll chunkh r.2 segs
    (r.1 ++ r'.1, r'.2)

/-- A connection with nothing in its buffer. -/
def RtmpConn.fresh (rd : Dechunker) (t : τ) : RtmpConn τ := ⟨none, rd, t⟩

end LibRe.Rtmp
