/-
LibRe.Tcp.Send — sending on a TCP connection (`src/tcp/tcp.c`).

`tcp_send` gives the buffer to the socket if nothing is queued, and puts what the socket
does not take into the queue; when the socket can be written again, the first buffer of
the queue is sent as far as the socket takes it.

Translation notes. The connection has no helpers. What the socket, `fd_listen` and the
allocator answer is given to each call. The functions also return the bytes that the
socket has taken. A queue entry is its buffer; `conn_close` is called in the middle of
`tcp_recv_handler` and by its reading part, which is not modelled otherwise. `sendh` only
matters for whether `fd_listen` is called.
-/
import LibRe.Mbuf.Mbuf

namespace LibRe.Tcp

/-- The parts of `struct tcp_conn` that sending uses; `fdc` is whether there is a socket. -/
structure TcpConn where
  sendq : List Mbuf
  txqsz : Nat
  txqszMax : Nat
  sendh : Bool
  fdc : Bool
  connected : Bool
  deriving DecidableEq, Repr

/-- What `send` answers: so many bytes are taken, or `EAGAIN`, or another error. -/
inductive SockSend where
  | wrote (n : Nat)
  | wouldBlock
  | failed (err : Errno)
  deriving DecidableEq, Repr

/-- What `fd_listen` and `mem_zalloc` answer. -/
structure Env where
  listen : Option Errno
  mem : Bool
  deriving DecidableEq, Repr

variable (tc : TcpConn) (mb : Mbuf) (sock : SockSend)

/-- `enqueue` -/
def enqueue (env : Env) : Option Errno × TcpConn :=
  let n := mbufGetLeft mb
  if tc.txqsz + n > tc.txqszMax then (some .ENOSPC, tc)
  else if tc.sendq.isEmpty ∧ ¬ tc.sendh ∧ env.listen.isSome then (env.listen, tc)
  else if ¬ env.mem then (some .ENOMEM, tc)
  else
    let qe := mbufSetPos (mbufWriteMem mbufInit mb.left) 0
    (none, { tc with sendq := tc.sendq ++ [qe], txqsz := tc.txqsz + qe.end_ })

/-- `dequeue` -/
def dequeue : Option Errno × TcpConn × Bytes :=
  match tc.sendq with
  | [] => (none, tc, [])
  | qe :: rest =>
    match sock with
    | .failed err => (some err, tc, [])
    | .wouldBlock => (none, tc, [])
    | .wrote n =>
      let n := min n (mbufGetLeft qe)
      let qe' := mbufAdvance qe n
      (none,
        { tc with
          txqsz := tc.txqsz - n
          sendq := if qe'.pos ≥ qe'.end_ then rest else qe' :: rest },
        qe.left.take n)

/-- `conn_close` -/
def connClose : TcpConn := { tc with sendq := [], txqsz := 0, fdc := false }

/-- `tcp_send`; the position of the buffer is put back behind `enqueue`. -/
def tcpSend (env : Env) : Option Errno × TcpConn × Bytes :=
  if ¬ tc.fdc then (some .ENOTCONN, tc, [])
  else if mbufGetLeft mb = 0 then (some .EINVAL, tc, [])
  else if ¬ tc.sendq.isEmpty then
    let (err, tc) := enqueue tc mb env
    (err, tc, [])
  else
    match sock with
    | .failed err => (some err, tc, [])
    | .wouldBlock =>
      let (err, tc) := enqueue tc mb env
      (err, tc, [])
    | .wrote n =>
      let n := min n (mbufGetLeft mb)
      if n < mbufGetLeft mb then
        let (err, tc) := enqueue tc (mbufAdvance mb n) env
        (err, tc, mb.left.take n)
      else (none, tc, mb.left.take n)

/-- `tcp_recv_handler` for `FD_WRITE`, up to where it reads; `listen` is what `fd_listen`
answers if it is called. -/
def writeHandler (listen : Option Errno) : TcpConn × Bytes :=
  if ¬ tc.fdc then (tc, [])
  else if tc.connected then
    match dequeue tc sock with
    | (some _, tc, sent) => (connClose tc, sent)
    | (none, tc, sent) =>
      if tc.sendq.isEmpty ∧ ¬ tc.sendh ∧ listen.isSome then (connClose tc, sent) else (tc, sent)
  else
    let tc := { tc with connected := true }
    if listen.isSome then (connClose tc, []) else (tc, [])

/-! ## A connection and the bytes that go over it -/

/-- A connection, the bytes the socket has taken, and the buffers of the calls of
`tcp_send` that have returned 0. -/
structure Sending where
  tc : TcpConn
  wire : Bytes
  accepted : Bytes

/-- What can happen to a connection. -/
inductive Event where
  | send (mb : Mbuf) (sock : SockSend) (env : Env)
  | writable (sock : SockSend) (listen : Option Errno)
  | close
  deriving DecidableEq, Repr

def step (s : Sending) : Event → Sending
  | .send mb sock env =>
    let (err, tc, sent) := tcpSend s.tc mb sock env
    { tc, wire := s.wire ++ sent, accepted := s.accepted ++ if err.isNone then mb.left else [] }
  | .writable sock listen =>
    let (tc, sent) := writeHandler s.tc sock listen
    { s with tc, wire := s.wire ++ sent }
  | .close => { s with tc := connClose s.tc }

/-- A connection on which nothing has been sent. -/
def start (txqszMax : Nat) (sendh connected : Bool) : Sending where
  tc := { sendq := [], txqsz := 0, txqszMax, sendh, fdc := true, connected }
  wire := []
  accepted := []

end LibRe.Tcp
