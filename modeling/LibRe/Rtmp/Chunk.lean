/-
LibRe.Rtmp.Chunk — cutting RTMP messages into chunks and putting them together
(`src/rtmp/chunk.c`, `src/rtmp/dechunk.c`).

The chunker sends a message as a chunk with the message's header and as many
chunks with format 3 as the payload needs. The dechunker keeps, for each chunk
stream, the header of the message and the part of the payload that has arrived;
one call of `rtmp_dechunker_receive` reads one chunk and hands a message on when
its payload is complete.

Translation notes. A payload that is being received (`struct mbuf *mb` of a chunk
stream) always has `pos == end`, so it is its `size` and the bytes received. The
change `rtmp_dechunker_receive` makes to the state before it finds that the chunk
is not complete is kept: it returns the state also with ENODATA.
-/
import LibRe.Rtmp.Header

namespace LibRe.Rtmp

open Bytes

/-! ## The chunker -/

/-- `while (payload < pend)`: the chunks with format 3. -/
def chunkLoop (hdr : RtmpHeader) (maxChunkSz : Nat) : Nat → Bytes → List Bytes
  | 0, _ => []
  | fuel + 1, payload =>
    if payload.length = 0 then []
    else
      let (bytes, hdr) := rtmpHeaderEncode hdr
      (bytes ++ payload.take maxChunkSz) ::
        chunkLoop hdr maxChunkSz fuel (payload.drop maxChunkSz)

/-- The chunks `rtmp_chunker` writes to its buffer. -/
def rtmpChunks (format chunkId : Nat) (timestamp timestampDelta : UInt32) (msgTypeId : UInt8)
    (msgStreamId : UInt32) (payload : Bytes) (maxChunkSz : Nat) : List Bytes :=
  let (bytes, hdr) := rtmpHeaderEncode
    { format, chunkId, timestamp, timestampDelta
      length := payload.length, typeId := msgTypeId, streamId := msgStreamId }
  (bytes ++ payload.take maxChunkSz) ::
    chunkLoop { hdr with format := 3 } maxChunkSz payload.length (payload.drop maxChunkSz)

/-- `rtmp_chunker`: what it sends. -/
def rtmpChunker (format chunkId : Nat) (timestamp timestampDelta : UInt32) (msgTypeId : UInt8)
    (msgStreamId : UInt32) (payload : Bytes) (maxChunkSz : Nat) : Except Errno Bytes :=
  if payload.length = 0 ∨ maxChunkSz = 0 then .error .EINVAL
  else
    .ok (rtmpChunks format chunkId timestamp timestampDelta msgTypeId msgStreamId payload
      maxChunkSz).flatten

/-! ## The dechunker -/

/-- `MAX_CHUNKS` -/
def maxChunks : Nat := 64

/-- The buffer of a message that is being received. -/
structure RxBuf where
  size : Nat
  data : Bytes
  fits : data.length ≤ size
  deriving DecidableEq, Repr

/-- `mbuf_alloc`, for the 24-bit lengths of a header. -/
def RxBuf.alloc (size : Nat) : RxBuf where
  size := if size = 0 then 512 else size
  data := []
  fits := Nat.zero_le _

/-- `mbuf_get_space` -/
def RxBuf.space (buf : RxBuf) : Nat := buf.size - buf.data.length

/-- `mbuf_read_mem(mb, mbuf_buf(chunk->mb), sz)` for a size that fits. -/
def RxBuf.read (buf : RxBuf) (xs : Bytes) (sz : Nat) : RxBuf where
  size := buf.size
  data := buf.data ++ xs.take (min buf.space sz)
  fits := by
    have hfits := buf.fits
    rw [List.length_append, List.length_take, RxBuf.space]
    omega

/-- `struct rtmp_chunk` -/
structure Chunk where
  hdr : RtmpHeader
  mb : Option RxBuf
  deriving DecidableEq, Repr

/-- `struct rtmp_dechunker`, without the handler. -/
structure Dechunker where
  chunkl : List Chunk
  chunkSz : Nat
  deriving DecidableEq, Repr

/-- `find_chunk` -/
def findChunk (chunkl : List Chunk) (chunkId : Nat) : Option Chunk :=
  chunkl.find? fun chunk => chunk.hdr.chunkId = chunkId

/-- An assignment through the pointer to the chunk that was found. -/
def setChunk (chunkl : List Chunk) (chunkId : Nat) (chunk : Chunk) : List Chunk :=
  match chunkl with
  | [] => []
  | c :: cs => if c.hdr.chunkId = chunkId then chunk :: cs else c :: setChunk cs chunkId chunk

/-- What reading a chunk does to its chunk stream: an error code (none is
success), the chunk stream, and the bytes behind the chunk. -/
abbrev ChunkRead := Option Errno × Chunk × Bytes

/-- `case 0: case 1: case 2:` -/
def startMessage (chunkSz : Nat) (hdr : RtmpHeader) (chunk : Chunk) (xs : Bytes) : ChunkRead :=
  let chdr :=
    if hdr.format = 0 then hdr
    else if hdr.format = 1 then
      { chunk.hdr with
        timestampDelta := hdr.timestampDelta, length := hdr.length, typeId := hdr.typeId }
    else { chunk.hdr with timestampDelta := hdr.timestampDelta }
  let sz := min chdr.length chunkSz
  if xs.length < sz then (some .ENODATA, { chunk with hdr := chdr }, xs)
  else
    (none,
      { hdr := { chdr with
          format := hdr.format
          extTs := hdr.extTs
          timestamp :=
            if hdr.format = 1 ∨ hdr.format = 2 then chdr.timestamp + hdr.timestampDelta
            else chdr.timestamp }
        mb := some ((RxBuf.alloc chdr.length).read xs sz) },
      xs.drop sz)

/-- `if (!chunk->mb)`: the chunk is the first one of a message. -/
def openMessage (chunk : Chunk) : Chunk × RxBuf :=
  match chunk.mb with
  | some buf => (chunk, buf)
  | none =>
    let delta := if chunk.hdr.format = 0 then chunk.hdr.timestamp else chunk.hdr.timestampDelta
    ({ hdr := { chunk.hdr with timestampDelta := delta, timestamp := chunk.hdr.timestamp + delta }
       mb := some (RxBuf.alloc chunk.hdr.length) }, RxBuf.alloc chunk.hdr.length)

/-- The payload of a chunk with format 3. -/
def continuePayload (chunkSz : Nat) (chunk : Chunk) (xs : Bytes) : ChunkRead :=
  let (chunk, buf) := openMessage chunk
  let sz := min buf.space chunkSz
  if xs.length < sz then (some .ENODATA, chunk, xs)
  else (none, { chunk with mb := some (buf.read xs sz) }, xs.drop sz)

/-- The extended timestamp of a chunk with format 3. -/
def setExtTs (hdr : RtmpHeader) (extTs : UInt32) : RtmpHeader :=
  if hdr.format = 0 then { hdr with timestamp := extTs } else { hdr with timestampDelta := extTs }

/-- `case 3:` -/
def continueMessage (chunkSz : Nat) (chunk : Chunk) (xs : Bytes) : ChunkRead :=
  if chunk.hdr.extTs then
    if xs.length < 4 then (some .ENODATA, chunk, xs)
    else continuePayload chunkSz { chunk with hdr := setExtTs chunk.hdr (ofBe32 xs) } (xs.drop 4)
  else continuePayload chunkSz chunk xs

/-- The chunk stream of a header, created when the header has format 0. -/
def openChunk (rd : Dechunker) (hdr : RtmpHeader) : Except Errno (Dechunker × Chunk) :=
  match findChunk rd.chunkl hdr.chunkId with
  | some chunk => .ok (rd, chunk)
  | none =>
    if hdr.format = 0 then
      if rd.chunkl.length > maxChunks then .error .EOVERFLOW
      else
        .ok ({ rd with chunkl := rd.chunkl ++ [{ hdr, mb := none }] }, { hdr, mb := none })
    else .error .ENOENT

/-- A message that is handed to the handler. -/
structure Message where
  hdr : RtmpHeader
  payload : Bytes
  deriving DecidableEq, Repr

/-- What one call of `rtmp_dechunker_receive` does before it calls the handler. -/
structure Received where
  err : Option Errno
  rd : Dechunker
  rest : Bytes
  msg : Option Message

/-- `if (chunk->mb->pos >= chunk->mb->size)`: the message, if its payload is complete. -/
def completed (chunk : Chunk) : Option Message :=
  match chunk.mb with
  | some buf => if buf.data.length ≥ buf.size then some ⟨chunk.hdr, buf.data⟩ else none
  | none => none

/-- `rtmp_dechunker_receive` up to the call of the handler. -/
def receiveChunk (rd : Dechunker) (xs : Bytes) : Received :=
  match rtmpHeaderDecode xs with
  | .error err => ⟨some err, rd, xs, none⟩
  | .ok (hdr, ys) =>
    match openChunk rd hdr with
    | .error err => ⟨some err, rd, ys, none⟩
    | .ok (rd, chunk) =>
      let (err, chunk, zs) :=
        if hdr.format = 3 then continueMessage rd.chunkSz chunk ys
        else startMessage rd.chunkSz hdr chunk ys
      match err with
      | some err => ⟨some err, { rd with chunkl := setChunk rd.chunkl hdr.chunkId chunk }, zs, none⟩
      | none =>
        match completed chunk with
        | some msg =>
          ⟨none, { rd with chunkl := setChunk rd.chunkl hdr.chunkId { chunk with mb := none } },
            zs, some msg⟩
        | none => ⟨none, { rd with chunkl := setChunk rd.chunkl hdr.chunkId chunk }, zs, none⟩

variable {τ : Type}

/-- `rtmp_dechunk_h`: the error code of the handler, and its state with the chunk
size of the dechunker, which it may set. -/
abbrev DechunkHandler (τ : Type) := τ × Nat → Message → Option Errno × (τ × Nat)

/-- `rtmp_dechunker_receive`: the error code, the state behind, the bytes behind the
chunk, and the message that was handed to the handler. -/
def rtmpDechunkerReceive (chunkh : DechunkHandler τ) (rd : Dechunker) (t : τ) (xs : Bytes) :
    Option Errno × (Dechunker × τ) × Bytes × Option Message :=
  let r := receiveChunk rd xs
  match r.msg with
  | none => (r.err, (r.rd, t), r.rest, none)
  | some msg =>
    let (err, t, chunkSz) := chunkh (t, r.rd.chunkSz) msg
    (err, ({ r.rd with chunkSz }, t), r.rest, some msg)

/-- Chunks are read from the received bytes as long as there are any: the messages
handed to the handler, the error code that ended it, the state and the bytes behind.
After an error the position is where the chunk begins. -/
def receiveLoop (chunkh : DechunkHandler τ) : Nat → Dechunker × τ → Bytes →
    List Message × Option Errno × (Dechunker × τ) × Bytes
  | 0, s, xs => ([], none, s, xs)
  | fuel + 1, s, xs =>
    if xs.length = 0 then ([], none, s, xs)
    else
      match rtmpDechunkerReceive chunkh s.1 s.2 xs with
      | (some err, s, _, msg) => (msg.toList, some err, s, xs)
      | (none, s, rest, msg) =>
        let r := receiveLoop chunkh fuel s rest
        (msg.toList ++ r.1, r.2)

/-- Enough rounds for all chunks, each of which has at least one byte. -/
def receiveAll (chunkh : DechunkHandler τ) (s : Dechunker × τ) (xs : Bytes) :
    List Message × Option Errno × (Dechunker × τ) × Bytes :=
  receiveLoop chunkh (xs.length + 1) s xs

end LibRe.Rtmp
