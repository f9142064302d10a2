/-
LibRe.Mbuf.Mbuf — memory buffers (`src/mbuf/mbuf.c`, `include/re_mbuf.h`).

A buffer is a block of memory with a position and an end. `end_ ≤ size` is a
field of the structure, as nothing in the library may ever set it otherwise;
`pos` may stand behind `end_` (then nothing is left to read).

Translation notes. The `size` of the C structure is the length of `buf`.
Memory the allocator hands out is zero here; nothing below reads it before it
is written. Running out of memory is not modelled, so the writers cannot fail;
the one limit of the allocator that is kept is the size guard of `mem_alloc`,
in `mbufAlloc`. The 16- and 32-bit readers and writers include the
`ntohs`/`ntohl` and `htons`/`htonl` that their callers put around them.
-/
import LibRe.Lib.Bytes

namespace LibRe

open Bytes

/-- Error codes (`errno.h`, with the additions of `re_types.h`). A return
value of 0 is `none : Option Errno`. -/
inductive Errno where
  | EINVAL
  | ENOMEM
  | EBADMSG
  | EOVERFLOW
  | ERANGE
  | ENOTSUP
  | ETIMEDOUT
  | EAUTH
  | EALREADY
  | ENOSR
  | ENODATA
  | EPROTO
  | ENOENT
  | ENOTCONN
  | EAFNOSUPPORT
  | ENOSPC
  | EAGAIN
  | ECONNABORTED
  | ECONNRESET
  | EDESTADDRREQ
  | ENOSYS
  | EPROTONOSUPPORT
  | EACCES
  deriving DecidableEq, Repr

/-- `struct mbuf`. -/
structure Mbuf where
  buf : Bytes
  pos : Nat
  end_ : Nat
  end_le : end_ ≤ buf.length
  deriving DecidableEq, Repr

variable (mb : Mbuf)

/-- The bytes in use, from the start of the memory to the end. -/
def Mbuf.bytes : Bytes := mb.buf.take mb.end_

/-- The memory between two offsets. -/
def Mbuf.slice (a b : Nat) : Bytes := (mb.buf.drop a).take (b - a)

/-- The bytes `mbuf_buf` and `mbuf_get_left` describe: from the position to the end. -/
def Mbuf.left : Bytes := mb.slice mb.pos mb.end_

/-- The bytes in use before the position: what a writer has put there so far. -/
def Mbuf.written : Bytes := mb.bytes.take mb.pos

/-- `MEM_SIZE_MAX` of `src/mem/mem.c` on a 64-bit system. -/
def memSizeMax : Nat := 4294967295

/-- `mbuf_alloc`. -/
def mbufAlloc (size : Nat) : Option Mbuf :=
  let size := if size = 0 then 512 else size
  if size > memSizeMax then none
  else some { buf := List.replicate size 0, pos := 0, end_ := 0, end_le := Nat.zero_le _ }

/-- `mbuf_init`. -/
def mbufInit : Mbuf := { buf := [], pos := 0, end_ := 0, end_le := Nat.zero_le _ }

/-- `mbuf_get_left`. -/
def mbufGetLeft : Nat := if mb.end_ > mb.pos then mb.end_ - mb.pos else 0

/-- `mbuf_set_pos`, and the plain assignments to `mb->pos`. -/
def mbufSetPos (pos : Nat) : Mbuf := { mb with pos }

/-- `mbuf_advance`, forwards. -/
def mbufAdvance (n : Nat) : Mbuf := { mb with pos := mb.pos + n }

/-- `mbuf_set_end`, and the plain assignments to `mb->end`. A value past the
memory has no meaning; it leaves the buffer alone here. -/
def mbufSetEnd (n : Nat) : Mbuf :=
  if h : n ≤ mb.buf.length then { mb with end_ := n, end_le := h } else mb

/-- `mbuf_rewind`. -/
def mbufRewind : Mbuf := { mb with pos := 0, end_ := 0, end_le := Nat.zero_le _ }

/-- `mbuf_read_mem`. -/
def mbufReadMem (size : Nat) : Except Errno (Bytes × Mbuf) :=
  if size > mbufGetLeft mb then .error .EOVERFLOW
  else .ok (mb.slice mb.pos (mb.pos + size), { mb with pos := mb.pos + size })

/-- `mbuf_read_u8`. -/
def mbufReadU8 : UInt8 × Mbuf :=
  match mbufReadMem mb 1 with
  | .ok (xs, mb) => (xs.headD 0, mb)
  | .error _ => (0, mb)

/-- `ntohs(mbuf_read_u16(mb))`. -/
def mbufReadU16 : UInt16 × Mbuf :=
  match mbufReadMem mb 2 with
  | .ok (xs, mb) => (ofBe16 xs, mb)
  | .error _ => (0, mb)

/-- `ntohl(mbuf_read_u32(mb))`. -/
def mbufReadU32 : UInt32 × Mbuf :=
  match mbufReadMem mb 4 with
  | .ok (xs, mb) => (ofBe32 xs, mb)
  | .error _ => (0, mb)

/-- The memory after `mbuf_resize` to a size that is not smaller. -/
def growTo (buf : Bytes) (size : Nat) : Bytes :=
  buf ++ List.replicate (size - buf.length) 0

/-- The memory `mbuf_write_mem` writes to: resized when the block does not fit. -/
def writeRoom (size : Nat) : Bytes :=
  let rsize := mb.pos + size
  if rsize > mb.buf.length then
    growTo mb.buf (max rsize (if mb.buf.length = 0 then 512 else mb.buf.length * 2))
  else mb.buf

theorem length_le_writeRoom (size : Nat) :
    mb.buf.length ≤ (writeRoom mb size).length := by
  by_cases h : mb.pos + size > mb.buf.length
  · simp [writeRoom, growTo, h]
  · simp [writeRoom, h]

theorem fits_writeRoom (size : Nat) : mb.pos + size ≤ (writeRoom mb size).length := by
  by_cases h : mb.pos + size > mb.buf.length
  · simp [writeRoom, growTo, h]
    omega
  · simp [writeRoom, h]
    omega

/-- `mbuf_write_mem`. -/
def mbufWriteMem (xs : Bytes) : Mbuf where
  buf := overwrite (writeRoom mb xs.length) mb.pos xs
  pos := mb.pos + xs.length
  end_ := max mb.end_ (mb.pos + xs.length)
  end_le := by
    rw [length_overwrite (fits_writeRoom mb xs.length)]
    have h1 := length_le_writeRoom mb xs.length
    have h2 := fits_writeRoom mb xs.length
    have h3 := mb.end_le
    omega

/-- `mbuf_write_u8`. -/
def mbufWriteU8 (v : UInt8) : Mbuf := mbufWriteMem mb [v]

/-- `mbuf_write_u16(mb, htons(v))`. -/
def mbufWriteU16 (v : UInt16) : Mbuf := mbufWriteMem mb (be16 v)

/-- `mbuf_write_u32(mb, htonl(v))`. -/
def mbufWriteU32 (v : UInt32) : Mbuf := mbufWriteMem mb (be32 v)

/-- Memory written through a pointer into the buffer, as the in-place ciphers
do. A block that does not fit has no meaning; it leaves the buffer alone here. -/
def Mbuf.store (i : Nat) (xs : Bytes) : Mbuf :=
  if h : i + xs.length ≤ mb.buf.length then
    { mb with
      buf := overwrite mb.buf i xs
      end_le := by rw [length_overwrite h]; exact mb.end_le }
  else mb

end LibRe
