/-
LibRe.Mbuf.MbufTheorems — the buffer operations on the bytes in use.

Every operation of `LibRe.Mbuf.Mbuf` is restated as an operation on the pair
(`bytes`, `pos`): a read takes from the front of `left`, a write at the end
appends to `bytes`, moving the end cuts `bytes`, a store into the buffer is an
`overwrite` of `bytes`. Later proofs rewrite with these and never see the
memory behind the end.
-/
import LibRe.Mbuf.Mbuf

namespace LibRe

open Bytes List

variable {n : Nat} {xs : Bytes} {mb : Mbuf}

/-- A buffer may be full. -/
theorem Mbuf.full_le (W : Bytes) : W.length ≤ W.length := le_refl _

/-! ## Fields and views -/

@[simp] theorem length_bytes (mb : Mbuf) : mb.bytes.length = mb.end_ := by
  simp [Mbuf.end_le, Mbuf.bytes]

/-- A slice that ends inside the bytes in use is a slice of them. -/
theorem slice_eq {b : Nat} (h : b ≤ mb.end_) (a : Nat) :
    mb.slice a b = (mb.bytes.take b).drop a := by
  rw [Mbuf.slice, Mbuf.bytes, take_take, min_eq_left h, drop_take]

section

variable (mb : Mbuf)

theorem left_eq : mb.left = mb.bytes.drop mb.pos := by
  rw [Mbuf.left, slice_eq (le_refl _), take_of_length_le (by simp)]

theorem length_left : mb.left.length = mb.end_ - mb.pos := by
  rw [left_eq, length_drop, length_bytes]

theorem mbufGetLeft_eq : mbufGetLeft mb = mb.left.length := by
  rw [length_left, mbufGetLeft]
  split <;> omega

/-- What stands before the position, followed by what is left. -/
theorem bytes_eq_take_append_left : mb.bytes = mb.bytes.take mb.pos ++ mb.left := by
  rw [left_eq, take_append_drop]

@[simp] theorem mbufSetPos_pos (n : Nat) : (mbufSetPos mb n).pos = n := rfl
@[simp] theorem mbufSetPos_end (n : Nat) : (mbufSetPos mb n).end_ = mb.end_ := rfl
@[simp] theorem mbufSetPos_bytes (n : Nat) : (mbufSetPos mb n).bytes = mb.bytes := rfl
@[simp] theorem mbufAdvance_pos (n : Nat) : (mbufAdvance mb n).pos = mb.pos + n := rfl
@[simp] theorem mbufAdvance_end (n : Nat) : (mbufAdvance mb n).end_ = mb.end_ := rfl
@[simp] theorem mbufAdvance_bytes (n : Nat) :
    (mbufAdvance mb n).bytes = mb.bytes := rfl

theorem mbufAdvance_left (n : Nat) : (mbufAdvance mb n).left = mb.left.drop n := by
  rw [left_eq, left_eq, mbufAdvance_bytes, mbufAdvance_pos, drop_drop]

@[simp] theorem mbufAdvance_zero : mbufAdvance mb 0 = mb := rfl

theorem mbufAdvance_advance (m n : Nat) :
    mbufAdvance (mbufAdvance mb m) n = mbufAdvance mb (m + n) := by
  simp [mbufAdvance, add_assoc]

end

/-! ## Buffers split at the position

The ciphers cut a packet into header, payload and tag. With the bytes in use
written as such a concatenation the operations are cuts and appends. -/

variable {a b c : Bytes} {i : Nat}

theorem left_of_bytes (h : mb.bytes = a ++ b) (hp : mb.pos = a.length) : mb.left = b := by
  rw [left_eq, h, hp, drop_left]

theorem end_of_bytes (h : mb.bytes = a) : mb.end_ = a.length := by
  rw [← length_bytes, h]

theorem slice_of_bytes (h : mb.bytes = a ++ (b ++ c)) {j : Nat}
    (hi : i = a.length) (hj : j = a.length + b.length) : mb.slice i j = b := by
  have hend : j ≤ mb.end_ := by
    simp [end_of_bytes, h, hj]
  have hab : a.length + b.length = (a ++ b).length := length_append.symm
  rw [slice_eq hend, h, hi, hj, hab, ← append_assoc, take_left, drop_left]

/-! ## Fresh buffers -/

theorem mbufAlloc_some {size : Nat} (hpos : 1 ≤ size) (h : size ≤ memSizeMax) :
    ∃ mb, mbufAlloc size = some mb ∧ mb.bytes = [] ∧ mb.pos = 0 := by
  have hzero : ¬ size = 0 := by omega
  have hfits : ¬ size > memSizeMax := by omega
  refine ⟨{ buf := List.replicate size 0, pos := 0, end_ := 0, end_le := Nat.zero_le _ },
    ?_, rfl, rfl⟩
  simp only [mbufAlloc, hzero, hfits, if_false]

/-! ## Moving the end -/

theorem mbufSetEnd_end (h : n ≤ mb.end_) : (mbufSetEnd mb n).end_ = n := by
  rw [mbufSetEnd, dif_pos (le_trans h mb.end_le)]

theorem mbufSetEnd_bytes (h : n ≤ mb.end_) : (mbufSetEnd mb n).bytes = mb.bytes.take n := by
  rw [mbufSetEnd, dif_pos (le_trans h mb.end_le), Mbuf.bytes, Mbuf.bytes, take_take, min_eq_left h]

/-- Cutting the bytes in use between two parts. -/
theorem mbufSetEnd_append (h : mb.bytes = a ++ b)
    (hn : n = a.length) : (mbufSetEnd mb n).bytes = a := by
  have hle : n ≤ mb.end_ := by
    simp [end_of_bytes, h, hn]
  rw [mbufSetEnd_bytes hle, h, hn, take_left]

@[simp] theorem mbufSetEnd_pos (mb : Mbuf) (n : Nat) : (mbufSetEnd mb n).pos = mb.pos := by
  unfold mbufSetEnd
  split <;> rfl

/-- Moving the end leaves the memory alone, also behind it. -/
theorem slice_mbufSetEnd (mb : Mbuf) (n a b : Nat) :
    (mbufSetEnd mb n).slice a b = mb.slice a b := by
  unfold mbufSetEnd
  split <;> rfl

/-! ## Reading -/

theorem mbufReadMem_ok (h : n ≤ mb.left.length) :
    mbufReadMem mb n = .ok (mb.left.take n, mbufAdvance mb n) := by
  have hn : n ≤ mb.end_ - mb.pos := by rwa [length_left] at h
  have hslice : mb.slice mb.pos (mb.pos + n) = mb.left.take n := by
    simp [take_take, Mbuf.left, Mbuf.slice]
    omega
  rw [mbufReadMem, mbufGetLeft_eq, if_neg (by omega), hslice]
  rfl

theorem mbufReadMem_error (h : mb.left.length < n) : mbufReadMem mb n = .error .EOVERFLOW := by
  rw [mbufReadMem, mbufGetLeft_eq, if_pos h]

theorem mbufReadU8_ok (h : 1 ≤ mb.left.length) :
    mbufReadU8 mb = (mb.left.headD 0, mbufAdvance mb 1) := by
  rw [mbufReadU8, mbufReadMem_ok h]
  cases hl : mb.left with
  | nil => rw [hl] at h; simp at h
  | cons x xs => rfl

theorem mbufReadU16_ok (h : 2 ≤ mb.left.length) :
    mbufReadU16 mb = (ofBe16 mb.left, mbufAdvance mb 2) := by
  have hsplit : ofBe16 (mb.left.take 2) = ofBe16 mb.left := by
    rw [← ofBe16_append (by simp [h]) (mb.left.drop 2), take_append_drop]
  rw [mbufReadU16, mbufReadMem_ok h]
  simp only [hsplit]

theorem mbufReadU32_ok (h : 4 ≤ mb.left.length) :
    mbufReadU32 mb = (ofBe32 mb.left, mbufAdvance mb 4) := by
  have hsplit : ofBe32 (mb.left.take 4) = ofBe32 mb.left := by
    rw [← ofBe32_append (by simp [h]) (mb.left.drop 4), take_append_drop]
  rw [mbufReadU32, mbufReadMem_ok h]
  simp only [hsplit]

/-- The 16-bit read at an offset of what is left. -/
theorem readU16_at (h : n + 2 ≤ mb.left.length) :
    mbufReadU16 (mbufAdvance mb n) = (ofBe16 (mb.left.drop n), mbufAdvance mb (n + 2)) := by
  rw [mbufReadU16_ok (by rw [mbufAdvance_left, length_drop]; omega), mbufAdvance_left,
    mbufAdvance_advance]

/-- The 32-bit read at an offset of what is left. -/
theorem readU32_at (h : n + 4 ≤ mb.left.length) :
    mbufReadU32 (mbufAdvance mb n) = (ofBe32 (mb.left.drop n), mbufAdvance mb (n + 4)) := by
  rw [mbufReadU32_ok (by rw [mbufAdvance_left, length_drop]; omega), mbufAdvance_left,
    mbufAdvance_advance]

/-- The bytes left behind an offset. -/
theorem getLeft_at (mb : Mbuf) (n : Nat) : mbufGetLeft (mbufAdvance mb n) = mb.left.length - n := by
  rw [mbufGetLeft_eq, mbufAdvance_left, length_drop]

/-! ## Writing -/

theorem take_writeRoom (mb : Mbuf) (size n : Nat) (h : n ≤ mb.buf.length) :
    (writeRoom mb size).take n = mb.buf.take n := by
  by_cases hr : mb.pos + size > mb.buf.length
  · simp [writeRoom, growTo, hr, h]
  · simp only [writeRoom, hr, if_false]

@[simp] theorem mbufWriteMem_pos (mb : Mbuf) (xs : Bytes) :
    (mbufWriteMem mb xs).pos = mb.pos + xs.length := rfl

/-- A write at the end appends. -/
theorem mbufWriteMem_bytes (h : mb.pos = mb.end_) (xs : Bytes) :
    (mbufWriteMem mb xs).bytes = mb.bytes ++ xs := by
  have hend : (mbufWriteMem mb xs).end_ = mb.pos + xs.length := by
    simp only [mbufWriteMem]
    omega
  rw [Mbuf.bytes, hend]
  simp only [mbufWriteMem]
  rw [take_overwrite_end (fits_writeRoom mb xs.length), take_writeRoom mb _ _ (h ▸ mb.end_le), h]
  rfl

theorem mbufWriteMem_end (h : mb.pos = mb.end_) (xs : Bytes) :
    (mbufWriteMem mb xs).end_ = mb.end_ + xs.length := by
  rw [← length_bytes, mbufWriteMem_bytes h, length_append, length_bytes]

/-- A block appended at the end, with the position back where it was. -/
theorem append_left (h : mb.pos ≤ mb.end_) (seg : Bytes) :
    (mbufSetPos (mbufWriteMem (mbufSetPos mb mb.end_) seg) mb.pos).left = mb.left ++ seg ∧
      mb.pos ≤ (mbufWriteMem (mbufSetPos mb mb.end_) seg).end_ := by
  have hat : (mbufSetPos mb mb.end_).pos = (mbufSetPos mb mb.end_).end_ := rfl
  refine ⟨?_, ?_⟩
  · rw [left_eq, mbufSetPos_bytes, mbufSetPos_pos, mbufWriteMem_bytes hat, mbufSetPos_bytes,
      drop_append_of_le_length (by rw [length_bytes]; exact h), left_eq]
  · grind [mbufWriteMem_end, mbufSetPos_end]

@[simp] theorem store_pos (mb : Mbuf) (i : Nat) (xs : Bytes) :
    (mb.store i xs).pos = mb.pos := by
  unfold Mbuf.store
  split <;> rfl

@[simp] theorem store_end (mb : Mbuf) (i : Nat) (xs : Bytes) :
    (mb.store i xs).end_ = mb.end_ := by
  unfold Mbuf.store
  split <;> rfl

/-- A store inside the bytes in use. -/
theorem store_bytes (h : i + xs.length ≤ mb.end_) :
    (mb.store i xs).bytes = overwrite mb.bytes i xs := by
  have hb := mb.end_le
  rw [Mbuf.store, dif_pos (by omega), Mbuf.bytes, Mbuf.bytes, take_overwrite_inside h hb]

/-- A store over one part of the bytes in use replaces that part. -/
theorem store_append (h : mb.bytes = a ++ (b ++ c))
    (hi : i = a.length) (hx : xs.length = b.length) : (mb.store i xs).bytes = a ++ (xs ++ c) := by
  have hle : i + xs.length ≤ mb.end_ := by
    simp [end_of_bytes, h, hi, hx]
  rw [store_bytes hle, h, hi, ← append_assoc, overwrite_append a b c xs hx, append_assoc]

/-! ## What has been written

A writer may stand inside the bytes in use (a field patched later) or at their
end. Either way a write appends to what stands before the position. -/

theorem length_written (h : mb.pos ≤ mb.end_) : mb.written.length = mb.pos := by
  rw [Mbuf.written, length_take, length_bytes, min_eq_left h]

theorem written_prefix_bytes (mb : Mbuf) : mb.written <+: mb.bytes := take_prefix _ _

theorem written_eq_buf (h : mb.pos ≤ mb.end_) : mb.written = mb.buf.take mb.pos := by
  rw [Mbuf.written, Mbuf.bytes, take_take, min_eq_left h]

theorem mbufWriteMem_pos_le (mb : Mbuf) (xs : Bytes) :
    (mbufWriteMem mb xs).pos ≤ (mbufWriteMem mb xs).end_ := le_max_right _ _

theorem mbufWriteMem_written (h : mb.pos ≤ mb.end_) (xs : Bytes) :
    (mbufWriteMem mb xs).written = mb.written ++ xs := by
  rw [written_eq_buf (mbufWriteMem_pos_le mb xs), written_eq_buf h]
  show (overwrite (writeRoom mb xs.length) mb.pos xs).take (mb.pos + xs.length) = _
  rw [take_overwrite_end (fits_writeRoom mb xs.length),
    take_writeRoom mb _ _ (le_trans h mb.end_le)]

/-- A write inside the bytes in use. -/
theorem mbufWriteMem_buf (h : mb.pos + xs.length ≤ mb.end_) :
    (mbufWriteMem mb xs).buf = overwrite mb.buf mb.pos xs := by
  have hle := mb.end_le
  show overwrite (writeRoom mb xs.length) mb.pos xs = _
  simp only [writeRoom]
  rw [if_neg (by omega)]

theorem mbufWriteMem_inside (h : mb.pos + xs.length ≤ mb.end_) :
    (mbufWriteMem mb xs).end_ = mb.end_ ∧
      (mbufWriteMem mb xs).bytes = overwrite mb.bytes mb.pos xs := by
  have hend : (mbufWriteMem mb xs).end_ = mb.end_ := max_eq_left h
  refine ⟨hend, ?_⟩
  rw [Mbuf.bytes, hend, mbufWriteMem_buf h, take_overwrite_inside h mb.end_le]
  rfl

attribute [ext] Mbuf

/-- A field written over, and then written again as it was. -/
theorem mbufWriteMem_back (h : mb.bytes = a ++ (b ++ c)) (hpos : mb.pos = a.length)
    (hx : xs.length = b.length) :
    mbufSetPos (mbufWriteMem (mbufSetPos (mbufWriteMem mb xs) mb.pos) b) mb.pos = mb := by
  have hend := end_of_bytes h
  rw [length_append, length_append] at hend
  have hfirst : mb.pos + xs.length ≤ mb.end_ := by omega
  have hend' : (mbufWriteMem mb xs).end_ = mb.end_ := (mbufWriteMem_inside hfirst).1
  have hsecond : (mbufSetPos (mbufWriteMem mb xs) mb.pos).pos + b.length ≤
      (mbufSetPos (mbufWriteMem mb xs) mb.pos).end_ := by
    simp
    omega
  have hbuf : mb.buf = a ++ b ++ (c ++ mb.buf.drop mb.end_) := by
    rw [← append_assoc (a ++ b), append_assoc a, ← h, Mbuf.bytes, take_append_drop]
  apply Mbuf.ext
  · show (mbufWriteMem (mbufSetPos (mbufWriteMem mb xs) mb.pos) b).buf = mb.buf
    rw [mbufWriteMem_buf hsecond]
    show overwrite (mbufWriteMem mb xs).buf mb.pos b = mb.buf
    rw [mbufWriteMem_buf hfirst, hpos]
    rw [hbuf, overwrite_append _ _ _ _ hx, overwrite_append _ _ _ _ hx.symm]
  · rfl
  · simp [mbufWriteMem]
    omega

/-- Going back to a field in front of the last part `c`, writing it again and
returning behind `c`. -/
theorem rewrite_written (hp : mb.pos ≤ mb.end_)
    (h : mb.written = a ++ (b ++ c)) (hx : xs.length = b.length) :
    let mb' := mbufAdvance (mbufWriteMem (mbufSetPos mb a.length) xs) c.length
    mb'.pos = mb.pos ∧ mb'.pos ≤ mb'.end_ ∧ mb'.written = a ++ (xs ++ c) := by
  have hbytes : mb.bytes = a ++ b ++ (c ++ mb.bytes.drop mb.pos) := by
    rw [← append_assoc, append_assoc a, ← h, Mbuf.written, take_append_drop]
  have hlen := length_written hp
  rw [h, length_append, length_append] at hlen
  have hin : (mbufSetPos mb a.length).pos + xs.length ≤ (mbufSetPos mb a.length).end_ := by
    simp
    omega
  obtain ⟨hend, hwrite⟩ := mbufWriteMem_inside hin
  have hpos : a.length + xs.length + c.length = mb.pos := by omega
  refine ⟨hpos, ?_, ?_⟩
  · simp [hend]
    omega
  rw [mbufSetPos_bytes, mbufSetPos_pos, hbytes, overwrite_append _ _ _ _ hx] at hwrite
  rw [Mbuf.written, mbufAdvance_bytes, hwrite]
  have htake : (mbufAdvance (mbufWriteMem (mbufSetPos mb a.length) xs) c.length).pos =
      (a ++ xs ++ c).length := by
    simp
    omega
  rw [htake, ← append_assoc (a ++ xs), take_left, append_assoc]

/-- A store over one part of what has been written replaces that part. -/
theorem store_written (hp : mb.pos ≤ mb.end_)
    (h : mb.written = a ++ (b ++ c)) (hi : i = a.length) (hx : xs.length = b.length) :
    (mb.store i xs).written = a ++ (xs ++ c) := by
  have hbytes : mb.bytes = a ++ (b ++ (c ++ mb.bytes.drop mb.pos)) := by
    rw [← append_assoc b, ← append_assoc a, ← h, Mbuf.written, take_append_drop]
  have hlen : mb.pos = (a ++ (xs ++ c)).length := by
    grind [length_written]
  have hstore : (mb.store i xs).bytes = a ++ (xs ++ c) ++ mb.bytes.drop mb.pos := by
    rw [store_append hbytes hi hx, append_assoc, append_assoc]
  rw [Mbuf.written, hstore, store_pos, hlen, take_left]

/-! ## The memory before a position

A writer that leaves room for a header stands behind the end, in memory that is not in
use yet. `upto` is the memory before a position, wherever the end is. -/

/-- The first `n` bytes of the memory; zeros where there is none yet. -/
def Mbuf.upto (mb : Mbuf) (n : Nat) : Bytes := (growTo mb.buf n).take n

variable {m : Nat} {front : Bytes}

theorem growTo_take {buf : Bytes} (h : n ≤ m) : (growTo buf m).take n = (growTo buf n).take n := by
  simp [take_append, growTo]
  omega

@[simp] theorem length_upto (mb : Mbuf) (n : Nat) : (mb.upto n).length = n := by
  simp [Mbuf.upto, growTo]
  omega

theorem upto_of_le (h : n ≤ mb.end_) : mb.upto n = mb.bytes.take n := by
  have hle := mb.end_le
  rw [Mbuf.upto, growTo, take_append_of_le_length (by omega), Mbuf.bytes, take_take, min_eq_left h]

theorem upto_end (mb : Mbuf) : mb.upto mb.end_ = mb.bytes := by
  rw [upto_of_le (le_refl _), take_of_length_le (by rw [length_bytes])]

theorem upto_take (mb : Mbuf) (h : m ≤ n) : (mb.upto n).take m = mb.upto m := by
  rw [Mbuf.upto, take_take, min_eq_left h, growTo_take h, Mbuf.upto]

theorem mbufSetPos_upto (mb : Mbuf) (pos n : Nat) : (mbufSetPos mb pos).upto n = mb.upto n := rfl

theorem growTo_writeRoom (mb : Mbuf) (size n : Nat) :
    (growTo (writeRoom mb size) n).take n = mb.upto n := by
  by_cases hr : mb.pos + size > mb.buf.length
  · simp only [writeRoom, hr, if_true]
    generalize max (mb.pos + size) _ = k
    have hgrow : growTo (growTo mb.buf k) n = growTo mb.buf (max k n) := by
      simp [growTo]
      omega
    rw [hgrow, growTo_take (le_max_right k n), Mbuf.upto]
  · simp only [writeRoom, hr, if_false]
    rfl

/-- A write goes over the memory before any position behind it. -/
theorem mbufWriteMem_upto (h : mb.pos + xs.length ≤ n) :
    (mbufWriteMem mb xs).upto n = overwrite (mb.upto n) mb.pos xs := by
  have hfits := fits_writeRoom mb xs.length
  show (growTo (overwrite (writeRoom mb xs.length) mb.pos xs) n).take n = _
  rw [growTo, length_overwrite hfits, overwrite_append_right hfits]
  rw [take_overwrite_inside h (by rw [length_append, length_replicate]; omega)]
  rw [← growTo_writeRoom mb xs.length n, growTo]

/-- A write at the position appends to the memory before it. -/
theorem mbufWriteMem_upto_pos (mb : Mbuf) (xs : Bytes) :
    (mbufWriteMem mb xs).upto (mb.pos + xs.length) = mb.upto mb.pos ++ xs := by
  have hlen := length_upto mb (mb.pos + xs.length)
  have htake := take_overwrite_end (le_of_eq hlen.symm)
  rw [upto_take mb (Nat.le_add_right _ _), take_of_length_le
    (by rw [length_overwrite (le_of_eq hlen.symm), hlen])] at htake
  rw [mbufWriteMem_upto (le_refl _), htake]

/-- What stands behind a write is left alone. -/
theorem mbufWriteMem_tail (mb : Mbuf) (xs : Bytes) :
    (mbufWriteMem mb xs).bytes.drop (mb.pos + xs.length) = mb.bytes.drop (mb.pos + xs.length) := by
  by_cases hbehind : mb.end_ ≤ mb.pos + xs.length
  · simp [drop_eq_nil_of_le, mbufWriteMem, hbehind]
  · grind [mbufWriteMem_inside, drop_overwrite, length_bytes]

/-- The writer stands behind `front`. -/
structure Behind (front : Bytes) (mb : Mbuf) : Prop where
  pos : mb.pos = front.length
  upto : mb.upto mb.pos = front

theorem behind_self (mb : Mbuf) : Behind (mb.upto mb.pos) mb := ⟨(length_upto mb mb.pos).symm, rfl⟩

theorem Behind.write (h : Behind front mb) (xs : Bytes) :
    Behind (front ++ xs) (mbufWriteMem mb xs) where
  pos := by rw [mbufWriteMem_pos, h.pos, length_append]
  upto := by rw [mbufWriteMem_pos, mbufWriteMem_upto_pos, h.upto]

/-- Leaving room for `n` bytes. -/
theorem Behind.reserve (h : Behind front mb) (n : Nat) :
    ∃ room : Bytes, room.length = n ∧ Behind (front ++ room) (mbufAdvance mb n) := by
  refine ⟨(mb.upto (mb.pos + n)).drop mb.pos, ?_, ?_, ?_⟩
  · rw [length_drop, length_upto, Nat.add_sub_cancel_left]
  · rw [mbufAdvance_pos, length_append, length_drop, length_upto, h.pos, Nat.add_sub_cancel_left]
  · have hsplit := take_append_drop mb.pos (mb.upto (mb.pos + n))
    rw [upto_take mb (Nat.le_add_right _ _), h.upto] at hsplit
    exact hsplit.symm

/-- Going back to write over a part, and forth again. -/
theorem Behind.patch (h : Behind (a ++ b ++ c) mb) (xs : Bytes) (hx : xs.length = b.length)
    {j : Nat} (hi : i = a.length) (hj : j = mb.pos) :
    Behind (a ++ xs ++ c) (mbufSetPos (mbufWriteMem (mbufSetPos mb i) xs) j) := by
  have hpos := h.pos
  rw [length_append, length_append] at hpos
  have hfits : (mbufSetPos mb i).pos + xs.length ≤ mb.pos := by
    simp
    omega
  refine ⟨?_, ?_⟩
  · simp
    omega
  · rw [mbufSetPos_upto, mbufSetPos_pos, hj, mbufWriteMem_upto hfits, mbufSetPos_upto,
      mbufSetPos_pos, h.upto, hi, overwrite_append _ _ _ _ hx]

end LibRe
