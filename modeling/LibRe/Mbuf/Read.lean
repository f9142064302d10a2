/-
LibRe.Mbuf.Read — reading fields from the front of a buffer.

The decoders that only go forwards are readers of the bytes left in the buffer. The
readers of this module are the calls they are made of: `mbuf_get_left` compared with
the size of some fields, the readers of single words, which give zero and read nothing
when the word is not there, and the loop that skips padding up to a multiple of four.
-/
import LibRe.Lib.Reader
import LibRe.Lib.Words
import LibRe.Mbuf.Mbuf

namespace LibRe.Read

open Bytes Reader List

/-! ## Readers -/

/-- `mbuf_get_left(mb) < n` is EBADMSG. -/
abbrev checked {α : Type} (n : Nat) (f : Bytes → α) : Reader UInt8 Errno α := fields .EBADMSG n f

/-- `mbuf_read_u8` -/
def readU8 : Reader UInt8 Errno UInt8 := fieldsOr 0 1 (·.headD 0)

/-- `ntohs(mbuf_read_u16(mb))` -/
def readU16 : Reader UInt8 Errno UInt16 := fieldsOr 0 2 ofBe16

/-- `ntohl(mbuf_read_u32(mb))` -/
def readU32 : Reader UInt8 Errno UInt32 := fieldsOr 0 4 ofBe32

/-- `sys_ntohll(mbuf_read_u64(mb))` -/
def readU64 : Reader UInt8 Errno UInt64 := fieldsOr 0 8 fun xs => UInt64.ofNat (ofBe xs)

/-- `while ((mb->pos - start) & 0x3 && mbuf_get_left(mb)) ++mb->pos;`, where `start`
bytes were left at the start. -/
def slurpPadding (start : Nat) : Bytes → Bytes
  | [] => []
  | x :: xs => if (start - (xs.length + 1)) % 4 = 0 then x :: xs else slurpPadding start xs

def slurp (start : Nat) : Reader UInt8 Errno Unit := fun xs => .ok ((), slurpPadding start xs)

/-! ## How much is read -/

variable {start : Nat} {xs : Bytes}

theorem slurpPadding_eq (h : xs.length ≤ start) :
    slurpPadding start xs = xs.drop (min ((4 - (start - xs.length) % 4) % 4) xs.length) := by
  induction xs with
  | nil => rw [slurpPadding, drop_nil]
  | cons x xs ih =>
    rw [length_cons] at h ⊢
    rw [slurpPadding]
    split
    · rename_i hzero
      rw [hzero]
      simp
    · have hskip : min ((4 - (start - (xs.length + 1)) % 4) % 4) (xs.length + 1) =
          min ((4 - (start - xs.length) % 4) % 4) xs.length + 1 := by omega
      rw [ih (by omega), hskip, drop_succ_cons]

theorem sized_slurp (h : xs.length ≤ start) :
    Sized False (slurp start) xs (min ((4 - (start - xs.length) % 4) % 4) xs.length) := by
  rintro ⟨⟩ rest hr
  cases hr
  refine ⟨slurpPadding_eq h, min_le_right .., fun ys hys => ?_⟩
  have hrest := congrArg length (slurpPadding_eq h)
  have hlen : (xs.take (min ((4 - (start - xs.length) % 4) % 4) xs.length) ++ ys).length =
      xs.length := by
    rw [length_append, hys.resolve_left not_false, hrest, ← length_append, take_append_drop]
  rw [slurp, slurpPadding_eq (by omega), hlen, drop_left' (length_take_of_le (min_le_right ..))]

theorem headD_take_one (xs : Bytes) : (xs.take 1).headD 0 = xs.headD 0 := by
  cases xs <;> rfl

theorem readU8_eq (h : 1 ≤ xs.length) : readU8 xs = .ok (xs.headD 0, xs.drop 1) := by
  rw [readU8, fieldsOr_of_le h, headD_take_one]

/-! ## Reading what was written -/

theorem slurpPadding_append {pad ys : Bytes} (hpad : pad.length < 4)
    (hstart : pad.length + ys.length ≤ start) (hend : (start - ys.length) % 4 = 0) :
    slurpPadding start (pad ++ ys) = ys := by
  rw [slurpPadding_eq (by rw [length_append]; omega), drop_left']
  rw [length_append]
  omega

theorem accepts_readU8 (x : UInt8) : Accepts readU8 [x] x := accepts_fieldsOr 0 rfl rfl

theorem accepts_word (v : UInt32) : Accepts (checked 4 ofBe32) (be32 v) v := by
  refine accepts_fields _ (length_be32 v) ?_
  rw [← List.append_nil (be32 v), ofBe32_be32_append]

end LibRe.Read
