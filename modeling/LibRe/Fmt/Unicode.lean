/-
LibRe.Fmt.Unicode — escaped strings (`src/fmt/unicode.c`, `src/fmt/ch.c`).

The encoder escapes the quote, the backslash, the slash and the control characters; all
other bytes stand as they are. The decoder knows these escapes and joins surrogate pairs.
What was encoded is decoded to the same bytes, and any text of plain characters and escapes
to the bytes it stands for (`textBytes`).
-/
import Mathlib.Data.FinEnum
import LibRe.Fmt.Str
import LibRe.Mbuf.Mbuf

namespace LibRe

/-! ## Encoding -/

/-- `hex_chars` -/
def hexChar (n : UInt8) : UInt8 := if n < 10 then 48 + n else 55 + n

variable (str : Bytes) (uhi : Option Nat) (c : UInt8)

/-- `switch (c)` of `utf8_encode`: the letter of a short escape. -/
def shortEscape : Option UInt8 :=
  match c.toNat with
  | 34 => some 34
  | 92 => some 92
  | 47 => some 47
  | 8 => some 98
  | 12 => some 102
  | 10 => some 110
  | 13 => some 114
  | 9 => some 116
  | _ => none

/-- One character of `utf8_encode`. -/
def utf8EncodeChar : Bytes :=
  match shortEscape c with
  | some ec => [92, ec]
  | none =>
    if c < 32 then [92, 117, 48, 48, hexChar (c >>> 4 &&& 0xf), hexChar (c &&& 0xf)] else [c]

/-- `utf8_encode` -/
def utf8Encode : Bytes := str.flatMap utf8EncodeChar

/-! ## Decoding -/

/-- `isxdigit` -/
def isXdigit : Bool := (48 ≤ c && c ≤ 57) || (65 ≤ c && c ≤ 70) || (97 ≤ c && c ≤ 102)

/-- `ch_hex` -/
def chHex : Nat :=
  if 48 ≤ c ∧ c ≤ 57 then c.toNat - 48
  else if 65 ≤ c ∧ c ≤ 70 then c.toNat - 65 + 10
  else if 97 ≤ c ∧ c ≤ 102 then c.toNat - 97 + 10
  else 0

/-- `utf8_byteseq` -/
def utf8Byteseq (cp : Nat) : Bytes :=
  if cp ≤ 0x7f then [UInt8.ofNat cp]
  else if cp ≤ 0x7ff then [UInt8.ofNat (0xc0 + cp / 64 % 32), UInt8.ofNat (0x80 + cp % 64)]
  else if cp ≤ 0xffff then
    [UInt8.ofNat (0xe0 + cp / 4096 % 16), UInt8.ofNat (0x80 + cp / 64 % 64),
      UInt8.ofNat (0x80 + cp % 64)]
  else if cp ≤ 0x10ffff then
    [UInt8.ofNat (0xf0 + cp / 262144 % 8), UInt8.ofNat (0x80 + cp / 4096 % 64),
      UInt8.ofNat (0x80 + cp / 64 % 64), UInt8.ofNat (0x80 + cp % 64)]
  else [0xef, 0xbf, 0xbd]

/-- The character of a short escape; other characters stand for themselves. -/
def unescape (ch : UInt8) : UInt8 :=
  match ch.toNat with
  | 98 => 8
  | 102 => 12
  | 110 => 10
  | 114 => 13
  | 116 => 9
  | _ => ch

/-- `utf8_decode`; `uhi` is the high surrogate that was read last. -/
def utf8Decode : Option Nat → Bytes → Except Errno Bytes
  | _, [] => .ok []
  | uhi, ch :: rest =>
    if ch = 92 then
      match rest with
      | [] => .error .EBADMSG
      | e :: rest =>
        if e = 117 then
          match rest with
          | a :: b :: c :: d :: rest =>
            if isXdigit a && isXdigit b && isXdigit c && isXdigit d then
              let u := chHex a * 4096 + chHex b * 256 + chHex c * 16 + chHex d
              if 0xd800 ≤ u ∧ u ≤ 0xdbff then utf8Decode (some ((u - 0xd800) * 0x400)) rest
              else if 0xdc00 ≤ u ∧ u ≤ 0xdfff then
                match uhi with
                | none => utf8Decode none rest
                | some uhi =>
                  (utf8Decode none rest).map (utf8Byteseq (uhi + u - 0xdc00 + 0x10000) ++ ·)
              else (utf8Decode none rest).map (utf8Byteseq u ++ ·)
            else .error .EBADMSG
          | _ => .error .EBADMSG
        else (utf8Decode none rest).map (unescape e :: ·)
    else (utf8Decode none rest).map (ch :: ·)

/-! ## Reading back -/

/-- A control character as four hexadecimal digits. -/
theorem control_spec (h : c < 32) :
    isXdigit (hexChar (c >>> 4 &&& 0xf)) = true ∧ isXdigit (hexChar (c &&& 0xf)) = true ∧
      chHex (hexChar (c >>> 4 &&& 0xf)) * 16 + chHex (hexChar (c &&& 0xf)) = c.toNat := by
  revert c
  decide +kernel

theorem utf8Decode_plain {ch : UInt8} (h : ch ≠ 92) (uhi : Option Nat) (rest : Bytes) :
    utf8Decode uhi (ch :: rest) = (utf8Decode none rest).map (ch :: ·) := by
  conv_lhs => unfold utf8Decode
  exact if_neg h

theorem utf8Decode_escape {e : UInt8} (h : e ≠ 117) (uhi : Option Nat) (rest : Bytes) :
    utf8Decode uhi (92 :: e :: rest) = (utf8Decode none rest).map (unescape e :: ·) := by
  conv_lhs => unfold utf8Decode
  exact (if_pos rfl).trans (if_neg h)

/-- The number of four digits. -/
def codeUnit (a b c d : UInt8) : Nat := chHex a * 4096 + chHex b * 256 + chHex c * 16 + chHex d

/-- Four digits behind the upper half `uhi`. -/
theorem utf8Decode_code {a b c d : UInt8}
    (h : (isXdigit a && isXdigit b && isXdigit c && isXdigit d) = true)
    {u : Nat} (hu : codeUnit a b c d = u) (uhi : Option Nat) (rest : Bytes) :
    utf8Decode uhi (92 :: 117 :: a :: b :: c :: d :: rest) =
      if 0xd800 ≤ u ∧ u ≤ 0xdbff then utf8Decode (some ((u - 0xd800) * 0x400)) rest
      else if 0xdc00 ≤ u ∧ u ≤ 0xdfff then
        match uhi with
        | none => utf8Decode none rest
        | some uhi => (utf8Decode none rest).map (utf8Byteseq (uhi + u - 0xdc00 + 0x10000) ++ ·)
      else (utf8Decode none rest).map (utf8Byteseq u ++ ·) := by
  subst hu
  rw [utf8Decode.eq_3, if_pos rfl, if_pos rfl, if_pos h]
  rfl

theorem utf8Decode_char (rest : Bytes) :
    utf8Decode none (utf8EncodeChar c ++ rest) = (utf8Decode none rest).map (c :: ·) := by
  unfold utf8EncodeChar
  cases hshort : shortEscape c with
  | some ec =>
    have hback : unescape ec = c ∧ ec ≠ 117 := by
      unfold shortEscape at hshort
      split at hshort <;> cases hshort <;>
        exact ⟨UInt8.toNat_inj.mp (by simp [*, unescape]), by decide⟩
    exact (utf8Decode_escape hback.2 none rest).trans (by rw [hback.1])
  | none =>
    by_cases hctl : c < 32
    · obtain ⟨hhi, hlo, hval⟩ := control_spec c hctl
      have hlt : c.toNat < 32 := UInt8.lt_iff_toNat_lt.mp hctl
      have hzero : isXdigit 48 = true ∧ chHex 48 = 0 := by decide
      have hu : codeUnit 48 48 (hexChar (c >>> 4 &&& 0xf)) (hexChar (c &&& 0xf)) = c.toNat := by
        simp [codeUnit, hzero, hval]
      have hseq : utf8Byteseq c.toNat = [c] := by
        rw [utf8Byteseq, if_pos (by omega), UInt8.ofNat_toNat]
      rw [if_pos hctl]
      refine (utf8Decode_code (by rw [hzero.1, hhi, hlo]; rfl) hu none rest).trans ?_
      rw [if_neg (by omega), if_neg (by omega), hseq]
      rfl
    · have hne : c ≠ 92 := by
        rintro rfl
        exact nomatch hshort
      rw [if_neg hctl]
      exact utf8Decode_plain hne none rest

/-- What was encoded is decoded. -/
theorem utf8Decode_utf8Encode : utf8Decode none (utf8Encode str) = .ok str := by
  induction str with
  | nil => rfl
  | cons c str ih =>
    rw [utf8Encode, List.flatMap_cons, utf8Decode_char]
    rw [utf8Encode] at ih
    rw [ih]
    rfl

/-! ## Any text -/

/-- A part of a text: a plain character, a short escape, or an escape of four digits. -/
inductive Piece where
  | plain (ch : UInt8) (h : ch ≠ 92)
  | short (e : UInt8) (h : e ≠ 117)
  | code (a b c d : UInt8) (h : (isXdigit a && isXdigit b && isXdigit c && isXdigit d) = true)

def Piece.text : Piece → Bytes
  | .plain ch _ => [ch]
  | .short e _ => [92, e]
  | .code a b c d _ => [92, 117, a, b, c, d]

/-- The lower half of a code point, if a text begins with it. -/
def lowAhead : List Piece → Option Nat
  | .code a b c d _ :: _ =>
    if 0xdc00 ≤ codeUnit a b c d ∧ codeUnit a b c d ≤ 0xdfff then some (codeUnit a b c d - 0xdc00)
      else none
  | _ => none

/-- The UTF-8 encoding of a code point. -/
def utf8Char (cp : Nat) : Bytes := String.utf8EncodeChar (Char.ofNat cp)

/-- What an upper half stands for in front of a text: the code point of the pair, or nothing. -/
def pairBytes (ps : List Piece) : Bytes :=
  match uhi, lowAhead ps with
  | some hi, some lo => utf8Char (0x10000 + hi * 0x400 + lo)
  | _, _ => []

/-- What a text stands for. A lower half adds nothing to what its upper half stands for. -/
def textBytes : List Piece → Bytes
  | [] => []
  | .plain ch _ :: ps => ch :: textBytes ps
  | .short e _ :: ps => unescape e :: textBytes ps
  | .code a b c d _ :: ps =>
    let u := codeUnit a b c d
    (if 0xd800 ≤ u ∧ u ≤ 0xdbff then pairBytes (some (u - 0xd800)) ps
      else if 0xdc00 ≤ u ∧ u ≤ 0xdfff then []
      else utf8Char u) ++ textBytes ps

theorem pairBytes_eq_nil {ps : List Piece} (h : lowAhead ps = none) (uhi : Option Nat) :
    pairBytes uhi ps = [] := by
  cases uhi <;> simp [pairBytes, h]

theorem codeUnit_lt (a b c d : UInt8) : codeUnit a b c d < 0x10000 := by
  have hdigit : ∀ c : UInt8, chHex c < 16 := by
    intro c
    unfold chHex
    split_ifs with h h h <;> simp only [UInt8.le_iff_toNat_le] at h <;> simp at h ⊢ <;> omega
  have ha := hdigit a
  have hb := hdigit b
  have hc := hdigit c
  have hd := hdigit d
  unfold codeUnit
  omega

theorem utf8Byteseq_eq {cp : Nat} (h : cp.isValidChar) : utf8Byteseq cp = utf8Char cp := by
  have hval : (Char.ofNat cp).val.toNat = cp := by
    rw [Char.ofNat, dif_pos h]
    rfl
  have hmax : cp ≤ 0x10ffff := by
    rcases h with h | h <;> omega
  simp only [utf8Byteseq, utf8Char, String.utf8EncodeChar, hval]
  simp [hmax, add_comm]

/-- What is still to come when the upper half `uhi` was read last. -/
theorem utf8Decode_text (hhi : ∀ hi ∈ uhi, hi < 0x400) (ps : List Piece) :
    utf8Decode (uhi.map (· * 0x400)) (ps.flatMap Piece.text) =
      .ok (pairBytes uhi ps ++ textBytes ps) := by
  induction ps generalizing uhi with
  | nil =>
    rw [pairBytes_eq_nil rfl]
    rfl
  | cons p ps ih =>
    have ihNone : utf8Decode none (ps.flatMap Piece.text) = .ok (textBytes ps) := ih none (by simp)
    cases p with
    | plain ch h =>
      rw [pairBytes_eq_nil rfl]
      refine (utf8Decode_plain h _ (ps.flatMap Piece.text)).trans ?_
      rw [ihNone]
      rfl
    | short e h =>
      rw [pairBytes_eq_nil rfl]
      refine (utf8Decode_escape h _ (ps.flatMap Piece.text)).trans ?_
      rw [ihNone]
      rfl
    | code a b c d h =>
      have hlt := codeUnit_lt a b c d
      refine (utf8Decode_code h rfl _ (ps.flatMap Piece.text)).trans ?_
      rw [textBytes, ihNone]
      by_cases hhigh : 0xd800 ≤ codeUnit a b c d ∧ codeUnit a b c d ≤ 0xdbff
      · have hno : lowAhead (.code a b c d h :: ps) = none := if_neg (by omega)
        rw [if_pos hhigh, if_pos hhigh, pairBytes_eq_nil hno]
        exact ih (some (codeUnit a b c d - 0xd800)) (by simp; omega)
      rw [if_neg hhigh, if_neg hhigh]
      by_cases hlow : 0xdc00 ≤ codeUnit a b c d ∧ codeUnit a b c d ≤ 0xdfff
      · rw [if_pos hlow, if_pos hlow]
        have hyes : lowAhead (.code a b c d h :: ps) = some (codeUnit a b c d - 0xdc00) :=
          if_pos hlow
        cases uhi with
        | none => rfl
        | some hi =>
          have hcp : hi * 0x400 + codeUnit a b c d - 0xdc00 + 0x10000 =
              0x10000 + hi * 0x400 + (codeUnit a b c d - 0xdc00) := by
            omega
          have hvalid := hhi hi rfl
          have hseq := utf8Byteseq_eq (.inr ⟨by omega, by omega⟩ :
            (0x10000 + hi * 0x400 + (codeUnit a b c d - 0xdc00)).isValidChar)
          simp [Except.map, pairBytes, hyes, hcp, hseq]
      · have hno : lowAhead (.code a b c d h :: ps) = none := if_neg hlow
        have hseq :=
          utf8Byteseq_eq (show (codeUnit a b c d).isValidChar by unfold Nat.isValidChar; omega)
        rw [if_neg hlow, if_neg hlow, pairBytes_eq_nil hno, hseq]
        rfl

/-- What the encoder writes is read back, and any text is decoded to what it stands for. -/
theorem utf8_decodes (str : CStr) (ps : List Piece) :
    utf8Decode none (utf8Encode str.bytes) = .ok str.bytes ∧
      utf8Decode none (ps.flatMap Piece.text) = .ok (textBytes ps) :=
  ⟨utf8Decode_utf8Encode str.bytes, utf8Decode_text none (by simp) ps⟩

end LibRe
