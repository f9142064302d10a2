/-
LibRe.Websock.Decode — what `websock_decode` makes of the bytes at hand.

`frameOf` says on the received bytes alone what the decoder does with a buffer
(`websockDecode_frameOf`): the frame is not complete, or it is there with its
payload unmasked, or the length is so large that `4 + len` wraps around, and then
the loop that unmasks the payload leaves the buffer.
-/
import Mathlib.Data.FinEnum
import LibRe.Websock.Websock

namespace LibRe.Websock

open Bytes Checked List

variable {mb : Mbuf} {hdr : WebsockHdr}

/-- The most bytes that can be left in a buffer: with the four of a mask they are
still counted by a `size_t`. -/
def sizeMax : Nat := 2 ^ 64 - 5

/-! ## The frame at the front of the received bytes -/

/-- The payload length with the number of bytes it takes behind the first two. -/
def lenField (len : Nat) (xs : Bytes) : Option (Nat × Nat) :=
  if len = 126 then if xs.length < 2 then none else some ((ofBe16 xs).toNat, 2)
  else if len = 127 then if xs.length < 8 then none else some (ofBe (xs.take 8), 8)
  else some (len, 0)

inductive Front where
  | more
  | wraps
  | frame (hdr : WebsockHdr) (n : Nat) (payload : Bytes)

/-- `mkey[i%4]` -/
def keyStream (mkey : Bytes) (i : Nat) : UInt8 := mkey.getD (i % 4) 0

/-- The rest of a frame behind its length. -/
def bodyOf (hdr : WebsockHdr) (size : Nat) (body : Bytes) : Front :=
  if hdr.mask then
    if body.length < maskedSize hdr.len then .more
    else if 2 ^ 64 ≤ 4 + hdr.len then .wraps
    else
      .frame { hdr with mkey := body.take 4 } (size + 4 + hdr.len)
        (maskWith (keyStream (body.take 4)) ((body.drop 4).take hdr.len))
  else if body.length < hdr.len then .more
  else .frame hdr (size + hdr.len) (body.take hdr.len)

def frameOf : Bytes → Front
  | v :: w :: rest =>
    match lenField (firstBytes v w).len rest with
    | none => .more
    | some (len, k) => bodyOf { firstBytes v w with len } (2 + k) (rest.drop k)
  | _ => .more

/-! ## Reading byte by byte -/

theorem mbufReadU8_cons {v : UInt8} {rest : Bytes} (h : mb.left = v :: rest) :
    mbufReadU8 mb = (v, mbufAdvance mb 1) ∧ (mbufAdvance mb 1).left = rest := by
  refine ⟨?_, ?_⟩
  · simp [mbufReadU8_ok, h]
  · rw [mbufAdvance_left, h]
    rfl

theorem mbufReadU64_ok (h : 8 ≤ mb.left.length) :
    mbufReadU64 mb = (ofBe (mb.left.take 8), mbufAdvance mb 8) := by
  rw [mbufReadU64, mbufReadMem_ok h]

variable {xs : Bytes} {len : Nat}

/-- The three forms of the length. -/
theorem lenField_cases {l k : Nat} (h : lenField len xs = some (l, k)) :
    (len = 126 ∧ 2 ≤ xs.length ∧ l = (ofBe16 xs).toNat ∧ k = 2) ∨
      (len = 127 ∧ 8 ≤ xs.length ∧ l = ofBe (xs.take 8) ∧ k = 8) ∨
      (len ≠ 126 ∧ len ≠ 127 ∧ l = len ∧ k = 0) := by
  unfold lenField at h
  split_ifs at h <;> cases h <;> simp_all
  omega

theorem readLen_eq (len : Nat) (mb : Mbuf) :
    readLen len mb =
      match lenField len mb.left with
      | none => .error .ENODATA
      | some (l, k) => .ok (l, mbufAdvance mb k) := by
  rw [readLen, lenField, mbufGetLeft_eq]
  split
  · split
    · rfl
    · rw [mbufReadU16_ok (by omega)]
  split
  · split
    · rfl
    · rw [mbufReadU64_ok (by omega)]
  · simp

/-! ## Unmasking -/

theorem overwrite_singleton {l : Bytes} {i : Nat} (h : i < l.length) (b : UInt8) :
    overwrite l i [b] = l.set i b := by
  simp [set_eq_take_append_cons_drop, overwrite, h]

/-- The loop inside the bytes in use: each byte it passes is xored once. -/
theorem unmaskLoop_inside (mkey : Bytes) (n : Nat) :
    ∀ (i : Nat) (mb : Mbuf), mb.pos + i + n ≤ mb.end_ →
      ∃ mb', unmaskLoop mkey n i mb = .ok mb' ∧ mb'.pos = mb.pos ∧ mb'.end_ = mb.end_ ∧
        ∀ j, mb'.bytes[j]? =
          if mb.pos + i ≤ j ∧ j < mb.pos + i + n then
            mb.bytes[j]?.map (· ^^^ keyStream mkey (j - mb.pos))
          else mb.bytes[j]? := by
  induction n with
  | zero =>
    intro i mb _
    refine ⟨mb, rfl, rfl, rfl, fun j => ?_⟩
    rw [if_neg (by omega)]
  | succ n ih =>
    intro i mb hend
    have hin : mb.pos + i < mb.end_ := by omega
    have hbuf : mb.buf.getD (mb.pos + i) 0 = mb.bytes.getD (mb.pos + i) 0 := by
      simp [Mbuf.bytes, hin]
    have hstore : (mb.store (mb.pos + i) [mb.buf.getD (mb.pos + i) 0 ^^^ mkey.getD (i % 4) 0]).bytes
        = mb.bytes.set (mb.pos + i) (mb.bytes.getD (mb.pos + i) 0 ^^^ keyStream mkey i) := by
      rw [store_bytes (by simpa using hin), overwrite_singleton (by rw [length_bytes]; exact hin),
        hbuf]
      rfl
    obtain ⟨mb', hrun, hpos, hend', hbytes⟩ := ih (i + 1) (mb.store (mb.pos + i)
      [mb.buf.getD (mb.pos + i) 0 ^^^ mkey.getD (i % 4) 0]) (by rw [store_pos, store_end]; omega)
    rw [store_pos] at hpos hbytes
    rw [store_end] at hend'
    refine ⟨mb', ?_, hpos, hend', fun j => ?_⟩
    · rw [unmaskLoop, if_pos hin, hrun]
    rw [hbytes j, hstore, getElem?_set, length_bytes]
    by_cases hj : mb.pos + i = j
    · -- the byte of this round, which no later round touches
      subst hj
      have hget : mb.bytes[mb.pos + i]? = some (mb.bytes.getD (mb.pos + i) 0) := by
        simp [hin]
      rw [if_neg (by omega), if_pos rfl, if_pos hin, if_pos (by omega), hget,
        Nat.add_sub_cancel_left]
      rfl
    · rw [if_neg hj]
      by_cases hlater : mb.pos + (i + 1) ≤ j ∧ j < mb.pos + (i + 1) + n
      · rw [if_pos hlater, if_pos (by omega)]
      · rw [if_neg hlater, if_neg (by omega)]

/-- The loop that has to go on behind the bytes in use. -/
theorem unmaskLoop_outside (mkey : Bytes) (n : Nat) :
    ∀ (i : Nat) (mb : Mbuf), 0 < n → mb.end_ < mb.pos + i + n →
      ∃ fault, unmaskLoop mkey n i mb = .error fault := by
  induction n with
  | zero =>
    omega
  | succ n ih =>
    intro i mb _ hend
    rw [unmaskLoop]
    by_cases hin : mb.pos + i < mb.end_
    · rw [if_pos hin]
      apply ih (i + 1)
      · omega
      · simp
        omega
    · simp [hin]

/-- The payload is unmasked and nothing else is changed. -/
theorem unmask_payload (mkey : Bytes) (h : len ≤ mb.left.length) (hpos : mb.pos ≤ mb.end_) :
    ∃ mb', unmaskLoop mkey len 0 mb = .ok mb' ∧ mb'.pos = mb.pos ∧ mb'.end_ = mb.end_ ∧
      mb'.left = maskWith (keyStream mkey) (mb.left.take len) ++ mb.left.drop len := by
  rw [length_left] at h
  obtain ⟨mb', hrun, hp, he, hbytes⟩ := unmaskLoop_inside mkey len 0 mb (by omega)
  refine ⟨mb', hrun, hp, he, ?_⟩
  have hlen : (maskWith (keyStream mkey) (mb.left.take len)).length = len := by
    simp [length_left]
    omega
  apply ext_getElem?
  intro j
  rw [left_eq, getElem?_drop, hbytes, hp]
  by_cases hj : j < len
  · have hget : mb.left[j]? = mb.bytes[mb.pos + j]? := by rw [left_eq, getElem?_drop]
    rw [if_pos (by omega), getElem?_append_left (by omega), maskWith, getElem?_mapIdx,
      getElem?_take_of_lt hj, hget, Nat.add_sub_cancel_left]
  · have hback : len + (j - len) = j := by omega
    rw [if_neg (by omega), getElem?_append_right (by omega), hlen, getElem?_drop, left_eq,
      getElem?_drop, hback]

/-! ## The decoder -/

/-- The decoder's answer to a buffer, from what is at the front of its bytes. -/
def Decodes (mb : Mbuf) : Front → Except Fault (Except Errno (WebsockHdr × Mbuf)) → Prop
  | .more, r => r = .ok (.error .ENODATA)
  | .wraps, r => ∃ fault, r = .error fault
  | .frame hdr n payload, r =>
    ∃ mb', r = .ok (.ok (hdr, mb')) ∧ mb'.pos + hdr.len = mb.pos + n ∧ mb'.end_ = mb.end_ ∧
      n ≤ mb.left.length ∧ mb'.left = payload ++ mb.left.drop n ∧ payload.length = hdr.len

theorem mbufReadU8_length (mb : Mbuf) : (mbufReadU8 mb).2.left.length ≤ mb.left.length := by
  cases h : mb.left with
  | nil => rw [mbufReadU8, mbufReadMem_error (by rw [h]; decide), h]
  | cons v rest =>
    obtain ⟨hread, hrest⟩ := mbufReadU8_cons h
    rw [hread, hrest]
    simp

theorem readKey_length (mb : Mbuf) : (readKey mb).2.left.length ≤ mb.left.length := by
  have h0 := mbufReadU8_length mb
  have h1 := mbufReadU8_length (mbufReadU8 mb).2
  have h2 := mbufReadU8_length (mbufReadU8 (mbufReadU8 mb).2).2
  have h3 := mbufReadU8_length (mbufReadU8 (mbufReadU8 (mbufReadU8 mb).2).2).2
  simp only [readKey]
  omega

theorem readKey_ok (h : 4 ≤ mb.left.length) : readKey mb = (mb.left.take 4, mbufAdvance mb 4) := by
  match hkey : mb.left with
  | k0 :: k1 :: k2 :: k3 :: rest =>
    obtain ⟨h0, hl0⟩ := mbufReadU8_cons hkey
    obtain ⟨h1, hl1⟩ := mbufReadU8_cons hl0
    obtain ⟨h2, hl2⟩ := mbufReadU8_cons hl1
    obtain ⟨h3, -⟩ := mbufReadU8_cons hl2
    simp only [readKey, h0, h1, h2, h3]
    rfl
  | [] | [_] | [_, _] | [_, _, _] =>
    simp_all

/-- A masked frame whose length wraps around: the payload is longer than any buffer. -/
theorem decodeBody_wraps (hmask : hdr.mask = true)
    (hwrap : 2 ^ 64 ≤ 4 + hdr.len) (hmax : mb.left.length ≤ sizeMax)
    (hfew : ¬ mb.left.length < maskedSize hdr.len) : ∃ fault, decodeBody hdr mb = .error fault := by
  have hshort := (readKey_length mb).trans hmax
  rw [length_left, sizeMax] at hshort
  obtain ⟨fault, hfault⟩ := unmaskLoop_outside (readKey mb).1 hdr.len 0 (readKey mb).2
    (by omega) (by omega)
  refine ⟨fault, ?_⟩
  rw [decodeBody, if_pos hmask, mbufGetLeft_eq, if_neg hfew]
  simp only [hfault]

/-- A masked frame that is there. -/
theorem decodeBody_masked (hmask : hdr.mask = true)
    (hwrap : 4 + hdr.len < 2 ^ 64) (hlen : 4 + hdr.len ≤ mb.left.length) :
    ∃ mb', decodeBody hdr mb = .ok (.ok ({ hdr with mkey := mb.left.take 4 }, mb')) ∧
      mb'.pos = mb.pos + 4 ∧ mb'.end_ = mb.end_ ∧
      mb'.left = maskWith (keyStream (mb.left.take 4)) ((mb.left.drop 4).take hdr.len) ++
        mb.left.drop (4 + hdr.len) := by
  have hsum : maskedSize hdr.len = 4 + hdr.len := Nat.mod_eq_of_lt hwrap
  have hbody : (mbufAdvance mb 4).left = mb.left.drop 4 := mbufAdvance_left mb 4
  have hall := length_left mb
  have hpos : (mbufAdvance mb 4).pos ≤ (mbufAdvance mb 4).end_ := by
    simp
    omega
  have hin : hdr.len ≤ (mbufAdvance mb 4).left.length := by
    simp [hbody]
    omega
  obtain ⟨mb', hrun, hp, he, hleft⟩ := unmask_payload (mb.left.take 4) hin hpos
  rw [hbody, drop_drop] at hleft
  refine ⟨mb', ?_, hp, he, hleft⟩
  rw [decodeBody, if_pos hmask, mbufGetLeft_eq, hsum, if_neg (by omega), readKey_ok (by omega)]
  simp only [hrun]

theorem decodeBody_bodyOf (hdr : WebsockHdr) (size : Nat) {mb₀ : Mbuf}
    (hmb : mb = mbufAdvance mb₀ size) (hsize : size ≤ mb₀.left.length)
    (hmax : mb.left.length ≤ sizeMax) :
    Decodes mb₀ (bodyOf hdr size mb.left) (decodeBody hdr mb) := by
  have hleft : mb.left = mb₀.left.drop size := by rw [hmb, mbufAdvance_left]
  have hp : mb.pos = mb₀.pos + size := by rw [hmb, mbufAdvance_pos]
  have he : mb.end_ = mb₀.end_ := by rw [hmb, mbufAdvance_end]
  have hlen : mb.left.length = mb₀.left.length - size := by rw [hleft, length_drop]
  rw [bodyOf]
  by_cases hmask : hdr.mask = true
  · rw [if_pos hmask]
    by_cases hfew : mb.left.length < maskedSize hdr.len
    · rw [if_pos hfew, decodeBody, if_pos hmask, mbufGetLeft_eq, if_pos hfew]
      exact rfl
    rw [if_neg hfew]
    by_cases hwrap : 2 ^ 64 ≤ 4 + hdr.len
    · rw [if_pos hwrap]
      exact decodeBody_wraps hmask hwrap hmax hfew
    have hsum : maskedSize hdr.len = 4 + hdr.len := Nat.mod_eq_of_lt (by omega)
    rw [hsum] at hfew
    obtain ⟨mb', hrun, hp', he', hl'⟩ :=
      decodeBody_masked hmask (Nat.lt_of_not_le hwrap) (Nat.le_of_not_lt hfew)
    rw [if_neg hwrap, hrun]
    refine ⟨mb', rfl, ?_, he'.trans he, by omega, ?_, ?_⟩
    · simp
      omega
    · rw [hl', hleft, drop_drop, drop_drop, add_assoc]
    · simp
      omega
  · rw [if_neg hmask, decodeBody, if_neg hmask, mbufGetLeft_eq]
    by_cases hfew : mb.left.length < hdr.len
    · rw [if_pos hfew, if_pos hfew]
      exact rfl
    rw [if_neg hfew, if_neg hfew]
    refine ⟨mb, rfl, by omega, he, by omega, ?_, ?_⟩
    · rw [← drop_drop, ← hleft, take_append_drop]
    · simp
      omega

/-- What `websock_decode` does is determined by the bytes that are left. -/
theorem websockDecode_frameOf (hmax : mb.left.length ≤ sizeMax) :
    Decodes mb (frameOf mb.left) (websockDecode mb) := by
  rw [websockDecode, mbufGetLeft_eq]
  match hl : mb.left with
  | [] | [_] => exact rfl
  | v :: w :: rest =>
    obtain ⟨h0, hl0⟩ := mbufReadU8_cons hl
    obtain ⟨h1, hl1⟩ := mbufReadU8_cons hl0
    rw [mbufAdvance_advance] at h1 hl1
    have htwo : ¬ (v :: w :: rest).length < 2 := by simp
    rw [if_neg htwo, frameOf]
    simp only [h0, h1]
    rw [readLen_eq, hl1]
    cases hfield : lenField (firstBytes v w).len rest with
    | none => exact rfl
    | some r =>
      obtain ⟨len, k⟩ := r
      have hk : k ≤ rest.length := by
        rcases lenField_cases hfield with h | h | h <;> omega
      have hadv : mbufAdvance (mbufAdvance mb 2) k = mbufAdvance mb (2 + k) :=
        mbufAdvance_advance mb 2 k
      have hbody : (mbufAdvance mb (2 + k)).left = rest.drop k := by
        rw [← hadv, mbufAdvance_left, hl1]
      have hlen : mb.left.length = rest.length + 2 := by rw [hl]; rfl
      have h := decodeBody_bodyOf { firstBytes v w with len } (2 + k)
        (rfl : mbufAdvance mb (2 + k) = _) (by omega) (by rw [hbody, length_drop]; omega)
      rw [hbody] at h
      simp only [hadv]
      exact h

/-! ## The bytes the decoder touches -/

/-- The decoder reads and writes inside the received bytes only, and the payload
of a frame it reports is there. -/
def StaysInside (mb : Mbuf) : Prop :=
  match websockDecode mb with
  | .error _ => False
  | .ok (.error _) => True
  | .ok (.ok (hdr, mb')) => hdr.len ≤ mb'.left.length ∧ mb'.end_ = mb.end_

/-- The front of a masked frame whose length has 64 bits and is so large that
`4 + len` wraps around, and as many bytes behind it as the wrapped sum asks for. -/
def LengthWraps : Bytes → Prop
  | _ :: w :: rest =>
    w = 255 ∧ 8 ≤ rest.length ∧ 2 ^ 64 ≤ 4 + ofBe (rest.take 8) ∧
      4 + ofBe (rest.take 8) - 2 ^ 64 ≤ rest.length - 8
  | _ => False

theorem ofBe64_lt (h : 8 ≤ xs.length) : ofBe (xs.take 8) < 2 ^ 64 := by
  have hlt := ofBe_lt (xs.take 8)
  rw [length_take, min_eq_left h] at hlt
  exact hlt

/-- A length that is not followed by eight bytes is small. -/
theorem lenField_small {l k : Nat} (hlen : len < 128)
    (h : lenField len xs = some (l, k)) (hne : len ≠ 127) : l < 65536 := by
  have hshort := (ofBe16 xs).toNat_lt
  rcases lenField_cases h with h | h | h <;> omega

theorem all_ones_iff (w : UInt8) : w = 255 ↔ w.toNat.testBit 7 = true ∧ w.toNat % 128 = 127 := by
  revert w
  decide +kernel

theorem bodyOf_wraps_iff {size : Nat} {body : Bytes} :
    bodyOf hdr size body = .wraps ↔
      hdr.mask = true ∧ maskedSize hdr.len ≤ body.length ∧ 2 ^ 64 ≤ 4 + hdr.len := by
  rw [bodyOf]
  by_cases hmask : hdr.mask = true
  · rw [if_pos hmask]
    by_cases hfew : body.length < maskedSize hdr.len
    · simp [hfew]
    rw [if_neg hfew]
    by_cases hwrap : 2 ^ 64 ≤ 4 + hdr.len
    · simp [Nat.le_of_not_lt, hmask, hfew]
    · simp
      omega
  · rw [if_neg hmask]
    refine ⟨fun h => ?_, fun h => absurd h.1 hmask⟩
    split at h <;> cases h

theorem frameOf_wraps_iff (xs : Bytes) : frameOf xs = .wraps ↔ LengthWraps xs := by
  match xs with
  | [] | [_] => exact ⟨nofun, False.elim⟩
  | v :: w :: rest =>
    rw [frameOf, LengthWraps, all_ones_iff]
    by_cases h127 : (firstBytes v w).len = 127
    · have hfield : lenField 127 rest = if rest.length < 8 then none
          else some (ofBe (rest.take 8), 8) := by
        rw [lenField, if_neg (by decide), if_pos rfl]
      rw [h127, hfield]
      by_cases h8 : rest.length < 8
      · simp [h8]
      have hlt := ofBe64_lt (Nat.le_of_not_lt h8)
      rw [if_neg h8]
      simp only [bodyOf_wraps_iff, length_drop, maskedSize]
      constructor
      · rintro ⟨hmask, hsize, hwrap⟩
        exact ⟨⟨hmask, h127⟩, by omega, hwrap, by omega⟩
      · rintro ⟨⟨hmask, -⟩, -, hwrap, hsize⟩
        exact ⟨hmask, by omega, hwrap⟩
    · refine ⟨fun h => ?_, fun h => absurd h.1.2 h127⟩
      cases hfield : lenField (firstBytes v w).len rest with
      | none => rw [hfield] at h; cases h
      | some r =>
        have hsmall := lenField_small (Nat.mod_lt _ (by decide)) hfield h127
        rw [hfield] at h
        have hwrap := (bodyOf_wraps_iff.mp h).2.2
        simp only at hwrap
        omega

/-- The decoder stays inside the received bytes except when the length wraps. -/
theorem websockDecode_inside_iff {mb : Mbuf} (hmax : mb.left.length ≤ sizeMax) :
    StaysInside mb ↔ ¬ LengthWraps mb.left := by
  have hdec := websockDecode_frameOf hmax
  rw [← frameOf_wraps_iff, StaysInside]
  cases hfront : frameOf mb.left with
  | more =>
    rw [hfront] at hdec
    rw [show websockDecode mb = _ from hdec]
    exact ⟨fun _ => nofun, fun _ => trivial⟩
  | wraps =>
    rw [hfront] at hdec
    obtain ⟨fault, hrun⟩ := hdec
    rw [hrun]
    exact ⟨False.elim, fun h => h rfl⟩
  | frame hdr n payload =>
    rw [hfront] at hdec
    obtain ⟨mb', hrun, -, hend, -, hleft, hlen⟩ := hdec
    rw [hrun]
    refine ⟨fun _ => nofun, fun _ => ⟨?_, hend⟩⟩
    rw [hleft, length_append, hlen]
    exact Nat.le_add_right _ _

/-- A binary message of 13 bytes that claims a payload of 2^64 - 1 bytes. -/
def hugeFrame : Bytes := [0x82, 0xff] ++ List.replicate 8 0xff ++ [1, 2, 3]

theorem websockDecode_inside_ping :
    StaysInside (Mbuf.ofBytes [0x89, 0x81, 1, 2, 3, 4, 0x41] 0) := by
  have hmax : (Mbuf.ofBytes [0x89, 0x81, 1, 2, 3, 4, 0x41] 0).left.length ≤ sizeMax := by decide
  rw [websockDecode_inside_iff hmax]
  rintro ⟨hw, -⟩
  exact absurd hw (by decide)

/-- The wrapped sum asks for three bytes, and they are there. -/
theorem hugeFrame_unmasked_outside : ¬ ∀ mb : Mbuf, mb.left.length ≤ sizeMax → StaysInside mb := by
  intro h
  have hmax : (Mbuf.ofBytes hugeFrame 0).left.length ≤ sizeMax := by decide
  have hin := h _ hmax
  exact hin

end LibRe.Websock
