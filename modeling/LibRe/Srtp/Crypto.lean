/-
LibRe.Srtp.Crypto — the ciphers SRTP runs on, and the values it feeds them:
`srtp_derive`, `srtp_iv_calc`, `srtp_iv_calc_gcm` (`src/srtp/misc.c`).

AES and HMAC-SHA1 themselves come from OpenSSL and are not part of the
repository. `Crypto` stands for them and assumes what the wrappers in
`src/aes/openssl/aes.c` and `src/hmac/openssl/hmac.c` rely on, no more:

* AES in counter mode xors with a key stream that key and IV determine;
* AES in Galois counter mode does the same, and its tag is a function of key,
  IV, associated data and ciphertext;
* HMAC-SHA1 is a function of key and data;
* a GCM tag has sixteen bytes and a SHA-1 digest twenty.

`aes_set_iv` starts a message afresh, so one call of the model takes the IV and
the whole message. Failures of the OpenSSL calls are not modelled.
-/
import LibRe.Mbuf.MbufTheorems

namespace LibRe.SRTP

open Bytes List

/-- What the code gets from OpenSSL. Keys, IVs and messages are byte lists. -/
structure Crypto where
  ctrStream : Bytes → Bytes → Nat → UInt8
  gcmStream : Bytes → Bytes → Nat → UInt8
  gcmTag : Bytes → Bytes → Bytes → Bytes → { t : Bytes // t.length = 16 }
  hmacSha1 : Bytes → Bytes → { t : Bytes // t.length = 20 }

/-- `enum aes_mode`. -/
inductive AesMode where
  | ctr
  | gcm
  deriving DecidableEq, Repr

/-- `AES_BLOCK_SIZE`. -/
def aesBlockSize : Nat := 16

/-- `GCM_TAGLEN`. -/
def gcmTagLen : Nat := 16

/-- `SHA_DIGEST_LENGTH`. -/
def shaDigestLength : Nat := 20

variable (K : Crypto) (key iv data : Bytes)

/-- `aes_set_iv` and `aes_encr` or `aes_decr` in counter mode. -/
def aesCtr : Bytes :=
  maskWith (K.ctrStream key iv) data

/-- `aes_set_iv` and `aes_encr` or `aes_decr` of a payload in Galois counter mode. -/
def aesGcm : Bytes :=
  maskWith (K.gcmStream key iv) data

/-- `hmac_digest` into a buffer of `SHA_DIGEST_LENGTH` bytes. -/
def hmacDigest (key data : Bytes) : Except Errno Bytes :=
  if data.isEmpty then .error .EINVAL else .ok (K.hmacSha1 key data).val

/-- The context `aes_alloc` makes holds the key; other key sizes have no cipher. -/
def aesAlloc (key : Bytes) : Except Errno Bytes :=
  if key.length * 8 = 128 ∨ key.length * 8 = 256 then .ok key else .error .ENOTSUP

/-- A 128-bit vector in network order (`union vect128`). -/
abbrev Vect128 := { l : Bytes // l.length = 16 }

/-- `srtp_derive`: `outLen` key-stream bytes under the master key, from the
salt with the label in its eighth byte. -/
def srtpDerive (outLen : Nat) (label : UInt8) (masterKey masterSalt : Bytes) :
    Except Errno { l : Bytes // l.length = outLen } :=
  if outLen > aesBlockSize * 2 ∨ masterSalt.length > aesBlockSize then .error .EINVAL
  else
    let x := (masterSalt ++ List.replicate (aesBlockSize - masterSalt.length) 0).modify 7
      (fun b => b ^^^ label)
    match aesAlloc masterKey with
    | .error e => .error e
    | .ok aes => .ok ⟨aesCtr K aes x (List.replicate outLen 0), by simp [aesCtr]⟩

/-- `srtp_iv_calc`. -/
def srtpIvCalc (kS : Vect128) (ssrc : UInt32) (ix : UInt64) : Bytes :=
  kS.val.take 4 ++ xorBytes ((kS.val.drop 4).take 4) (be32 ssrc)
    ++ xorBytes ((kS.val.drop 8).take 4) (be32 (ix >>> 16).toUInt32)
    ++ xorBytes ((kS.val.drop 12).take 2) (be16 ix.toUInt16) ++ [0, 0]

/-- `srtp_iv_calc_gcm`: the twelve bytes GCM uses. -/
def srtpIvCalcGcm (kS : Vect128) (ssrc : UInt32) (ix : UInt64) : Bytes :=
  kS.val.take 2 ++ xorBytes ((kS.val.drop 2).take 2) (be16 (ssrc >>> 16).toUInt16)
    ++ xorBytes ((kS.val.drop 4).take 2) (be16 (ssrc &&& 0xffff).toUInt16)
    ++ xorBytes ((kS.val.drop 6).take 2) (be16 ((ix >>> 32) &&& 0xffff).toUInt16)
    ++ xorBytes ((kS.val.drop 8).take 2) (be16 ((ix >>> 16) &&& 0xffff).toUInt16)
    ++ xorBytes ((kS.val.drop 10).take 2) (be16 (ix &&& 0xffff).toUInt16)

/-! ## The ciphers -/

@[simp] theorem length_aesCtr :
    (aesCtr K key iv data).length = data.length := length_maskWith _ _

@[simp] theorem length_aesGcm :
    (aesGcm K key iv data).length = data.length := length_maskWith _ _

theorem hmacDigest_ok (key : Bytes) {data : Bytes} (h : data ≠ []) :
    hmacDigest K key data = .ok (K.hmacSha1 key data).val := by
  rw [hmacDigest, if_neg (by simpa using h)]

/-! ## The IV and the 48 bits of the index

Both layouts put SSRC and index into the IV field by field, each xored with a
block of the salt. Only the lower 48 bits of the index go in, and they can be
read off again. -/

/-- Two blocks xored with the salt and followed by something, compared. -/
theorem append_xorBytes_inj {p k xs ys tx ty : Bytes} (hx : xs.length = k.length)
    (hy : ys.length = k.length)
    (h : p ++ (xorBytes k xs ++ tx) = p ++ (xorBytes k ys ++ ty)) : xs = ys ∧ tx = ty := by
  have hlen : (xorBytes k xs).length = (xorBytes k ys).length := by
    rw [length_xorBytes, length_xorBytes, hx, hy]
  obtain ⟨hb, ht⟩ := append_inj (append_cancel_left h) hlen
  exact ⟨xorBytes_right_injective hx hy hb, ht⟩

/-- The upper 32 of the 48 bits. -/
theorem toNat_shiftRight_toUInt32 (ix : UInt64) :
    (ix >>> 16).toUInt32.toNat = ix.toNat / 65536 % 4294967296 := by
  simp [Nat.shiftRight_eq_div_pow]

/-- The sixteen bits from bit `n` on. -/
theorem toNat_shiftRight_and (ix n : UInt64) (hn : n.toNat < 64) :
    ((ix >>> n) &&& 0xffff).toUInt16.toNat = ix.toNat / 2 ^ n.toNat % 65536 := by
  have hmask : (0xffff : UInt64).toNat = 2 ^ 16 - 1 := rfl
  rw [UInt64.toNat_toUInt16, UInt64.toNat_and, hmask, Nat.and_two_pow_sub_one_eq_mod,
    UInt64.toNat_shiftRight, Nat.mod_eq_of_lt hn, Nat.shiftRight_eq_div_pow]
  exact Nat.mod_mod _ _

theorem toNat_and_mask (ix : UInt64) : (ix &&& 0xffff).toUInt16.toNat = ix.toNat % 65536 := by
  have hmask : (0xffff : UInt64).toNat = 2 ^ 16 - 1 := rfl
  rw [UInt64.toNat_toUInt16, UInt64.toNat_and, hmask, Nat.and_two_pow_sub_one_eq_mod]
  exact Nat.mod_mod _ _

variable {ix ix' : UInt64}

/-- Only 48 bits of the index go into the IV of counter mode. -/
theorem srtpIvCalc_congr (kS : Vect128) (ssrc : UInt32)
    (h : ix.toNat % 2 ^ 48 = ix'.toNat % 2 ^ 48) :
    srtpIvCalc kS ssrc ix = srtpIvCalc kS ssrc ix' := by
  have hhi : (ix >>> 16).toUInt32 = (ix' >>> 16).toUInt32 := by
    apply UInt32.toNat_inj.mp
    rw [toNat_shiftRight_toUInt32, toNat_shiftRight_toUInt32]
    omega
  have hlo : ix.toUInt16 = ix'.toUInt16 := by
    apply UInt16.toNat_inj.mp
    rw [UInt64.toNat_toUInt16, UInt64.toNat_toUInt16]
    omega
  rw [srtpIvCalc, srtpIvCalc, hhi, hlo]

/-- Only 48 bits of the index go into the IV of Galois counter mode. -/
theorem srtpIvCalcGcm_congr (kS : Vect128) (ssrc : UInt32)
    (h : ix.toNat % 2 ^ 48 = ix'.toNat % 2 ^ 48) :
    srtpIvCalcGcm kS ssrc ix = srtpIvCalcGcm kS ssrc ix' := by
  have h32 : ((ix >>> 32) &&& 0xffff).toUInt16 = ((ix' >>> 32) &&& 0xffff).toUInt16 := by
    apply UInt16.toNat_inj.mp
    rw [toNat_shiftRight_and ix 32 (by decide), toNat_shiftRight_and ix' 32 (by decide)]
    show ix.toNat / 4294967296 % 65536 = ix'.toNat / 4294967296 % 65536
    omega
  have h16 : ((ix >>> 16) &&& 0xffff).toUInt16 = ((ix' >>> 16) &&& 0xffff).toUInt16 := by
    apply UInt16.toNat_inj.mp
    rw [toNat_shiftRight_and ix 16 (by decide), toNat_shiftRight_and ix' 16 (by decide)]
    show ix.toNat / 65536 % 65536 = ix'.toNat / 65536 % 65536
    omega
  have h0 : (ix &&& 0xffff).toUInt16 = (ix' &&& 0xffff).toUInt16 := by
    apply UInt16.toNat_inj.mp
    rw [toNat_and_mask, toNat_and_mask]
    omega
  rw [srtpIvCalcGcm, srtpIvCalcGcm, h32, h16, h0]

variable {kS : Vect128} {ssrc : UInt32}

/-- The IV of counter mode gives the 48 bits back. -/
theorem srtpIvCalc_inj (h : srtpIvCalc kS ssrc ix = srtpIvCalc kS ssrc ix') :
    ix.toNat % 2 ^ 48 = ix'.toNat % 2 ^ 48 := by
  have hlen := kS.property
  simp only [srtpIvCalc, append_assoc] at h
  rw [← append_assoc, ← append_assoc (kS.val.take 4)] at h
  obtain ⟨hhi, h⟩ := append_xorBytes_inj (by simp [hlen]) (by simp [hlen]) h
  obtain ⟨hlo, -⟩ := append_xorBytes_inj (p := []) (by simp [hlen]) (by simp [hlen]) h
  have hhi' := congrArg UInt32.toNat (be32_injective hhi)
  have hlo' := congrArg UInt16.toNat (be16_injective hlo)
  rw [toNat_shiftRight_toUInt32, toNat_shiftRight_toUInt32] at hhi'
  rw [UInt64.toNat_toUInt16, UInt64.toNat_toUInt16] at hlo'
  omega

/-- The IV of Galois counter mode gives the 48 bits back. -/
theorem srtpIvCalcGcm_inj (h : srtpIvCalcGcm kS ssrc ix = srtpIvCalcGcm kS ssrc ix') :
    ix.toNat % 2 ^ 48 = ix'.toNat % 2 ^ 48 := by
  have hlen := kS.property
  simp only [srtpIvCalcGcm, append_assoc] at h
  rw [← append_assoc, ← append_assoc, ← append_assoc (kS.val.take 2),
    ← append_assoc (kS.val.take 2 ++ _)] at h
  obtain ⟨h32, h⟩ := append_xorBytes_inj (by simp [hlen]) (by simp [hlen]) h
  obtain ⟨h16, h⟩ := append_xorBytes_inj (p := []) (by simp [hlen]) (by simp [hlen]) h
  have h0 := xorBytes_right_injective (by simp [hlen]) (by simp [hlen]) h
  have h32' := congrArg UInt16.toNat (be16_injective h32)
  have h16' := congrArg UInt16.toNat (be16_injective h16)
  have h0' := congrArg UInt16.toNat (be16_injective h0)
  rw [toNat_shiftRight_and ix 32 (by decide), toNat_shiftRight_and ix' 32 (by decide)] at h32'
  rw [toNat_shiftRight_and ix 16 (by decide), toNat_shiftRight_and ix' 16 (by decide)] at h16'
  rw [toNat_and_mask, toNat_and_mask] at h0'
  have e32 : (32 : UInt64).toNat = 32 := rfl
  have e16 : (16 : UInt64).toNat = 16 := rfl
  rw [e32] at h32'
  rw [e16] at h16'
  omega

end LibRe.SRTP
