/-
LibRe.Srtp.Run — runs of calls on one session.

A session is reached from `srtp_alloc` by calls of the four functions, in any
order and on any buffers. A receiver is watched through what it hands to its
caller: return codes, and the plaintext of the packets it accepts.
-/
import LibRe.Srtp.PacketTheorems

namespace LibRe.SRTP

open Bytes

/-- One call on a session. -/
inductive Call where
  | srtpEncrypt (mb : Mbuf)
  | srtpDecrypt (mb : Mbuf)
  | srtcpEncrypt (mb : Mbuf)
  | srtcpDecrypt (mb : Mbuf)

variable (ssrc : UInt32) (seq : UInt16) (K : Crypto)

/-- What a call does. -/
def call (srtp : Srtp) : Call → Outcome
  | .srtpEncrypt mb => srtpEncrypt K srtp mb
  | .srtpDecrypt mb => srtpDecrypt K srtp mb
  | .srtcpEncrypt mb => srtcpEncrypt K srtp mb
  | .srtcpDecrypt mb => srtcpDecrypt K srtp mb

/-- The session after a sequence of calls. -/
def calls (K : Crypto) (srtp : Srtp) : List Call → Srtp
  | [] => srtp
  | op :: ops => calls K (call K srtp op).srtp ops

/-- The sessions a program can get. -/
def Reachable (srtp : Srtp) : Prop :=
  ∃ suite key flags srtp₀ ops, srtpAlloc K suite key flags = .ok srtp₀ ∧ calls K srtp₀ ops = srtp

/-- A packet handed to a receiver. -/
inductive Packet where
  | rtp (mb : Mbuf)
  | rtcp (mb : Mbuf)

/-- What a receiver does with a packet. -/
def receive (srtp : Srtp) : Packet → Outcome
  | .rtp mb => srtpDecrypt K srtp mb
  | .rtcp mb => srtcpDecrypt K srtp mb

/-- What the caller of a receiver sees of a call: the code, and the plaintext
of an accepted packet. -/
def Outcome.seen (o : Outcome) : Option Errno × Option Bytes :=
  (o.err, if o.err = none then some o.mb.left else none)

/-- What the caller of a receiver sees of a sequence of packets. -/
def receiveAll (K : Crypto) (srtp : Srtp) : List Packet → List (Option Errno × Option Bytes)
  | [] => []
  | p :: ps => (receive K srtp p).seen :: receiveAll K (receive K srtp p).srtp ps

/-! ## The view decides what is seen -/

/-- Two calls that do what one receipt says look alike and leave one view. -/
theorem seen_of_refines {mb : Mbuf} {o o' : Outcome} {r : Receipt} (h : Refines mb o r)
    (h' : Refines mb o' r) : o.seen = o'.seen ∧ o.srtp.view = o'.srtp.view := by
  refine ⟨?_, by rw [h.view, h'.view]⟩
  unfold Outcome.seen
  rw [h.err, h'.err]
  cases he : r.err with
  | some e => rfl
  | none =>
    obtain ⟨hb, hp⟩ := h.out he
    obtain ⟨hb', hp'⟩ := h'.out he
    rw [left_eq, left_eq, hb, hb', hp, hp']

variable {srtp : Srtp} {key : Bytes}

/-- One packet: the same code, the same plaintext, the same view. -/
theorem receive_congr {srtp' : Srtp} (h : srtp.view = srtp'.view) (p : Packet) :
    (receive K srtp p).seen = (receive K srtp' p).seen ∧
      (receive K srtp p).srtp.view = (receive K srtp' p).srtp.view := by
  cases p with
  | rtp mb =>
    have h' := srtpDecrypt_refines K srtp' mb
    rw [← h] at h'
    exact seen_of_refines (srtpDecrypt_refines K srtp mb) h'
  | rtcp mb =>
    have h' := srtcpDecrypt_refines K srtp' mb
    rw [← h] at h'
    exact seen_of_refines (srtcpDecrypt_refines K srtp mb) h'

/-- Receivers with one view cannot be told apart. -/
theorem receiveAll_congr (ps : List Packet) : ∀ {srtp srtp' : Srtp},
    srtp.view = srtp'.view → receiveAll K srtp ps = receiveAll K srtp' ps := by
  induction ps with
  | nil => intro srtp srtp' _; rfl
  | cons p ps ih =>
    intro srtp srtp' h
    obtain ⟨hseen, hview⟩ := receive_congr K h p
    rw [receiveAll, receiveAll, hseen, ih hview]

/-! ## Set-up -/

/-- What `srtp_alloc` leaves behind: no stream, and components of the suite's kind. -/
theorem srtpAlloc_spec {K : Crypto} {suite : SrtpSuite} {flags : UInt32}
    (h : srtpAlloc K suite key flags = .ok srtp) :
    srtp.streaml = .empty ∧
    srtp.rtp.hmac.isSome = suite.params.hash ∧ srtp.rtcp.hmac.isSome = suite.params.hash ∧
    srtp.rtcp.aes.isSome = (flags &&& srtpUnencryptedSrtcp == 0) := by
  unfold srtpAlloc at h
  simp only [bind, Except.bind] at h
  split at h
  · cases h
  split at h
  · cases h
  · split at h
    · cases h
    · grind

/-! ## Headers without payload -/

/-- The twelve bytes of an RTP header. -/
def bareHeader : Bytes :=
  [0x80, 0] ++ (be16 seq ++ (be32 0 ++ be32 ssrc))

/-- A buffer that holds these bytes and nothing else. -/
def barePacket : Mbuf :=
  { buf := bareHeader ssrc seq, pos := 0, end_ := 12, end_le := le_refl _ }

theorem headerLen_bareHeader :
    headerLen (bareHeader ssrc seq) = 12 := by
  have hext : hasExt (bareHeader ssrc seq) = false := by
    show ((0x80 : UInt8) >>> 4 &&& 0x01 == 1) = false
    decide
  have hcc : csrcCount (bareHeader ssrc seq) = 0 := by
    show ((0x80 : UInt8) &&& 0x0f).toNat = 0
    decide
  rw [headerLen, hext, hcc]
  rfl

theorem rtpSeq_bareHeader : rtpSeq (bareHeader ssrc seq) = seq :=
  ofBe16_be16_append seq (be32 0 ++ be32 ssrc)

theorem rtpSsrc_bareHeader : rtpSsrc (bareHeader ssrc seq) = ssrc :=
  ofBe32_be32_append ssrc []

/-! ## The ciphers on the reference packets

`test/srtp.c` compares one SRTP and one SRTCP packet with what libsrtp makes
from the same key. The tables hold what AES, GCM and HMAC-SHA1 give for the
inputs that come up for these packets, and for the same RTCP packet under
`AES_128_GCM`; a concrete session needs no more. -/

/-- A key derived from the master key of sixteen bytes 0x22. -/
def keyRow (iv n key : Nat) : (Bytes × Bytes) × Bytes :=
  ((List.replicate 16 0x22, hexBytes 16 iv), hexBytes n key)

/-- Counter-mode key streams: the six keys derived with the long salt, the SRTP
payload, the SRTCP payload, and the six keys derived with the short salt. -/
def referenceCtr : List ((Bytes × Bytes) × Bytes) :=
  [keyRow 0x44444444444444444444444444440000 16 0xd423cb9f563bc8f2882aa43cf3212671,
   keyRow 0x44444444444444454444444444440000 20 0xb04ffa3032f9a1f7a37745ddc366e3bb7ebe5c2b,
   keyRow 0x44444444444444464444444444440000 14 0x291dbdb9d5efb6ad25c5c1ca7bdf,
   keyRow 0x44444444444444474444444444440000 16 0x201d67fdf3496f194416acba059f54ed,
   keyRow 0x44444444444444404444444444440000 20 0xf7866181f73a6623419d78b42a9aec3cef90a9da,
   keyRow 0x44444444444444414444444444440000 14 0xee43c13303a4fe38969427950e4b,
   ((hexBytes 16 0xd423cb9f563bc8f2882aa43cf3212671,
     hexBytes 16 0x291dbdb9d4edb5a925c5c1ca7bde0000),
     hexBytes 20 0x5011eedb9f714ea0de63eda9e07ac0e21ed51967),
   ((hexBytes 16 0x201d67fdf3496f194416acba059f54ed,
     hexBytes 16 0xee43c13302a6fd3c969427950e4a0000), hexBytes 4 0x86abfcdb),
   keyRow 0x44444444444444444444444400000000 16 0xe1af94768f51d8488ba00435ce5eb62b,
   keyRow 0x44444444444444454444444400000000 20 0x93aa32823cfbfd8f128c355c97b7e62ca989742c,
   keyRow 0x44444444444444464444444400000000 14 0xd9723422c271f69671ec4f63d0c4,
   keyRow 0x44444444444444474444444400000000 16 0xfe155851f5116b59e0a0d8b9136cb7b4,
   keyRow 0x44444444444444404444444400000000 20 0x74882eaad2c8364150c5f9361d3bb9cfe73fea16,
   keyRow 0x44444444444444414444444400000000 14 0x121dc4b41798e43d300bada93b44]

/-- The Galois counter mode key stream of the RTCP packet. -/
def referenceGcm : List ((Bytes × Bytes) × Bytes) :=
  [((hexBytes 16 0xfe155851f5116b59e0a0d8b9136cb7b4, hexBytes 12 0x121dc5b6149ce43d300bada8),
     hexBytes 4 0x55b8a7f1)]

/-- Its tag, for the header with E-bit and index 1 and the four bytes of ciphertext. -/
def referenceGcmTag :
    List ((Bytes × Bytes × Bytes × Bytes) × { t : Bytes // t.length = 16 }) :=
  [((hexBytes 16 0xfe155851f5116b59e0a0d8b9136cb7b4, hexBytes 12 0x121dc5b6149ce43d300bada8,
      hexBytes 12 0x81cb00020102030480000001, hexBytes 4 0x54daa7f1),
     ⟨hexBytes 16 0xb425124860cd3c62a00a0a2b8d78c2f1, rfl⟩)]

/-- The digest of an RTP header without payload, as it is sent under a roll-over counter. -/
def headerRow (roc : UInt32) (tag : Nat) :
    (Bytes × Bytes) × { t : Bytes // t.length = 20 } :=
  ((hexBytes 20 0xb04ffa3032f9a1f7a37745ddc366e3bb7ebe5c2b,
      bareHeader 0x01020304 seq ++ be32 roc), ⟨hexBytes 20 tag, rfl⟩)

/-- The digests of the reference packets, of the SRTP packet with roll-over
counters 0 and 1, and of headers around the first roll-over. -/
def referenceHmac : List ((Bytes × Bytes) × { t : Bytes // t.length = 20 }) :=
  [((hexBytes 20 0xb04ffa3032f9a1f7a37745ddc366e3bb7ebe5c2b,
      hexBytes 36 0x800000010000000001020304f5b44b7e3ad4eb057bc6480c45df6547bb70bcc200000000),
     ⟨hexBytes 20 0x7b136e1f3d3a62821b153e0409272cffaf9a5bd3, rfl⟩),
   ((hexBytes 20 0xb04ffa3032f9a1f7a37745ddc366e3bb7ebe5c2b,
      hexBytes 36 0x800000010000000001020304f5b44b7e3ad4eb057bc6480c45df6547bb70bcc200000001),
     ⟨hexBytes 20 0x1fec90082a6b1fc196e98149e54f76fcb980b1f2, rfl⟩),
   headerRow 65535 0 0x9b9807e6866dee55d70ee00ff0001dfa613d5e07,
   headerRow 0 1 0xd91670f0ae380b7db9d8107cd680c514de6644ff,
   headerRow 2 1 0xc55f619ce001fa9e6315ab92389ecad9bae8dac2,
   headerRow 32000 1 0xa22310c2baf371961a7ccc29408e911125870d97,
   headerRow 40000 1 0xa51fe699987529c14a5dec75cf209a881bd31006,
   ((hexBytes 20 0xf7866181f73a6623419d78b42a9aec3cef90a9da,
      hexBytes 16 0x81cb00020102030487c9fcdb80000001),
     ⟨hexBytes 20 0xe9442fcc367170c79871cf969584ce821bd9abda, rfl⟩)]

/-- AES and HMAC-SHA1 on the inputs of the reference packets. -/
def referenceCrypto : Crypto where
  ctrStream key iv i := ((referenceCtr.lookup (key, iv)).getD []).getD i 0
  gcmStream key iv i := ((referenceGcm.lookup (key, iv)).getD []).getD i 0
  gcmTag key iv aad ct :=
    (referenceGcmTag.lookup (key, iv, aad, ct)).getD ⟨List.replicate 16 0, rfl⟩
  hmacSha1 key data :=
    (referenceHmac.lookup (key, data)).getD ⟨List.replicate 20 0, rfl⟩

/-- The master key and salt of the reference packets. -/
def referenceKey : Bytes := List.replicate 16 0x22 ++ List.replicate 14 0x44

/-- The session of the reference SRTP packet. -/
def referenceSession : Srtp :=
  (srtpAlloc referenceCrypto .AES_CM_128_HMAC_SHA1_80 referenceKey 0).toOption.get
    (by decide +kernel)

theorem reachable_referenceSession : Reachable referenceCrypto referenceSession :=
  ⟨.AES_CM_128_HMAC_SHA1_80, referenceKey, 0, referenceSession, [], by decide +kernel, rfl⟩

/-- A buffer that holds a packet and nothing else. -/
def packetBuf (pkt : Bytes) : Mbuf :=
  { buf := pkt, pos := 0, end_ := pkt.length, end_le := Mbuf.full_le pkt }

/-- The plain RTP packet of the test. -/
def referenceRtp : Bytes :=
  hexBytes 12 0x800000010000000001020304 ++ List.replicate 20 0xa5

/-- The SRTP packet libsrtp makes of it. -/
def referenceSrtp : Bytes :=
  hexBytes 42 0x800000010000000001020304f5b44b7e3ad4eb057bc6480c45df6547bb70bcc27b136e1f3d3a62821b15

example : (srtpEncrypt referenceCrypto referenceSession (packetBuf referenceRtp)).seen
    = (none, some referenceSrtp) := by decide +kernel

/-- The session of the reference SRTCP packet. -/
def referenceRtcpSession : Srtp :=
  (srtpAlloc referenceCrypto .AES_CM_128_HMAC_SHA1_32 referenceKey 0).toOption.get
    (by decide +kernel)

theorem srtpAlloc_referenceRtcp :
    srtpAlloc referenceCrypto .AES_CM_128_HMAC_SHA1_32 referenceKey 0 =
      .ok referenceRtcpSession := by
  decide +kernel

/-- The plain RTCP packet of the test. -/
def referenceRtcp : Bytes := hexBytes 12 0x81cb00020102030401620000

/-- The SRTCP packet libsrtp makes of it. -/
def referenceSrtcp : Bytes := hexBytes 20 0x81cb00020102030487c9fcdb80000001e9442fcc

example : (srtcpEncrypt referenceCrypto referenceRtcpSession (packetBuf referenceRtcp)).seen
    = (none, some referenceSrtcp) := by decide +kernel

/-- A session of `AES_128_GCM` with the same master key and a salt of twelve bytes. -/
def referenceGcmSession : Srtp :=
  (srtpAlloc referenceCrypto .AES_128_GCM (referenceKey.take 28) 0).toOption.get (by decide +kernel)

theorem srtpAlloc_referenceGcm :
    srtpAlloc referenceCrypto .AES_128_GCM (referenceKey.take 28) 0 = .ok referenceGcmSession := by
  decide +kernel

/-- The RTCP packet of the test under that session. -/
def referenceGcmSrtcp : Bytes :=
  hexBytes 32 0x81cb00020102030454daa7f1b425124860cd3c62a00a0a2b8d78c2f180000001

example : (srtcpEncrypt referenceCrypto referenceGcmSession (packetBuf referenceRtcp)).seen
    = (none, some referenceGcmSrtcp) := by decide +kernel

end LibRe.SRTP
