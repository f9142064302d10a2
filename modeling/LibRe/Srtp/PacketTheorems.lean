/-
LibRe.Srtp.PacketTheorems — the functions on buffers are the functions on
packets.

For each of `srtp_encrypt`, `srtp_decrypt`, `srtcp_encrypt` and
`srtcp_decrypt` there is one theorem, `…_refines`: a call on a buffer gives the
code, the view, the index and the tag checks that the packet function gives for
the bytes between position and end, and when it succeeds these bytes are the
packet function's result and the position is where it was.

The proofs write the bytes in use as a concatenation (what is before the
packet, header, payload, tag) and follow the cuts and appends of the code
through it, stage by stage.
-/
import LibRe.Srtp.Packet

namespace LibRe.SRTP

open Bytes List

/-- A call on a buffer does what a receipt says. -/
structure Refines (mb : Mbuf) (o : Outcome) (r : Receipt) : Prop where
  err : o.err = r.err
  view : o.srtp.view = r.view
  ix : o.ix = r.ix
  checks : o.checks = r.checks
  out : r.err = none → o.mb.bytes = mb.bytes.take mb.pos ++ r.out ∧ o.mb.pos = mb.pos

@[simp] theorem refines_early {mb' : Mbuf} {v : View} (e : Errno) (h : srtp.view = v) :
    Refines mb (.early e srtp mb') (.early e v) :=
  ⟨rfl, h, rfl, rfl, fun h => nomatch h⟩

/-- A refused packet has no plaintext. -/
theorem refused {e : Errno} {P : Prop} (h : some e = none) : P := absurd h (Option.some_ne_none e)

variable {mb m : Mbuf} {start n : Nat} {strm : SrtpStream} {srtp srtp' : Srtp} {seq : UInt16}
  {P H R C D T X : Bytes}

/-! ## A packet cut behind its header -/

/-- What is before the packet, its header and the rest; the position is behind the header. -/
structure Cut (mb : Mbuf) (start : Nat) (P H R : Bytes) : Prop where
  bytes : mb.bytes = P ++ (H ++ R)
  start : start = P.length
  pos : mb.pos = P.length + H.length

theorem Cut.left (h : Cut mb start P H R) : mb.left = R :=
  left_of_bytes (a := P ++ H) (by rw [h.bytes, append_assoc]) (by rw [h.pos, length_append])

/-- The header is associated data. -/
theorem Cut.aad (h : Cut mb start P H R) : mb.slice start mb.pos = H :=
  slice_of_bytes h.bytes h.start h.pos

/-- The cipher replaces what is behind the header. -/
theorem Cut.store (h : Cut mb start P H (C ++ T)) (hx : X.length = C.length) :
    (mb.store mb.pos X).bytes = P ++ (H ++ (X ++ T)) := by
  rw [← append_assoc]
  exact store_append (by rw [h.bytes, append_assoc]) (by rw [h.pos, length_append]) hx

theorem Cut.store_all (h : Cut mb start P H D) (hx : X.length = D.length) :
    (mb.store mb.pos X).bytes = P ++ (H ++ X) := by
  have hcut : Cut mb start P H (D ++ []) := by rwa [append_nil]
  rw [hcut.store hx, append_nil]

/-- A buffer with a packet is cut behind the header that has been read. -/
theorem cut_advance (hpos : 0 < n) (hn : n ≤ mb.left.length) :
    Cut (mbufAdvance mb n) mb.pos (mb.bytes.take mb.pos) (mb.left.take n) (mb.left.drop n) := by
  have hle := length_left mb
  have hP : (mb.bytes.take mb.pos).length = mb.pos := by
    rw [length_take, length_bytes]
    omega
  refine ⟨?_, hP.symm, by simp [hP, hn]⟩
  rw [take_append_drop]
  exact bytes_eq_take_append_left mb

/-! ## The stages of a sender -/

section

variable (K : Crypto) (c : Comp) (ssrc roc : UInt32) (ix : UInt64)

/-- A block is written at the end. -/
@[simp] theorem mbufWriteMem_at_end (mb : Mbuf) (xs : Bytes) :
    (mbufWriteMem (mbufSetPos mb mb.end_) xs).bytes = mb.bytes ++ xs := mbufWriteMem_bytes rfl xs

/-- The cipher replaces the payload, and Galois counter mode appends its tag. -/
theorem encryptAes_bytes (h : Cut mb start P H D) :
    (encryptAes K c start ssrc ix mb).bytes
      = P ++ (H ++ (crypt K c ssrc ix D ++ gcmTagOf K c ssrc ix H (crypt K c ssrc ix D))) := by
  obtain ⟨aes, mode, hmac, kS, tagLen⟩ := c
  cases aes with
  | none => simp [encryptAes, crypt, gcmTagOf, h.bytes]
  | some key =>
    cases mode <;> simp [encryptAes, crypt, gcmTagOf, h.left, h.aad, h.store_all, -store_end]

variable {B key : Bytes}

/-- The HMAC tag is appended; the roll-over counter behind the packet is gone. -/
theorem encryptHmac_bytes (h : mb.bytes = P ++ B) (hs : start = P.length) :
    (encryptHmac K c start roc mb).1 = none ∧
      (encryptHmac K c start roc mb).2.bytes = P ++ (B ++ hmacTagOf K c (B ++ be32 roc)) := by
  cases hk : c.hmac with
  | none => simp [encryptHmac, hmacTagOf, hk, h]
  | some key =>
    let m := mbufSetPos (mbufWriteU32 (mbufSetPos mb mb.end_) roc) start
    have hroc : m.bytes = P ++ (B ++ be32 roc) := by simp [m, mbufWriteU32, h]
    have hleft : m.left = B ++ be32 roc := left_of_bytes hroc hs
    have hcut : (mbufSetEnd (mbufSetPos m mb.end_) mb.end_).bytes = P ++ B :=
      mbufSetEnd_append (b := be32 roc) (by rw [mbufSetPos_bytes, hroc, append_assoc])
        (end_of_bytes h)
    have hend : mb.end_ = (mbufSetEnd (mbufSetPos m mb.end_) mb.end_).end_ := by
      rw [end_of_bytes hcut, end_of_bytes h]
    simp only [encryptHmac, hk, ← show m = mbufSetPos (mbufWriteU32 (mbufSetPos mb mb.end_) roc)
      start from rfl, hleft, hmacDigest_ok K key (show B ++ be32 roc ≠ [] by simp [be32])]
    rw [mbufWriteMem_bytes (by rw [mbufSetEnd_pos, mbufSetPos_pos, ← hend]), hcut]
    simp [hmacTagOf, hk]

/-- A valid component makes one of the two tags. -/
theorem tags_append {c : Comp} (h : c.Valid) (P H C : Bytes) :
    P ++ (H ++ (C ++ gcmTagOf K c ssrc ix H C)
        ++ hmacTagOf K c (H ++ (C ++ gcmTagOf K c ssrc ix H C) ++ be32 roc))
      = P ++ (H ++ (C ++ rtpTag K c ssrc roc ix H C)) := by
  cases h with
  | hmac aes key kS tagLen =>
    simp [rtpTag, gcmTagOf]
  | gcm aes kS => simp [rtpTag, hmacTagOf]

theorem seqDiff_self (x : UInt16) : seqDiff x x = 0 := by
  unfold seqDiff
  omega

theorem sLSet_latchSeq (strm : SrtpStream) (seq : UInt16) : (latchSeq strm seq).sLSet = true := by
  unfold latchSeq
  split
  · assumption
  · rfl

section

variable (strm : SrtpStream) (seq : UInt16)

@[simp] theorem rollOver_sLSet : (rollOver strm seq).sLSet = strm.sLSet := by
  unfold rollOver; split <;> rfl
@[simp] theorem rollOver_replayRtp : (rollOver strm seq).replayRtp = strm.replayRtp := by
  unfold rollOver; split <;> rfl
@[simp] theorem rollOver_ssrc : (rollOver strm seq).ssrc = strm.ssrc := by
  unfold rollOver; split <;> rfl
@[simp] theorem raiseSeq_sLSet : (raiseSeq strm seq).sLSet = strm.sLSet := by
  unfold raiseSeq; split <;> rfl
@[simp] theorem raiseSeq_replayRtp : (raiseSeq strm seq).replayRtp = strm.replayRtp := by
  unfold raiseSeq; split <;> rfl
@[simp] theorem raiseSeq_ssrc : (raiseSeq strm seq).ssrc = strm.ssrc := by
  unfold raiseSeq; split <;> rfl

end

/-- The sender on its stream. -/
theorem encryptStream_refines (hview : srtp'.view = srtp.view.update strm)
    (h : Cut m mb.pos (mb.bytes.take mb.pos) H D) :
    Refines mb (encryptStream K srtp' mb.pos seq strm m) (sendOn K srtp.view seq strm H D) := by
  have hrtp : srtp'.rtp = srtp.view.rtp := congrArg View.rtp hview
  have haes := encryptAes_bytes K srtp.view.rtp (rollOver strm seq).ssrc
    (sendIndex (rollOver strm seq).roc seq) h
  obtain ⟨herr, hbytes⟩ := encryptHmac_bytes K srtp.view.rtp (rollOver strm seq).roc haes h.start
  unfold encryptStream sendOn
  rw [hrtp]
  simp only [← sendIndex.eq_def]
  split
  · simp_all
  rename_i m' hh
  rw [hh] at hbytes
  refine ⟨rfl, view_put_of_view hview (by simp), rfl, rfl, fun _ => ⟨?_, rfl⟩⟩
  rw [mbufSetPos_bytes, hbytes]
  exact tags_append K _ _ _ srtp.rtp_valid _ H _

/-- `srtp_encrypt` is `rtpSend`. -/
theorem srtpEncrypt_refines (srtp : Srtp) (mb : Mbuf) :
    Refines mb (srtpEncrypt K srtp mb) (rtpSend K srtp.view mb.left) := by
  unfold srtpEncrypt rtpSend
  by_cases hlen : mb.left.length < headerLen mb.left
  · obtain ⟨mb', hdec⟩ := rtpHdrDecode_error hlen
    simp [hdec, hlen]
  simp only [rtpHdrDecode_ok (Nat.not_lt.mp hlen), hlen,
    if_false, ← rtpSsrc.eq_def, ← rtpSeq.eq_def]
  have hge := headerLen_ge mb.left
  by_cases hroom : srtp.view.HasRoom (rtpSsrc mb.left)
  · obtain ⟨srtp', hget, hview⟩ := streamGetSeq_ok hroom (rtpSeq mb.left)
    simp only [hget, hroom, not_true_eq_false, if_false]
    exact encryptStream_refines K hview (cut_advance (by omega) (by omega))
  · simp [streamGetSeq_error, hroom]

/-! ## The stages of a receiver -/

/-- A stage of a receiver gives a verdict, with the plaintext behind the header. -/
structure Stage.Gives (r : Stage) (P H : Bytes) (v : Verdict) : Prop where
  err : r.err = v.err
  strm : r.strm = v.strm
  checks : r.checks = v.checks
  out : v.err = none → r.mb.bytes = P ++ (H ++ v.plain)

end

section

variable (h : Cut mb start P H (C ++ T)) (hT : T.length = n)

include h hT

/-- Where the tag of a packet begins. -/
theorem Cut.tagStart : mb.end_ - n = (P ++ (H ++ C)).length := by
  have hend := end_of_bytes h.bytes
  simp only [length_append] at hend ⊢
  omega

theorem Cut.not_short : ¬ mbufGetLeft mb < n := by
  simp [mbufGetLeft_eq, h.left]
  omega

theorem Cut.ciphertext : mb.slice mb.pos (mb.end_ - n) = C :=
  slice_of_bytes (a := P ++ H) (by rw [h.bytes, append_assoc]) (by rw [h.pos, length_append])
    (by rw [h.tagStart hT]; simp [add_assoc])

theorem Cut.tag : mb.slice (mb.end_ - n) (mb.end_ - n + n) = T :=
  slice_of_bytes (c := []) (by rw [h.bytes]; simp) (h.tagStart hT) (by rw [h.tagStart hT, hT])

theorem Cut.read_tag : mbufReadMem (mbufSetPos mb (mb.end_ - n)) n
    = .ok (T, mbufAdvance (mbufSetPos mb (mb.end_ - n)) n) := by
  have hleft : (mbufSetPos mb (mb.end_ - n)).left = T :=
    left_of_bytes (by rw [mbufSetPos_bytes, h.bytes]; simp) (h.tagStart hT)
  rw [mbufReadMem_ok (by rw [hleft, hT]), hleft, take_of_length_le (le_of_eq hT)]

/-- The end moves to where the tag began. -/
theorem Cut.drop_tag {Y : Bytes} (hx : X.length = C.length) (hm : m.bytes = P ++ (H ++ (X ++ Y))) :
    (mbufSetEnd m (mb.end_ - n)).bytes = P ++ (H ++ X) :=
  mbufSetEnd_append (b := Y) (by rw [hm]; simp) (by rw [h.tagStart hT]; simp [hx])

end

section

variable (K : Crypto) (c : Comp) (ssrc : UInt32) (ix : UInt64)

/-- The tag check and the replay check behind it. -/
theorem verdict_gives {m₁ m₂ : Mbuf} {tag : Bytes} {checks : List TagCheck}
    (hm : m₂.bytes = P ++ (H ++ X)) :
    (if tag ≠ T then { err := some .EAUTH, strm, mb := m₁, checks }
      else match srtpReplayCheck strm.replayRtp ix with
        | none => { err := some .EALREADY, strm, mb := m₂, checks }
        | some replay =>
          { err := none, strm := { strm with replayRtp := replay }, mb := m₂, checks } :
            Stage).Gives
      P H (rtpVerdict (tag == T) ix strm checks X) := by
  by_cases htag : tag = T
  · rw [if_neg (not_not.mpr htag), rtpVerdict, if_pos (by simpa using htag)]
    cases srtpReplayCheck strm.replayRtp ix with
    | none => exact ⟨rfl, rfl, rfl, refused⟩
    | some replay => exact ⟨rfl, rfl, rfl, fun _ => hm⟩
  · rw [if_pos htag, rtpVerdict, if_neg (by simpa using htag)]
    exact ⟨rfl, rfl, rfl, refused⟩

section

variable (strm : SrtpStream)

/-- The tag check on a packet long enough for a tag: what is left is the ciphertext. -/
theorem decryptHmac_gives (hk : c.hmac = some key)
    (h : Cut mb start P H (C ++ T)) (hT : T.length = c.tagLen) :
    (decryptHmac K c start ix strm mb).Gives P H
        (rtpVerdict (hmacTagOf K c (H ++ (C ++ be32 strm.roc)) == T) ix strm
          [.hmac key (H ++ (C ++ be32 strm.roc)) (hmacTagOf K c (H ++ (C ++ be32 strm.roc))) T] C) ∧
      (decryptHmac K c start ix strm mb).mb.pos = mb.pos := by
  -- the digest is taken of the packet without its tag, then the roll-over counter
  generalize hm : rocForTag (mbufAdvance (mbufSetPos mb (mb.end_ - c.tagLen)) c.tagLen)
      (mb.end_ - c.tagLen) strm.roc start = m
  have hroc : m.bytes = P ++ (H ++ (C ++ be32 strm.roc)) := by
    have hcut :=
      h.drop_tag hT (m := mbufSetPos (mbufAdvance (mbufSetPos mb (mb.end_ - c.tagLen)) c.tagLen)
      (mb.end_ - c.tagLen)) rfl h.bytes
    rw [← hm, rocForTag, mbufSetPos_bytes, mbufWriteU32, mbufWriteMem_bytes, hcut]
    · simp
    · rw [mbufSetEnd_pos, mbufSetPos_pos, end_of_bytes hcut, h.tagStart hT]
  have hdata : m.left = H ++ (C ++ be32 strm.roc) :=
    left_of_bytes hroc (by rw [← hm]; exact h.start)
  have htag : (K.hmacSha1 key (H ++ (C ++ be32 strm.roc))).val.take c.tagLen
      = hmacTagOf K c (H ++ (C ++ be32 strm.roc)) := by rw [hmacTagOf, hk]
  unfold decryptHmac
  simp only [hk, h.not_short hT, if_false, h.read_tag hT, hm, hdata,
    hmacDigest_ok K key (show H ++ (C ++ be32 strm.roc) ≠ [] by simp [be32]), htag]
  refine ⟨verdict_gives ix (h.drop_tag hT rfl hroc), ?_⟩
  split
  · simp
  · split <;> simp

/-- Galois counter mode on a packet long enough for its tag. -/
theorem decryptAes_gcm (ha : c.aes = some key) (hc : c.mode = .gcm)
    (h : Cut mb start P H (C ++ T)) (hT : T.length = gcmTagLen) :
    (decryptAes K c start ix strm mb).Gives P H
      (rtpVerdict (gcmTagOf K c strm.ssrc ix H C == T) ix strm
        [.gcm key (srtpIvCalcGcm c.kS strm.ssrc ix) H C (gcmTagOf K c strm.ssrc ix H C) T]
        (crypt K c strm.ssrc ix C)) := by
  have hlen := length_aesGcm K key (srtpIvCalcGcm c.kS strm.ssrc ix) C
  simp only [decryptAes, crypt, gcmTagOf, ha, hc, h.aad, h.not_short hT, if_false,
    h.ciphertext hT, h.tag hT]
  exact verdict_gives ix (h.drop_tag hT hlen (h.store hlen))

/-- Counter mode on what is left. -/
theorem decryptAes_ctr (ha : c.aes = some key) (hc : c.mode = .ctr) (h : Cut mb start P H C) :
    (decryptAes K c start ix strm mb).Gives P H
      { err := none, strm, checks := [], plain := crypt K c strm.ssrc ix C } := by
  simp only [decryptAes, crypt, ha, hc, h.left]
  exact ⟨rfl, rfl, rfl, fun _ => h.store_all (length_aesCtr ..)⟩

/-- The verdict on a packet long enough for a tag. -/
theorem rtpOpen_append (hT : T.length = rtpTagLen c) :
    rtpOpen K c ix strm H (C ++ T) = rtpVerdict (rtpTag K c strm.ssrc strm.roc ix H C == T) ix strm
        [rtpCheck K c strm.ssrc strm.roc ix H C T] (crypt K c strm.ssrc ix C) := by
  have hn : (C ++ T).length - rtpTagLen c = C.length := by rw [length_append]; omega
  have hlong : ¬ (C ++ T).length < rtpTagLen c := by rw [length_append]; omega
  unfold rtpOpen
  simp only [hlong, if_false, hn, take_left, drop_left]

theorem rtpOpen_short (h : R.length < rtpTagLen c) :
    rtpOpen K c ix strm H R = { err := some .EBADMSG, strm, checks := [], plain := [] } := by
  simp [rtpOpen, h]

end

/-- What is behind the header, cut in front of a tag of `n` bytes. -/
theorem exists_tag (h : ¬ R.length < n) : ∃ C T, R = C ++ T ∧ T.length = n :=
  ⟨R.take (R.length - n), R.drop (R.length - n),
    (take_append_drop _ _).symm, by rw [length_drop]; omega⟩

/-- The receiver behind the index gives the verdict on the packet's bytes. -/
theorem decryptBody_gives {c : Comp} (strm : SrtpStream) (hv : c.Valid) (ha : c.aes.isSome = true)
    (h : Cut mb start P H R) :
    (decryptBody K c start ix strm mb).Gives P H (rtpOpen K c ix strm H R) := by
  obtain ⟨key, hkey⟩ := Option.isSome_iff_exists.mp ha
  by_cases hshort : R.length < rtpTagLen c
  · rw [rtpOpen_short K c ix strm hshort]
    rw [← h.left, ← mbufGetLeft_eq] at hshort
    cases hv with
    | hmac aes hk kS tagLen =>
      simp only [decryptBody, decryptHmac, show mbufGetLeft mb < tagLen from hshort, if_true]
      exact ⟨rfl, rfl, rfl, refused⟩
    | gcm aes kS =>
      simp only at hkey
      simp only [decryptBody, decryptHmac, decryptAes, hkey,
        show mbufGetLeft mb < gcmTagLen from hshort, if_true]
      exact ⟨rfl, rfl, rfl, refused⟩
  · obtain ⟨C, T, rfl, hT⟩ := exists_tag hshort
    rw [rtpOpen_append K c ix strm hT]
    cases hv with
    | hmac aes hk kS tagLen =>
      subst hkey
      obtain ⟨hgives, hpos⟩ := decryptHmac_gives K ⟨some key, .ctr, some hk, kS, tagLen⟩ ix
        strm rfl h hT
      have htagOf : rtpTag K ⟨some key, .ctr, some hk, kS, tagLen⟩ strm.ssrc strm.roc ix H C
          = hmacTagOf K ⟨some key, .ctr, some hk, kS, tagLen⟩ (H ++ (C ++ be32 strm.roc)) := rfl
      rw [htagOf]
      unfold decryptBody
      simp only [hgives.err, hgives.strm, hgives.checks]
      simp only [rtpVerdict] at hgives ⊢
      split at hgives
      · rename_i htag
        simp only [htag, if_true]
        cases hr : srtpReplayCheck strm.replayRtp ix with
        | none =>
          simp only [hr] at hgives
          exact ⟨hgives.err, hgives.strm, hgives.checks, refused⟩
        | some replay =>
          simp only [hr] at hgives
          have hcut : Cut (decryptHmac K ⟨some key, .ctr, some hk, kS, tagLen⟩ start ix strm mb).mb
              start P H C :=
            ⟨hgives.out rfl, h.start, hpos.trans h.pos⟩
          have haes := decryptAes_ctr K ⟨some key, .ctr, some hk, kS, tagLen⟩ ix
            { strm with replayRtp := replay } rfl rfl hcut
          exact ⟨haes.err, haes.strm, by simp [haes.checks, rtpCheck], haes.out⟩
      · rename_i htag
        simp only [htag]
        exact ⟨hgives.err, hgives.strm, hgives.checks, refused⟩
    | gcm aes kS =>
      subst hkey
      have htagOf : rtpTag K ⟨some key, .gcm, none, kS, 0⟩ strm.ssrc strm.roc ix H C
          = gcmTagOf K ⟨some key, .gcm, none, kS, 0⟩ strm.ssrc ix H C := append_nil _
      rw [htagOf]
      exact decryptAes_gcm K ⟨some key, .gcm, none, kS, 0⟩ ix strm rfl rfl h hT

/-- The receiver writes nothing but the replay window for RTP. -/
theorem rtpOpen_strm (strm : SrtpStream) (H R : Bytes) :
    ∃ replay, (rtpOpen K c ix strm H R).strm = { strm with replayRtp := replay } := by
  unfold rtpOpen rtpVerdict
  simp only []
  split
  · exact ⟨strm.replayRtp, rfl⟩
  split
  · split
    · exact ⟨strm.replayRtp, rfl⟩
    · exact ⟨_, rfl⟩
  · exact ⟨strm.replayRtp, rfl⟩

theorem rtpOpen_strm_ssrc (strm : SrtpStream) (H R : Bytes) :
    (rtpOpen K c ix strm H R).strm.ssrc = strm.ssrc := by
  obtain ⟨replay, h⟩ := rtpOpen_strm K c ix strm H R
  rw [h]

/-- The receiver on its stream. -/
theorem decryptStream_refines (hview : srtp'.view = srtp.view.update strm)
    (h : Cut m mb.pos (mb.bytes.take mb.pos) H R) :
    Refines mb (decryptStream K srtp' mb.pos seq strm m) (receiveOn K srtp.view seq strm H R) := by
  have hrtp : srtp'.rtp = srtp.view.rtp := congrArg View.rtp hview
  unfold decryptStream receiveOn
  by_cases hdiff : seqDiff strm.sL seq > 32768
  · simp [hdiff, hview]
  simp only [hdiff, if_false, hrtp]
  generalize hix : srtpGetIndex (rollOver strm seq).roc (rollOver strm seq).sL seq = ix
  have hgives := decryptBody_gives K ix (rollOver strm seq) srtp.rtp_valid srtp.rtp_encrypted h
  have hssrc := rtpOpen_strm_ssrc K srtp.rtp ix (rollOver strm seq) H R
  rw [show srtp.view.rtp = srtp.rtp from rfl, hgives.err]
  cases he : (rtpOpen K srtp.rtp ix (rollOver strm seq) H R).err with
  | some e =>
    refine ⟨rfl, ?_, rfl, hgives.checks, refused⟩
    simp only [hgives.strm]
    exact view_put_of_view hview (by rw [hssrc, rollOver_ssrc])
  | none =>
    refine ⟨rfl, ?_, rfl, hgives.checks, fun _ => ⟨hgives.out he, rfl⟩⟩
    simp only [hgives.strm]
    exact view_put_of_view hview (by rw [raiseSeq_ssrc, hssrc, rollOver_ssrc])

/-- `srtp_decrypt` is `rtpReceive`. -/
theorem srtpDecrypt_refines (srtp : Srtp) (mb : Mbuf) :
    Refines mb (srtpDecrypt K srtp mb) (rtpReceive K srtp.view mb.left) := by
  unfold srtpDecrypt rtpReceive
  by_cases hlen : mb.left.length < headerLen mb.left
  · obtain ⟨mb', hdec⟩ := rtpHdrDecode_error hlen
    simp [hdec, hlen]
  simp only [rtpHdrDecode_ok (Nat.not_lt.mp hlen), hlen,
    if_false, ← rtpSsrc.eq_def, ← rtpSeq.eq_def]
  have hge := headerLen_ge mb.left
  by_cases hroom : srtp.view.HasRoom (rtpSsrc mb.left)
  · obtain ⟨srtp', hget, hview⟩ := streamGetSeq_ok hroom (rtpSeq mb.left)
    simp only [hget, hroom, not_true_eq_false, if_false]
    exact decryptStream_refines K hview (cut_advance (by omega) (by omega))
  · simp [streamGetSeq_error, hroom]

/-! ## SRTCP, sending -/

theorem getRtcpSsrc_ok (h : ¬ mb.left.length < 8) :
    getRtcpSsrc mb = .ok (rtcpSsrc mb.left, mbufAdvance mb 8) := by
  rw [getRtcpSsrc, mbufGetLeft_eq, if_neg h, readU32_at (show 4 + 4 ≤ mb.left.length by omega)]
  rfl

/-- The cipher replaces the payload, Galois counter mode appends its tag, and
either sets the E-bit. -/
theorem rtcpEncryptAes_bytes (ix : UInt32) (h : Cut mb start P H D) :
    (rtcpEncryptAes K c start ssrc ix mb).1 = c.aes.isSome ∧
    (rtcpEncryptAes K c start ssrc ix mb).2.bytes = P ++ (H ++ (crypt K c ssrc ix.toUInt64 D
        ++ gcmTagOf K c ssrc ix.toUInt64 (H ++ be32 (eIndex true ix))
          (crypt K c ssrc ix.toUInt64 D))) := by
  obtain ⟨aes, mode, hmac, kS, tagLen⟩ := c
  cases aes with
  | none => simp [rtcpEncryptAes, crypt, gcmTagOf, h.bytes]
  | some key =>
    cases mode <;> simp [rtcpEncryptAes, crypt, gcmTagOf, h.left, h.aad, h.store_all, -store_end]

theorem rtcpEncryptHmac_bytes (h : mb.bytes = P ++ B) (hB : B ≠ []) (hs : start = P.length) :
    (rtcpEncryptHmac K c start mb).1 = none ∧
      (rtcpEncryptHmac K c start mb).2.bytes = P ++ (B ++ hmacTagOf K c B) := by
  cases hk : c.hmac with
  | none => simp [rtcpEncryptHmac, hmacTagOf, hk, h]
  | some key =>
    have hleft : (mbufSetPos mb start).left = B := left_of_bytes h hs
    simp only [rtcpEncryptHmac, hk, hleft, hmacDigest_ok K key hB, mbufWriteMem_at_end]
    simp [hmacTagOf, hk, h]

/-- The part of the packet function behind the look-up of the stream. -/
theorem rtcpEncryptStream_refines (hview : srtp'.view = srtp.view.update strm)
    (h : Cut m mb.pos (mb.bytes.take mb.pos) H D) :
    Refines mb (rtcpEncryptStream K srtp' mb.pos ssrc strm m)
      { err := none, view := srtp.view.update (nextRtcpIndex strm)
        ix := some (nextRtcpIndex strm).rtcpIndex.toUInt64, checks := []
        out := rtcpSealed K srtp.view.rtcp ssrc (nextRtcpIndex strm).rtcpIndex H D
          ++ hmacTagOf K srtp.view.rtcp
            (rtcpSealed K srtp.view.rtcp ssrc (nextRtcpIndex strm).rtcpIndex H D) } := by
  have hrtcp : (srtp'.put (nextRtcpIndex strm)).rtcp = srtp.view.rtcp := congrArg View.rtcp hview
  obtain ⟨hep, haes⟩ := rtcpEncryptAes_bytes K srtp.view.rtcp ssrc (nextRtcpIndex strm).rtcpIndex h
  unfold rtcpEncryptStream
  simp only [hrtcp]
  cases ha : rtcpEncryptAes K srtp.view.rtcp mb.pos ssrc (nextRtcpIndex strm).rtcpIndex m with
  | mk ep m' =>
    rw [ha] at hep haes
    subst hep
    have hw : (mbufWriteU32 (mbufSetPos m' m'.end_)
        (eIndex srtp.view.rtcp.aes.isSome (nextRtcpIndex strm).rtcpIndex)).bytes
        = mb.bytes.take mb.pos ++ rtcpSealed K srtp.view.rtcp ssrc
          (nextRtcpIndex strm).rtcpIndex H D := by
      simp [mbufWriteU32, haes, rtcpSealed]
    obtain ⟨herr, hbytes⟩ := rtcpEncryptHmac_bytes K srtp.view.rtcp hw
      (by simp [rtcpSealed, be32]) h.start
    split
    · simp_all
    · rename_i m'' hh
      rw [hh] at hbytes
      exact ⟨rfl, view_put_of_view hview rfl, rfl, rfl, fun _ => ⟨hbytes, rfl⟩⟩

/-- `srtcp_encrypt` is `rtcpSend`. -/
theorem srtcpEncrypt_refines (srtp : Srtp) (mb : Mbuf) :
    Refines mb (srtcpEncrypt K srtp mb) (rtcpSend K srtp.view mb.left) := by
  unfold srtcpEncrypt rtcpSend
  by_cases hlen : mb.left.length < 8
  · simp [getRtcpSsrc, mbufGetLeft_eq, hlen]
  simp only [getRtcpSsrc_ok hlen, hlen, if_false]
  by_cases hroom : srtp.view.HasRoom (rtcpSsrc mb.left)
  · obtain ⟨srtp', hget, hview⟩ := streamGet_ok hroom
    simp only [hget, hroom, not_true_eq_false, if_false]
    exact rtcpEncryptStream_refines K (rtcpSsrc mb.left) hview (cut_advance (by decide) (by omega))
  · simp [streamGet_error, hroom]

/-! ## SRTCP, receiving -/

/-- The tag check; what is behind E-bit and index is cut off or was never there. -/
theorem rtcpDecryptHmac_eq {c : Comp} (ix : UInt32) (strm : SrtpStream) (hv : c.Valid)
    (h : Cut mb start P B T) (hB : B ≠ []) (hT : T.length = c.tagLen) :
    (rtcpDecryptHmac K c start ix strm mb).err = (rtcpOpenHmac K c ix strm B T).err ∧
    (rtcpDecryptHmac K c start ix strm mb).strm = (rtcpOpenHmac K c ix strm B T).strm ∧
    (rtcpDecryptHmac K c start ix strm mb).checks = (rtcpOpenHmac K c ix strm B T).checks ∧
    ∃ X, (rtcpDecryptHmac K c start ix strm mb).mb.bytes = P ++ (B ++ X) := by
  cases hv with
  | gcm aes kS => exact ⟨rfl, rfl, rfl, T, h.bytes⟩
  | hmac aes key kS tagLen hpos hle =>
    have hread : mbufReadMem mb tagLen = .ok (T, mbufAdvance mb tagLen) := by
      rw [mbufReadMem_ok (by rw [h.left, hT]), h.left, take_of_length_le (le_of_eq hT)]
    generalize hm : mbufSetEnd (mbufSetPos (mbufAdvance mb tagLen) start) mb.pos = m
    have hcut : m.bytes = P ++ B :=
      hm ▸ mbufSetEnd_append (b := T) (by simp [h.bytes]) (by rw [h.pos, length_append])
    have hdata : m.left = B := left_of_bytes hcut
      (by rw [← hm, mbufSetEnd_pos, mbufSetPos_pos, h.start])
    have hX : ∃ X, m.bytes = P ++ (B ++ X) := ⟨[], by rw [hcut, append_nil]⟩
    have htag : (K.hmacSha1 key B).val.take tagLen = hmacTagOf K ⟨aes, .ctr, some key, kS,
        tagLen⟩ B := rfl
    unfold rtcpDecryptHmac rtcpOpenHmac
    simp only [show ¬ tagLen > shaDigestLength by omega, if_false, hread, hm, hdata,
      hmacDigest_ok K key hB, htag]
    by_cases hok : hmacTagOf K ⟨aes, .ctr, some key, kS, tagLen⟩ B = T
    · rw [if_neg (not_not.mpr hok), if_neg (not_not.mpr hok)]
      cases srtpReplayCheck strm.replayRtcp ix.toUInt64 with
      | none | some _ => exact ⟨rfl, rfl, rfl, hX⟩
    · simp [hok, hX]

variable {E : Bytes} {pldStart eixStart : Nat}

/-- The cipher; `E` is read from the memory behind the end. -/
theorem rtcpDecryptAes_gives {c : Comp} (ix : UInt32) (ep : Bool)
    (strm : SrtpStream) (h : Cut (mbufSetPos mb pldStart) start P H D)
    (hE : mb.slice eixStart (eixStart + 4) = E) :
    (rtcpDecryptAes K c start pldStart eixStart ssrc ix ep strm mb).Gives P H
      (rtcpOpenAes K c ssrc ix ep strm H D E) := by
  obtain ⟨aes, mode, hmac, kS, tagLen⟩ := c
  cases aes with
  | none => exact ⟨rfl, rfl, rfl, fun _ => h.bytes⟩
  | some key =>
    cases ep with
    | false => exact ⟨rfl, rfl, rfl, fun _ => h.bytes⟩
    | true =>
      cases mode with
      | ctr =>
        simp only [rtcpDecryptAes, h.left]
        exact ⟨rfl, rfl, rfl, fun _ => h.store_all (length_aesCtr ..)⟩
      | gcm =>
        have haad : mb.slice start pldStart = H := h.aad
        simp only [rtcpDecryptAes, rtcpOpenAes, mbufGetLeft_eq, h.left, haad, hE]
        by_cases hshort : D.length < gcmTagLen
        · rw [if_pos hshort, if_pos hshort]
          exact ⟨rfl, rfl, rfl, refused⟩
        obtain ⟨C, T, rfl, hT⟩ := exists_tag hshort
        have hn : (C ++ T).length - gcmTagLen = C.length := by rw [length_append]; omega
        have hlen := length_aesGcm K key (srtpIvCalcGcm kS ssrc ix.toUInt64) C
        have hct : (mbufSetPos mb pldStart).slice pldStart
            ((mbufSetPos mb pldStart).end_ - gcmTagLen) = C :=
          h.ciphertext hT
        simp only [hshort, if_false, hct, h.tag hT, hn, take_left, drop_left, gcmTagOf, crypt]
        split
        · exact ⟨rfl, rfl, rfl, refused⟩
        · exact ⟨rfl, rfl, rfl, fun _ => h.drop_tag hT hlen (h.store hlen)⟩

/-- The receiver behind E-bit and index gives the verdict on the packet's parts. -/
theorem rtcpDecryptBody_gives {c : Comp} (strm : SrtpStream) (hv : c.Valid)
    (h : Cut mb start P (H ++ (D ++ E)) T) (hE : E.length = 4) (hT : T.length = c.tagLen)
    (hpld : pldStart = P.length + H.length) (heix : eixStart = (P ++ (H ++ D)).length) :
    (rtcpDecryptBody K c start pldStart eixStart ssrc (eIx (ofBe32 E)) (eBit (ofBe32 E)) strm
      mb).Gives P H (rtcpOpen K c ssrc strm H D E T) := by
  have hne : H ++ (D ++ E) ≠ [] := fun hnil => by simp_all
  obtain ⟨herr, hstrm, hchecks, X, hX⟩ := rtcpDecryptHmac_eq K (eIx (ofBe32 E)) strm hv h hne hT
  unfold rtcpDecryptBody rtcpOpen
  simp only [herr, hstrm, hchecks]
  cases he : (rtcpOpenHmac K c (eIx (ofBe32 E)) strm (H ++ (D ++ E)) T).err with
  | some e => exact ⟨by rw [herr], hstrm, hchecks, fun h => by rw [he] at h; cases h⟩
  | none =>
    have hcut : (mbufSetEnd (rtcpDecryptHmac K c start (eIx (ofBe32 E)) strm mb).mb
        eixStart).bytes = P ++ (H ++ D) :=
      mbufSetEnd_append (b := E ++ X) (by rw [hX]; simp) heix
    have hslice : (mbufSetEnd (rtcpDecryptHmac K c start (eIx (ofBe32 E)) strm mb).mb
        eixStart).slice eixStart (eixStart + 4) = E := by
      rw [slice_mbufSetEnd]
      exact slice_of_bytes (c := X) (by rw [hX]; simp) heix (by rw [heix, hE])
    have hpayload :
        Cut (mbufSetPos (mbufSetEnd (rtcpDecryptHmac K c start (eIx (ofBe32 E)) strm mb).mb
          eixStart) pldStart)
        start P H D := ⟨hcut, h.start, hpld⟩
    have hgives := rtcpDecryptAes_gives K ssrc (c := c) (eIx (ofBe32 E)) (eBit (ofBe32 E))
      (rtcpOpenHmac K c (eIx (ofBe32 E)) strm (H ++ (D ++ E)) T).strm hpayload hslice
    exact ⟨hgives.err, hgives.strm, by simp only [hgives.checks], hgives.out⟩

/-- The HMAC stage leaves the stream, or the replay window permits the index. -/
theorem rtcpOpenHmac_strm (ix : UInt32) (strm : SrtpStream) (data tag : Bytes) :
    (rtcpOpenHmac K c ix strm data tag).strm = strm ∨
    ∃ replay, srtpReplayCheck strm.replayRtcp ix.toUInt64 = some replay ∧
      (rtcpOpenHmac K c ix strm data tag).strm = { strm with replayRtcp := replay } := by
  unfold rtcpOpenHmac
  split
  · exact .inl rfl
  split
  · exact .inl rfl
  · split
    · exact .inl rfl
    · rename_i replay hr
      exact .inr ⟨replay, hr, rfl⟩

theorem rtcpOpenAes_strm (ix : UInt32) (ep : Bool) (strm : SrtpStream) (H D E : Bytes) :
    (rtcpOpenAes K c ssrc ix ep strm H D E).strm = strm := by
  unfold rtcpOpenAes
  split
  · rfl
  · grind
  · rfl

theorem rtcpOpen_strm (strm : SrtpStream) (H D E T : Bytes) :
    (rtcpOpen K c ssrc strm H D E T).strm
      = (rtcpOpenHmac K c (eIx (ofBe32 E)) strm (H ++ (D ++ E)) T).strm := by
  unfold rtcpOpen
  simp only []
  split
  · rfl
  · rw [rtcpOpenAes_strm]

theorem rtcpOpen_strm_ssrc (strm : SrtpStream) (H D E T : Bytes) :
    (rtcpOpen K c ssrc strm H D E T).strm.ssrc = strm.ssrc := by
  rw [rtcpOpen_strm]
  rcases rtcpOpenHmac_strm K c (eIx (ofBe32 E)) strm (H ++ (D ++ E)) T with h | ⟨replay, -, h⟩ <;>
    rw [h]

/-- The receiver on its stream. -/
theorem rtcpDecryptStream_refines (hview : srtp'.view = srtp.view.update strm)
    (h : Cut m mb.pos (mb.bytes.take mb.pos) H R) :
    Refines mb (rtcpDecryptStream K srtp' mb.pos ssrc strm m)
      (rtcpReceiveOn K srtp.view ssrc strm H R) := by
  have hrtcp : srtp'.rtcp = srtp.rtcp := congrArg View.rtcp hview
  unfold rtcpDecryptStream rtcpReceiveOn
  simp only [hrtcp, show srtp.view.rtcp = srtp.rtcp from rfl, mbufGetLeft_eq, h.left]
  by_cases hshort : R.length < 4 + srtp.rtcp.tagLen
  · simp [hshort, hview]
  rw [if_neg hshort, if_neg hshort]
  -- payload, E-bit with index, tag
  obtain ⟨D, B, rfl, hB⟩ := exists_tag hshort
  obtain ⟨E, T, rfl, hT⟩ := exists_tag (show ¬ B.length < srtp.rtcp.tagLen by omega)
  have hE : E.length = 4 := by rw [length_append] at hB; omega
  have hn : (D ++ (E ++ T)).length - (4 + srtp.rtcp.tagLen) = D.length := by
    rw [length_append]; omega
  have heix := h.tagStart hB
  obtain ⟨eixStart, hstart⟩ : ∃ k, m.end_ - (4 + srtp.rtcp.tagLen) = k := ⟨_, rfl⟩
  rw [hstart] at heix
  have hleftE : (mbufSetPos m eixStart).left = E ++ T :=
    left_of_bytes (by rw [mbufSetPos_bytes, h.bytes]; simp) heix
  have hread : mbufReadU32 (mbufSetPos m eixStart)
      = (ofBe32 E, mbufAdvance (mbufSetPos m eixStart) 4) := by
    rw [mbufReadU32_ok (by rw [hleftE, length_append]; omega), hleftE, ofBe32_append (by omega)]
  have hparts : Cut (mbufAdvance (mbufSetPos m eixStart) 4) mb.pos (mb.bytes.take mb.pos)
      (H ++ (D ++ E)) T :=
    ⟨by simp [h.bytes], h.start, by simp [heix, hE]; omega⟩
  have hgives := rtcpDecryptBody_gives K ssrc strm srtp.rtcp_valid hparts hE hT h.pos heix
  have hssrc := rtcpOpen_strm_ssrc K srtp.rtcp ssrc strm H D E T
  simp only [hstart, hread, hn, ← drop_drop, take_left, drop_left, take_left' hE, drop_left' hE]
  rw [hgives.err]
  cases he : (rtcpOpen K srtp.rtcp ssrc strm H D E T).err with
  | some e =>
    refine ⟨rfl, ?_, rfl, hgives.checks, refused⟩
    simp only [hgives.strm]
    exact view_put_of_view hview hssrc
  | none =>
    refine ⟨rfl, ?_, rfl, hgives.checks, fun _ => ⟨hgives.out he, rfl⟩⟩
    simp only [hgives.strm]
    exact view_put_of_view hview hssrc

/-- `srtcp_decrypt` is `rtcpReceive`. -/
theorem srtcpDecrypt_refines (srtp : Srtp) (mb : Mbuf) :
    Refines mb (srtcpDecrypt K srtp mb) (rtcpReceive K srtp.view mb.left) := by
  unfold srtcpDecrypt rtcpReceive
  by_cases hlen : mb.left.length < 8
  · simp [getRtcpSsrc, mbufGetLeft_eq, hlen]
  simp only [getRtcpSsrc_ok hlen, hlen, if_false]
  by_cases hroom : srtp.view.HasRoom (rtcpSsrc mb.left)
  · obtain ⟨srtp', hget, hview⟩ := streamGet_ok hroom
    simp only [hget, hroom, not_true_eq_false, if_false]
    exact rtcpDecryptStream_refines K (rtcpSsrc mb.left) hview (cut_advance (by decide) (by omega))
  · simp [streamGet_error, hroom]

end

end LibRe.SRTP
