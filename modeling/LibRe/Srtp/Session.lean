/-
LibRe.Srtp.Session — the SRTP session (`src/srtp/srtp.h`), its set-up
(`comp_init`, `srtp_alloc` in `src/srtp/srtp.c`) and its table of streams
(`src/srtp/stream.c`).

Two invariants are fields. A session's two halves are of the kinds `srtp_alloc`
makes (`Comp.Valid`): counter mode with an HMAC, or Galois counter mode without
one. The stream table holds one stream per SSRC and at most eight streams.

A function of the source that gets a pointer into the table and writes through
it is modelled with a copy of the stream and `Srtp.put`. Later proofs see the
table through `Streams.find` and `Streams.count` only.
-/
import LibRe.Srtp.Crypto
import LibRe.Srtp.Replay

namespace LibRe.SRTP

open Bytes List

variable {ssrc : UInt32}

/-! ## Components and their set-up -/

/-- `struct comp`: the keys of the RTP or the RTCP half. A context of
OpenSSL is its key. -/
structure Comp where
  aes : Option Bytes
  mode : AesMode
  hmac : Option Bytes
  kS : Vect128
  tagLen : Nat
  deriving DecidableEq, Repr

/-- The components the suites ask for. -/
inductive Comp.Valid : Comp → Prop where
  | hmac (aes : Option Bytes) (key : Bytes) (kS : Vect128) (tagLen : Nat)
      (pos : 0 < tagLen) (le : tagLen ≤ shaDigestLength) :
      Comp.Valid ⟨aes, .ctr, some key, kS, tagLen⟩
  | gcm (aes : Option Bytes) (kS : Vect128) : Comp.Valid ⟨aes, .gcm, none, kS, 0⟩

/-- The components `comp_init` makes from its parameters. -/
abbrev CompFor (tagLen : Nat) (encrypted hash : Bool) (mode : AesMode) :=
  { c : Comp //
    c.tagLen = tagLen ∧ c.aes.isSome = encrypted ∧ c.hmac.isSome = hash ∧ c.mode = mode }

/-- `MAX_KEYLEN`. -/
def maxKeylen : Nat := 32

/-- The cipher context of a component, for an encrypted one. -/
def compAes (encrypted : Bool) (key : Bytes) :
    Except Errno { o : Option Bytes // o.isSome = encrypted } :=
  match encrypted with
  | false => .ok ⟨none, rfl⟩
  | true =>
    match aesAlloc key with
    | .error e => .error e
    | .ok aes => .ok ⟨some aes, rfl⟩

/-- `comp_init`. -/
def compInit (K : Crypto) (offs : UInt8) (key s : Bytes) (tagLen : Nat)
    (encrypted hash : Bool) (mode : AesMode) :
    Except Errno (CompFor tagLen encrypted hash mode) :=
  if key.length > maxKeylen then .error .EINVAL
  else if tagLen > shaDigestLength then .error .EINVAL
  else do
    let kE ← srtpDerive K key.length (0x00 + offs) key s
    let kA ← srtpDerive K shaDigestLength (0x01 + offs) key s
    let kS ← srtpDerive K 14 (0x02 + offs) key s
    let aes ← compAes encrypted kE.val
    .ok ⟨{ aes := aes.val
           mode
           hmac := if hash then some kA.val else none
           kS := ⟨kS.val ++ [0, 0], by rw [length_append, kS.property]; rfl⟩
           tagLen },
         rfl, aes.property, by cases hash <;> rfl, rfl⟩

/-- `enum srtp_suite`. -/
inductive SrtpSuite where
  | AES_CM_128_HMAC_SHA1_32
  | AES_CM_128_HMAC_SHA1_80
  | AES_256_CM_HMAC_SHA1_32
  | AES_256_CM_HMAC_SHA1_80
  | AES_128_GCM
  | AES_256_GCM
  deriving DecidableEq, Repr

/-- What the switch of `srtp_alloc` sets. -/
structure SuiteParams where
  mode : AesMode
  cipherBytes : Nat
  saltBytes : Nat
  authBytes : Nat
  hash : Bool
  deriving DecidableEq, Repr

/-- The switch of `srtp_alloc`. -/
def SrtpSuite.params : SrtpSuite → SuiteParams
  | .AES_CM_128_HMAC_SHA1_80 => ⟨.ctr, 16, 14, 10, true⟩
  | .AES_CM_128_HMAC_SHA1_32 => ⟨.ctr, 16, 14, 4, true⟩
  | .AES_256_CM_HMAC_SHA1_80 => ⟨.ctr, 32, 14, 10, true⟩
  | .AES_256_CM_HMAC_SHA1_32 => ⟨.ctr, 32, 14, 4, true⟩
  | .AES_128_GCM => ⟨.gcm, 16, 12, 0, false⟩
  | .AES_256_GCM => ⟨.gcm, 32, 12, 0, false⟩

/-- Every suite asks for a valid component. -/
theorem CompFor.valid {suite : SrtpSuite} {encrypted : Bool}
    (c : CompFor suite.params.authBytes encrypted suite.params.hash suite.params.mode) :
    c.val.Valid := by
  obtain ⟨⟨aes, mode, hmac, kS, tagLen⟩, htag, -, hhash, hmode⟩ := c
  have hlen : suite.params.hash = true →
      0 < suite.params.authBytes ∧ suite.params.authBytes ≤ shaDigestLength := by
    cases suite <;> decide
  have hkind : suite.params.hash = true ∧ suite.params.mode = .ctr ∨
      suite.params.hash = false ∧ suite.params.mode = .gcm ∧ suite.params.authBytes = 0 := by
    cases suite <;> decide
  simp only at htag hhash hmode
  show Comp.Valid ⟨aes, mode, hmac, kS, tagLen⟩
  cases hmac with
  | none =>
    obtain ⟨h, -⟩ | ⟨-, hm, h0⟩ := hkind
    · simp_all
    · rw [htag, hmode, hm, h0]
      exact .gcm aes kS
  | some key =>
    obtain ⟨h, hm⟩ | ⟨h, -⟩ := hkind
    · rw [htag, hmode, hm]
      exact .hmac aes key kS _ (hlen h).1 (hlen h).2
    · simp_all

/-! ## The table of streams -/

/-- `struct srtp_stream`. -/
structure SrtpStream where
  replayRtp : Replay
  replayRtcp : Replay
  ssrc : UInt32
  roc : UInt32
  sL : UInt16
  sLSet : Bool
  rtcpIndex : UInt32
  deriving DecidableEq, Repr

variable {strm : SrtpStream}

/-- `SRTP_MAX_STREAMS`. -/
def srtpMaxStreams : Nat := 8

/-- The list of streams: one per SSRC, and not more than `SRTP_MAX_STREAMS`. -/
@[ext] structure Streams where
  list : List SrtpStream
  nodup : (list.map SrtpStream.ssrc).Nodup
  count_le : list.length ≤ srtpMaxStreams
  deriving DecidableEq

variable (s : Streams)

/-- The stream of an SSRC. -/
def Streams.find (ssrc : UInt32) : Option SrtpStream :=
  s.list.find? (fun strm => strm.ssrc == ssrc)

/-- The number of streams. -/
def Streams.count : Nat := s.list.length

/-- A stream in the place of the one with its SSRC. -/
def replaceStream (strm t : SrtpStream) : SrtpStream := if t.ssrc = strm.ssrc then strm else t

theorem ssrc_replaceStream (strm t : SrtpStream) : (replaceStream strm t).ssrc = t.ssrc := by
  rw [replaceStream]
  split
  · simp_all
  · rfl

/-- Writing through the pointer to the stream of an SSRC. -/
def Streams.put (strm : SrtpStream) : Streams where
  list := s.list.map (replaceStream strm)
  nodup := by simpa [Function.comp_def, ssrc_replaceStream] using s.nodup
  count_le := by rw [length_map]; exact s.count_le

/-- `list_append` of a stream whose SSRC is new. -/
def Streams.append (strm : SrtpStream) (hnew : s.find strm.ssrc = none)
    (hroom : s.count < srtpMaxStreams) : Streams where
  list := s.list ++ [strm]
  nodup := by
    have hfresh : strm.ssrc ∉ s.list.map SrtpStream.ssrc := by
      intro hmem
      obtain ⟨t, ht, hssrc⟩ := List.mem_map.mp hmem
      have := find?_eq_none.mp hnew t ht
      simp [hssrc] at this
    rw [map_append, map_singleton, nodup_append]
    refine ⟨s.nodup, by simp, ?_⟩
    intro a ha b hb
    rw [mem_singleton.mp hb]
    exact ne_of_mem_of_not_mem ha hfresh
  count_le := by
    rw [length_append]
    exact hroom

/-- The empty list of streams. -/
def Streams.empty : Streams := ⟨[], by simp, Nat.zero_le _⟩

/-! ## The session -/

/-- `struct srtp`. -/
structure Srtp where
  rtp : Comp
  rtcp : Comp
  streaml : Streams
  rtp_valid : rtp.Valid
  rtcp_valid : rtcp.Valid
  rtp_encrypted : rtp.aes.isSome = true
  deriving DecidableEq

variable {srtp : Srtp}

/-- `SRTP_UNENCRYPTED_SRTCP`. -/
def srtpUnencryptedSrtcp : UInt32 := (1 : UInt32) <<< 1

/-- `srtp_alloc`. -/
def srtpAlloc (K : Crypto) (suite : SrtpSuite) (key : Bytes) (flags : UInt32) :
    Except Errno Srtp :=
  let p := suite.params
  if p.cipherBytes + p.saltBytes ≠ key.length then .error .EINVAL
  else do
    let masterKey := key.take p.cipherBytes
    let masterSalt := key.drop p.cipherBytes
    let rtp ← compInit K 0 masterKey masterSalt p.authBytes true p.hash p.mode
    let rtcp ← compInit K 3 masterKey masterSalt p.authBytes
      (flags &&& srtpUnencryptedSrtcp == 0) p.hash p.mode
    .ok { rtp := rtp.val, rtcp := rtcp.val, streaml := .empty, rtp_valid := rtp.valid
          rtcp_valid := rtcp.valid, rtp_encrypted := rtp.property.2.1 }

/-- The session with a stream written back. -/
def Srtp.put (srtp : Srtp) (strm : SrtpStream) : Srtp :=
  { srtp with streaml := srtp.streaml.put strm }

/-- `stream_find`. -/
def streamFind (srtp : Srtp) (ssrc : UInt32) : Option SrtpStream := srtp.streaml.find ssrc

/-- A stream as `stream_new` leaves it. -/
def freshStream (ssrc : UInt32) : SrtpStream where
  replayRtp := srtpReplayInit
  replayRtcp := srtpReplayInit
  ssrc := ssrc
  roc := 0
  sL := 0
  sLSet := false
  rtcpIndex := 0

/-- `stream_new`, for an SSRC that `stream_find` did not find. -/
def streamNew (srtp : Srtp) (ssrc : UInt32) (hnew : streamFind srtp ssrc = none) :
    Except Errno (SrtpStream × Srtp) :=
  if h : srtp.streaml.count ≥ srtpMaxStreams then .error .ENOSR
  else
    let strm := freshStream ssrc
    .ok (strm, { srtp with streaml := srtp.streaml.append strm hnew (Nat.not_le.mp h) })

/-- `stream_get`. -/
def streamGet (srtp : Srtp) (ssrc : UInt32) : Except Errno (SrtpStream × Srtp) :=
  match h : streamFind srtp ssrc with
  | some strm => .ok (strm, srtp)
  | none => streamNew srtp ssrc h

/-- The latch of `stream_get_seq`: the initial sequence number is set once only. -/
def latchSeq (strm : SrtpStream) (seq : UInt16) : SrtpStream :=
  if strm.sLSet then strm else { strm with sL := seq, sLSet := true }

/-- `stream_get_seq`. -/
def streamGetSeq (srtp : Srtp) (ssrc : UInt32) (seq : UInt16) :
    Except Errno (SrtpStream × Srtp) :=
  match streamGet srtp ssrc with
  | .error e => .error e
  | .ok (strm, srtp) => .ok (latchSeq strm seq, srtp.put (latchSeq strm seq))

/-! ## The table as a partial function with a size -/

theorem ssrc_of_find {s : Streams} (h : s.find ssrc = some strm) : strm.ssrc = ssrc := by
  simpa using find?_some h

@[simp] theorem count_put (strm : SrtpStream) : (s.put strm).count = s.count :=
  length_map _

/-- A write to one SSRC shows there and nowhere else. -/
theorem find_put (strm : SrtpStream) (ssrc : UInt32) :
    (s.put strm).find ssrc
      = if ssrc = strm.ssrc then (s.find ssrc).map (fun _ => strm) else s.find ssrc := by
  have hsame : (s.put strm).find ssrc = (s.find ssrc).map (replaceStream strm) := by
    simp [Streams.find, Streams.put, ssrc_replaceStream]
  rw [hsame]
  cases hfind : s.find ssrc with
  | none => simp
  | some t =>
    have hssrc := ssrc_of_find hfind
    by_cases hs : ssrc = strm.ssrc <;> simp_all [replaceStream]

theorem find_append (strm : SrtpStream) (hnew : s.find strm.ssrc = none)
    (hroom : s.count < srtpMaxStreams) (ssrc : UInt32) :
    (s.append strm hnew hroom).find ssrc = if ssrc = strm.ssrc then some strm else s.find ssrc := by
  show (s.list ++ [strm]).find? (fun t => t.ssrc == ssrc) = _
  by_cases hs : ssrc = strm.ssrc
  · subst hs
    have hnone : s.list.find? (fun t => t.ssrc == strm.ssrc) = none := hnew
    simp [hnone]
  · grind [Streams.find]

theorem count_append (strm : SrtpStream) (hnew : s.find strm.ssrc = none)
    (hroom : s.count < srtpMaxStreams) : (s.append strm hnew hroom).count = s.count + 1 :=
  length_append

/-! ## The view of a session

What a call can see of a session and can do to it: the two halves never change,
and a call writes one stream, which is new when its SSRC was unknown. Two
sessions with one view answer every packet alike; the order of the list is not
part of it. -/

/-- A session without the order of its streams. -/
@[ext] structure View where
  rtp : Comp
  rtcp : Comp
  stream : UInt32 → Option SrtpStream
  count : Nat

/-- The view of a session. -/
def Srtp.view (srtp : Srtp) : View where
  rtp := srtp.rtp
  rtcp := srtp.rtcp
  stream := streamFind srtp
  count := srtp.streaml.count

/-- A view with one stream written. -/
def View.update (v : View) (strm : SrtpStream) : View :=
  { v with
    stream := fun ssrc => if ssrc = strm.ssrc then some strm else v.stream ssrc
    count := if (v.stream strm.ssrc).isSome then v.count else v.count + 1 }

/-- The stream a packet of an SSRC works on. -/
def View.streamOf (v : View) (ssrc : UInt32) : SrtpStream :=
  (v.stream ssrc).getD (freshStream ssrc)

/-- Whether an SSRC has a stream or can get one. -/
def View.HasRoom (v : View) (ssrc : UInt32) : Prop :=
  (v.stream ssrc).isSome ∨ v.count < srtpMaxStreams

instance (v : View) (ssrc : UInt32) : Decidable (v.HasRoom ssrc) :=
  inferInstanceAs (Decidable (_ ∨ _))

@[simp] theorem update_rtcp (v : View) (strm : SrtpStream) : (v.update strm).rtcp = v.rtcp := rfl

theorem update_stream_self (v : View) (strm : SrtpStream) :
    (v.update strm).stream strm.ssrc = some strm := if_pos rfl

theorem update_stream_ne (v : View) (strm : SrtpStream) (h : ssrc ≠ strm.ssrc) :
    (v.update strm).stream ssrc = v.stream ssrc := if_neg h

/-- Of two writes to one SSRC the second counts. -/
theorem update_update (v : View) {strm' : SrtpStream} (h : strm'.ssrc = strm.ssrc) :
    (v.update strm).update strm' = v.update strm' := by
  apply View.ext
  · rfl
  · rfl
  · simp_all [View.update]
  · simp [View.update, h]

/-- Writing what is there already changes nothing. -/
theorem update_of_stream {v : View} (h : v.stream strm.ssrc = some strm) : v.update strm = v := by
  apply View.ext
  · rfl
  · rfl
  · funext ssrc
    simp only [View.update]
    split
    · simp_all
    · rfl
  · simp [View.update, h]

theorem ssrc_streamOf (srtp : Srtp) (ssrc : UInt32) : (srtp.view.streamOf ssrc).ssrc = ssrc := by
  cases h : streamFind srtp ssrc with
  | none => simp [View.streamOf, Srtp.view, h, freshStream]
  | some strm => simpa [View.streamOf, Srtp.view, h] using ssrc_of_find h

/-- A write through the pointer is an update of the view. -/
theorem view_put (h : (streamFind srtp strm.ssrc).isSome = true) :
    (srtp.put strm).view = srtp.view.update strm := by
  apply View.ext
  · rfl
  · rfl
  · funext ssrc
    show (srtp.streaml.put strm).find ssrc
      = if ssrc = strm.ssrc then some strm else srtp.streaml.find ssrc
    rw [find_put]
    split
    · rename_i hs
      obtain ⟨t, ht⟩ := Option.isSome_iff_exists.mp h
      have ht' : srtp.streaml.find ssrc = some t := by rw [hs]; exact ht
      rw [ht', Option.map_some]
    · rfl
  · show (srtp.streaml.put strm).count = if (streamFind srtp strm.ssrc).isSome then _ else _
    rw [count_put, if_pos h]
    rfl

/-- `stream_get` for an SSRC with a stream or with room for one. -/
theorem streamGet_ok (h : srtp.view.HasRoom ssrc) :
    ∃ srtp', streamGet srtp ssrc = .ok (srtp.view.streamOf ssrc, srtp') ∧
      srtp'.view = srtp.view.update (srtp.view.streamOf ssrc) := by
  unfold streamGet
  split
  · rename_i strm hf
    have hssrc : strm.ssrc = ssrc := ssrc_of_find hf
    have hof : srtp.view.streamOf ssrc = strm := by simp [View.streamOf, Srtp.view, hf]
    rw [hof]
    refine ⟨srtp, rfl, (update_of_stream ?_).symm⟩
    rw [hssrc]
    exact hf
  · rename_i hf
    have hroom : ¬ srtp.streaml.count ≥ srtpMaxStreams := by
      rcases h with h | h
      · rw [show srtp.view.stream ssrc = none from hf] at h
        cases h
      · exact Nat.not_le.mpr h
    have hof : srtp.view.streamOf ssrc = freshStream ssrc := by
      simp [View.streamOf, Srtp.view, hf]
    rw [streamNew, dif_neg hroom, hof]
    refine ⟨_, rfl, ?_⟩
    apply View.ext
    · rfl
    · rfl
    · funext k
      exact find_append srtp.streaml (freshStream ssrc) hf (Nat.not_le.mp hroom) k
    have hcount := count_append srtp.streaml (freshStream ssrc) hf (Nat.not_le.mp hroom)
    refine hcount.trans ?_
    show srtp.streaml.count + 1 = if (streamFind srtp ssrc).isSome then _ else _
    rw [hf]
    rfl

/-- `stream_get` for a new SSRC when the table is full. -/
theorem streamGet_error (h : ¬ srtp.view.HasRoom ssrc) : streamGet srtp ssrc = .error .ENOSR := by
  unfold streamGet
  split
  · rename_i strm hf
    exact absurd (.inl (by simp [Srtp.view, hf])) h
  · have hfull : srtp.streaml.count ≥ srtpMaxStreams := Nat.not_lt.mp (fun hlt => h (.inr hlt))
    rw [streamNew, dif_pos hfull]

@[simp] theorem latchSeq_ssrc (strm : SrtpStream) (seq : UInt16) :
    (latchSeq strm seq).ssrc = strm.ssrc := by
  unfold latchSeq
  split <;> rfl

/-- `stream_get_seq`, likewise: the stream comes back with its sequence number set. -/
theorem streamGetSeq_ok (h : srtp.view.HasRoom ssrc) (seq : UInt16) :
    ∃ srtp', streamGetSeq srtp ssrc seq = .ok (latchSeq (srtp.view.streamOf ssrc) seq, srtp') ∧
      srtp'.view = srtp.view.update (latchSeq (srtp.view.streamOf ssrc) seq) := by
  obtain ⟨srtp', hget, hview⟩ := streamGet_ok h
  refine ⟨srtp'.put (latchSeq (srtp.view.streamOf ssrc) seq), by rw [streamGetSeq, hget], ?_⟩
  have hfind : streamFind srtp' (latchSeq (srtp.view.streamOf ssrc) seq).ssrc
      = some (srtp.view.streamOf ssrc) := by
    show srtp'.view.stream _ = _
    rw [hview, latchSeq_ssrc]
    exact update_stream_self _ _
  rw [view_put (by rw [hfind]; rfl), hview, update_update _ (latchSeq_ssrc _ _)]

theorem streamGetSeq_error (h : ¬ srtp.view.HasRoom ssrc)
    (seq : UInt16) : streamGetSeq srtp ssrc seq = .error .ENOSR := by
  rw [streamGetSeq, streamGet_error h]

/-- A stream written back after a call got it. -/
theorem view_put_of_view {srtp' : Srtp} {strm' : SrtpStream}
    (h : srtp'.view = srtp.view.update strm) (hssrc : strm'.ssrc = strm.ssrc) :
    (srtp'.put strm').view = srtp.view.update strm' := by
  have hfind : streamFind srtp' strm'.ssrc = some strm := by
    show srtp'.view.stream _ = _
    rw [h, hssrc]
    exact update_stream_self _ _
  rw [view_put (by rw [hfind]; rfl), h, update_update _ hssrc]

end LibRe.SRTP
