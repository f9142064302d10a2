/-
LibRe.Rtmp.Segments — an RTMP stream cut into segments.

`tcp_recv_handler` is the receiver of `LibRe.Lib.Stream` for the reader
`chunkStep`. A chunk is read the same way whatever follows it. A chunk that is not
complete is read again later, and here the changes `rtmp_dechunker_receive` has
already made to the chunk stream count. For a chunk with format 0, 1 or 2 they are
assignments that are made again with the same values. For a chunk with format 3
they are made once, because the buffer of the new message is there the second time,
with one exception: the extended timestamp of a message that repeats a header with
format 0 is assigned again and not added again. A cut inside such a chunk changes
the timestamp of the message.
-/
import LibRe.Lib.Stream
import LibRe.Rtmp.ChunkTheorems
import LibRe.Rtmp.Conn

namespace LibRe.Rtmp

open Bytes LibRe.Stream List Option

variable {xs : Bytes} {chunkSz : Nat} {hdr : RtmpHeader} {chunk : Chunk} {err : Errno}
  {rd : Dechunker}

variable {τ : Type}

/-! ## The payload of a chunk -/

/-- `switch (hdr.format)` -/
def readChunk (chunkSz : Nat) (hdr : RtmpHeader) (chunk : Chunk) (xs : Bytes) : ChunkRead :=
  if hdr.format = 3 then continueMessage chunkSz chunk xs else startMessage chunkSz hdr chunk xs

/-- What is read does not depend on what follows it, and all that can be wrong is
that it is not complete. -/
structure ReadsPrefix (f : Bytes → ChunkRead) : Prop where
  ok : ∀ xs chunk rest, f xs = (none, chunk, rest) →
    rest <:+ xs ∧ ∀ ys, f (xs ++ ys) = (none, chunk, rest ++ ys)
  error : ∀ xs err chunk rest, f xs = (some err, chunk, rest) → err = .ENODATA

theorem RxBuf.read_append (buf : RxBuf) {sz : Nat} (h : sz ≤ xs.length)
    (ys : Bytes) : buf.read (xs ++ ys) sz = buf.read xs sz := by
  have hmin : min buf.space sz ≤ xs.length := (min_le_right _ _).trans h
  simp only [RxBuf.read, take_append_of_le_length hmin]

/-- The last step of every chunk: `sz` bytes are there, or not. -/
theorem readsPrefix_sized (sz : Nat) (failed : Chunk) (done : Bytes → Chunk)
    (hdone : ∀ xs ys, sz ≤ xs.length → done (xs ++ ys) = done xs) :
    ReadsPrefix fun xs =>
      if xs.length < sz then (some .ENODATA, failed, xs) else (none, done xs, xs.drop sz) where
  ok := by
    intro xs chunk rest h
    by_cases hlen : xs.length < sz
    · simp_all
    rw [if_neg hlen] at h
    cases h
    have hle : sz ≤ xs.length := Nat.le_of_not_lt hlen
    refine ⟨drop_suffix _ _, fun ys => ?_⟩
    rw [if_neg (by rw [length_append]; omega), hdone xs ys hle, drop_append_of_le_length hle]
  error := by
    intro xs err chunk rest h
    split at h
    · simp_all
    · cases h

theorem continueMessage_readsPrefix (chunkSz : Nat) (chunk : Chunk) :
    ReadsPrefix (continueMessage chunkSz chunk) := by
  have hpay : ∀ c, ReadsPrefix (continuePayload chunkSz c) :=
    fun c => readsPrefix_sized _ _ _ fun xs ys h => by simp only [RxBuf.read_append _ h]
  by_cases hext : chunk.hdr.extTs = true
  · refine ⟨?_, ?_⟩
    · intro xs chunk' rest h
      rw [continueMessage, if_pos hext] at h
      by_cases h4 : xs.length < 4
      · simp_all
      rw [if_neg h4] at h
      obtain ⟨hsuf, happ⟩ := (hpay _).ok _ _ _ h
      refine ⟨hsuf.trans (drop_suffix _ _), fun ys => ?_⟩
      rw [continueMessage, if_pos hext, if_neg (by rw [length_append]; omega),
        ofBe32_append (by omega), drop_append_of_le_length (by omega)]
      exact happ ys
    · intro xs err chunk' rest h
      rw [continueMessage, if_pos hext] at h
      split at h
      · simp_all
      · exact (hpay _).error _ _ _ _ h
  · have hsame : continueMessage chunkSz chunk = continuePayload chunkSz chunk := by
      grind [continueMessage]
    rw [hsame]
    exact hpay chunk

theorem readChunk_readsPrefix (chunkSz : Nat) (hdr : RtmpHeader) (chunk : Chunk) :
    ReadsPrefix (readChunk chunkSz hdr chunk) := by
  unfold readChunk
  split
  · exact continueMessage_readsPrefix chunkSz chunk
  · exact readsPrefix_sized _ _ _ fun xs ys h => by simp only [RxBuf.read_append _ h]

/-! ## Reading a chunk again -/

/-- The chunk stream that was left behind by a chunk that was not complete does with
all bytes what the chunk stream before it would have done. -/
def ReadsAgain (f : Chunk → Bytes → ChunkRead) (chunk : Chunk) (xs : Bytes) : Prop :=
  ∀ err chunk' rest, f chunk xs = (some err, chunk', rest) →
    chunk'.hdr.chunkId = chunk.hdr.chunkId ∧ ∀ ys, f chunk' (xs ++ ys) = f chunk (xs ++ ys)

/-- The fields of a header with format 0, 1 or 2 are assigned again. -/
theorem startMessage_again (hid : hdr.chunkId = chunk.hdr.chunkId) (xs : Bytes) :
    ReadsAgain (startMessage chunkSz hdr) chunk xs := by
  intro err chunk' rest h
  unfold startMessage at h ⊢
  by_cases h0 : hdr.format = 0
  · simp only [if_pos h0] at h ⊢
    split at h
    · cases h
      exact ⟨hid, fun ys => rfl⟩
    · cases h
  · by_cases h1 : hdr.format = 1
    · simp only [if_neg h0, if_pos h1] at h ⊢
      split at h
      · grind
      · cases h
    · simp only [if_neg h0, if_neg h1] at h ⊢
      split at h
      · grind
      · cases h

theorem openMessage_id (chunk : Chunk) : (openMessage chunk).1.hdr.chunkId = chunk.hdr.chunkId := by
  rw [openMessage]
  split <;> rfl

theorem openMessage_extTs (chunk : Chunk) : (openMessage chunk).1.hdr.extTs = chunk.hdr.extTs := by
  rw [openMessage]
  split <;> rfl

/-- A message is opened once. -/
theorem openMessage_openMessage (chunk : Chunk) :
    openMessage (openMessage chunk).1 = openMessage chunk := by
  cases hmb : chunk.mb with
  | some _ | none => simp only [openMessage, hmb]

theorem continuePayload_openMessage (chunkSz : Nat) (chunk : Chunk) (xs : Bytes) :
    continuePayload chunkSz (openMessage chunk).1 xs = continuePayload chunkSz chunk xs := by
  rw [continuePayload, continuePayload, openMessage_openMessage]

variable {rest ys : Bytes} {rd₁ : Dechunker} {old : Chunk}

/-- A chunk with format 3 that is not complete leaves an open message. -/
theorem continuePayload_error {chunk' : Chunk}
    (h : continuePayload chunkSz chunk xs = (some err, chunk', rest)) :
    chunk' = (openMessage chunk).1 := by
  rw [continuePayload] at h
  simp only at h
  split at h
  · cases h
    rfl
  · cases h

/-- The extended timestamp is assigned again: nothing changes unless the message was
opened in between and its header has format 0. -/
theorem openMessage_setExtTs {extTs : UInt32} (hrep : chunk.mb ≠ none ∨ chunk.hdr.format ≠ 0) :
    let opened := (openMessage { chunk with hdr := setExtTs chunk.hdr extTs }).1
    { opened with hdr := setExtTs opened.hdr extTs } = opened := by
  by_cases h0 : chunk.hdr.format = 0
  · grind [openMessage, setExtTs]
  · cases hmb : chunk.mb with
    | some _ | none => simp only [openMessage, setExtTs, if_neg h0]

theorem continueMessage_again
    (hrep : chunk.hdr.extTs = true → 4 ≤ xs.length → chunk.mb ≠ none ∨ chunk.hdr.format ≠ 0) :
    ReadsAgain (continueMessage chunkSz) chunk xs := by
  intro err chunk' rest h
  unfold continueMessage at h ⊢
  by_cases hext : chunk.hdr.extTs = true
  · rw [if_pos hext] at h
    by_cases h4 : xs.length < 4
    · -- the extended timestamp itself is not complete
      rw [if_pos h4] at h
      cases h
      exact ⟨rfl, fun ys => rfl⟩
    · rw [if_neg h4] at h
      have hopened := continuePayload_error h
      have hid : chunk'.hdr.chunkId = chunk.hdr.chunkId := by
        grind [openMessage_id, setExtTs]
      have hext' : chunk'.hdr.extTs = true := by
        grind [openMessage_extTs, setExtTs]
      refine ⟨hid, fun ys => ?_⟩
      have hlen : ¬ (xs ++ ys).length < 4 := by
        simp
        omega
      rw [if_pos hext', if_pos hext, if_neg hlen, if_neg hlen, ofBe32_append (by omega), hopened,
        openMessage_setExtTs (hrep hext (by omega)), continuePayload_openMessage]
  · rw [if_neg hext] at h
    have hopened := continuePayload_error h
    have hext' : ¬ chunk'.hdr.extTs = true := by
      rw [hopened, openMessage_extTs]
      exact hext
    refine ⟨by rw [hopened, openMessage_id], fun ys => ?_⟩
    rw [if_neg hext', if_neg hext, hopened, continuePayload_openMessage]

theorem readChunk_again (hid : hdr.chunkId = chunk.hdr.chunkId)
    (hrep : hdr.format = 3 → chunk.hdr.extTs = true → 4 ≤ xs.length →
      chunk.mb ≠ none ∨ chunk.hdr.format ≠ 0) : ReadsAgain (readChunk chunkSz hdr) chunk xs := by
  by_cases h3 : hdr.format = 3
  · have hsame : readChunk chunkSz hdr = continueMessage chunkSz := by
      grind [readChunk]
    rw [hsame]
    exact continueMessage_again (hrep h3)
  · have hsame : readChunk chunkSz hdr = startMessage chunkSz hdr := by
      grind [readChunk]
    rw [hsame]
    exact startMessage_again hid xs

/-! ## One call of the dechunker -/

/-- A header has at least one byte. -/
theorem rtmpHeaderDecode_ok (h : rtmpHeaderDecode xs = .ok (hdr, rest)) :
    (rest <:+ xs ∧ rest.length < xs.length) ∧
      ∀ ys, rtmpHeaderDecode (xs ++ ys) = .ok (hdr, rest ++ ys) := by
  obtain ⟨b, rfl, happ⟩ := rtmpHeaderDecode_stable.ok _ _ _ h
  have hne : b ≠ [] := by
    rintro rfl
    cases happ []
  have hpos := length_pos_iff.mpr hne
  refine ⟨⟨suffix_append _ _, by rw [length_append]; omega⟩, fun ys => ?_⟩
  rw [append_assoc, happ]

theorem receiveChunk_undecoded
    (hdec : rtmpHeaderDecode xs = .error err) : receiveChunk rd xs = ⟨some err, rd, xs, none⟩ := by
  rw [receiveChunk, hdec]

theorem receiveChunk_unopened
    (hdec : rtmpHeaderDecode xs = .ok (hdr, ys)) (hopen : openChunk rd hdr = .error err) :
    receiveChunk rd xs = ⟨some err, rd, ys, none⟩ := by
  simp [receiveChunk, hdec, hopen]

theorem receiveChunk_incomplete {zs : Bytes} (hdec : rtmpHeaderDecode xs = .ok (hdr, ys))
    (hopen : openChunk rd hdr = .ok (rd₁, old))
    (hread : readChunk rd₁.chunkSz hdr old ys = (some err, chunk, zs)) :
    receiveChunk rd xs =
      ⟨some err, { rd₁ with chunkl := setChunk rd₁.chunkl hdr.chunkId chunk }, zs, none⟩ := by
  rw [readChunk] at hread
  rw [receiveChunk, hdec]
  simp only [hopen, hread]

/-- A chunk that is complete, or wrong, is so whatever follows it. -/
theorem receiveChunk_append (h : (receiveChunk rd xs).err ≠ some .ENODATA) :
    ((receiveChunk rd xs).rest <:+ xs ∧ (receiveChunk rd xs).rest.length < xs.length) ∧
      ∀ ys, receiveChunk rd (xs ++ ys) =
        { receiveChunk rd xs with rest := (receiveChunk rd xs).rest ++ ys } := by
  cases hdec : rtmpHeaderDecode xs with
  | error err =>
    rw [receiveChunk_undecoded hdec, rtmpHeaderDecode_stable.error _ _ hdec] at h
    exact absurd rfl h
  | ok r =>
    obtain ⟨hdr, body⟩ := r
    obtain ⟨⟨hsuf, hlt⟩, hdec'⟩ := rtmpHeaderDecode_ok hdec
    cases hopen : openChunk rd hdr with
    | error err =>
      rw [receiveChunk_unopened hdec hopen]
      exact ⟨⟨hsuf, hlt⟩, fun ys => receiveChunk_unopened (hdec' ys) hopen⟩
    | ok r =>
      obtain ⟨rd₁, old⟩ := r
      have hreads := readChunk_readsPrefix rd₁.chunkSz hdr old
      rcases hread : readChunk rd₁.chunkSz hdr old body with ⟨_ | err, chunk, rest⟩
      · obtain ⟨hbody, hread'⟩ := hreads.ok _ _ _ hread
        rw [receiveChunk_eq hdec hopen hread]
        exact ⟨⟨hbody.trans hsuf, hbody.length_le.trans_lt hlt⟩, fun ys =>
          receiveChunk_eq (hdec' ys) hopen (hread' ys)⟩
      · rw [receiveChunk_incomplete hdec hopen hread, hreads.error _ _ _ _ hread] at h
        exact absurd rfl h

/-- A chunk with format 3 that begins a message on a chunk stream whose header has
format 0 and an extended timestamp, cut behind the extended timestamp. -/
def RestartsExtended (rd : Dechunker) (xs : Bytes) : Prop :=
  ∃ hdr ys chunk, rtmpHeaderDecode xs = .ok (hdr, ys) ∧ findChunk rd.chunkl hdr.chunkId =
    some chunk ∧
    hdr.format = 3 ∧ 4 ≤ ys.length ∧
    chunk.mb = none ∧ chunk.hdr.format = 0 ∧ chunk.hdr.extTs = true

theorem setChunk_setChunk (l : List Chunk) {c : Nat} (hid : chunk.hdr.chunkId = c)
    (chunk' : Chunk) : setChunk (setChunk l c chunk) c chunk' = setChunk l c chunk' := by
  induction l with
  | nil => rfl
  | cons d l ih =>
    rw [setChunk, setChunk]
    by_cases hd : d.hdr.chunkId = c
    · rw [if_pos hd, if_pos hd, setChunk, if_pos hid]
    · rw [if_neg hd, if_neg hd, setChunk, if_neg hd, ih]

/-- The chunk stream of a header is in the list behind. A new one has the header's format. -/
theorem openChunk_ok (h : openChunk rd hdr = .ok (rd₁, chunk)) :
    findChunk rd₁.chunkl hdr.chunkId = some chunk ∧
      (findChunk rd.chunkl hdr.chunkId = some chunk ∨ hdr.format = 0) := by
  rw [openChunk] at h
  cases hfind : findChunk rd.chunkl hdr.chunkId with
  | some c =>
    rw [hfind] at h
    cases h
    exact ⟨hfind, .inl rfl⟩
  | none =>
    rw [hfind] at h
    by_cases h0 : hdr.format = 0
    · simp only [if_pos h0] at h
      split at h
      · cases h
      · cases h
        exact ⟨(findChunk_concat hfind hdr.chunkId).trans (if_pos rfl), .inr h0⟩
    · simp_all

theorem openChunk_setChunk
    (hold : findChunk rd.chunkl hdr.chunkId = some old) (hid : chunk.hdr.chunkId = hdr.chunkId) :
    openChunk { rd with chunkl := setChunk rd.chunkl hdr.chunkId chunk } hdr =
      .ok ({ rd with chunkl := setChunk rd.chunkl hdr.chunkId chunk }, chunk) := by
  rw [openChunk, findChunk_setChunk hold hid, if_pos rfl]

/-- A chunk that was not complete is read again as if for the first time. -/
theorem receiveChunk_again
    (h : (receiveChunk rd xs).err = some .ENODATA) (hclean : ¬ RestartsExtended rd xs)
    (ys : Bytes) : receiveChunk (receiveChunk rd xs).rd (xs ++ ys) = receiveChunk rd
      (xs ++ ys) := by
  cases hdec : rtmpHeaderDecode xs with
  | error err => rw [receiveChunk_undecoded hdec]
  | ok r =>
    obtain ⟨hdr, body⟩ := r
    obtain ⟨-, hdec'⟩ := rtmpHeaderDecode_ok hdec
    cases hopen : openChunk rd hdr with
    | error err => rw [receiveChunk_unopened hdec hopen]
    | ok r =>
      obtain ⟨rd₁, old⟩ := r
      obtain ⟨hold, hnew⟩ := openChunk_ok hopen
      rcases hread : readChunk rd₁.chunkSz hdr old body with ⟨_ | err, chunk, rest⟩
      · rw [receiveChunk_eq hdec hopen hread] at h
        cases h
      have hagain : ReadsAgain (readChunk rd₁.chunkSz hdr) old body := by
        refine readChunk_again (findChunk_id hold).symm fun h3 hext h4 => ?_
        by_contra hno
        obtain ⟨hmb, hfmt⟩ := not_or.mp hno
        have hfound := hnew.resolve_right (by omega)
        exact hclean ⟨hdr, body, old, hdec, hfound, h3, h4, not_not.mp hmb, not_not.mp hfmt, hext⟩
      obtain ⟨hid, hsame⟩ := hagain _ _ _ hread
      rw [findChunk_id hold] at hid
      rw [receiveChunk_incomplete hdec hopen hread]
      have hopen' := openChunk_setChunk hold hid
      rcases hread' : readChunk rd₁.chunkSz hdr old (body ++ ys) with ⟨_ | err, chunk', rest'⟩
      · rw [receiveChunk_eq (hdec' ys) hopen hread',
          receiveChunk_eq (hdec' ys) hopen' ((hsame ys).trans hread')]
        simp only [setChunk_setChunk _ hid]
      · rw [receiveChunk_incomplete (hdec' ys) hopen hread',
          receiveChunk_incomplete (hdec' ys) hopen' ((hsame ys).trans hread')]
        simp only [setChunk_setChunk _ hid]

/-! ## Reading chunks from a stream -/

/-- What a reader of the stream makes of the answer of `rtmp_dechunker_receive`. -/
def stepOf (len : Nat) :
    Option Errno × (Dechunker × τ) × Bytes × Option Message → Step (Dechunker × τ) Message
  | (none, s, rest, msg) => .take (len - rest.length) msg.toList s
  | (some err, s, _, msg) => if err = .ENODATA then .wait msg.toList s else .stop msg.toList

/-- One chunk, as a reader of the stream sees it. -/
def chunkStep (chunkh : DechunkHandler τ) (s : Dechunker × τ) (xs : Bytes) :
    Step (Dechunker × τ) Message :=
  if xs.length = 0 then .wait [] s
  else stepOf xs.length (rtmpDechunkerReceive chunkh s.1 s.2 xs)

/-- The chunk ends a message to which the handler answers ENODATA. The receiver takes
this for a chunk that is not complete. -/
def HandlerWaits (chunkh : DechunkHandler τ) (s : Dechunker × τ) (xs : Bytes) : Prop :=
  ∃ msg, (receiveChunk s.1 xs).msg = some msg ∧
    (chunkh (s.2, (receiveChunk s.1 xs).rd.chunkSz) msg).1 = some .ENODATA

/-- Where the reader waits for more, what it has read of the chunk can be read again. -/
def CleanCut (chunkh : DechunkHandler τ) (s : Dechunker × τ) (xs : Bytes) : Prop :=
  ∀ evs s', chunkStep chunkh s xs = .wait evs s' →
    ¬ RestartsExtended s.1 xs ∧ ¬ HandlerWaits chunkh s xs

/-- A message is complete only if its last chunk is. -/
theorem receiveChunk_msg {msg : Message}
    (h : (receiveChunk rd xs).msg = some msg) : (receiveChunk rd xs).err = none := by
  cases hdec : rtmpHeaderDecode xs with
  | error err =>
    simp_all [receiveChunk_undecoded]
  | ok r =>
    obtain ⟨hdr, body⟩ := r
    cases hopen : openChunk rd hdr with
    | error err =>
      rw [receiveChunk_unopened hdec hopen] at h
      cases h
    | ok r =>
      obtain ⟨rd₁, old⟩ := r
      rcases hread : readChunk rd₁.chunkSz hdr old body with ⟨_ | err, chunk, rest⟩
      · rw [receiveChunk_eq hdec hopen hread]
      · rw [receiveChunk_incomplete hdec hopen hread] at h
        cases h

section Reader

variable {chunkh : DechunkHandler τ} {rd : Dechunker} {t : τ} {xs : Bytes}

theorem rtmpDechunkerReceive_none (h : (receiveChunk rd xs).msg = none) :
    rtmpDechunkerReceive chunkh rd t xs = ((receiveChunk rd xs).err, ((receiveChunk rd xs).rd, t),
        (receiveChunk rd xs).rest, none) := by
  simp only [rtmpDechunkerReceive, h]

theorem rtmpDechunkerReceive_append (h : (receiveChunk rd xs).err ≠ some .ENODATA) :
    ((rtmpDechunkerReceive chunkh rd t xs).2.2.1 <:+ xs ∧
        (rtmpDechunkerReceive chunkh rd t xs).2.2.1.length < xs.length) ∧
      ∀ ys, rtmpDechunkerReceive chunkh rd t (xs ++ ys) =
        ((rtmpDechunkerReceive chunkh rd t xs).1, (rtmpDechunkerReceive chunkh rd t xs).2.1,
          (rtmpDechunkerReceive chunkh rd t xs).2.2.1 ++ ys,
          (rtmpDechunkerReceive chunkh rd t xs).2.2.2) := by
  obtain ⟨hrest, happ⟩ := receiveChunk_append h
  have hsame : (rtmpDechunkerReceive chunkh rd t xs).2.2.1 = (receiveChunk rd xs).rest := by
    grind [rtmpDechunkerReceive]
  refine ⟨by rw [hsame]; exact hrest, fun ys => ?_⟩
  cases hmsg : (receiveChunk rd xs).msg with
  | none | some _ => simp only [rtmpDechunkerReceive, happ, hmsg]

/-- The reader waits only where the dechunker, or the handler, has answered ENODATA. -/
theorem receiveChunk_err_of_receive (h : (rtmpDechunkerReceive chunkh rd t xs).1 ≠ some .ENODATA) :
    (receiveChunk rd xs).err ≠ some .ENODATA := by
  cases hmsg : (receiveChunk rd xs).msg with
  | none =>
    simp_all [rtmpDechunkerReceive_none]
  | some msg =>
    rw [receiveChunk_msg hmsg]
    nofun

variable {s : Dechunker × τ}

/-- The answer to a chunk that is there, with its bytes as the number of bytes taken. -/
theorem chunkStep_append (hne : xs ≠ [])
    (h : (rtmpDechunkerReceive chunkh s.1 s.2 xs).1 ≠ some .ENODATA) (ys : Bytes) :
    chunkStep chunkh s (xs ++ ys) = chunkStep chunkh s xs := by
  obtain ⟨-, happ⟩ := rtmpDechunkerReceive_append (receiveChunk_err_of_receive h)
  have hpos := length_pos_iff.mpr hne
  rw [chunkStep, chunkStep, if_neg (by rw [length_append]; omega), if_neg (by omega), happ ys]
  rcases hr : rtmpDechunkerReceive chunkh s.1 s.2 xs with ⟨_ | err, s', rest, msg⟩
  · simp only [stepOf, length_append, Nat.add_sub_add_right]
  · rfl

theorem chunkStep_err (h : ∀ evs s', chunkStep chunkh s xs ≠ .wait evs s') :
    xs ≠ [] ∧ (rtmpDechunkerReceive chunkh s.1 s.2 xs).1 ≠ some .ENODATA := by
  have hne : xs ≠ [] := by
    rintro rfl
    exact h _ _ rfl
  refine ⟨hne, fun herr => ?_⟩
  rcases hr : rtmpDechunkerReceive chunkh s.1 s.2 xs with ⟨err, s', rest, msg⟩
  rw [hr] at herr
  refine h msg.toList s' ?_
  rw [chunkStep, if_neg (by rwa [length_eq_zero_iff]), hr, show err = _ from herr,
    stepOf, if_pos rfl]

theorem chunkStep_incremental : Incremental (chunkStep chunkh) where
  empty := fun s => rfl
  take_bounds := by
    intro s xs n evs s' h
    obtain ⟨hne, herr⟩ := chunkStep_err (s := s) (by rw [h]; nofun)
    obtain ⟨⟨-, hlt⟩, -⟩ := rtmpDechunkerReceive_append (receiveChunk_err_of_receive herr)
    rw [chunkStep, if_neg (by rwa [length_eq_zero_iff])] at h
    rcases hr : rtmpDechunkerReceive chunkh s.1 s.2 xs with ⟨_ | err, s₁, rest, msg⟩
    · rw [hr] at h hlt
      cases h
      exact ⟨Nat.sub_pos_of_lt hlt, Nat.sub_le _ _⟩
    · simp_all [stepOf]
  take_append := by
    intro s xs n evs s' ys h
    obtain ⟨hne, herr⟩ := chunkStep_err (s := s) (by rw [h]; nofun)
    rw [chunkStep_append hne herr, h]
  stop_append := by
    intro s xs evs ys h
    obtain ⟨hne, herr⟩ := chunkStep_err (s := s) (by rw [h]; nofun)
    rw [chunkStep_append hne herr, h]

/-- At a clean cut the dechunker goes on as if it had not read anything of the chunk. -/
theorem CleanCut.resumes (h : CleanCut chunkh s xs) : Resumes (chunkStep chunkh) s xs := by
  intro evs s' hwait
  obtain ⟨hext, hhandler⟩ := h evs s' hwait
  by_cases hne : xs = []
  · subst hne
    cases hwait
    exact ⟨rfl, fun _ => rfl⟩
  have hpos := length_pos_iff.mpr hne
  rw [chunkStep, if_neg (by omega)] at hwait
  cases hmsg : (receiveChunk s.1 xs).msg with
  | some msg =>
    -- a complete message: the handler has answered, and not with ENODATA
    rcases hr : chunkh (s.2, (receiveChunk s.1 xs).rd.chunkSz) msg with ⟨_ | err, t', sz⟩
    · simp_all [rtmpDechunkerReceive, stepOf]
    have herr : err ≠ .ENODATA := by
      rintro rfl
      exact hhandler ⟨msg, hmsg, by rw [hr]⟩
    simp only [rtmpDechunkerReceive, hmsg, hr, stepOf, if_neg herr] at hwait
    cases hwait
  | none =>
    rw [rtmpDechunkerReceive_none hmsg] at hwait
    rcases herr : (receiveChunk s.1 xs).err with _ | err
    · simp_all [stepOf]
    by_cases hdata : err = .ENODATA
    · subst hdata
      simp only [herr, stepOf, if_true] at hwait
      cases hwait
      refine ⟨rfl, fun ys => ?_⟩
      have hlen : ¬ (xs ++ ys).length = 0 := by
        simp_all
      rw [chunkStep, chunkStep, if_neg hlen, if_neg hlen, rtmpDechunkerReceive,
        rtmpDechunkerReceive, receiveChunk_again herr hext]
    · simp_all [stepOf]

end Reader

/-! ## The handler of a segment -/

/-- What is left when the loop of `tcp_recv_handler` ends. -/
def ended : Option Errno → Dechunker × τ → Bytes → Option ((Dechunker × τ) × Bytes)
  | none, s, _ => some (s, [])
  | some err, s, rest => if err = .ENODATA then some (s, rest) else none

/-- The connection as the receiver of the stream sees it. -/
def RtmpConn.view (conn : RtmpConn τ) : (Dechunker × τ) × Bytes :=
  ((conn.rd, conn.app), conn.mb.getD [])

section Handler

variable {chunkh : DechunkHandler τ}

theorem receiveLoop_drain (fuel : Nat) : ∀ (s : Dechunker × τ) (xs : Bytes), xs.length < fuel →
    drainAll (chunkStep chunkh) s xs =
      ((receiveLoop chunkh fuel s xs).1, ended (receiveLoop chunkh fuel s xs).2.1
        (receiveLoop chunkh fuel s xs).2.2.1 (receiveLoop chunkh fuel s xs).2.2.2) := by
  induction fuel with
  | zero =>
    omega
  | succ fuel ih =>
    intro s xs hfuel
    have inc : Incremental (chunkStep chunkh) := chunkStep_incremental
    rw [receiveLoop]
    by_cases hlen : xs.length = 0
    · obtain rfl := length_eq_zero_iff.mp hlen
      rfl
    have hstep : chunkStep chunkh s xs = stepOf xs.length
        (rtmpDechunkerReceive chunkh s.1 s.2 xs) :=
      if_neg hlen
    rw [if_neg hlen]
    rcases hr : rtmpDechunkerReceive chunkh s.1 s.2 xs with ⟨_ | err, s₁, rest, msg⟩
    · rw [hr, stepOf] at hstep
      have herr : (rtmpDechunkerReceive chunkh s.1 s.2 xs).1 ≠ some .ENODATA := by
        simp [hr]
      obtain ⟨⟨hsuf, hlt⟩, -⟩ := rtmpDechunkerReceive_append (receiveChunk_err_of_receive herr)
      rw [hr] at hsuf hlt
      have hless : rest.length < xs.length := hlt
      rw [drainAll_take inc hstep, ← suffix_iff_eq_drop.mp hsuf, ih s₁ rest (by omega)]
      rfl
    · rw [hr, stepOf] at hstep
      by_cases hdata : err = .ENODATA
      · grind [drainAll_wait, ended]
      · rw [if_neg hdata] at hstep
        rw [drainAll_stop inc hstep]
        simp only [ended, if_neg hdata]

theorem handlePackets_drain (s : Dechunker × τ) (xs : Bytes) :
    drainAll (chunkStep chunkh) s xs =
      ((handlePackets chunkh s xs).1, (handlePackets chunkh s xs).2.map RtmpConn.view) := by
  rw [handlePackets]
  by_cases hlen : xs.length = 0
  · obtain rfl := length_eq_zero_iff.mp hlen
    rfl
  rw [if_neg hlen, receiveLoop_drain (xs.length + 1) s xs (Nat.lt_succ_self _), receiveAll]
  rcases receiveLoop chunkh (xs.length + 1) s xs with ⟨msgs, _ | err, s', rest⟩
  · rfl
  · by_cases hdata : err = .ENODATA
    · simp only [ended, if_pos hdata]
      rfl
    · simp [ended, hdata]

/-- The bytes in the buffer and the segment stay within `RTMP_MESSAGE_LEN_MAX`. -/
def Fits (conn : RtmpConn τ) (seg : Bytes) : Prop :=
  ∀ xs ∈ conn.mb, xs.length + seg.length ≤ rtmpMessageLenMax

theorem tcpRecvHandler_feed {conn : RtmpConn τ} {seg : Bytes} (hfit : Fits conn seg) :
    feed (chunkStep chunkh) (some conn.view) seg =
      ((tcpRecvHandler chunkh conn seg).1, (tcpRecvHandler chunkh conn seg).2.map
        RtmpConn.view) := by
  rw [RtmpConn.view, feed_some, tcpRecvHandler, handlePackets_drain]
  cases hmb : conn.mb with
  | none => rfl
  | some xs =>
    have hroom := hfit xs hmb
    simp only [getD_some]
    rw [if_neg (by omega)]

/-- No segment of the run meets the limit on the buffer. -/
def FitsAll (chunkh : DechunkHandler τ) : Option (RtmpConn τ) → List Bytes → Prop
  | some conn, seg :: segs => Fits conn seg ∧ FitsAll chunkh (tcpRecvHandler chunkh conn seg).2 segs
  | _, _ => True

theorem tcpRecvAll_feedAll (segs : List Bytes) :
    ∀ conn : Option (RtmpConn τ), FitsAll chunkh conn segs →
      feedAll (chunkStep chunkh) (conn.map RtmpConn.view) segs =
        ((tcpRecvAll chunkh conn segs).1, (tcpRecvAll chunkh conn segs).2.map RtmpConn.view) := by
  induction segs with
  | nil =>
    simp [feedAll, tcpRecvAll]
  | cons seg segs ih =>
    intro conn hfit
    cases conn with
    | none => rw [map_none, feedAll_none, tcpRecvAll, map_none]
    | some conn =>
      obtain ⟨hfirst, hrest⟩ := hfit
      rw [map_some, feedAll, tcpRecvHandler_feed hfirst, ih _ hrest, tcpRecvAll]
      rfl

end Handler

/-! ## Any cut of a stream -/

/-- However a stream is cut into segments, the connection delivers the messages it
delivers when the stream arrives in one segment, if every cut is clean. -/
theorem cut_stream_same_messages (app : τ → Message → Option Errno × τ) (rd : Dechunker) (t : τ)
    (segs : List Bytes) (hfit : FitsAll (rtmpDechunkHandler app) (some (RtmpConn.fresh rd t)) segs)
    (hclean : AtCuts (CleanCut (rtmpDechunkHandler app)) (chunkStep (rtmpDechunkHandler app))
      (some ((rd, t), [])) segs) :
    (tcpRecvAll (rtmpDechunkHandler app) (some (RtmpConn.fresh rd t)) segs).1 =
      (tcpRecvHandler (rtmpDechunkHandler app) (RtmpConn.fresh rd t) segs.flatten).1 := by
  have hcut : feedAll (chunkStep (rtmpDechunkHandler app)) (some ((rd, t), [])) segs = _ :=
    tcpRecvAll_feedAll segs (some (RtmpConn.fresh rd t)) hfit
  have hempty : Fits (RtmpConn.fresh rd t) segs.flatten := nofun
  have hwhole : drainAll (chunkStep (rtmpDechunkHandler app)) (rd, t) segs.flatten = _ :=
    tcpRecvHandler_feed hempty
  have hres := hclean.mono (fun s xs h => h.resumes) segs
  have hsame := hcut.symm.trans ((feedAll_eq chunkStep_incremental hres).trans hwhole)
  injection hsame

/-- An application that takes every message. -/
def takesAll (t : Unit) (_ : Message) : Option Errno × Unit := (none, t)

/-- The dechunker of a new connection. -/
def newDechunker : Dechunker := ⟨[], 128⟩

/-- Audio messages of one byte with the extended timestamp 0x01000000: the first one
with format 0, the second one with format 3. The last byte is missing. -/
def repeatedHeader : Bytes :=
  [0x03, 0xff, 0xff, 0xff, 0, 0, 1, 8, 1, 0, 0, 0, 1, 0, 0, 0, 0xaa, 0xc3, 1, 0, 0, 0]

/-- The stream is cut in the first chunk. -/
theorem cut_stream_same_messages_first :
    (tcpRecvAll (rtmpDechunkHandler takesAll) (some (RtmpConn.fresh newDechunker ()))
        [repeatedHeader.take 16, repeatedHeader.drop 16 ++ [0xbb]]).1 =
      (tcpRecvHandler (rtmpDechunkHandler takesAll) (RtmpConn.fresh newDechunker ())
        (repeatedHeader ++ [0xbb])).1 ∧
    ((tcpRecvHandler (rtmpDechunkHandler takesAll) (RtmpConn.fresh newDechunker ())
        (repeatedHeader ++ [0xbb])).1.map fun msg => msg.hdr.timestamp) =
          [0x01000000, 0x02000000] := by
  refine ⟨cut_stream_same_messages takesAll newDechunker ()
    [repeatedHeader.take 16, repeatedHeader.drop 16 ++ [0xbb]] ⟨nofun, ?_, trivial⟩ ⟨?_, trivial⟩,
    by decide +kernel⟩
  · rintro xs ⟨⟩
    decide
  intro s rest hreach
  have hwait : ∃ evs s', chunkStep (rtmpDechunkHandler takesAll) (newDechunker, ())
      (repeatedHeader.take 16) = .wait evs s' := ⟨_, _, rfl⟩
  obtain ⟨evs, s', hwait⟩ := hwait
  obtain ⟨rfl, rfl⟩ := hreach.of_wait hwait
  refine fun _ _ _ => ⟨?_, ?_⟩
  · rintro ⟨hdr, ys, chunk, -, hfind, -⟩
    cases hfind
  · rintro ⟨msg, hmsg, -⟩
    cases hmsg

/-- The stream is cut in the second chunk: its message has the timestamp 0x01000000. -/
theorem restarted_timestamp_lost :
    ¬ ∀ (app : Unit → Message → Option Errno × Unit) (rd : Dechunker) (segs : List Bytes),
      FitsAll (rtmpDechunkHandler app) (some (RtmpConn.fresh rd ())) segs →
      (tcpRecvAll (rtmpDechunkHandler app) (some (RtmpConn.fresh rd ())) segs).1 =
        (tcpRecvHandler (rtmpDechunkHandler app) (RtmpConn.fresh rd ()) segs.flatten).1 := by
  intro h
  have hfit : FitsAll (rtmpDechunkHandler takesAll) (some (RtmpConn.fresh newDechunker ()))
      [repeatedHeader, [0xbb]] := by
    refine ⟨nofun, ?_, trivial⟩
    rintro xs ⟨⟩
    decide
  have hsame := congrArg (List.map fun msg => msg.hdr.timestamp)
    (h takesAll newDechunker [repeatedHeader, [0xbb]] hfit)
  exact absurd hsame (by decide +kernel)

end LibRe.Rtmp
