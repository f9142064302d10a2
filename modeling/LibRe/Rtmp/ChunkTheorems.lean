/-
LibRe.Rtmp.ChunkTheorems — messages of several chunk streams, chunk by chunk.

The chunks of any messages arrive in any order in which every chunk stream keeps
its own. After each chunk the dechunker holds, for each chunk stream, the header
and the part of the payload of the message whose chunks it has seen some but not
all of (`StreamInv`); so the last chunk of a message hands on exactly that message
(`interleaved_messages_delivered`).
-/
import LibRe.Rtmp.Chunk

namespace LibRe.Rtmp

open Bytes List Nat

variable {sz c fuel : Nat} {todo : Bytes} {l : List Chunk} {chunk : Chunk} {rd : Dechunker}
  {ids : Finset Nat}

/-! ## What is sent -/

/-- A message for `rtmp_chunker`. The timestamp delta is not sent with format 0. -/
structure OutMsg where
  chunkId : Nat
  timestamp : UInt32
  timestampDelta : UInt32
  typeId : UInt8
  streamId : UInt32
  payload : Bytes
  id_min : 2 ≤ chunkId
  id_max : chunkId ≤ 65599
  nonempty : 1 ≤ payload.length
  short : payload.length < 2 ^ 24
  deriving DecidableEq

/-- The message as the receiver's handler should see it. -/
def OutMsg.message (m : OutMsg) : Message where
  hdr := plainHeader m.chunkId m.timestamp m.payload.length m.typeId m.streamId
  payload := m.payload

/-- The chunks of a message with format 0. -/
def OutMsg.chunks (m : OutMsg) (sz : Nat) : List Bytes :=
  rtmpChunks 0 m.chunkId m.timestamp m.timestampDelta m.typeId m.streamId m.payload sz

/-- A chunk on the wire; the last one of a message is marked with the message. -/
structure SentChunk where
  stream : Nat
  bytes : Bytes
  last : Option OutMsg

variable {s : SentChunk} {wire : List SentChunk}

def markLast (m : OutMsg) : List Bytes → List SentChunk
  | [] => []
  | [b] => [⟨m.chunkId, b, some m⟩]
  | b :: bs => ⟨m.chunkId, b, none⟩ :: markLast m bs

def OutMsg.sent (sz : Nat) (m : OutMsg) : List SentChunk := markLast m (m.chunks sz)

/-- The chunks of the messages in an order in which every chunk stream has its own
chunks in order, message after message. -/
def Interleaves (sz : Nat) (msgs : List OutMsg) (wire : List SentChunk) : Prop :=
  ∀ c, wire.filter (fun s => s.stream = c) =
    (msgs.filter fun m => m.chunkId = c).flatMap (OutMsg.sent sz)

/-- The handler of an application that takes every message. -/
def acceptAll : DechunkHandler Unit := fun s _ => (none, s)

/-! ## The bytes of the chunks -/

theorem extBytes_eq (ts : UInt32) :
    (if tsExt ts ≠ 0 then be32 (tsExt ts) else []) = extBytes ts := by
  rw [extBytes, tsExt]
  by_cases h : ts ≥ timestamp24max
  · have hne : ts ≠ 0 := by
      rintro rfl
      exact absurd h (by decide)
    rw [if_pos h, if_pos hne, if_pos h]
  · rw [if_neg h, if_neg (by decide), if_neg h]

/-- The header of the first chunk. -/
def OutMsg.firstHeader (m : OutMsg) : Bytes :=
  encodeBasicHdr 0 m.chunkId ++
    (fieldBytes (ts24 m.timestamp).toNat m.payload.length m.typeId m.streamId ++
      extBytes m.timestamp)

/-- The header of every other chunk. -/
def OutMsg.nextHeader (m : OutMsg) : Bytes :=
  encodeBasicHdr 3 m.chunkId ++ extBytes m.timestamp

/-- The chunks with format 3 for the rest of the payload. -/
def OutMsg.moreChunks (m : OutMsg) (sz : Nat) : Nat → Bytes → List Bytes
  | 0, _ => []
  | fuel + 1, rest =>
    if rest.length = 0 then []
    else (m.nextHeader ++ rest.take sz) :: m.moreChunks sz fuel (rest.drop sz)

variable {hdr : RtmpHeader}

theorem chunkLoop_eq (m : OutMsg) (sz fuel : Nat) (hfmt : hdr.format = 3)
    (hid : hdr.chunkId = m.chunkId) (hext : hdr.timestampExt = tsExt m.timestamp) :
    ∀ rest, chunkLoop hdr sz fuel rest = m.moreChunks sz fuel rest := by
  have henc : rtmpHeaderEncode hdr = (m.nextHeader, hdr) := by
    have hfields : encodeFields hdr = ([], hdr) := by simp only [encodeFields, hfmt]
    simp only [rtmpHeaderEncode, hfields]
    rw [hext, hid, hfmt, extBytes_eq, append_nil]
    rfl
  induction fuel with
  | zero => intro rest; rfl
  | succ fuel ih =>
    simp [chunkLoop, OutMsg.moreChunks, henc, ih]

theorem OutMsg.chunks_eq (m : OutMsg) (sz : Nat) :
    m.chunks sz = (m.firstHeader ++ m.payload.take sz) ::
      m.moreChunks sz m.payload.length (m.payload.drop sz) := by
  have hext := extBytes_eq m.timestamp
  simp only [OutMsg.chunks, rtmpChunks, rtmpHeaderEncode, encodeFields]
  rw [chunkLoop_eq m sz m.payload.length rfl rfl rfl, hext]
  simp [OutMsg.firstHeader, fieldBytes]

/-- What `rtmp_chunker` sends are these chunks, one behind the other. -/
theorem rtmpChunker_chunks (m : OutMsg) (hsz : 1 ≤ sz) :
    rtmpChunker 0 m.chunkId m.timestamp m.timestampDelta m.typeId m.streamId m.payload sz =
      .ok ((m.sent sz).map SentChunk.bytes).flatten := by
  have hmark : ∀ l : List Bytes, (markLast m l).map SentChunk.bytes = l := by
    intro l
    induction l with
    | nil => rfl
    | cons b bs ih =>
      cases bs with
      | nil => rfl
      | cons b' bs => exact congrArg (b :: ·) ih
  have hne := m.nonempty
  rw [rtmpChunker, if_neg (by omega), OutMsg.sent, hmark]
  rfl

/-! ## Reading one chunk -/

/-- A message of which some chunks have been read. -/
def OutMsg.partly (m : OutMsg) (data : Bytes) (h : data.length ≤ m.payload.length) : Chunk where
  hdr := m.message.hdr
  mb := some ⟨m.payload.length, data, h⟩

variable {old : Chunk} {data : Bytes}

/-- The next part of a payload of which `data` has been read. -/
theorem read_part {payload : Bytes} (hsplit : data ++ todo = payload) (sz : Nat) (rest : Bytes) :
    ∃ (h : data.length ≤ payload.length) (h' : (data ++ todo.take sz).length ≤ payload.length),
      (RxBuf.mk payload.length data h).space = todo.length ∧
      ¬ (todo.take sz ++ rest).length < min todo.length sz ∧
      (RxBuf.mk payload.length data h).read (todo.take sz ++ rest) (min todo.length sz) =
        ⟨payload.length, data ++ todo.take sz, h'⟩ ∧
      (todo.take sz ++ rest).drop (min todo.length sz) = rest := by
  have hlen := congrArg length hsplit
  rw [length_append] at hlen
  have htake : (todo.take sz).length = min todo.length sz := by rw [length_take, min_comm]
  have hspace : payload.length - data.length = todo.length := by omega
  refine ⟨by omega, by rw [length_append]; omega, hspace, by rw [length_append]; omega, ?_,
    drop_left' htake⟩
  rw [RxBuf.read, RxBuf.mk.injEq, RxBuf.space, hspace, ← min_assoc, min_self, take_left' htake]
  exact ⟨rfl, rfl⟩

theorem startMessage_first (m : OutMsg) (sz : Nat) (chunk : Chunk) (rest : Bytes) :
    startMessage sz m.message.hdr chunk (m.payload.take sz ++ rest) =
      (none, m.partly (m.payload.take sz) (length_take_le' _ _), rest) := by
  obtain ⟨h, h', -, hfew, hread, hdrop⟩ := read_part (nil_append m.payload) sz rest
  have halloc : RxBuf.alloc m.payload.length = ⟨m.payload.length, [], h⟩ := by
    have hne := m.nonempty
    rw [RxBuf.alloc, RxBuf.mk.injEq, if_neg (by omega)]
    exact ⟨rfl, rfl⟩
  simp only [startMessage, OutMsg.message, plainHeader, if_true, hfew, if_false, halloc,
    hread, hdrop]
  rfl

theorem continueMessage_next (m : OutMsg) (sz : Nat)
    (hsplit : data ++ todo = m.payload) (rest : Bytes) :
    ∃ (h : data.length ≤ m.payload.length) (h' : (data ++ todo.take sz).length ≤ m.payload.length),
      continueMessage sz (m.partly data h) (extBytes m.timestamp ++ (todo.take sz ++ rest)) =
        (none, m.partly (data ++ todo.take sz) h', rest) := by
  obtain ⟨h, h', hspace, hfew, hread, hdrop⟩ := read_part hsplit sz rest
  refine ⟨h, h', ?_⟩
  have hpayload : continuePayload sz (m.partly data h) (todo.take sz ++ rest) =
      (none, m.partly (data ++ todo.take sz) h', rest) := by
    simp only [continuePayload, openMessage, OutMsg.partly, hspace, hfew, if_false, hread, hdrop]
  rw [continueMessage, extBytes]
  by_cases hext : m.timestamp ≥ timestamp24max
  · have hts : (m.partly data h).hdr.extTs = true := decide_eq_true hext
    have hfour : ¬ (be32 m.timestamp ++ (todo.take sz ++ rest)).length < 4 := by
      simp
    -- the timestamp that comes with every chunk is the one of the header
    rw [if_pos hts, if_pos hext, if_neg hfour, ofBe32_be32_append, drop_left' (length_be32 _)]
    exact hpayload
  · have hts : ¬ (m.partly data h).hdr.extTs = true := by
      rw [show (m.partly data h).hdr.extTs = false from decide_eq_false hext]
      decide
    rw [if_neg hts, if_neg hext]
    exact hpayload

/-! ## The list of chunk streams -/

theorem findChunk_setChunk
    (hold : findChunk l c = some old) (hid : chunk.hdr.chunkId = c) (c' : Nat) :
    findChunk (setChunk l c chunk) c' = if c' = c then some chunk else findChunk l c' := by
  induction l with
  | nil => cases hold
  | cons d l ih =>
    rw [setChunk]
    by_cases hd : d.hdr.chunkId = c
    · rw [if_pos hd]
      by_cases hc : c' = c
      · rw [if_pos hc, findChunk, find?_cons_of_pos (by simp [hid, hc])]
      · rw [if_neg hc, findChunk, findChunk, find?_cons_of_neg (by simp [hid, Ne.symm hc]),
          find?_cons_of_neg (by simp [hd, Ne.symm hc])]
    · rw [if_neg hd]
      by_cases hd' : d.hdr.chunkId = c'
      · simp [findChunk, hd']
        omega
      · simp_all [findChunk]

theorem ids_setChunk (hid : chunk.hdr.chunkId = c) :
    (setChunk l c chunk).map (·.hdr.chunkId) = l.map (·.hdr.chunkId) := by
  induction l with
  | nil => rfl
  | cons d l ih =>
    rw [setChunk]
    by_cases hd : d.hdr.chunkId = c
    · rw [if_pos hd, map_cons, map_cons, hid, hd]
    · rw [if_neg hd, map_cons, map_cons, ih]

theorem findChunk_none_iff : findChunk l c = none ↔ c ∉ l.map (·.hdr.chunkId) := by
  simp [findChunk, find?_eq_none]

theorem findChunk_id (h : findChunk l c = some chunk) : chunk.hdr.chunkId = c := by
  have := find?_some h
  simpa using this

theorem findChunk_concat (h : findChunk l chunk.hdr.chunkId = none) (c : Nat) :
    findChunk (l ++ [chunk]) c = if c = chunk.hdr.chunkId then some chunk else findChunk l c := by
  rw [findChunk, find?_append]
  by_cases hc : c = chunk.hdr.chunkId
  · grind [findChunk]
  · rw [if_neg hc, find?_singleton, if_neg (by simp [Ne.symm hc]), Option.or_none]
    rfl

/-! ## One chunk on the wire -/

/-- The chunk stream behind a chunk: a message that is complete is handed on. -/
def settle (chunk : Chunk) : Chunk :=
  match completed chunk with
  | some _ => { chunk with mb := none }
  | none => chunk

theorem settle_id (chunk : Chunk) : (settle chunk).hdr.chunkId = chunk.hdr.chunkId := by
  rw [settle]
  split <;> rfl

/-- A chunk that is complete: its chunk stream is looked up, changed and written back. -/
theorem receiveChunk_eq {rd₁ : Dechunker} {xs ys zs : Bytes}
    (hdec : rtmpHeaderDecode xs = .ok (hdr, ys)) (hopen : openChunk rd hdr = .ok (rd₁, old))
    (hread : (if hdr.format = 3 then continueMessage rd₁.chunkSz old ys
      else startMessage rd₁.chunkSz hdr old ys) = (none, chunk, zs)) :
    receiveChunk rd xs =
      ⟨none, { rd₁ with chunkl := setChunk rd₁.chunkl hdr.chunkId (settle chunk) }, zs,
        completed chunk⟩ := by
  rw [receiveChunk, hdec]
  simp only [hopen, hread]
  cases hc : completed chunk with
  | none | some _ => simp only [settle, hc]

/-- One chunk stream has changed, or has been added. -/
structure Updated (rd rd' : Dechunker) (c : Nat) (chunk : Chunk) : Prop where
  size : rd'.chunkSz = rd.chunkSz
  found : ∀ c', findChunk rd'.chunkl c' = if c' = c then some chunk else findChunk rd.chunkl c'
  ids : rd'.chunkl.map (·.hdr.chunkId) = rd.chunkl.map (·.hdr.chunkId) ∨
    findChunk rd.chunkl c = none ∧
      rd'.chunkl.map (·.hdr.chunkId) = rd.chunkl.map (·.hdr.chunkId) ++ [c]

theorem updated_found (hold : findChunk rd.chunkl c = some old) (hid : chunk.hdr.chunkId = c) :
    Updated rd { rd with chunkl := setChunk rd.chunkl c chunk } c chunk where
  size := rfl
  found := findChunk_setChunk hold hid
  ids := .inl (ids_setChunk hid)

theorem updated_created {new : Chunk} (hnone : findChunk rd.chunkl new.hdr.chunkId = none)
    (hid : chunk.hdr.chunkId = new.hdr.chunkId) :
    Updated rd { rd with chunkl := setChunk (rd.chunkl ++ [new]) new.hdr.chunkId chunk }
      new.hdr.chunkId chunk where
  size := rfl
  found := by
    intro c'
    have hnew := findChunk_concat hnone new.hdr.chunkId
    rw [if_pos rfl] at hnew
    rw [findChunk_setChunk hnew hid, findChunk_concat hnone]
    by_cases hc : c' = new.hdr.chunkId
    · rw [if_pos hc, if_pos hc]
    · rw [if_neg hc, if_neg hc, if_neg hc]
  ids := by
    simp [ids_setChunk, hnone, hid]

/-- The first chunk of a message, on a chunk stream that may be new. -/
theorem receive_first (m : OutMsg)
    (hroom : findChunk rd.chunkl m.chunkId = none → rd.chunkl.length ≤ maxChunks) (rest : Bytes) :
    ∃ rd', Updated rd rd' m.chunkId
        (settle (m.partly (m.payload.take rd.chunkSz) (length_take_le' _ _))) ∧
      receiveChunk rd (m.firstHeader ++ m.payload.take rd.chunkSz ++ rest) =
        ⟨none, rd', rest, completed (m.partly (m.payload.take rd.chunkSz)
          (length_take_le' _ _))⟩ := by
  have hdec : rtmpHeaderDecode (m.firstHeader ++ m.payload.take rd.chunkSz ++ rest) =
      .ok (m.message.hdr, m.payload.take rd.chunkSz ++ rest) := by
    have h := rtmpHeaderDecode_format0 m.id_min m.id_max m.short m.timestamp m.typeId m.streamId
      (m.payload.take rd.chunkSz ++ rest)
    refine Eq.trans ?_ h
    simp only [OutMsg.firstHeader, append_assoc]
  cases hfind : findChunk rd.chunkl m.chunkId with
  | some old =>
    have hopen : openChunk rd m.message.hdr = .ok (rd, old) := by
      rw [openChunk, show m.message.hdr.chunkId = m.chunkId from rfl, hfind]
    exact ⟨_, updated_found hfind (settle_id _),
      receiveChunk_eq hdec hopen (startMessage_first m rd.chunkSz old rest)⟩
  | none =>
    have hopen : openChunk rd m.message.hdr =
        .ok ({ rd with chunkl := rd.chunkl ++ [{ hdr := m.message.hdr, mb := none }] },
          { hdr := m.message.hdr, mb := none }) := by
      have hfits := hroom hfind
      rw [openChunk, show m.message.hdr.chunkId = m.chunkId from rfl, hfind]
      rw [if_pos (show m.message.hdr.format = 0 from rfl), if_neg (by omega)]
    have hnew : findChunk rd.chunkl (Chunk.mk m.message.hdr none).hdr.chunkId = none := hfind
    exact ⟨_, updated_created hnew (settle_id _),
      receiveChunk_eq hdec hopen (startMessage_first m rd.chunkSz _ rest)⟩

/-- Any other chunk of a message. -/
theorem receive_next (m : OutMsg)
    (hsplit : data ++ todo = m.payload) (hlen : data.length ≤ m.payload.length)
    (hfind : findChunk rd.chunkl m.chunkId = some (m.partly data hlen)) (rest : Bytes) :
    ∃ rd' h', Updated rd rd' m.chunkId (settle (m.partly (data ++ todo.take rd.chunkSz) h')) ∧
      receiveChunk rd (m.nextHeader ++ todo.take rd.chunkSz ++ rest) =
        ⟨none, rd', rest, completed (m.partly (data ++ todo.take rd.chunkSz) h')⟩ := by
  obtain ⟨_, h', hread⟩ := continueMessage_next m rd.chunkSz hsplit rest
  have hdec : rtmpHeaderDecode (m.nextHeader ++ todo.take rd.chunkSz ++ rest) =
      .ok ({ format := 3, chunkId := m.chunkId },
        extBytes m.timestamp ++ (todo.take rd.chunkSz ++ rest)) := by
    simp [rtmpHeaderDecode_format3, OutMsg.id_min, OutMsg.id_max, OutMsg.nextHeader]
  have hopen : openChunk rd { format := 3, chunkId := m.chunkId } =
      .ok (rd, m.partly data hlen) := by
    rw [openChunk, hfind]
  exact ⟨_, h', updated_found hfind (settle_id _), receiveChunk_eq hdec hopen hread⟩

/-! ## What a chunk stream waits for -/

theorem moreChunks_cons (m : OutMsg) (sz : Nat) (hne : todo ≠ []) :
    m.moreChunks sz (fuel + 1) todo =
      (m.nextHeader ++ todo.take sz) :: m.moreChunks sz fuel (todo.drop sz) := by
  rw [OutMsg.moreChunks, if_neg (by simpa using hne)]

theorem moreChunks_nil (m : OutMsg) (sz fuel : Nat) : m.moreChunks sz fuel [] = [] := by
  cases fuel <;> rfl

/-- A chunk is the last one of its message when nothing of the payload is left. -/
theorem markLast_cons (m : OutMsg) (sz : Nat) (hfuel : todo.length ≤ fuel) (b : Bytes) :
    markLast m (b :: m.moreChunks sz fuel todo) =
      ⟨m.chunkId, b, if todo = [] then some m else none⟩ :: markLast m
        (m.moreChunks sz fuel todo) := by
  by_cases htodo : todo = []
  · rw [if_pos htodo, htodo, moreChunks_nil]
    rfl
  · cases fuel with
    | zero => exact absurd (eq_nil_of_length_eq_zero (le_zero.mp hfuel)) htodo
    | succ fuel =>
      rw [if_neg htodo, moreChunks_cons m sz htodo]
      rfl

/-- The chunk stream `c` in front of the chunks that are still to come on it:
either no message is open, or some chunks of `m` have been read. -/
inductive StreamInv (sz c : Nat) : Option Chunk → List SentChunk → Prop where
  | idle {oc : Option Chunk} {later : List OutMsg} (empty : ∀ chunk ∈ oc, chunk.mb = none)
      (stream : ∀ m ∈ later, m.chunkId = c) : StreamInv sz c oc (later.flatMap (OutMsg.sent sz))
  | busy {m : OutMsg} {data todo : Bytes} {fuel : Nat} {later : List OutMsg}
      (id : m.chunkId = c) (split : data ++ todo = m.payload) (len : data.length ≤ m.payload.length)
      (more : todo ≠ []) (enough : todo.length ≤ fuel) (stream : ∀ m' ∈ later, m'.chunkId = c) :
      StreamInv sz c (some (m.partly data len))
        (markLast m (m.moreChunks sz fuel todo) ++ later.flatMap (OutMsg.sent sz))

theorem completed_partly (m : OutMsg) (hsplit : data ++ todo = m.payload)
    (h : data.length ≤ m.payload.length) :
    completed (m.partly data h) = if todo = [] then some m.message else none := by
  have hlen := congrArg length hsplit
  rw [length_append] at hlen
  simp only [completed, OutMsg.partly]
  by_cases htodo : todo = []
  · rw [htodo, append_nil] at hsplit
    rw [if_pos htodo, if_pos (by rw [hsplit]), hsplit]
    rfl
  · have hpos := length_pos_iff.mpr htodo
    rw [if_neg htodo, if_neg (by omega)]

variable {m : OutMsg}

/-- The chunk stream behind a chunk of `m`, with `todo` still to come. -/
theorem StreamInv.settled
    {later : List OutMsg} (split : data ++ todo = m.payload) (len : data.length ≤ m.payload.length)
    (enough : todo.length ≤ fuel) (stream : ∀ m' ∈ later, m'.chunkId = m.chunkId) :
    StreamInv sz m.chunkId (some (settle (m.partly data len)))
      (markLast m (m.moreChunks sz fuel todo) ++ later.flatMap (OutMsg.sent sz)) := by
  have hc := completed_partly m split len
  rw [settle, hc]
  by_cases htodo : todo = []
  · rw [if_pos htodo, htodo, moreChunks_nil]
    refine .idle ?_ stream
    rintro chunk ⟨⟩
    rfl
  · rw [if_neg htodo]
    exact .busy rfl split len htodo enough stream

/-- The next chunk of a chunk stream is read, and the chunk stream goes on. -/
theorem StreamInv.receive {rem : List SentChunk}
    (hroom : findChunk rd.chunkl s.stream = none → rd.chunkl.length ≤ maxChunks)
    (hsz : 1 ≤ rd.chunkSz)
    (h : StreamInv rd.chunkSz s.stream (findChunk rd.chunkl s.stream) (s :: rem)) (rest : Bytes) :
    ∃ rd' chunk, Updated rd rd' s.stream chunk ∧ StreamInv rd.chunkSz s.stream (some chunk) rem ∧
      s.bytes ≠ [] ∧
      receiveChunk rd (s.bytes ++ rest) = ⟨none, rd', rest, s.last.map OutMsg.message⟩ := by
  generalize hoc : findChunk rd.chunkl s.stream = oc at h
  generalize hrem : s :: rem = l at h
  cases h with
  | @idle _ later hempty hstream =>
    cases later with
    | nil => cases hrem
    | cons m later =>
      have hid : m.chunkId = s.stream := hstream m (mem_cons_self)
      have hdrop : (m.payload.drop rd.chunkSz).length ≤ m.payload.length := by
        simp
      rw [flatMap_cons, OutMsg.sent, OutMsg.chunks_eq, markLast_cons m _ hdrop, cons_append] at hrem
      injection hrem with hs hrest
      rw [hid.symm] at hroom
      obtain ⟨rd', hup, hrecv⟩ := receive_first m hroom rest
      rw [completed_partly m (take_append_drop rd.chunkSz m.payload)] at hrecv
      rw [hs]
      refine ⟨rd', _, hup, ?_, ?_, ?_⟩
      · rw [hrest]
        exact .settled (take_append_drop rd.chunkSz m.payload) _ hdrop
          (fun m' hm' => (hstream m' (mem_cons_of_mem _ hm')).trans hid.symm)
      · simp only [OutMsg.firstHeader, encodeBasicHdr]
        split <;> [skip; split] <;> simp
      · grind
  | @busy m data todo fuel later hid hsplit hlen hmore henough hstream =>
    cases fuel with
    | zero => exact absurd (eq_nil_of_length_eq_zero (le_zero.mp henough)) hmore
    | succ fuel =>
      have hpos := length_pos_iff.mpr hmore
      have hdrop : (todo.drop rd.chunkSz).length ≤ fuel := by
        simp
        omega
      have hsplit' : data ++ todo.take rd.chunkSz ++ todo.drop rd.chunkSz = m.payload := by
        rw [append_assoc, take_append_drop, hsplit]
      rw [moreChunks_cons m _ hmore, markLast_cons m _ hdrop, cons_append] at hrem
      injection hrem with hs hrest
      rw [← hid] at hoc
      obtain ⟨rd', h', hup, hrecv⟩ := receive_next m hsplit hlen hoc rest
      rw [completed_partly m hsplit'] at hrecv
      rw [hs]
      refine ⟨rd', _, hup, ?_, ?_, ?_⟩
      · rw [hrest]
        exact .settled hsplit' h' hdrop (fun m' hm' => (hstream m' hm').trans hid.symm)
      · grind
      · grind

/-! ## The whole wire -/

/-- The dechunker in front of the chunks that are still to come, on chunk streams
of a given set. -/
structure WireInv (ids : Finset Nat) (rd : Dechunker) (wire : List SentChunk) : Prop where
  streams : ∀ c, StreamInv rd.chunkSz c (findChunk rd.chunkl c) (wire.filter fun s => s.stream = c)
  nodup : (rd.chunkl.map (·.hdr.chunkId)).Nodup
  known : ∀ c ∈ rd.chunkl.map (·.hdr.chunkId), c ∈ ids
  coming : ∀ s ∈ wire, s.stream ∈ ids

/-- There is room for a chunk stream that is not there yet. -/
theorem WireInv.room (h : WireInv ids rd wire) (hids : ids.card ≤ maxChunks) (hc : c ∈ ids)
    (hnone : findChunk rd.chunkl c = none) : rd.chunkl.length ≤ maxChunks := by
  have hnodup : (c :: rd.chunkl.map (·.hdr.chunkId)).Nodup :=
    nodup_cons.mpr ⟨findChunk_none_iff.mp hnone, h.nodup⟩
  have hsub : (c :: rd.chunkl.map (·.hdr.chunkId)).toFinset ⊆ ids := by
    intro x hx
    rcases mem_cons.mp (mem_toFinset.mp hx) with rfl | hx
    · exact hc
    · exact h.known x hx
  have hcard := Finset.card_le_card hsub
  rw [toFinset_card_of_nodup hnodup, length_cons, length_map] at hcard
  omega

/-- Reading one chunk of the wire. -/
theorem WireInv.receive
    (h : WireInv ids rd (s :: wire)) (hids : ids.card ≤ maxChunks) (hsz : 1 ≤ rd.chunkSz)
    (rest : Bytes) :
    ∃ rd', WireInv ids rd' wire ∧ rd'.chunkSz = rd.chunkSz ∧ s.bytes ≠ [] ∧
      receiveChunk rd (s.bytes ++ rest) = ⟨none, rd', rest, s.last.map OutMsg.message⟩ := by
  have hmem : s.stream ∈ ids := h.coming s (mem_cons_self)
  have hstream := h.streams s.stream
  rw [filter_cons_of_pos (by simp)] at hstream
  obtain ⟨rd', chunk, hup, hnext, hne, hrecv⟩ :=
    hstream.receive (fun hnone => h.room hids hmem hnone) hsz rest
  refine ⟨rd', ⟨fun c => ?_, ?_, ?_, fun x hx => h.coming x (mem_cons_of_mem _ hx)⟩, hup.size,
    hne, hrecv⟩
  · rw [hup.size, hup.found]
    by_cases hc : c = s.stream
    · simp [hc, hnext]
    · have hother := h.streams c
      rw [filter_cons_of_neg (by simpa using Ne.symm hc)] at hother
      rw [if_neg hc]
      exact hother
  · rcases hup.ids with hids' | ⟨hnone, hids'⟩
    · grind [nodup]
    rw [hids', nodup_append]
    refine ⟨h.nodup, by simp, ?_⟩
    intro a ha b hb
    rw [mem_singleton] at hb
    rintro rfl
    exact findChunk_none_iff.mp hnone (hb ▸ ha)
  · intro c hc
    rcases hup.ids with hids' | ⟨hnone, hids'⟩
    · grind [known]
    · rw [hids', mem_append, mem_singleton] at hc
      rcases hc with hc | rfl
      · exact h.known c hc
      · exact hmem

/-- Reading all of it, chunk by chunk. -/
theorem receiveLoop_wire (hids : ids.card ≤ maxChunks) (wire : List SentChunk) :
    ∀ (rd : Dechunker) (fuel : Nat), WireInv ids rd wire → 1 ≤ rd.chunkSz →
      (wire.map SentChunk.bytes).flatten.length < fuel →
      ∃ s, receiveLoop acceptAll fuel (rd, ()) (wire.map SentChunk.bytes).flatten =
        ((wire.filterMap SentChunk.last).map OutMsg.message, none, s, []) := by
  induction wire with
  | nil =>
    intro rd fuel _ _ hfuel
    cases fuel with
    | zero => exact absurd hfuel (not_lt_zero _)
    | succ fuel => exact ⟨(rd, ()), rfl⟩
  | cons s wire ih =>
    intro rd fuel h hsz hfuel
    obtain ⟨rd', hnext, hsz', hne, hrecv⟩ :=
      h.receive hids hsz (wire.map SentChunk.bytes).flatten
    rw [map_cons, flatten_cons] at hfuel ⊢
    have hpos := length_pos_iff.mpr hne
    rw [length_append] at hfuel
    cases fuel with
    | zero => exact absurd hfuel (not_lt_zero _)
    | succ fuel =>
      obtain ⟨st, hrest⟩ := ih rd' fuel hnext (by omega) (by omega)
      rw [receiveLoop, if_neg (by rw [length_append]; omega), rtmpDechunkerReceive, hrecv]
      cases hlast : s.last with
      | none =>
        simp [hrest, hlast]
      | some m =>
        simp [acceptAll, hrest, hlast]

/-! ## Every message once -/

theorem markLast_stream :
    ∀ {l : List Bytes}, s ∈ markLast m l → s.stream = m.chunkId ∧ ∀ m' ∈ s.last, m' = m := by
  intro l
  induction l with
  | nil => intro h; cases h
  | cons b bs ih =>
    intro h
    cases bs with
    | nil =>
      rw [markLast, mem_singleton] at h
      subst h
      refine ⟨rfl, ?_⟩
      rintro m' ⟨⟩
      rfl
    | cons b' bs =>
      rcases mem_cons.mp (show s ∈ ⟨m.chunkId, b, none⟩ :: markLast m (b' :: bs) from h)
        with rfl | h
      · exact ⟨rfl, nofun⟩
      · exact ih h

theorem markLast_last (m : OutMsg) (b : Bytes) (bs : List Bytes) :
    (markLast m (b :: bs)).filterMap SentChunk.last = [m] := by
  induction bs generalizing b with
  | nil => rfl
  | cons b' bs ih => exact ih b'

theorem sent_last (sz : Nat) (m : OutMsg) : (m.sent sz).filterMap SentChunk.last = [m] := by
  simp [OutMsg.chunks_eq, markLast_last, OutMsg.sent]

variable {msgs : List OutMsg}

/-- Every chunk on the wire belongs to a message of its chunk stream. -/
theorem Interleaves.origin (h : Interleaves sz msgs wire) (hs : s ∈ wire) :
    ∃ m ∈ msgs, m.chunkId = s.stream ∧ s ∈ m.sent sz := by
  have hmem : s ∈ wire.filter fun x => x.stream = s.stream :=
    mem_filter.mpr ⟨hs, by simp⟩
  rw [h s.stream, mem_flatMap] at hmem
  obtain ⟨m, hm, hsent⟩ := hmem
  obtain ⟨hm, hid⟩ := mem_filter.mp hm
  exact ⟨m, hm, by simpa using hid, hsent⟩

theorem filterMap_last_filter (h : ∀ s ∈ wire, ∀ m ∈ s.last, m.chunkId = s.stream) (c : Nat) :
    (wire.filterMap SentChunk.last).filter (fun m => m.chunkId = c) =
      (wire.filter fun s => s.stream = c).filterMap SentChunk.last := by
  rw [filter_filterMap, filterMap_filter]
  refine filterMap_congr fun s hs => ?_
  cases hlast : s.last with
  | none => simp
  | some m => simp [Option.filter, h s hs m hlast]

/-- The last chunks on the wire are those of the messages, each once. -/
theorem Interleaves.perm
    (h : Interleaves sz msgs wire) : (wire.filterMap SentChunk.last).Perm msgs := by
  have hstream : ∀ s ∈ wire, ∀ m ∈ s.last, m.chunkId = s.stream := by
    intro s hs m hm
    obtain ⟨m₀, -, hid, hsent⟩ := h.origin hs
    rw [(markLast_stream hsent).2 m hm, hid]
  have hone : ∀ l : List OutMsg, (l.flatMap (OutMsg.sent sz)).filterMap SentChunk.last = l := by
    intro l
    induction l with
    | nil => rfl
    | cons m l ih => rw [flatMap_cons, filterMap_append, sent_last, ih]; rfl
  rw [perm_iff_count]
  intro m
  have hcount : ∀ l : List OutMsg, l.count m = (l.filter fun x => x.chunkId = m.chunkId).count m :=
    fun l => (count_filter (by simp)).symm
  rw [hcount, filterMap_last_filter hstream, h m.chunkId, hone, ← hcount]

/-- Messages on at most 64 chunk streams, their chunks in any order that keeps each
chunk stream's own: the dechunker hands on every message once, when its last chunk
arrives, with its header and its payload, and nothing is left over. -/
theorem interleaved_messages_delivered (msgs : List OutMsg) (sz : Nat) (wire : List SentChunk)
    (hids : (msgs.map OutMsg.chunkId).toFinset.card ≤ 64) (hsz : 1 ≤ sz)
    (hwire : Interleaves sz msgs wire) :
    (∃ s, receiveAll acceptAll (⟨[], sz⟩, ()) (wire.map SentChunk.bytes).flatten =
        ((wire.filterMap SentChunk.last).map OutMsg.message, none, s, [])) ∧
      (wire.filterMap SentChunk.last).Perm msgs ∧
      ∀ m ∈ msgs, rtmpChunker 0 m.chunkId m.timestamp m.timestampDelta m.typeId m.streamId
        m.payload sz = .ok ((m.sent sz).map SentChunk.bytes).flatten := by
  refine ⟨?_, hwire.perm, fun m _ => rtmpChunker_chunks m hsz⟩
  have hinv : WireInv (msgs.map OutMsg.chunkId).toFinset ⟨[], sz⟩ wire := by
    refine ⟨fun c => ?_, nodup_nil, nofun, fun s hs => ?_⟩
    · rw [hwire c]
      exact .idle nofun fun m hm => by simpa using (mem_filter.mp hm).2
    · obtain ⟨m, hm, hid, -⟩ := hwire.origin hs
      exact mem_toFinset.mpr (mem_map.mpr ⟨m, hm, hid⟩)
  exact receiveLoop_wire hids wire _ _ hinv hsz (lt_succ_self _)

/-- A short timestamp on a chunk stream with an id of one byte. -/
def soundMsg : OutMsg where
  chunkId := 4
  timestamp := 20
  timestampDelta := 0
  typeId := 8
  streamId := 1
  payload := [1, 2, 3]
  id_min := by decide
  id_max := by decide
  nonempty := by decide
  short := by decide

/-- An extended timestamp on a chunk stream with an id of two bytes. -/
def pictureMsg : OutMsg where
  chunkId := 70
  timestamp := 0x1000000
  timestampDelta := 0
  typeId := 9
  streamId := 1
  payload := [4, 5, 6, 7]
  id_min := by decide
  id_max := by decide
  nonempty := by decide
  short := by decide

theorem interleaved_messages_delivered_sample :
    Interleaves 2 [soundMsg, pictureMsg]
        (((soundMsg.sent 2).zip (pictureMsg.sent 2)).flatMap fun p => [p.1, p.2]) ∧
      ∃ s, receiveAll acceptAll (⟨[], 2⟩, ())
          ((((soundMsg.sent 2).zip (pictureMsg.sent 2)).flatMap fun p => [p.1, p.2]).map
            SentChunk.bytes).flatten =
        ([soundMsg.message, pictureMsg.message], none, s, []) := by
  have hwire : Interleaves 2 [soundMsg, pictureMsg]
      (((soundMsg.sent 2).zip (pictureMsg.sent 2)).flatMap fun p => [p.1, p.2]) := by
    intro c
    by_cases h4 : c = 4
    · subst h4
      rfl
    by_cases h70 : c = 70
    · subst h70
      rfl
    · simp [OutMsg.sent, OutMsg.chunks, rtmpChunks, chunkLoop, markLast, soundMsg, pictureMsg,
        Ne.symm h4, Ne.symm h70]
  exact ⟨hwire, (interleaved_messages_delivered _ 2 _ (by decide) (by decide) hwire).1⟩

end LibRe.Rtmp
