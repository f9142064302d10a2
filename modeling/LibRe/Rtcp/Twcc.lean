/-
LibRe.Rtcp.Twcc — the status chunks and the deltas of a transport-wide feedback message.

A chunk says for a number of packets whether they were received, and with a delta of one
or of two bytes; `statuses` is what a list of chunks says. `rtcp_rtpfb_twcc_decode` counts
three bytes for the status that is reserved, and compares the size of the deltas with the
bytes left in the buffer, not with the words of the message: `twcc_inWords_iff` says when
what it returns lies in these words, and `deltas_behind_message` is a message whose deltas
are bytes of the next packet.
-/
import LibRe.Rtcp.Sizes

namespace LibRe.Rtcp

open Bytes Reader Read List

/-! ## What the chunks say -/

/-- The status of a packet. -/
inductive Status where
  | notReceived
  | small
  | large
  | reserved
  deriving DecidableEq, Repr

def Status.ofCode : Nat → Status
  | 0 => .notReceived
  | 1 => .small
  | 2 => .large
  | _ => .reserved

/-- A run of one status, or a vector of symbols of two bits or of one. -/
def chunkStatuses (chunk : Nat) : List Status :=
  if chunk / 0x8000 % 2 = 1 then
    if chunk / 0x4000 % 2 = 1 then (range 7).map fun j => .ofCode (chunk / 4 ^ (6 - j) % 4)
    else (range 14).map fun j => .ofCode (chunk / 2 ^ (13 - j) % 2)
  else replicate (chunk % 0x2000) (.ofCode (chunk / 0x2000 % 4))

/-- The statuses of all chunks. -/
def statuses : Bytes → List Status
  | a :: b :: xs => chunkStatuses (ofBe16 [a, b]).toNat ++ statuses xs
  | _ => []

/-- One byte for each small delta, two for each large one. -/
def deltaBytes (packets : List Status) : Nat := packets.count .small + 2 * packets.count .large

/-- The bytes the decoder counts. -/
def Status.counted : Status → Nat
  | .notReceived => 0
  | .small => 1
  | .large => 2
  | .reserved => 3

theorem counted_ofCode {n : Nat} (h : n < 4) : (Status.ofCode n).counted = n := by
  rcases n with _ | _ | _ | _ | n
  all_goals first | rfl | omega

theorem sum_counted (packets : List Status) :
    (packets.map Status.counted).sum = deltaBytes packets + 3 * packets.count .reserved := by
  induction packets with
  | nil => rfl
  | cons status packets ih =>
    simp only [map_cons, sum_cons, ih, deltaBytes, count_cons]
    cases status <;> simp [Status.counted] <;> omega

/-- A chunk is about the packets it has symbols for, as long as there are packets. -/
theorem twccChunk_eq (chunk i : Nat) :
    twccChunk chunk i = (min i (chunkStatuses chunk).length,
      (((chunkStatuses chunk).take i).map Status.counted).sum) := by
  have hcounted : ∀ n, (Status.ofCode (n % 4)).counted = n % 4 := fun n => counted_ofCode (by omega)
  have hcounted' : ∀ n, (Status.ofCode (n % 2)).counted = n % 2 :=
    fun n => counted_ofCode (by omega)
  unfold twccChunk chunkStatuses
  split
  · split <;> simp [← map_take, take_range, hcounted, hcounted', Function.comp_def]
  · simp [take_replicate, hcounted]

/-- The loop over the chunks ends when they have said something about every packet. -/
theorem twccChunks_statuses (fuel : Nat) : ∀ {i sz : Nat} {xs rest : Bytes}, twccChunks fuel i xs =
    .ok (sz, rest) →
    ∃ chunks, xs = chunks ++ rest ∧ statuses xs = statuses chunks ++ statuses rest ∧
      i ≤ (statuses chunks).length ∧
      sz = (((statuses chunks).take i).map Status.counted).sum := by
  induction fuel with
  | zero =>
    rintro (_ | i) sz xs rest h <;> cases h
    exact ⟨[], rfl, rfl, le_refl 0, rfl⟩
  | succ fuel ih =>
    rintro (_ | i) sz xs rest h
    · cases h
      exact ⟨[], rfl, rfl, le_refl 0, rfl⟩
    obtain ⟨chunk, ys, hread, h⟩ := andThen_ok h
    obtain ⟨hle, rfl, rfl⟩ := fields_ok hread
    obtain ⟨others, zs, hothers, h⟩ := andThen_ok h
    cases h
    obtain ⟨chunks, hxs, hall, hdescribed, rfl⟩ := ih hothers
    rcases xs with _ | ⟨a, _ | ⟨b, xs⟩⟩
    · simp at hle
    · simp at hle
    rw [twccChunk_eq] at hdescribed ⊢
    refine ⟨a :: b :: chunks, ?_, ?_, ?_, ?_⟩
    · simpa using hxs
    · simpa [statuses] using hall
    · simp only [statuses, length_append]
      simp only [take_succ_cons, take_zero] at hdescribed
      omega
    · simp only [statuses, take_append, map_append, sum_append, take_succ_cons, take_zero]
      congr 4
      omega

/-! ## What a decoded message refers to -/

/-- The views of the chunks and the deltas lie in the `n` words from which the message
was decoded, the position is behind these words, the chunks are about all packets, and
the deltas have the size the chunks announce. -/
structure Twcc.InWords (n : Nat) (xs rest : Bytes) (v : Twcc) : Prop where
  chunks : v.chunks = (xs.drop 8).take v.chunks.length ∧ 8 + v.chunks.length ≤ n * 4
  deltas : xs.length - v.deltas.left = 8 + v.chunks.length ∧
    8 + v.chunks.length + v.deltas.size ≤ n * 4
  position : n * 4 ≤ xs.length ∧ rest = xs.drop (n * 4)
  described : v.count.toNat ≤ (statuses v.chunks).length
  announced : v.deltas.size = deltaBytes ((statuses v.chunks).take v.count.toNat)

/-- No packet of the message has the reserved status, and the deltas its chunks call for
end inside of its `n` words. -/
def DeltasFit (n : Nat) (xs : Bytes) : Prop :=
  let count := (twccInfo (xs.take 8)).count.toNat
  let asks := twccAsks (xs.drop 8).length count (xs.drop 8)
  .reserved ∉ (statuses (xs.drop 8)).take count ∧ 8 + asks.1 + asks.2 ≤ n * 4

instance (n : Nat) (xs : Bytes) : Decidable (DeltasFit n xs) := inferInstanceAs (Decidable (_ ∧ _))

/-- A feedback message that is accepted lies in its words, with the deltas that its chunks
announce, exactly if none of them is reserved and they fit. -/
theorem twcc_inWords_iff {n : Nat} {xs rest : Bytes} {v : Twcc}
    (h : rtcpRtpfbTwccDecode n xs = .ok (v, rest)) :
    v.InWords n xs rest ↔ DeltasFit n xs := by
  obtain ⟨m, sz, hasks, hm, hn, hsz, rfl, hread, rfl⟩ := twccDecode_ok h
  obtain ⟨chunks, hsplit, hall, hdescribed, rfl⟩ := twccChunks_statuses _ hread
  generalize hcount : (twccInfo (xs.take 8)).count.toNat = count at *
  have hlen : ((xs.drop 8).take m).length = m := by
    rw [length_take, length_drop]
    omega
  obtain rfl : (xs.drop 8).take m = chunks :=
    append_cancel_right ((take_append_drop m _).trans hsplit)
  have hpackets : (statuses (xs.drop 8)).take count =
      (statuses ((xs.drop 8).take m)).take count := by
    rw [hall, take_append_of_le_length hdescribed]
  rw [DeltasFit, hcount, hasks, hpackets]
  have hsum := sum_counted ((statuses ((xs.drop 8).take m)).take count)
  constructor
  · intro hin
    have hannounced := hin.announced
    have hdeltas := hin.deltas.2
    simp only [hcount, hlen] at hannounced hdeltas
    exact ⟨count_eq_zero.mp (by omega), hdeltas⟩
  · rintro ⟨hreserved, hfit⟩
    rw [← count_eq_zero] at hreserved
    refine ⟨?_, ?_, ⟨hn, rfl⟩, ?_, ?_⟩
    · simp only [hlen]
      exact ⟨trivial, hm⟩
    · simp only [hlen]
      exact ⟨by omega, hfit⟩
    · simpa only [hcount] using hdescribed
    · simp only [hcount]
      omega

/-- Two packets with small deltas, in three words. -/
theorem twcc_inWords_two_small :
    Twcc.InWords 3 [0, 1, 0, 2, 0, 0, 1, 7, 0x20, 2, 4, 8] [] ⟨1, 2, 1, 7, [0x20, 2], ⟨2, 2⟩⟩ :=
  (twcc_inWords_iff (by decide)).mpr (by decide)

/-- Four packets with large deltas, of which two bytes are in the message and six behind it. -/
theorem deltas_behind_message :
    ¬ ∀ (n : Nat) (xs rest : Bytes) (v : Twcc), rtcpRtpfbTwccDecode n xs = .ok (v, rest) →
    v.InWords n xs rest := by
  intro h
  have hin := h 3 [0, 1, 0, 4, 0, 0, 1, 7, 0x40, 4, 4, 8, 0x80, 201, 0, 1, 1, 2]
    [0x80, 201, 0, 1, 1, 2] ⟨1, 4, 1, 7, [0x40, 4], ⟨8, 8⟩⟩ (by decide)
  exact absurd hin.deltas.2 (by decide)

end LibRe.Rtcp
