/-
LibRe.Rtcp.Sizes — how many bytes `rtcp_decode` takes.

`rtcp_decode` checks that the words the length field announces are there, and then
reads what the type, the count and the lengths inside of the packet ask for. That is
`fieldsSize`; `rest_eq_drop_iff` says that the decoder stops at the boundary exactly if
it is, with the padding, what the length field announces.
-/
import LibRe.Rtcp.Packet

namespace LibRe.Rtcp

open Bytes Reader Read List

/-! ## How much the fields of a packet take -/

variable (hdr : RtcpHdr) (n : Nat)

/-- The next multiple of four. -/
def roundUp : Nat := (n + 3) / 4 * 4

/-- The items of a source description: up to the end mark, or to the end of the buffer. -/
def sdesItemsSize : Nat → Bytes → Nat
  | 0, _ => 0
  | fuel + 1, xs =>
    if xs.length < 1 then 0
    else if xs.headD 0 = sdesEnd then 1
    else
      2 + ((xs.drop 1).headD 0).toNat +
        sdesItemsSize fuel (xs.drop (2 + ((xs.drop 1).headD 0).toNat))

/-- A source description, which is padded. -/
def sdesSize (xs : Bytes) : Nat :=
  min (roundUp (4 + sdesItemsSize xs.length (xs.drop 4))) xs.length

/-- The sources of a goodbye, and the reason if there is more than that. -/
def byeSize (count rem : Nat) (xs : Bytes) : Nat :=
  if rem > 4 * count then 4 * count + 1 + ((xs.drop (4 * count)).headD 0).toNat else 4 * count

/-- The block of an extended report; of one that is cut short by the end of the buffer,
what is there in whole fields. -/
def xrSize (xs : Bytes) : Nat :=
  if xs.length < 8 then min xs.length 6
  else if (xs.drop 4).headD 0 = xrRrtr then 8 + 4 * min 2 ((xs.length - 8) / 4)
  else if (xs.drop 4).headD 0 = xrDlrr then 8 + 4 * min 3 ((xs.length - 8) / 4)
  else 8

/-- The bytes that the type and the count of a packet, and the lengths inside of it, ask
for behind its header. Where they are not derived from the length field, nothing but the
sender keeps them equal to it. -/
def fieldsSize : Bytes → Nat :=
  match rtcpType hdr.pt with
  | some .SR => fun _ => 24 + hdr.count * 24
  | some .RR => fun _ => 4 + hdr.count * 24
  | some .SDES => timesSize sdesSize hdr.count
  | some .BYE => byeSize hdr.count (4 * hdr.length)
  | some .APP => fun _ => max (4 * hdr.length) 8
  | some .FIR => fun _ => 4
  | some .NACK => fun _ => 8
  | some .RTPFB => fun _ =>
    if hdr.count = rtpfbGnack ∨ hdr.count = rtpfbTwcc then 4 * hdr.length else 8
  | some .PSFB => fun _ =>
    if hdr.count = psfbSli ∨ hdr.count = psfbAfb then 4 * hdr.length
    else if hdr.count = psfbFir then 8 + (hdr.length - 2) / 2 * 8
    else 8
  | some .XR => xrSize
  | _ => fun _ => 4 * hdr.length

theorem sized_sdesItems (fuel : Nat) : ∀ xs, Sized False (sdesItems fuel) xs
    (sdesItemsSize fuel xs) := by
  induction fuel with
  | zero => exact fun _ => sized_give
  | succ fuel ih =>
    intro xs
    rw [sdesItemsSize]
    by_cases hempty : xs.length < 1
    · rw [if_pos hempty]
      exact (sized_give (a := [])).of_eq fun ys hys => if_pos (by omega)
    rw [if_neg hempty]
    refine Sized.of_eq (r := andThen readU8 (sdesItem (sdesItems fuel))) ?_ fun ys hys =>
      if_neg (by omega)
    have hsize : (if xs.headD 0 = sdesEnd then 1 else 2 + ((xs.drop 1).headD 0).toNat +
        sdesItemsSize fuel (xs.drop (2 + ((xs.drop 1).headD 0).toNat))) =
          1 + (if xs.headD 0 = sdesEnd then 0 else
        1 + (((xs.drop 1).headD 0).toNat +
          (sdesItemsSize fuel (xs.drop (2 + ((xs.drop 1).headD 0).toNat)) + 0))) := by
      split <;> omega
    rw [hsize]
    refine (sized_fieldsOr (by omega)).andThen fun type htype => ?_
    rw [← readU8, readU8_eq (by omega)] at htype
    cases htype
    rw [sdesItem]
    split
    · exact sized_give
    refine .need fun hone => (sized_fieldsOr hone).andThen fun length hlength => ?_
    rw [← readU8, readU8_eq hone] at hlength
    cases hlength
    refine sized_fields.andThen fun data _ => ?_
    rw [drop_drop, drop_drop, ← add_assoc]
    exact (ih _).andThen fun _ _ => sized_give

theorem sized_rtcpSdesDecode (xs : Bytes) : Sized False rtcpSdesDecode xs (sdesSize xs) := by
  have hparts : Sized False (sdesDecodeFrom xs.length) xs _ := sized_fields.andThen fun _ _ =>
    (sized_sdesItems _ _).andThen fun _ _ =>
      (sized_slurp (by simp only [length_drop]; omega)).andThen fun _ _ => sized_give
  refine sized_byLength (hparts.congr fun _ _ _ hle => ?_)
  simp only [sdesSize, roundUp, length_drop] at hle ⊢
  omega

variable {xs : Bytes}

theorem sized_byeDecode {count rem : Nat} (hrem : rem ≤ xs.length) :
    Sized False (byeDecode count rem) xs (byeSize count rem xs) := by
  refine .need fun _ => ?_
  have hsize : byeSize count rem xs = timesSize (fun _ => 4) count xs +
      if rem > 4 * count then 1 + (((xs.drop (count * 4)).headD 0).toNat + 0) else 0 := by
    rw [byeSize, timesSize_const, mul_comm]
    split <;> omega
  rw [hsize]
  refine (Sized.times (fun _ => sized_fields) count xs).andThen fun srcv _ => ?_
  rw [timesSize_const]
  split
  · have hone : 1 ≤ (xs.drop (count * 4)).length := by
      rw [length_drop]
      omega
    refine (sized_fieldsOr hone).andThen fun len hlen => ?_
    rw [← readU8, readU8_eq hone] at hlen
    cases hlen
    exact sized_fields.andThen fun _ _ => sized_give
  · exact sized_give

theorem sized_appDecode (rem : Nat) (xs : Bytes) : Sized False (appDecode rem) xs (max rem 8) := by
  have hsize : max rem 8 = 8 + if rem > 8 then rem - 8 + 0 else 0 := by
    split <;> omega
  rw [hsize]
  refine sized_fields.andThen fun _ _ => ?_
  simp only
  split
  · exact sized_fields.andThen fun _ _ => sized_give
  · exact sized_give

theorem sized_xrDecode (xs : Bytes) : Sized False xrDecode xs (xrSize xs) := by
  by_cases hshort : xs.length < 8
  · -- without a block length there is no block to read
    have hparts : Sized False xrDecode xs _ := sized_fields.andThen fun _ _ =>
      sized_fieldsOr_if.andThen fun bt _ =>
      sized_fieldsOr_if.andThen fun _ _ => sized_fieldsOr_if.andThen (k := 0)
        fun blockLen hblock => by
        rw [fieldsOr_of_lt (by simp only [length_drop]; split_ifs <;> omega)] at hblock
        obtain rfl := (Prod.mk.inj (Except.ok.inj hblock)).1
        exact sized_ite (fun _ => sized_ite (fun _ => sized_fail) fun h => absurd (by decide) h)
          fun _ =>
          sized_ite (fun _ => sized_ite (fun _ => sized_fail) fun h => absurd (by decide) h)
            fun _ => sized_give
    refine hparts.congr fun _ _ _ hle => ?_
    simp only [xrSize, if_pos hshort, length_drop] at hle ⊢
    split_ifs at hle ⊢ <;> omega
  · have hsize : xrSize xs = 4 +
        (1 + (1 + (2 + if (xs.drop 4).headD 0 = xrRrtr then 4 * min 2 ((xs.length - 8) / 4)
        else if (xs.drop 4).headD 0 = xrDlrr then 4 * min 3 ((xs.length - 8) / 4) else 0))) := by
      rw [xrSize, if_neg hshort]
      split_ifs <;> omega
    rw [hsize]
    refine sized_fields.andThen fun _ _ => (sized_fieldsOr (by rw [length_drop]; omega)).andThen
      fun bt hbt =>
      (sized_fieldsOr (by simp only [length_drop]; omega)).andThen fun _ _ =>
        (sized_fieldsOr (by simp only [length_drop]; omega)).andThen fun _ _ => ?_
    rw [← readU8, readU8_eq (by rw [length_drop]; omega)] at hbt
    cases hbt
    split
    · split
      · exact sized_fail
      · refine (sized_fieldsOr_if.andThen fun _ _ => sized_fieldsOr_if.andThen fun _ _ =>
          sized_give).congr ?_
        simp only [length_drop]
        intros
        split_ifs <;> omega
    · split
      · split
        · exact sized_fail
        refine (sized_fieldsOr_if.andThen fun _ _ => sized_fieldsOr_if.andThen fun _ _ =>
          sized_fieldsOr_if.andThen fun _ _ => sized_give).congr ?_
        simp only [length_drop]
        intros
        split_ifs <;> omega
      · exact sized_give

/-- The bytes of the status chunks for `i` packets, and those of the deltas the chunks
call for. -/
def twccAsks : Nat → Nat → Bytes → Nat × Nat
  | _, 0, _ => (0, 0)
  | 0, _ + 1, _ => (0, 0)
  | fuel + 1, i + 1, xs =>
    let chunk := twccChunk (ofBe16 (xs.take 2)).toNat (i + 1)
    let asks := twccAsks fuel (i + 1 - chunk.1) (xs.drop 2)
    (2 + asks.1, chunk.2 + asks.2)

theorem sized_twccChunks (fuel : Nat) : ∀ i xs, Sized False (twccChunks fuel i) xs
    (twccAsks fuel i xs).1 := by
  induction fuel with
  | zero =>
    rintro (_ | i) xs
    · exact sized_give
    · exact sized_fail
  | succ fuel ih =>
    rintro (_ | i) xs
    · exact sized_give
    · refine sized_fields.andThen fun chunk hchunk => ?_
      obtain ⟨-, rfl, -⟩ := fields_ok hchunk
      exact (ih _ _).andThen fun _ _ => sized_give

theorem twccChunks_asks (fuel : Nat) : ∀ {i sz : Nat} {xs rest : Bytes},
    twccChunks fuel i xs = .ok (sz, rest) → (twccAsks fuel i xs).2 = sz := by
  induction fuel with
  | zero =>
    rintro (_ | i) sz xs rest h <;> cases h
    rfl
  | succ fuel ih =>
    rintro (_ | i) sz xs rest h
    · cases h
      rfl
    obtain ⟨chunk, ys, hread, h⟩ := andThen_ok h
    obtain ⟨-, rfl, rfl⟩ := fields_ok hread
    obtain ⟨others, zs, hothers, h⟩ := andThen_ok h
    cases h
    rw [twccAsks, ih hothers]

/-- What a transport-wide feedback message was decoded from. -/
theorem twccDecode_ok {n : Nat} {v : Twcc} {rest : Bytes}
    (h : rtcpRtpfbTwccDecode n xs = .ok (v, rest)) :
    ∃ m sz, twccAsks (xs.drop 8).length (twccInfo (xs.take 8)).count.toNat (xs.drop 8) = (m, sz) ∧
      8 + m ≤ n * 4 ∧ n * 4 ≤ xs.length ∧
      8 + m + sz ≤ xs.length ∧ rest = xs.drop (n * 4) ∧
      twccChunks (xs.drop 8).length (twccInfo (xs.take 8)).count.toNat (xs.drop 8) =
        .ok (sz, (xs.drop 8).drop m) ∧
      v = { twccInfo (xs.take 8) with chunks := (xs.drop 8).take m,
                                      deltas := ⟨xs.length - 8 - m, sz⟩ } := by
  obtain ⟨info, ys, hinfo, h⟩ := andThen_ok h
  obtain ⟨hle, rfl, rfl⟩ := fields_ok hinfo
  split at h
  · cases h
  obtain ⟨⟨chunks, sz⟩, zs, hchunks, h⟩ := andThen_ok h
  obtain ⟨hread, rfl⟩ := consumed_ok hchunks
  have hsum := twccChunks_asks _ hread
  obtain ⟨rfl, hm, -⟩ := sized_twccChunks _ _ _ _ _ hread
  generalize twccAsks _ _ _ = asks at hsum hm h hread
  rw [length_drop] at hm
  simp only [twccDeltas, length_take, length_drop, drop_drop] at h
  have hchunks : xs.length - 8 - (xs.length - (8 + asks.1)) = asks.1 := by omega
  split_ifs at h
  cases h
  exact ⟨asks.1, sz, Prod.ext rfl hsum, by omega, by omega, by omega, by congr 1; omega,
    hread, by simp [hchunks]; omega⟩

theorem sized_twccDeltas (info : Twcc) (chunks : Bytes) (sz : Nat) (zs : Bytes) :
    Sized False (twccDeltas n info chunks sz) zs (n * 4 - 8 - chunks.length) := by
  refine Sized.of_eq (r := if zs.length < sz then fail .EBADMSG else if n * 4 < 8 +
    chunks.length then fail .EBADMSG
    else fields .EBADMSG (n * 4 - 8 - chunks.length) fun _ =>
      { info with chunks, deltas := ⟨zs.length, sz⟩ })
    (sized_ite (fun _ => sized_fail) fun _ => sized_ite (fun _ => sized_fail) fun _ => sized_fields)
      fun ys hys => ?_
  rw [twccDeltas, hys]
  split_ifs <;> simp_all [fail, fields]

theorem sized_rtcpRtpfbTwccDecode (xs : Bytes) :
    Sized False (rtcpRtpfbTwccDecode n) xs (n * 4) := by
  generalize hasks : twccAsks (xs.drop 8).length (twccInfo (xs.take 8)).count.toNat (xs.drop 8) =
    asks
  have hparts : Sized False (rtcpRtpfbTwccDecode n) xs (8 + (asks.1 + (n * 4 - 8 - asks.1))) := by
    refine sized_fields.andThen fun info hinfo => sized_ite (fun _ => sized_fail) fun _ => ?_
    obtain ⟨-, rfl, -⟩ := fields_ok hinfo
    have hchunks : Sized False (byLength fun left =>
        twccChunks left (twccInfo (xs.take 8)).count.toNat) (xs.drop 8) asks.1 :=
      sized_byLength (hasks ▸ sized_twccChunks _ _ _)
    refine hchunks.consumed.andThen fun ⟨chunks, sz⟩ hr => ?_
    obtain ⟨hread, hchunksEq⟩ := consumed_ok hr
    obtain ⟨-, hm, -⟩ := hchunks _ _ hread
    have hlen : chunks.length = asks.1 := by
      rw [hchunksEq]
      simp only [length_take, length_drop] at hm ⊢
      omega
    rw [← hlen]
    exact sized_twccDeltas n _ chunks sz _
  refine hparts.congr fun v rest h _ => ?_
  obtain ⟨m, sz, hasks', hm, -⟩ := twccDecode_ok h
  rw [hasks] at hasks'
  subst hasks'
  omega

/-- Entries of one size. -/
theorem sized_entries {α β : Type} {r : Reader UInt8 Errno α} {k : Nat}
    (h : ∀ xs, Sized False r xs k) (n m : Nat) (f : List α → β)
    (xs : Bytes) : Sized False (need .EBADMSG m (andThen (times n r) fun v => give (f v))) xs
      (n * k) := by
  have htimes := Sized.times h n xs
  rw [timesSize_const] at htimes
  exact .need fun _ => htimes.andThen fun _ _ => sized_give

theorem sized_rtcpRtpfbDecode (xs : Bytes) : Sized False (rtcpRtpfbDecode hdr n) xs
    (if hdr.count = rtpfbGnack ∨ hdr.count = rtpfbTwcc then n * 4 else 0) := by
  unfold rtcpRtpfbDecode gnackEntry
  split
  · rw [if_pos (Or.inl ‹_›)]
    exact sized_entries (fun _ => sized_fields) n _ _ xs
  split
  · rw [if_pos (Or.inr ‹_›)]
    exact .need fun _ => (sized_rtcpRtpfbTwccDecode n xs).andThen fun _ _ => sized_give
  · rw [if_neg (by rintro (h | h) <;> contradiction)]
    exact sized_give

theorem sized_rtcpPsfbDecode (xs : Bytes) : Sized False (rtcpPsfbDecode hdr n) xs
    (if hdr.count = psfbSli ∨ hdr.count = psfbAfb then n * 4 else if hdr.count =
      psfbFir then n / 2 * 8 else 0) := by
  unfold rtcpPsfbDecode sliEntry firEntry
  by_cases hcount : hdr.count = psfbPli
  · rw [if_pos hcount, hcount]
    exact sized_give
  rw [if_neg hcount]
  by_cases hcount : hdr.count = psfbSli
  · rw [if_pos hcount, if_pos (Or.inl hcount)]
    exact sized_entries (fun _ => sized_fields) n _ _ xs
  rw [if_neg hcount]
  by_cases hcount' : hdr.count = psfbAfb
  · rw [if_pos hcount', if_pos (Or.inr hcount')]
    exact sized_fields.andThen fun _ _ => sized_give
  rw [if_neg hcount', if_neg (not_or.mpr ⟨hcount, hcount'⟩)]
  split
  · exact sized_entries (fun _ => sized_fields) (n / 2) _ _ xs
  · exact sized_give

/-- The decoder takes what the fields ask for, not what the length field says. -/
theorem sized_bodyDecode (hlen : 4 * hdr.length ≤ xs.length) :
    Sized False (bodyDecode hdr) xs (fieldsSize hdr xs) := by
  have hrrs : ∀ xs, Sized False (times hdr.count rtcpRrDecode) xs
      (timesSize (fun _ => 24) hdr.count xs) :=
    Sized.times (fun _ => by rw [rtcpRrDecode]; exact sized_fields) hdr.count
  simp only [timesSize_const] at hrrs
  have hunknown : Sized False (andThen (checked (4 * hdr.length) fun _ => ()) fun _ =>
      give Body.unknown) xs (4 * hdr.length) :=
    sized_fields.andThen fun _ _ => sized_give
  unfold bodyDecode fieldsSize fbSources
  cases rtcpType hdr.pt with
  | none => exact hunknown
  | some type =>
    cases type with
    | SR | RR => exact sized_fields.andThen fun _ _ => (hrrs _).andThen fun _ _ => sized_give
    | SDES => exact (Sized.times sized_rtcpSdesDecode _ xs).andThen fun _ _ => sized_give
    | BYE => exact sized_byeDecode hlen
    | APP => exact sized_appDecode _ xs
    | FIR => exact sized_fields.andThen fun _ _ => sized_give
    | NACK => exact sized_fields
    | XR => exact sized_xrDecode xs
    | AVB => exact hunknown
    | RTPFB =>
      refine sized_ite (fun _ => sized_fail) fun hlen => ?_
      have hsize : (if hdr.count = rtpfbGnack ∨ hdr.count = rtpfbTwcc then 4 * hdr.length else 8) =
          8 + ((if hdr.count = rtpfbGnack ∨ hdr.count = rtpfbTwcc then (hdr.length - 2) * 4
            else 0) + 0) := by
        split <;> omega
      simp only [hsize]
      exact sized_fields.andThen fun _ _ => (sized_rtcpRtpfbDecode hdr _ _).andThen
        fun _ _ => sized_give
    | PSFB =>
      refine sized_ite (fun _ => sized_fail) fun hlen => ?_
      have hsize : (if hdr.count = psfbSli ∨ hdr.count = psfbAfb then 4 * hdr.length
            else if hdr.count = psfbFir then 8 + (hdr.length - 2) / 2 * 8 else 8) =
          8 + ((if hdr.count = psfbSli ∨ hdr.count = psfbAfb then (hdr.length - 2) * 4
            else if hdr.count = psfbFir then (hdr.length - 2) / 2 * 8 else 0) + 0) := by
        split_ifs <;> omega
      simp only [hsize]
      exact sized_fields.andThen fun _ _ => (sized_rtcpPsfbDecode hdr _ _).andThen
        fun _ _ => sized_give

section Decoded

variable {xs rest : Bytes} {msg : RtcpMsg} (h : rtcpDecode xs = .ok (msg, rest))
include h

/-- The parts of a decoded packet. -/
theorem rtcpDecode_ok :
    4 ≤ xs.length ∧ rtcpHdrDecode xs = .ok (msg.hdr, xs.drop 4) ∧
      4 + 4 * msg.hdr.length ≤ xs.length ∧
      ∃ zs, bodyDecode msg.hdr (xs.drop 4) = .ok (msg.body, zs) := by
  obtain ⟨hdr, ys, hhdr, h⟩ := andThen_ok h
  obtain ⟨hle, -, rfl⟩ := fields_ok (by rwa [rtcpHdrDecode] at hhdr)
  split at h
  · cases h
  obtain ⟨hneed, h⟩ := need_ok h
  obtain ⟨body, zs, hbody, h⟩ := andThen_ok h
  obtain ⟨u, ws, hslurp, h⟩ := andThen_ok h
  cases h
  rw [length_drop] at hneed
  exact ⟨hle, hhdr, show 4 + 4 * hdr.length ≤ _ by omega, zs, hbody⟩

/-- Where the decoder stops: behind the fields and their padding, or at the end. -/
theorem rtcpDecode_sized :
    4 + fieldsSize msg.hdr (xs.drop 4) ≤ xs.length ∧
      Sized False rtcpDecode xs (min (roundUp (4 + fieldsSize msg.hdr (xs.drop 4))) xs.length) := by
  obtain ⟨hle, hhdr, hneed, zs, hbody⟩ := rtcpDecode_ok h
  have hlen : 4 * msg.hdr.length ≤ (xs.drop 4).length := by
    rw [length_drop]
    omega
  have hfields := (sized_bodyDecode msg.hdr hlen _ _ hbody).2.1
  rw [length_drop] at hfields
  have hhead : Sized False rtcpHdrDecode xs 4 := by
    rw [rtcpHdrDecode]
    exact sized_fields
  have hparts : Sized False (rtcpDecodeFrom xs.length) xs (4 + (fieldsSize msg.hdr (xs.drop 4) +
      (min ((4 - (4 + fieldsSize msg.hdr (xs.drop 4)) % 4) % 4)
        (xs.length - 4 - fieldsSize msg.hdr (xs.drop 4)) + 0))) := by
    refine hhead.andThen fun hdr hhdr' => sized_ite (fun _ => sized_fail) fun _ =>
      .need fun hlen => ?_
    obtain rfl : hdr = msg.hdr := (Prod.mk.inj (Except.ok.inj (hhdr'.symm.trans hhdr))).1
    refine (sized_bodyDecode msg.hdr hlen).andThen fun _ _ => Sized.andThen ?_ fun _ _ => sized_give
    refine (sized_slurp (by simp only [length_drop]; omega)).congr fun _ _ _ _ => ?_
    simp only [length_drop]
    omega
  refine ⟨by omega, sized_byLength (hparts.congr fun _ _ _ _ => ?_)⟩
  rw [roundUp]
  omega

/-- The decoder stops at the boundary exactly if the padded fields have the size that
the length field announces. -/
theorem rest_eq_drop_iff :
    rest = xs.drop (4 + 4 * msg.hdr.length) ↔
      roundUp (fieldsSize msg.hdr (xs.drop 4)) = 4 * msg.hdr.length := by
  obtain ⟨-, -, hneed, -⟩ := rtcpDecode_ok h
  obtain ⟨hfields, hsized⟩ := rtcpDecode_sized h
  obtain ⟨rfl, -, -⟩ := hsized _ _ h
  constructor
  · intro hrest
    have hlen := congrArg length hrest
    simp only [length_drop, roundUp] at hlen ⊢
    omega
  · intro hsize
    congr 1
    simp only [roundUp] at hsize ⊢
    omega

end Decoded

end LibRe.Rtcp
