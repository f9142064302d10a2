/-
LibRe.Av1.Transport — when a bitstream survives its packets.

The packets of `av1_packetize`, put together again as the test of the library
does, give the units that may be sent — unless the layout has a corner: a unit
that would fit into the packet without a length field, but not with one, is cut
to the longest fragment that does fit. Where the shorter length has a shorter
field as well, one byte of the packet stays free, the loop goes on with the last
byte of the unit as an element of its own, and the depacketizer takes the two
elements for two units.
-/
import LibRe.Av1.PktTheorems

namespace LibRe.AV1

open Leb128 List Option

/-- N, as `av1_aggr_hdr_decode` reads it. -/
def Packet.n (p : Packet) : Bool := (p.hdr >>> 3) &&& 0x1 == 1

/-- The packets carry the units: they reassemble to them, they are not too long
with their aggregation header, the marker is on the last one and N on the first. -/
structure Transports (marker newp : Bool) (obus : List Obu) (maxlen : Nat) (o : Outcome) :
    Prop where
  err : o.err = none
  units : depacketize { obus := [], cur := [] } o.packets = some { obus := allowed obus, cur := [] }
  fits : ∀ p ∈ o.packets, 1 + p.pld.length ≤ maxlen
  marker : ∀ i p, o.packets[i]? = some p → p.marker = (marker && decide (i + 1 = o.packets.length))
  newp : ∀ i p, o.packets[i]? = some p → p.n = (newp && decide (i = 0))

variable {maxlen : Nat} {q : Queue} {ps : List Spec} {n : Nat}

theorem length_render_packets (marker : Bool) (rtpTs : UInt64) (ps : List Spec) : ∀ z newp : Bool,
    (render marker rtpTs z newp ps).length = ps.length := by
  induction ps with
  | nil => exact fun _ _ => rfl
  | cons p ps ih =>
    simp [render, ih]

/-- Marker and N. -/
theorem Packs.marks (h : Packs maxlen q ps n) (marker : Bool) (rtpTs : UInt64) :
    ∀ (z newp : Bool) (i : Nat) (p : Packet), (render marker rtpTs z newp ps)[i]? = some p →
      p.marker = (marker && decide (i + 1 = ps.length)) ∧ p.n = (newp && decide (i = 0)) := by
  induction h with
  | nil =>
    simp [render]
  | @cons q q' elems bare y cuts n ps _ first _ ih =>
    intro z newp i p hp
    rw [render] at hp
    cases i with
    | zero =>
      simp only [getElem?_cons_zero, some.injEq] at hp
      rw [← hp]
      refine ⟨?_, ?_⟩
      · cases ps <;> simp
      · rw [Packet.n, decide_eq_true rfl, Bool.and_true]
        exact (aggrHdrEncode_fields z y newp first.w_le rfl).2.2.2
    | succ i =>
      obtain ⟨hm, hn⟩ := ih y false i p hp
      refine ⟨?_, by simpa using hn⟩
      rw [hm, length_cons]
      simp

/-- The packets of a bitstream, up to the limit of the allocator. -/
theorem av1Packetize_packs (marker newp : Bool) (rtpTs : UInt64) {buf : Bytes} {obus : List Obu}
    (h : Bitstream (wrap buf) obus) (hne : obus ≠ []) (hmax : 2 ≤ maxlen)
    (hmem : maxlen - 1 ≤ memSizeMax) :
    ∃ ps cuts, Packs (maxlen - 1) (queue obus) ps cuts ∧
      av1Packetize marker rtpTs (fun _ => none) newp buf maxlen
        = some { err := none, newp := newp && ps.isEmpty
                 packets := render marker rtpTs false newp ps } := by
  have hbuf : buf ≠ [] := by
    rintro rfl
    have hempty := h.isEmpty
    exact hne (isEmpty_iff.mp hempty)
  obtain ⟨mbPkt, halloc, hbytes, hpos⟩ := mbufAlloc_some (show 1 ≤ maxlen - 1 by omega) hmem
  obtain ⟨start, hstart⟩ : ∃ c : Context, c =
      { mbPkt, mbBuf := wrap buf, currObu := wrap []
        currHdr := { type := 0, x := false, s := false, size := 0 }
        currRemaining := 0, maxlen := maxlen - 1 } := ⟨_, rfl⟩
  obtain ⟨ctx, hupd, hholds, hpkt, hlen⟩ :=
    updateCurrObu_holds (show Bitstream start.mbBuf obus by rw [hstart]; exact h)
  subst hstart
  have htotal := h.total_le
  rw [wrap_left] at htotal
  obtain ⟨ps, cuts, hpacks, hloop⟩ := packetizeLoop_packs marker rtpTs (buf.length + 1) newp
    false hholds (by rw [hpkt]; exact hbytes) (by rw [hpkt]; exact hpos)
    (by rw [hlen]; simp only []; omega)
    (by rw [hlen]; simp only [memSizeMax] at hmem ⊢; omega) (by omega)
  rw [hlen] at hpacks
  refine ⟨ps, cuts, hpacks, ?_⟩
  have hcond : ¬ (buf.length = 0 ∨ maxlen < 2) := by
    simp [hbuf]
    omega
  rw [av1Packetize, if_neg hcond, halloc]
  simp only [hupd, hloop]

/-- Layouts in small packets have no corner: it takes a unit of 128 bytes. -/
theorem noCorner_of_le (hmax : maxlen ≤ 128) {p : Place} (hp : p.free ≤ maxlen) :
    NoCorner maxlen p := by
  have hcorner : ∀ p : Place, p.free ≤ maxlen → ¬ p.Corner := by
    rintro ⟨elem, free, sizes⟩ hfree
    cases sizes with
    | nil => exact id
    | cons e s =>
      rintro ⟨-, -, hlt, -, hgroups⟩
      rw [groups_of_lt (show e.1 < 128 by omega)] at hgroups
      exact absurd hgroups (Nat.not_lt.mpr (Nat.succ_pos _))
  have hnext : ∀ p : Place, p.free ≤ maxlen → (p.next maxlen).free ≤ maxlen := by
    intro p hfree
    unfold Place.next
    split
    · exact hfree
    · split
      · exact le_refl _
      · grind
  intro i
  apply hcorner
  induction i with
  | zero => exact hp
  | succ i ih =>
    rw [Function.iterate_succ_apply']
    exact hnext _ ih

/-- A bitstream survives its packets exactly when a packet can be allocated and
its layout has no corner. -/
theorem packets_transport_iff (marker newp : Bool) (rtpTs : UInt64) {buf : Bytes}
    {obus : List Obu} (h : Bitstream (wrap buf) obus) (hne : obus ≠ []) (hmax : 2 ≤ maxlen) :
    (∃ o, av1Packetize marker rtpTs (fun _ => none) newp buf maxlen = some o ∧
        Transports marker newp obus maxlen o) ↔
      maxlen - 1 ≤ memSizeMax ∧
        NoCorner (maxlen - 1) { elem := 1, free := maxlen - 1, sizes := (queue obus).sizes } := by
  by_cases hmem : maxlen - 1 ≤ memSizeMax
  · obtain ⟨ps, cuts, hpacks, hrun⟩ := av1Packetize_packs marker newp rtpTs h hne hmax hmem
    have hproper := queue_proper obus
    have hlt : maxlen - 1 < 128 ^ 8 := lt_of_le_of_lt hmem (by decide)
    obtain ⟨d, hd, hcur, hcount, hexact⟩ := depacketize_render marker rtpTs hpacks hproper
      (by omega) hlt { obus := [], cur := [] } false newp rfl (fun _ => rfl)
    have hlen : (queue obus).length = (allowed obus).length := by rw [← queue_fst, length_map]
    rw [hrun, hpacks.noCorner_iff hproper]
    constructor
    · rintro ⟨o, ho, hunits⟩
      obtain rfl := some.inj ho
      have heq := hd.symm.trans hunits.units
      obtain rfl := some.inj heq
      simp only [length_nil] at hcount
      exact ⟨hmem, by omega⟩
    · rintro ⟨-, hzero⟩
      refine ⟨_, rfl, rfl, ?_, ?_, ?_, ?_⟩
      · rw [hd]
        have hall := hexact hzero
        rw [toCome_nil, queue_fst, nil_append] at hall
        cases d
        simp only at hcur hall
        rw [hcur, hall]
      · intro p hp
        have hle := length_render marker rtpTs hpacks hproper hlt false newp p hp
        omega
      · intro i p hp
        rw [length_render_packets]
        exact (hpacks.marks marker rtpTs false newp i p hp).1
      · exact fun i p hp => (hpacks.marks marker rtpTs false newp i p hp).2
  · refine ⟨?_, fun hcond => absurd hcond.1 hmem⟩
    rintro ⟨o, ho, hunits⟩
    have hbuf : buf.length ≠ 0 := by
      intro hnil
      have hempty := h.isEmpty
      rw [wrap_left, length_eq_zero_iff.mp hnil] at hempty
      exact hne (isEmpty_iff.mp hempty)
    have hzero : ¬ maxlen - 1 = 0 := by omega
    have halloc : mbufAlloc (maxlen - 1) = none := by
      simp only [mbufAlloc, hzero, if_false]
      exact if_pos (by omega)
    rw [av1Packetize, if_neg (by omega), halloc] at ho
    obtain rfl := some.inj ho
    exact absurd hunits.err (by simp)

/-- A temporal delimiter, which is not sent, a sequence header and a frame. -/
def shortStream : Bytes := [0x12, 0, 0x0a, 1, 0xaa, 0x32, 2, 0xbb, 0xcc]

theorem shortStream_units : Bitstream (wrap shortStream)
    [{ type := 2, payload := [] }, { type := 1, payload := [0xaa] },
     { type := 6, payload := [0xbb, 0xcc] }] :=
  bitstream_of_obusOf 4 (by decide +kernel)

/-- In packets of four bytes they arrive. -/
theorem packets_transport_short :
    ∃ o, av1Packetize true 3000 (fun _ => none) true shortStream 4 = some o ∧
      Transports true true [{ type := 2, payload := [] }, { type := 1, payload := [0xaa] },
        { type := 6, payload := [0xbb, 0xcc] }] 4 o :=
  (packets_transport_iff true true 3000 shortStream_units (cons_ne_nil _ _) (by decide)).mpr
    ⟨by decide, noCorner_of_le (by decide) (le_refl _)⟩

/-- Two frames, of 127 and of 3 bytes of payload. -/
def cutStream : Bytes :=
  0x32 :: 127 :: (List.replicate 127 0xaa ++ 0x32 :: 3 :: List.replicate 3 0xbb)

theorem cutStream_units : Bitstream (wrap cutStream)
    [{ type := 6, payload := replicate 127 0xaa }, { type := 6, payload := replicate 3 0xbb }] :=
  bitstream_of_obusOf 3 (by decide +kernel)

/-- In packets of 130 bytes the first frame of it is cut, and arrives as two units. -/
theorem frame_arrives_in_two :
    ¬ ∀ (buf : Bytes) (obus : List Obu) (maxlen : Nat), Bitstream (wrap buf) obus → obus ≠ [] →
      2 ≤ maxlen → ∃ o, av1Packetize true 3000 (fun _ => none) true buf maxlen = some o ∧
        Transports true true obus maxlen o := by
  intro hall
  obtain ⟨o, ho, hunits⟩ := hall cutStream _ 130 cutStream_units (cons_ne_nil _ _) (by decide)
  have hrun : (av1Packetize true 3000 (fun _ => none) true cutStream 130).bind (fun o =>
      (depacketize { obus := [], cur := [] } o.packets).map fun d => d.obus.length) = some 3 := by
    decide +kernel
  rw [ho, bind_some, hunits.units] at hrun
  exact absurd hrun (by decide +kernel)

end LibRe.AV1
