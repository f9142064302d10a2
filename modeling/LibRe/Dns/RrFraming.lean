/-
LibRe.Dns.RrFraming — where a decoded record ends.

The header of a record declares how long its data is. The decoder checks that
so many bytes are there and then reads names, strings and numbers one after the
other, wherever they lead; only the addresses, the TXT strings and the data of
unknown types are held against the declared length. So a record ends where it
says, with nothing taken from behind that place, exactly when its data, cut off
there, is well formed and fills its length (`decode_framed_iff`).
-/
import LibRe.Dns.RrLayout

namespace LibRe.Dns

open Bytes Layout

/-- The header of a record, with the buffer behind it. -/
def rdataStart (start : Nat) (mb : Mbuf) : Except Errno (RrHeader × Mbuf) :=
  dnsDnameDecode start mb >>= fun name => rrHeaderDecode name.2

/-- The place the header declares as the end of the record, seen from behind the header. -/
def declaredEnd (hdr : RrHeader) (mb : Mbuf) : Nat := mb.pos + hdr.rdlen.toNat

variable {start : Nat} {mb mb' m : Mbuf} {rr : Dnsrr} {hdr : RrHeader}

theorem rdataStart_parses (start : Nat) : Parses (rdataStart start)
    ((nameLayout start).bind fun _ => (block 10).map headerFields) :=
  (dnsDnameDecode_parses start).bind fun _ => rrHeaderDecode_parses

/-- The data of a record that was decoded, and where it stands. -/
theorem rdata_of_decode (h : dnsRrDecode start mb = .ok (rr, mb'))
    (hh : rdataStart start mb = .ok (hdr, m)) :
    rdataLayout start hdr.type hdr.rdlen m.bytes m.pos mb'.pos rr.rdata ∧
      declaredEnd hdr m ≤ m.end_ := by
  obtain ⟨q, ⟨name, p1, hname, hdr', p2, hhdr, rdata, hrd, rfl⟩, rfl⟩ :=
    (dnsRrDecode_parses start mb mb' rr).mp h
  obtain ⟨q', hL, rfl⟩ := (rdataStart_parses start mb m hdr).mp hh
  obtain ⟨rfl, rfl⟩ := (rdataStart_parses start).functional hL ⟨name, p1, hname, hhdr⟩
  refine ⟨hrd, ?_⟩
  obtain ⟨xs, ⟨hlen, hq, hpre⟩, -⟩ := hhdr
  have hten := hpre.length_le
  have hrdlen := hrd.1
  rw [List.length_drop, length_bytes] at hten hrdlen
  show q' + hdr.rdlen.toNat ≤ mb.end_
  omega

/-- A record ends where its header says, and its data is what stands in front of
that place, exactly when the data cut off there is well formed and fills it. -/
theorem decode_framed_iff (h : dnsRrDecode start mb = .ok (rr, mb'))
    (hh : rdataStart start mb = .ok (hdr, m)) :
    (mb'.pos = declaredEnd hdr m ∧
      ∃ m', rdataDecode start hdr.type hdr.rdlen (mbufSetEnd m (declaredEnd hdr m)) =
        .ok (rr.rdata, m')) ↔
    ∃ rdata, rdataLayout start hdr.type hdr.rdlen (m.bytes.take (declaredEnd hdr m)) m.pos
      (declaredEnd hdr m) rdata := by
  obtain ⟨hrd, hend⟩ := rdata_of_decode h hh
  have hparses := rdataDecode_parses start hdr.type hdr.rdlen
  have hcut := mbufSetEnd_bytes hend
  have hpre : m.bytes.take (declaredEnd hdr m) <+: m.bytes := List.take_prefix _ _
  constructor
  · rintro ⟨hpos, m', hdec⟩
    obtain ⟨q, hL, -⟩ := (hparses _ m' _).mp hdec
    rw [hcut, mbufSetEnd_pos] at hL
    have hfull := rdataLayout_stable start hdr.type hdr.rdlen _ _ _ _ _ hpre hL
    obtain ⟨hq, -⟩ := hparses.functional hfull hrd
    rw [hq.trans hpos] at hL
    exact ⟨rr.rdata, hL⟩
  · rintro ⟨rdata, hL⟩
    have hfull := rdataLayout_stable start hdr.type hdr.rdlen _ _ _ _ _ hpre hL
    obtain ⟨hq, rfl⟩ := hparses.functional hfull hrd
    refine ⟨hq.symm, _, (hparses _ _ _).mpr ⟨declaredEnd hdr m, ?_, rfl⟩⟩
    rw [hcut, mbufSetEnd_pos]
    exact hL

/-- A record of the root with the address 1.2.3.4. -/
def addressRecord : Mbuf :=
  Mbuf.ofBytes [0, 0, 1, 0, 1, 0, 0, 0, 9, 0, 4, 1, 2, 3, 4] 0

theorem decode_framed_address :
    ∃ rr mb' hdr m, dnsRrDecode 0 addressRecord = .ok (rr, mb') ∧
      rdataStart 0 addressRecord = .ok (hdr, m) ∧ mb'.pos = declaredEnd hdr m ∧
      ∃ m', rdataDecode 0 hdr.type hdr.rdlen (mbufSetEnd m (declaredEnd hdr m)) =
        .ok (rr.rdata, m') := by
  have h : dnsRrDecode 0 addressRecord =
      .ok (⟨[], 1, 9, 4, .a 0x01020304⟩, mbufSetPos addressRecord 15) := by decide +kernel
  have hh : rdataStart 0 addressRecord = .ok (⟨1, 1, 9, 4⟩, mbufSetPos addressRecord 11) := by
    decide +kernel
  refine ⟨_, _, _, _, h, hh, (decode_framed_iff h hh).mpr ⟨.a 0x01020304, by decide, rfl, ?_⟩⟩
  exact ⟨[1, 2, 3, 4], ⟨rfl, rfl, by decide⟩, by decide⟩

/-- A name server record whose data is declared longer than its name. -/
def paddedRecord : Mbuf := Mbuf.ofBytes [0, 0, 2, 0, 1, 0, 0, 0, 9, 0, 3, 0, 255, 255] 0

theorem padded_record_misframed :
    ¬ ∀ (start : Nat) (mb mb' m : Mbuf) (rr : Dnsrr) (hdr : RrHeader),
      dnsRrDecode start mb = .ok (rr, mb') → rdataStart start mb = .ok (hdr, m) →
      mb'.pos = declaredEnd hdr m ∧
        ∃ m', rdataDecode start hdr.type hdr.rdlen (mbufSetEnd m (declaredEnd hdr m)) =
          .ok (rr.rdata, m') := by
  intro hall
  have h : dnsRrDecode 0 paddedRecord =
      .ok (⟨[], 1, 9, 3, .ns []⟩, mbufSetPos paddedRecord 12) := by decide +kernel
  have hh : rdataStart 0 paddedRecord = .ok (⟨2, 1, 9, 3⟩, mbufSetPos paddedRecord 11) := by
    decide +kernel
  exact absurd (hall 0 _ _ _ _ _ h hh).1 (by decide)

end LibRe.Dns
