/-
LibRe.Av1.Reassembly — the depacketizer on laid-out packets.

The depacketizer closes a unit behind every element but the last of a packet,
and behind the last one unless Y is set (`feed`). On the packets of a layout it
always succeeds, and it closes one unit more than there are for every cut; where
nothing is cut it gives the units back (`depacketize_render`).
-/
import LibRe.Av1.Layout
import LibRe.Av1.Pkt

namespace LibRe.AV1

open Leb128 List Nat

/-- What the depacketizer does with the elements of a packet. -/
def feed (y : Bool) : Depack → List Bytes → Depack
  | d, [] => d
  | d, [e] =>
    if y then { d with cur := d.cur ++ e } else { obus := d.obus ++ [d.cur ++ e], cur := [] }
  | d, e :: e' :: es => feed y { obus := d.obus ++ [d.cur ++ e], cur := [] } (e' :: es)

/-- The units that are still to come, when the bytes `cur` of the first are there. -/
def toCome (cur : Bytes) : Queue → List Bytes
  | [] => []
  | (o, _) :: q => (cur ++ o) :: q.map Prod.fst

variable {elem free maxlen : Nat} {q q' : Queue} {elems : List Bytes} {bare y : Bool} {cuts : Nat}

/-! ## What a packet takes -/

variable {n : Nat} {mb : Mbuf} {e : Bytes} {hdr : AggrHdr} {ps : List Spec}

/-- An element with a length field is a part of its unit and fits. -/
theorem fragment_fits {o : Bytes} {last : Bool} (hq : Queue.Proper ((o, last) :: q))
    (hf : ¬ Full elem free)
    (hp : Prefixed elem free o.length last) (hn : fragLen free o.length = n) :
    1 ≤ n ∧ n ≤ o.length ∧ n + groups n ≤ free ∧ (o.take n).length = n := by
  have hc := length_pos_of_proper hq
  have htwo : 2 ≤ free := by
    unfold Full at hf
    rcases hp with h | ⟨-, h, -⟩ <;> omega
  obtain ⟨hpos, hle, hfit⟩ := fragLen_spec hc htwo
  rw [hn] at hpos hle hfit
  exact ⟨hpos, hle, hfit, length_take_of_le hle⟩

/-- A packet that is not full takes at least one byte, and the elements, none of which is
empty, fit into it with their length fields. -/
theorem Fill.taken (h : Fill elem free q elems bare y q' cuts) (hq : q.Proper) :
    (q'.total ≤ q.total ∧ (elems ≠ [] → q'.total < q.total)) ∧
      (free < 128 ^ 8 → (∀ e ∈ elems, e ≠ [] ∧ e.length < 128 ^ 8) ∧
        (payload bare elems).length ≤ free) := by
  induction h with
  | done | full => exact ⟨⟨le_refl _, fun h => absurd rfl h⟩, fun _ => ⟨by simp, zero_le _⟩⟩
  | @bare elem free n o last q hf hp hn =>
    have hc := length_pos_of_proper hq
    have hlen : (o.take n).length = n := length_take_of_le (by omega)
    have htotal := total_pop last q (show n ≤ o.length by omega)
    unfold Full at hf
    refine ⟨⟨by omega, fun _ => by omega⟩, fun hfree =>
      ⟨?_, by rw [payload, if_pos rfl, hlen]; omega⟩⟩
    simp [← length_pos_iff]
    omega
  | @final elem free n o last bare y q q' cuts hf hp hn rest ih =>
    obtain ⟨hpos, hle, hfit, hlen⟩ := fragment_fits hq hf hp hn
    have htotal := total_pop last q hle
    have hih := (ih (proper_pop hq)).1.1
    refine ⟨⟨by omega, fun _ => by omega⟩, fun hfree => ⟨?_, ?_⟩⟩
    · simp [← length_pos_iff]
      omega
    · rw [payload, if_neg Bool.false_ne_true, length_append, hlen,
        length_encode 9 (lt_of_lt_of_le (show n < 128 ^ 8 by omega) (by decide))]
      omega
  | @cons elem free n o e es last bare y q q' cuts hf hp hn rest ih =>
    obtain ⟨hpos, hle, hfit, hlen⟩ := fragment_fits hq hf hp hn
    have htotal := total_pop last q hle
    obtain ⟨hih, hrest⟩ := ih (proper_pop hq)
    refine ⟨⟨by omega, fun _ => by omega⟩, fun hfree => ?_⟩
    obtain ⟨hall, hpay⟩ := hrest (by omega)
    refine ⟨forall_mem_cons.mpr ⟨⟨ne_nil_of_length_pos (by omega), by omega⟩, hall⟩, ?_⟩
    rw [payload, length_append, length_append, hlen,
      length_encode 9 (lt_of_lt_of_le (show n < 128 ^ 8 by omega) (by decide))]
    omega

/-- A packet whose last element has no length field has three elements at most. -/
theorem Fill.bare_le (h : Fill elem free q elems true y q' cuts) : elem + elems.length ≤ 4 := by
  generalize hb : true = b at h
  induction h with
  | done | full | final => cases hb
  | bare hf hp hn =>
    have helem : ¬ 3 < _ := fun h => hp (.inl h)
    simp only [length_singleton]
    omega
  | cons _ _ _ _ ih =>
    have := ih hb
    simp only [length_cons] at this ⊢
    omega

/-- The last packet does not go on. -/
theorem Fill.y_of_nil (h : Fill elem free q elems bare y q' cuts) (hnil : q' = []) : y = false := by
  induction h with
  | done | full => rfl
  | @bare elem free n o last q hf hp hn =>
    grind [pop_cons]
  | @final elem free n o last bare y q q' cuts hf hp hn rest ih =>
    obtain ⟨hq, -, -⟩ := rest.of_nil
    rw [hnil, pop_cons] at hq
    split at hq
    · cases hq
    · exact decide_eq_false (by assumption)
  | cons _ _ _ _ ih => exact ih hnil

/-! ## Units closed by a packet -/

theorem toCome_nil (q : Queue) : toCome [] q = q.map Prod.fst := by
  cases q with
  | nil | cons _ _ => rfl

/-- The last element of a packet closes its unit or leaves it open, as the queue does. -/
theorem feed_last (d : Depack) (n : Nat) (o : Bytes) (last : Bool) (q : Queue) :
    (feed (decide (n < o.length)) d [o.take n]).obus.length + (Queue.pop n ((o, last) :: q)).length
      = d.obus.length + (q.length + 1) ∧
    (feed (decide (n < o.length)) d [o.take n]).obus
        ++ toCome (feed (decide (n < o.length)) d [o.take n]).cur (Queue.pop n ((o, last) :: q))
      = d.obus ++ toCome d.cur ((o, last) :: q) := by
  rw [pop_cons, feed]
  by_cases hlt : n < o.length
  · simp [toCome, hlt]
  have hall : o.take n = o := take_of_length_le (by omega)
  rw [if_neg hlt, if_neg (by simpa using hlt), hall, toCome_nil]
  refine ⟨?_, by simp only [toCome, append_assoc, singleton_append]⟩
  rw [length_append, length_singleton]
  omega

/-- One unit more than planned for every cut, and without a cut the planned ones. -/
theorem Fill.feed_spec (h : Fill elem free q elems bare y q' cuts) : ∀ d : Depack,
    (feed y d elems).obus.length + q'.length = d.obus.length + q.length + cuts ∧
    (cuts = 0 → (feed y d elems).obus ++ toCome (feed y d elems).cur q' = d.obus ++
      toCome d.cur q) := by
  induction h with
  | done | full => exact fun d => ⟨rfl, fun _ => rfl⟩
  | @bare elem free n o last q hf hp hn =>
    exact fun d => (feed_last d n o last q).imp_right fun h _ => h
  | @final elem free n o last bare y q q' cuts hf hp hn rest ih =>
    intro d
    rw [rest.of_nil.1]
    exact (feed_last d n o last q).imp_right fun h _ => h
  | @cons elem free n o e es last bare y q q' cuts hf hp hn rest ih =>
    intro d
    obtain ⟨hcount, hexact⟩ := ih { obus := d.obus ++ [d.cur ++ o.take n], cur := [] }
    rw [pop_cons] at hcount hexact
    rw [feed, hcount, length_append, length_singleton]
    by_cases hlt : n < o.length
    · simp [hlt]
      omega
    · have hall : o.take n = o := take_of_length_le (by omega)
      refine ⟨by simp [hlt]; omega, fun hzero => ?_⟩
      rw [hexact (by omega), if_neg hlt, hall, toCome_nil]
      simp only [toCome, append_assoc, singleton_append]

/-- The open unit has bytes exactly when Y is set. -/
theorem feed_cur (y : Bool) (es : List Bytes) : ∀ (d : Depack), es ≠ [] → (∀ e ∈ es, e ≠ []) →
    (feed y d es).cur.isEmpty = !y := by
  induction es with
  | nil => exact fun d h => absurd rfl h
  | cons e es ih =>
    intro d _ hall
    cases es with
    | nil =>
      have he := hall e mem_cons_self
      rw [feed]
      cases y with
      | false => rfl
      | true =>
        simp [he]
    | cons e' es =>
      exact ih _ (cons_ne_nil _ _) (fun e he => hall e (mem_cons_of_mem _ he))

/-! ## The bytes of a packet -/

theorem payload_ne_nil (es : List Bytes) (he : e ≠ []) : payload bare (e :: es) ≠ [] := by
  cases es with
  | nil =>
    grind [append_ne_nil_of_right_ne_nil, payload]
  | cons e' es =>
    simp [payload, he]

/-- The element that the loop reads when the bytes of `e :: es` are left. -/
theorem handler_elem {count : Nat}
    {es : List Bytes} (hl : mb.left = payload bare (e :: es)) (he : e.length < 128 ^ 8)
    (hw : hdr.w.toNat = if bare then count + (es.length + 1) else 0) :
    ∃ mb', handlerElem hdr (count + 1) mb = some (e.length, mb') ∧
    mb'.left = e ++ payload bare es := by
  -- an element with a length field
  have hfield : hdr.w.toNat = 0 ∨ count + 1 < hdr.w.toNat → mb.left = encode 9 e.length ++
      (e ++ payload bare es) →
      ∃ mb', handlerElem hdr (count + 1) mb = some (e.length, mb') ∧
      mb'.left = e ++ payload bare es := by
    intro hcond hl
    obtain ⟨mb', hdec, hrest⟩ := av1Leb128Decode_encode hl he
    refine ⟨mb', ?_, hrest⟩
    rw [handlerElem, if_pos hcond, hdec]
    simp only [mbufGetLeft_eq, hrest, length_append, le_add_right, if_true]
  cases es with
  | nil =>
    cases bare with
    | true =>
      rw [if_pos rfl] at hw
      rw [handlerElem, hw, if_neg (by simp only [length_nil]; omega)]
      refine ⟨mb, ?_, by rw [hl]; simp only [payload, if_true, append_nil]⟩
      rw [mbufGetLeft_eq, hl, payload, if_pos rfl]
    | false =>
      exact hfield (.inl hw)
        (by rw [hl]; simp only [payload, Bool.false_eq_true, if_false, append_nil])
  | cons e' es =>
    have hcond : hdr.w.toNat = 0 ∨ count + 1 < hdr.w.toNat := by
      rw [hw]
      cases bare with
      | true =>
        simp
      | false => exact .inl rfl
    exact hfield hcond (by rw [hl, payload, append_assoc])

/-- The loop of the handler on the bytes of elements. -/
theorem handlerLoop_payload (es : List Bytes) :
    ∀ {n count : Nat} {mb : Mbuf} (d : Depack), mb.left = payload bare es → es.length < n →
    (∀ e ∈ es, e ≠ [] ∧ e.length < 128 ^ 8) →
    (hdr.w.toNat = if bare then count + es.length else 0) →
    handlerLoop hdr n count mb d = some (count + es.length, feed hdr.y d es) := by
  induction es with
  | nil =>
    intro n count mb d hl hn _ _
    obtain ⟨n, rfl⟩ : ∃ m, n = m + 1 := ⟨n - 1, by simp only [length_nil] at hn; omega⟩
    have hleft : mbufGetLeft mb = 0 := by rw [mbufGetLeft_eq, hl, payload, length_nil]
    rw [handlerLoop, hleft, if_neg (lt_irrefl 0), feed, length_nil, add_zero]
  | cons e es ih =>
    intro n count mb d hl hn hall hw
    obtain ⟨n, rfl⟩ : ∃ m, n = m + 1 := ⟨n - 1, by omega⟩
    simp only [length_cons] at hn hw
    obtain ⟨he, hsize⟩ := hall e mem_cons_self
    have hpos : mbufGetLeft mb > 0 := by
      grind [mbufGetLeft_eq, payload_ne_nil]
    obtain ⟨mb', helem, hleft⟩ := handler_elem hl hsize hw
    have htake : mb'.left.take e.length = e := by rw [hleft, take_left]
    have hrest : (mbufAdvance mb' e.length).left = payload bare es := by
      rw [mbufAdvance_left, hleft, drop_left]
    have hcount : count + 1 + es.length = count + (es.length + 1) := by omega
    have hih : ∀ d, handlerLoop hdr n (count + 1) (mbufAdvance mb' e.length) d
        = some (count + (es.length + 1), feed hdr.y d es) := by
      intro d
      rw [ih d hrest (by omega) (fun e he => hall e (mem_cons_of_mem _ he))
        (by rw [hw, hcount]), hcount]
    rw [handlerLoop, if_pos hpos, helem]
    simp only [htake, hih, length_cons, mbufGetLeft_eq, hrest]
    cases es with
    | nil =>
      grind [feed, payload]
    | cons e' es =>
      have hmore : (payload bare (e' :: es)).length > 0 :=
        length_pos_iff.mpr (payload_ne_nil es (hall e' (by simp)).1)
      rw [if_pos (.inl hmore), feed]

theorem wrap_left (bytes : Bytes) : (wrap bytes).left = bytes := by
  exact take_of_length_le (le_refl _)

/-- The fields of an aggregation header. -/
theorem aggrHdrEncode_fields (z y n : Bool) {w : Nat} {v : UInt8} (hw : w ≤ 3)
    (hv : aggrHdrEncode z y w n = v) :
    ((v >>> 7) &&& 0x1 == 1) = z ∧ ((v >>> 6) &&& 0x1 == 1) = y ∧
      (v >>> 4) &&& 0x3 = UInt8.ofNat w ∧ ((v >>> 3) &&& 0x1 == 1) = n := by
  rw [← hv]
  interval_cases w <;> cases z <;> cases y <;> cases n <;> decide

/-- The aggregation header is read back. -/
theorem av1AggrHdrDecode_encode (z y n : Bool) {w : Nat} (hw : w ≤ 3) (pld : Bytes) :
    ∃ mb, av1AggrHdrDecode (wrap (aggrHdrEncode z y w n :: pld))
      = .ok ({ z, y, w := UInt8.ofNat w, n }, mb) ∧ mb.left = pld := by
  obtain ⟨v, hv⟩ : ∃ v, aggrHdrEncode z y w n = v := ⟨_, rfl⟩
  have hleft := wrap_left (v :: pld)
  have hfields := aggrHdrEncode_fields z y n hw hv
  refine ⟨mbufAdvance (wrap (v :: pld)) 1, ?_, ?_⟩
  · rw [hv, av1AggrHdrDecode, mbufGetLeft_eq, hleft, if_neg (by simp),
      mbufReadU8_ok (by rw [hleft]; simp), hleft]
    simp only [headD_cons, hfields]
  · rw [mbufAdvance_left, hleft, drop_one, tail_cons]

theorem length_le_payload (es : List Bytes) (hall : ∀ e ∈ es, e ≠ []) :
    es.length ≤ (payload bare es).length := by
  induction es with
  | nil => exact zero_le _
  | cons e es ih =>
    have he := length_pos_iff.mpr (hall e mem_cons_self)
    cases es with
    | nil =>
      rw [payload]
      split
      · exact he
      · simp
        omega
    | cons e' es =>
      grind [payload]

/-- The handler on a packet of a layout. -/
theorem packetHandler_payload {d : Depack} {w : Nat} {z newp : Bool} (marker : Bool)
    (rtpTs : UInt64) (hall : ∀ e ∈ elems, e ≠ [] ∧ e.length < 128 ^ 8)
    (hw : w = if bare then elems.length else 0) (hle : w ≤ 3) (hz : d.cur.isEmpty = !z) :
    packetHandler d { marker, rtpTs, hdr := aggrHdrEncode z y w newp
                      pld := payload bare elems } = some (feed y d elems) := by
  obtain ⟨mb, hdec, hleft⟩ := av1AggrHdrDecode_encode z y newp hle (payload bare elems)
  have hwn : (UInt8.ofNat w).toNat = w := by
    simp
    omega
  have hfuel : elems.length < (payload bare elems).length + 1 :=
    lt_succ_of_le (length_le_payload elems (fun e he => (hall e he).1))
  have hloop : handlerLoop { z, y, w := UInt8.ofNat w, n := newp }
      ((payload bare elems).length + 1) 0 mb d = some (0 + elems.length, feed y d elems) :=
    handlerLoop_payload elems d hleft hfuel hall (by rw [zero_add]; exact hwn.trans hw)
  rw [packetHandler, hdec]
  simp only [hloop, hwn, hz]
  rw [if_neg (by cases z <;> simp), if_pos]
  cases bare with
  | true => exact .inr (by rw [hw, if_pos rfl, zero_add])
  | false => exact .inl hw

/-! ## All packets -/

/-- The W field of a packet. -/
def Spec.w (p : Spec) : Nat := if p.bare then p.elems.length else 0

/-- The packets as they are handed over: Z is the Y of the packet before, the
marker is set on the last packet and N on the first. -/
def render (marker : Bool) (rtpTs : UInt64) : Bool → Bool → List Spec → List Packet
  | _, _, [] => []
  | z, newp, p :: ps =>
    { marker := marker && ps.isEmpty, rtpTs, hdr := aggrHdrEncode z p.y p.w newp
      pld := payload p.bare p.elems } :: render marker rtpTs p.y false ps

/-- The first packet of a queue takes something. -/
theorem Fill.elems_ne_nil (h : Fill 1 maxlen q elems bare y q' cuts) (hq : q ≠ [])
    (hmax : 1 ≤ maxlen) :
    elems ≠ [] := by
  rintro rfl
  obtain ⟨-, -, hfull | hnil⟩ := h.of_nil
  · simp_all [Full]
  · exact hq hnil

theorem Fill.w_le (h : Fill 1 maxlen q elems bare y q' cuts) : Spec.w ⟨elems, bare, y⟩ ≤ 3 := by
  cases bare with
  | true =>
    have hle := h.bare_le
    show elems.length ≤ 3
    omega
  | false => exact zero_le _

/-- The depacketizer on the packets of a queue: it closes one unit more for every
cut, and without a cut it has the units of the queue. -/
theorem depacketize_render (marker : Bool) (rtpTs : UInt64)
    (h : Packs maxlen q ps n) (hq : q.Proper) (hmax : 1 ≤ maxlen) (hlt : maxlen < 128 ^ 8) :
    ∀ (d : Depack) (z newp : Bool), d.cur.isEmpty = !z → (q = [] → z = false) →
      ∃ d', depacketize d (render marker rtpTs z newp ps) = some d' ∧ d'.cur = [] ∧
        d'.obus.length = d.obus.length + q.length + n ∧
        (n = 0 → d'.obus = d.obus ++ toCome d.cur q) := by
  induction h with
  | nil =>
    intro d z newp hz hnil
    rw [hnil rfl] at hz
    refine ⟨d, rfl, by simpa using hz, rfl, fun _ => ?_⟩
    rw [toCome, append_nil]
  | @cons q q' elems bare y cuts n ps hne first rest ih =>
    intro d z newp hz _
    obtain ⟨hall, -⟩ := (first.taken hq).2 hlt
    have helems := first.elems_ne_nil hne hmax
    have hhandler : packetHandler d
        { marker := marker && ps.isEmpty, rtpTs
          hdr := aggrHdrEncode z y (Spec.w ⟨elems, bare, y⟩) newp, pld := payload bare elems }
        = some (feed y d elems) := packetHandler_payload _ _ hall rfl first.w_le hz
    have hcur := feed_cur y elems d helems (fun e he => (hall e he).1)
    obtain ⟨hfeed, hall'⟩ := first.feed_spec d
    obtain ⟨d', hd, hcur', hcount, hexact⟩ := ih (first.proper hq) (feed y d elems) y false hcur
      (fun hnil => first.y_of_nil hnil)
    refine ⟨d', ?_, hcur', ?_, fun hzero => ?_⟩
    · simp [render, depacketize, hhandler, hd]
    · omega
    · rw [hexact (by omega), hall' (by omega)]

/-- Every packet fits. -/
theorem length_render (marker : Bool) (rtpTs : UInt64)
    (h : Packs maxlen q ps n) (hq : q.Proper) (hlt : maxlen < 128 ^ 8) : ∀ (z newp : Bool),
    ∀ p ∈ render marker rtpTs z newp ps, p.pld.length ≤ maxlen := by
  induction h with
  | nil => exact fun z newp p hp => absurd hp not_mem_nil
  | cons _ first _ ih =>
    intro z newp p hp
    rcases mem_cons.mp hp with rfl | hp
    · exact ((first.taken hq).2 hlt).2
    · exact ih (first.proper hq) _ _ p hp

end LibRe.AV1
