/-
LibRe.Av1.PktTheorems — the packetizer refines the layout.

`Bitstream` says which units `av1_obu_decode` finds in a buffer, `queue` what
the packetizer has to send of them. A context that `Holds` a queue sends, packet
by packet, what the layout of `LibRe.Av1.Layout` takes from that queue. With the
results of `LibRe.Av1.Reassembly` this settles when the depacketizer gets the
units back.
-/
import LibRe.Av1.Reassembly

namespace LibRe.AV1

open Leb128 List Nat

/-! ## Units of a bitstream -/

/-- A unit without its size field: what `av1_obu_decode` keeps of the header, and
the payload. -/
structure Obu where
  type : UInt8
  payload : Bytes
  deriving DecidableEq, Repr

/-- The units of a buffer, each with a size field and accepted by `av1_obu_decode`. -/
inductive Bitstream : Mbuf → List Obu → Prop where
  | nil {mb : Mbuf} (h : mb.left = []) : Bitstream mb []
  | cons {mb mb' : Mbuf} {hdr : ObuHdr} {obus : List Obu} (h : av1ObuDecode mb = .ok (hdr, mb'))
      (hs : hdr.s = true) (rest : Bitstream (mbufAdvance mb' hdr.size) obus) :
      Bitstream mb ({ type := hdr.type, payload := mb'.left.take hdr.size } :: obus)

/-- The units of a buffer, computed; `n` is more than their number. -/
def obusOf : Nat → Mbuf → Option (List Obu)
  | 0, _ => none
  | n + 1, mb =>
    if mb.left = [] then some []
    else
      match av1ObuDecode mb with
      | .error _ => none
      | .ok (hdr, mb') =>
        if hdr.s = true then
          (obusOf n (mbufAdvance mb' hdr.size)).map fun obus =>
            { type := hdr.type, payload := mb'.left.take hdr.size } :: obus
        else none

/-- The header byte of a unit that has no size field. -/
def obuHdrByte (type : UInt8) : UInt8 := (type &&& (0xf : UInt8)) <<< (3 : UInt8)

/-- The bytes of a unit without its size field. -/
def Obu.bytes (o : Obu) : Bytes := obuHdrByte o.type :: o.payload

/-- The units that are sent. -/
def allowed (obus : List Obu) : List Bytes :=
  (obus.filter fun o => obuAllowedRtp o.type).map Obu.bytes

/-- The same as a queue. -/
def queue : List Obu → Queue
  | [] => []
  | o :: obus => if obuAllowedRtp o.type then (o.bytes, obus.isEmpty) :: queue obus else queue obus

variable {mb : Mbuf} {obus : List Obu} {ctx : Context} {q : Queue} {o : Bytes} {last : Bool}

theorem bitstream_of_obusOf (n : Nat) : ∀ {mb : Mbuf} {obus : List Obu}, obusOf n mb = some obus →
    Bitstream mb obus := by
  induction n with
  | zero => exact fun h => nomatch h
  | succ n ih =>
    intro mb obus h
    rw [obusOf] at h
    split at h
    · obtain rfl := Option.some.inj h
      exact .nil (by assumption)
    split at h
    · cases h
    rename_i hdr mb' hdec
    split at h
    · obtain ⟨obus, hrest, rfl⟩ := Option.map_eq_some_iff.mp h
      exact .cons hdec (by assumption) (ih hrest)
    · cases h

theorem queue_fst (obus : List Obu) : (queue obus).map Prod.fst = allowed obus := by
  induction obus with
  | nil => rfl
  | cons o obus ih =>
    grind [queue, allowed]

theorem queue_proper (obus : List Obu) : (queue obus).Proper := by
  intro e he
  have hmem : e.1 ∈ allowed obus := queue_fst obus ▸ mem_map_of_mem he
  obtain ⟨o, -, ho⟩ := mem_map.mp hmem
  rw [← ho]
  exact cons_ne_nil _ _

theorem Bitstream.isEmpty (h : Bitstream mb obus) : obus.isEmpty = mb.left.isEmpty := by
  cases h with
  | nil h =>
    rw [h]
    rfl
  | cons h _ _ =>
    obtain ⟨k, hle, -, -, hk⟩ := av1ObuDecode_ok h
    cases hl : mb.left with
    | nil =>
      simp_all
    | cons b bs => rfl

/-- Header and size field of a unit are longer than the header it is sent with. -/
theorem Bitstream.total_le (h : Bitstream mb obus) : (queue obus).total ≤ mb.left.length := by
  induction h with
  | nil => exact zero_le _
  | @cons mb mb' hdr obus h hs rest ih =>
    obtain ⟨k, hle, hmb, hsize, hk⟩ := av1ObuDecode_ok h
    rw [if_pos hs] at hk
    rw [mbufAdvance_left, length_drop] at ih
    rw [hmb, mbufAdvance_left, length_drop] at ih hsize
    rw [queue]
    split
    · simp [total_cons, Obu.bytes]
      omega
    · omega

/-! ## The current unit -/

/-- What is still to be sent of the current unit. -/
def Context.pending (ctx : Context) : Bytes :=
  if ctx.currRemaining = packetizedObuSize ctx.currHdr then
    obuHdrByte ctx.currHdr.type :: ctx.currObu.left
  else ctx.currObu.left

/-- The context has the queue before it. -/
inductive Holds (ctx : Context) : Queue → Prop where
  | nil (h : ctx.currRemaining = 0) : Holds ctx []
  | cons {o : Bytes} {obus : List Obu} (hpos : o ≠ []) (hrem : ctx.currRemaining = o.length)
      (hle : ctx.currRemaining ≤ packetizedObuSize ctx.currHdr) (ho : ctx.pending = o)
      (rest : Bitstream ctx.mbBuf obus) : Holds ctx ((o, obus.isEmpty) :: queue obus)

theorem Holds.proper (h : Holds ctx q) : q.Proper := by
  cases h with
  | nil => exact fun e he => absurd he not_mem_nil
  | cons hpos _ _ _ _ =>
    intro e he
    rcases mem_cons.mp he with rfl | he
    · exact hpos
    · exact queue_proper _ e he

theorem Holds.remaining (h : Holds ctx q) : (ctx.currRemaining == 0) = q.isEmpty := by
  cases h with
  | nil h =>
    rw [h]
    rfl
  | cons hpos hrem _ _ _ =>
    simp [hrem, hpos]

theorem updateCurrObuLoop_holds (h : Bitstream mb obus) : ∀ {n : Nat} {ctx : Context},
    ctx.mbBuf = mb → mb.left.length < n →
    ∃ ctx', updateCurrObuLoop n ctx = some (.ok ctx') ∧ Holds ctx' (queue obus) ∧
      ctx'.mbPkt = ctx.mbPkt ∧ ctx'.maxlen = ctx.maxlen := by
  induction h with
  | @nil mb hl =>
    intro n ctx hmb hn
    obtain ⟨n, rfl⟩ : ∃ m, n = m + 1 := ⟨n - 1, by omega⟩
    have hleft : mbufGetLeft ctx.mbBuf = 0 := by
      rw [mbufGetLeft_eq, hmb, hl, length_nil]
    rw [updateCurrObuLoop, hleft]
    exact ⟨_, rfl, .nil rfl, rfl, rfl⟩
  | @cons mb mb' hdr obus h hs rest ih =>
    intro n ctx hmb hn
    obtain ⟨n, rfl⟩ : ∃ m, n = m + 1 := ⟨n - 1, by omega⟩
    obtain ⟨k, hle, hmb', hsize, hk⟩ := av1ObuDecode_ok h
    rw [if_pos hs] at hk
    have hleft : (mbufAdvance mb' hdr.size).left.length < n := by
      simp [mbufAdvance_left, hmb']
      omega
    have htwo : ¬ mbufGetLeft ctx.mbBuf < 2 := by
      rw [mbufGetLeft_eq, hmb]
      omega
    rw [updateCurrObuLoop]
    simp only [if_neg htwo]
    rw [hmb, h, queue]
    simp only []
    by_cases hallow : obuAllowedRtp hdr.type = true
    · rw [if_pos hallow, if_pos hallow]
      refine ⟨_, rfl, .cons (cons_ne_nil _ _) ?_ (le_refl _) ?_ rest, rfl, rfl⟩
      · simp [Obu.bytes, packetizedObuSize]
        omega
      · exact (if_pos rfl).trans (congrArg _ (wrap_left _))
    · simp [hallow, ih, hleft]

/-- The next unit that may be sent. -/
theorem updateCurrObu_holds (h : Bitstream ctx.mbBuf obus) :
    ∃ ctx', updateCurrObu ctx = some (.ok ctx') ∧ Holds ctx' (queue obus) ∧
      ctx'.mbPkt = ctx.mbPkt ∧ ctx'.maxlen = ctx.maxlen :=
  updateCurrObuLoop_holds h rfl (by rw [mbufGetLeft_eq]; exact lt_succ_self _)

variable {n free count : Nat}

/-- Writing `n` bytes of the current unit. -/
theorem copyFragment_spec (h : Holds ctx ((o, last) :: q)) (hpkt : ctx.mbPkt.pos = ctx.mbPkt.end_)
    (hn : 1 ≤ n) (hle : n ≤ o.length) (pfx : Bool) :
    ∃ ctx', copyFragment ctx pfx n = ctx' ∧
      ctx'.mbPkt.bytes = ctx.mbPkt.bytes ++ ((if pfx then encode 9 n else []) ++ o.take n) ∧
      ctx'.mbPkt.pos = ctx'.mbPkt.end_ ∧ ctx'.maxlen = ctx.maxlen ∧ ctx'.mbBuf = ctx.mbBuf ∧
      ctx'.currRemaining = o.length - n ∧ (n < o.length → Holds ctx' ((o.drop n, last) :: q)) := by
  refine ⟨_, rfl, ?_⟩
  obtain ⟨mbPkt, hmb⟩ : ∃ m, (if pfx then av1Leb128Encode ctx.mbPkt n else ctx.mbPkt) = m :=
    ⟨_, rfl⟩
  have hprefix : mbPkt.bytes = ctx.mbPkt.bytes ++ (if pfx then encode 9 n else []) ∧
      mbPkt.pos = mbPkt.end_ := by
    rw [← hmb]
    cases pfx with
    | true => exact leb128EncodeLoop_bytes 9 n hpkt
    | false => exact ⟨(append_nil _).symm, hpkt⟩
  obtain ⟨hbytes, hend⟩ := hprefix
  have hwrite : ∀ {mb : Mbuf} (xs : Bytes), mb.pos = mb.end_ →
      (mbufWriteMem mb xs).pos = (mbufWriteMem mb xs).end_ := by
    simp_all [mbufWriteMem_end]
  cases h with
  | @cons o obus hpos hrem hsize ho rest =>
    unfold copyFragment
    simp only [hmb]
    by_cases hfirst : ctx.currRemaining = packetizedObuSize ctx.currHdr
    · -- the header byte is still to be written
      rw [Context.pending, if_pos hfirst] at ho
      obtain ⟨n, rfl⟩ : ∃ m, n = m + 1 := ⟨n - 1, by omega⟩
      rw [if_pos hfirst, Nat.add_sub_cancel]
      have hhdr := hwrite [obuHdrByte ctx.currHdr.type] hend
      refine ⟨?_, hwrite _ hhdr, rfl, rfl, by simp only []; omega, fun hlt => ?_⟩
      · show (mbufWriteMem (mbufWriteMem mbPkt [obuHdrByte ctx.currHdr.type]) _).bytes = _
        rw [mbufWriteMem_bytes hhdr, mbufWriteMem_bytes hend, hbytes, ← ho, take_succ_cons]
        simp only [append_assoc, singleton_append]
      refine .cons ?_ ?_ ?_ ?_ rest
      · exact length_pos_iff.mp (by rw [length_drop]; omega)
      · simp
        omega
      · simp only []
        omega
      · rw [Context.pending, if_neg (by simp only []; omega), mbufAdvance_left, ← ho,
          drop_succ_cons]
    · rw [Context.pending, if_neg hfirst] at ho
      rw [if_neg hfirst]
      refine ⟨?_, hwrite _ hend, rfl, rfl, by simp only []; omega, fun hlt => ?_⟩
      · rw [mbufWriteMem_bytes hend, hbytes, ho, append_assoc]
      refine .cons ?_ ?_ ?_ ?_ rest
      · exact length_pos_iff.mp (by rw [length_drop]; omega)
      · simp
        omega
      · simp only []
        omega
      · rw [Context.pending, if_neg (by simp only []; omega), mbufAdvance_left, ho]

/-! ## The length of a fragment -/

theorem leb128SizeLoop_eq (n : Nat) : ∀ {bytes v : Nat}, v < 128 ^ (n + 1) →
    leb128SizeLoop n (bytes + 1) v = bytes + groups v := by
  induction n with
  | zero =>
    simp_all [groups_of_lt, leb128SizeLoop]
  | succ n ih =>
    intro bytes v h
    rw [leb128SizeLoop]
    by_cases hv : v ≥ 0x80
    · have hlt : v / 128 < 128 ^ (n + 1) := by
        omega
      rw [if_pos hv, shiftRight_seven, ih hlt, groups_of_ge hv]
      omega
    · rw [if_neg hv, groups_of_lt (by omega)]

theorem leb128CalcSize_eq {v : Nat} (h : v < 128 ^ 8) : leb128CalcSize v = groups v := by
  have heq : leb128SizeLoop 9 (0 + 1) v = 0 + groups v :=
    leb128SizeLoop_eq 9 (lt_of_lt_of_le h (by decide))
  exact heq.trans (zero_add _)

theorem calcFragmentLenWithPrefix_eq (hfree : free < 128 ^ 8) (hpos : 1 ≤ free) :
    calcFragmentLenWithPrefix ctx free
      = (fragLen free ctx.currRemaining, groups (fragLen free ctx.currRemaining)) := by
  unfold calcFragmentLenWithPrefix fragLen
  simp only []
  rw [leb128CalcSize_eq (show min ctx.currRemaining (free - 1) < 128 ^ 8 by omega),
    leb128CalcSize_eq (show free - groups (min ctx.currRemaining (free - 1)) < 128 ^ 8 by omega)]
  split <;> rfl

/-- `calc_fragment_len` follows the layout. -/
theorem calcFragmentLen_eq {elem : Nat} (hc : 1 ≤ ctx.currRemaining)
    (hpos : ctx.mbPkt.pos + free = ctx.maxlen) (hfree : free < 128 ^ 8) :
    calcFragmentLen ctx elem = .ok
      (if Full elem free then (false, 0)
       else if Prefixed elem free ctx.currRemaining ctx.mbBuf.left.isEmpty then
         (true, fragLen free ctx.currRemaining)
       else (false, min ctx.currRemaining free)) := by
  have hsub : ctx.maxlen - ctx.mbPkt.pos = free := by omega
  have hlast : (mbufGetLeft ctx.mbBuf == 0) = ctx.mbBuf.left.isEmpty := by
    grind [mbufGetLeft_eq]
  unfold calcFragmentLen
  simp only [hlast, hsub]
  rw [if_neg (by omega)]
  obtain ⟨last, hl⟩ : ∃ b, ctx.mbBuf.left.isEmpty = b := ⟨_, rfl⟩
  rw [hl]
  by_cases hempty : free < 1
  · rw [if_pos hempty, if_pos (.inl (by omega))]
  rw [if_neg hempty, calcFragmentLenWithPrefix_eq hfree (by omega)]
  simp only [maxObus]
  by_cases hmany : elem > 3
  · simp only [if_pos hmany, if_true]
    by_cases htwo : free < 2
    · rw [if_pos htwo, if_pos (.inr ⟨hmany, htwo⟩)]
    · rw [if_neg htwo, if_neg (by unfold Full; omega), if_pos (.inl hmany)]
  · have hnot : ¬ Full elem free := by
      unfold Full
      omega
    simp only [if_neg hmany, if_neg hnot]
    by_cases hroom : last = false ∧ free > ctx.currRemaining
    · obtain ⟨rfl, hroom⟩ := hroom
      obtain ⟨hone, -, -⟩ := fragLen_spec hc (show 2 ≤ free by omega)
      have hiff : fragLen free ctx.currRemaining + groups (fragLen free ctx.currRemaining)
            ≤ free - (if elem > 2 then 2 else 1)
          ↔ Prefixed elem free ctx.currRemaining false := by
        simp [Prefixed]
        omega
      simp only [Bool.not_false, Bool.true_and, decide_eq_true_eq, if_pos hroom, hiff]
      split
      · rw [if_neg (by omega), if_neg (by omega)]
      · rfl
    · have hno : ¬ Prefixed elem free ctx.currRemaining last := by
        simp_all [Prefixed]
      have hcond : (!last && decide (free > ctx.currRemaining)) = false := by
        cases last with
        | true => rfl
        | false => exact decide_eq_false (fun h => hroom ⟨rfl, h⟩)
      simp only [hcond, Bool.false_eq_true, if_false, if_neg hno]

/-! ## One packet -/

/-- One round of the loop that writes a fragment of `n` bytes. It goes on with the rest of
the unit, or with the next one. -/
theorem copyObusLoop_step {pfx : Bool} (m : Nat) (y : Bool) (h : Holds ctx ((o, last) :: q))
    (hpkt : ctx.mbPkt.pos = ctx.mbPkt.end_) (hn : 1 ≤ n) (hle : n ≤ o.length)
    (hlen : calcFragmentLen ctx (count + 1) = .ok (pfx, n)) :
    ∃ ctx', copyObusLoop (m + 1) { ctx, count, includePrefix := true, y } = copyObusLoop m
            { ctx := ctx', count := count + 1, includePrefix := pfx, y := decide (n < o.length) } ∧
      Holds ctx' (Queue.pop n ((o, last) :: q)) ∧
      ctx'.mbPkt.bytes = ctx.mbPkt.bytes ++ ((if pfx then encode 9 n else []) ++ o.take n) ∧
      ctx'.mbPkt.pos = ctx'.mbPkt.end_ ∧ ctx'.maxlen = ctx.maxlen := by
  obtain ⟨ctx₁, hcopy, hbytes, hend, hmax, hbuf, hrem, hholds⟩ :=
    copyFragment_spec h hpkt hn hle pfx
  cases h with
  | cons _ hcurr _ _ rest =>
    rw [copyObusLoop, pop_cons]
    simp only [hlen, hcopy]
    rw [if_pos ⟨by omega, trivial⟩, if_neg (by omega)]
    by_cases hlt : n < o.length
    · rw [if_neg (by omega), if_pos hlt, decide_eq_true hlt]
      exact ⟨ctx₁, rfl, hholds hlt, hbytes, hend, hmax⟩
    · obtain ⟨ctx', hupd, hholds', hpkt', hmax'⟩ := updateCurrObu_holds (hbuf ▸ rest)
      rw [if_pos (by omega), if_neg hlt, decide_eq_false hlt, hupd]
      exact ⟨ctx', rfl, hholds', by rw [hpkt', hbytes], by rw [hpkt', hend], hmax'.trans hmax⟩

/-- What the loop leaves behind when it has filled a packet from the queue. -/
structure Filled (st : CopyState) (free : Nat) (q : Queue) (st' : CopyState) : Prop where
  fill : ∃ elems bare y q' cuts, Fill (st.count + 1) free q elems bare y q' cuts ∧
    Holds st'.ctx q' ∧
    st'.ctx.mbPkt.bytes = st.ctx.mbPkt.bytes ++ payload bare elems ∧
    st'.y = (if elems = [] then st.y else y) ∧
    (if st'.count > maxObus ∨ st'.includePrefix = true then 0 else st'.count)
      = (if bare then st.count + elems.length else 0)
  maxlen : st'.ctx.maxlen = st.ctx.maxlen

/-- An element with a length field in front of what the rest of the loop writes. -/
theorem Filled.of_prefixed {ctx' : Context} {st' : CopyState} (y : Bool)
    (hf : ¬ Full (count + 1) free) (hp : Prefixed (count + 1) free o.length last)
    (hn : fragLen free o.length = n) (hlen : (o.take n).length = n)
    (hbytes : ctx'.mbPkt.bytes = ctx.mbPkt.bytes ++ (encode 9 n ++ o.take n))
    (hmax : ctx'.maxlen = ctx.maxlen)
    (h : Filled { ctx := ctx', count := count + 1, includePrefix := true,
                  y := decide (n < o.length) }
      (free - (n + groups n)) (Queue.pop n ((o, last) :: q)) st') :
    Filled { ctx, count, includePrefix := true, y } free ((o, last) :: q) st' := by
  obtain ⟨⟨elems, bare, y', q', cuts, hfill, hholds, hb, hy, hw⟩, hmaxlen⟩ := h
  refine ⟨?_, hmaxlen.trans hmax⟩
  cases elems with
  | nil =>
    obtain rfl := hfill.bare_of_nil
    refine ⟨_, false, _, q', 0, .final hf hp hn hfill, hholds, ?_, hy, hw⟩
    rw [hb, hbytes, payload, payload, if_neg Bool.false_ne_true, hlen, append_nil]
  | cons e es =>
    refine ⟨_, bare, y', q', _, .cons hf hp hn hfill, hholds, ?_, hy, ?_⟩
    · simp [payload, hb, hbytes, hlen]
    · grind

/-- The loop fills a packet as the layout does. -/
theorem copyObusLoop_filled (m : Nat) : ∀ {ctx : Context} {q : Queue} {count free : Nat} (y : Bool),
    Holds ctx q → ctx.mbPkt.pos = ctx.mbPkt.end_ → ctx.mbPkt.pos + free = ctx.maxlen →
    free < 128 ^ 8 → free < m → (q ≠ [] → count < 4 → ¬ Full (count + 1) free) →
    ∃ st', copyObusLoop m { ctx, count, includePrefix := true, y } = some (.ok st') ∧
      Filled { ctx, count, includePrefix := true, y } free q st' := by
  induction m with
  | zero => exact fun _ _ _ _ _ h => absurd h (not_lt_zero _)
  | succ m ih =>
    intro ctx q count free y hq hpkt hpos hfree hm hroom
    cases q with
    | nil =>
      have hzero : ctx.currRemaining = 0 := by
        cases hq with
        | nil h => exact h
      refine ⟨_, by rw [copyObusLoop, if_neg (by simp only [hzero]; omega)], ?_, rfl⟩
      exact ⟨[], false, false, [], 0, .done, hq, (append_nil _).symm, rfl, by simp⟩
    | cons e q =>
      obtain ⟨o, last⟩ := e
      have hc := length_pos_of_proper hq.proper
      obtain ⟨hrem, hlast⟩ : ctx.currRemaining = o.length ∧ ctx.mbBuf.left.isEmpty = last := by
        cases hq with
        | cons _ hrem _ _ rest => exact ⟨hrem, rest.isEmpty.symm⟩
      have hlen := @calcFragmentLen_eq ctx free (count + 1) (by omega) hpos hfree
      rw [hrem, hlast] at hlen
      by_cases hfull : Full (count + 1) free
      · -- only a packet of more than three elements gets full
        have hcount : ¬ count < 4 := fun h => hroom (cons_ne_nil _ _) h hfull
        have hw : count > maxObus := by
          unfold maxObus
          omega
        rw [if_pos hfull] at hlen
        refine ⟨{ ctx, count, includePrefix := false, y }, ?_, ?_, rfl⟩
        · simp [copyObusLoop, hlen]
          omega
        · exact ⟨[], false, false, _, 0, .full hfull (cons_ne_nil _ _), hq,
            (append_nil _).symm, rfl, if_pos (.inl hw)⟩
      · rw [if_neg hfull] at hlen
        by_cases hpre : Prefixed (count + 1) free o.length last
        · rw [if_pos hpre] at hlen
          generalize hn : fragLen free o.length = n
          rw [hn] at hlen
          obtain ⟨hone, hle, hfit, htake⟩ := fragment_fits hq.proper hfull hpre hn
          obtain ⟨ctx', hstep, hq', hbytes, hpkt', hmax⟩ :=
            copyObusLoop_step m y hq hpkt hone hle hlen
          have hgroups : (encode 9 n).length = groups n :=
            length_encode 9 (lt_of_lt_of_le (show n < 128 ^ 8 by omega) (by decide))
          have hpos' : ctx'.mbPkt.pos + (free - (n + groups n)) = ctx'.maxlen := by
            grind [length_bytes]
          obtain ⟨st', hloop, hfilled⟩ := ih (decide (n < o.length)) hq' hpkt' hpos' (by omega)
            (by omega) (fun _ hcount => not_full_after (by omega) hpre hn)
          exact ⟨st', hstep.trans hloop, hfilled.of_prefixed y hfull hpre hn htake hbytes hmax⟩
        · rw [if_neg hpre] at hlen
          generalize hn : min o.length free = n
          rw [hn] at hlen
          have hfew : ¬ 3 < count + 1 := fun h => hpre (.inl h)
          have hone : 1 ≤ free := by
            grind [Full]
          obtain ⟨m, rfl⟩ : ∃ k, m = k + 1 := ⟨m - 1, by omega⟩
          obtain ⟨ctx', hstep, hq', hbytes, -, hmax⟩ :=
            copyObusLoop_step (m + 1) y hq hpkt (by omega) (by omega) hlen
          refine ⟨{ ctx := ctx', count := count + 1, includePrefix := false
                    y := decide (n < o.length) }, ?_, ?_, hmax⟩
          · rw [hstep, copyObusLoop, if_neg (by simp)]
          refine ⟨_, true, _, _, 0, .bare hfull hpre hn, hq', hbytes, rfl, ?_⟩
          rw [if_neg (by simp only [maxObus, Bool.false_eq_true, or_false]; omega)]
          rfl

/-- One packet. -/
theorem copyObusToPacket_fill (h : Holds ctx q) (hq : q ≠ []) (hempty : ctx.mbPkt.bytes = [])
    (hpos : ctx.mbPkt.pos = 0) (hmax : 1 ≤ ctx.maxlen) (hlt : ctx.maxlen < 128 ^ 8) (z : Bool) :
    ∃ ctx' elems bare y q' cuts, copyObusToPacket ctx z
        = some (.ok (ctx', Spec.w ⟨elems, bare, y⟩, y)) ∧
      Fill 1 ctx.maxlen q elems bare y q' cuts ∧ Holds ctx' q' ∧
      ctx'.mbPkt.bytes = payload bare elems ∧ ctx'.maxlen = ctx.maxlen := by
  have hend : ctx.mbPkt.pos = ctx.mbPkt.end_ := by
    rw [hpos, ← length_bytes, hempty, length_nil]
  have hroom : q ≠ [] → 0 < 4 → ¬ Full (0 + 1) ctx.maxlen := by
    simp [Full]
    omega
  obtain ⟨st', hloop, ⟨elems, bare, y, q', cuts, hfill, hholds, hbytes, hy, hw⟩, hmaxlen⟩ :=
    copyObusLoop_filled (ctx.maxlen + 1) z h hend (by omega) hlt (lt_succ_self _) hroom
  refine ⟨st'.ctx, elems, bare, y, q', cuts, ?_, hfill, hholds, ?_, hmaxlen⟩
  · rw [if_neg (hfill.elems_ne_nil hq hmax)] at hy
    rw [copyObusToPacket, hloop]
    simp only [hw, hy, zero_add]
    rfl
  · rw [hbytes, hempty, nil_append]

/-! ## All packets -/

section Packetize

variable (marker : Bool) (rtpTs : UInt64)

theorem Packs.isEmpty {maxlen n : Nat} {ps : List Spec} (h : Packs maxlen q ps n) :
    ps.isEmpty = q.isEmpty := by
  cases h with
  | nil => rfl
  | cons hq _ _ => exact (isEmpty_eq_false_iff.mpr hq).symm

/-- The packets handed over are those of the layout. -/
theorem packetizeLoop_packs (n : Nat) : ∀ {ctx : Context} {q : Queue} (newp z : Bool),
    Holds ctx q → ctx.mbPkt.bytes = [] → ctx.mbPkt.pos = 0 → 1 ≤ ctx.maxlen → ctx.maxlen < 128 ^ 8 →
    q.total < n →
    ∃ ps cuts, Packs ctx.maxlen q ps cuts ∧
      packetizeLoop marker rtpTs (fun _ => none) n ctx newp z
        = some { err := none, newp := newp && ps.isEmpty,
                 packets := render marker rtpTs z newp ps } := by
  induction n with
  | zero => exact fun _ _ _ _ _ _ _ h => absurd h (not_lt_zero _)
  | succ n ih =>
    intro ctx q newp z h hempty hpos hmax hlt htotal
    rw [packetizeLoop]
    have hrem := h.remaining
    cases q with
    | nil =>
      have hzero : ctx.currRemaining = 0 := by simpa using hrem
      refine ⟨[], 0, .nil, ?_⟩
      rw [if_neg (by omega), render, isEmpty_nil, Bool.and_true]
    | cons e q =>
      have hne : e :: q ≠ [] := cons_ne_nil _ _
      have hmore : ctx.currRemaining > 0 := by
        grind
      obtain ⟨ctx', elems, bare, y, q', cuts, hcopy, hfill, hholds, hbytes, hmaxlen⟩ :=
        copyObusToPacket_fill h hne hempty hpos hmax hlt z
      have hless := (hfill.taken h.proper).1.2 (hfill.elems_ne_nil hne hmax)
      have hnext : Holds { ctx' with mbPkt := mbufRewind (mbufSetPos ctx'.mbPkt 0) } q' := by
        cases hholds with
        | nil h => exact .nil h
        | cons h1 h2 h3 h4 h5 => exact .cons h1 h2 h3 h4 h5
      obtain ⟨ps, rest, hpacks, hloop⟩ := ih false y hnext rfl rfl (by rw [hmaxlen]; exact hmax)
        (by rw [hmaxlen]; exact hlt) (by omega)
      have hpld : (mbufSetPos ctx'.mbPkt 0).left = payload bare elems := by
        rw [left_eq, mbufSetPos_bytes, mbufSetPos_pos, drop_zero, hbytes]
      simp only [hmaxlen] at hpacks
      refine ⟨⟨elems, bare, y⟩ :: ps, cuts + rest, .cons hne hfill hpacks, ?_⟩
      rw [if_pos hmore, hcopy]
      simp only [hloop, hpld, hholds.remaining, hpacks.isEmpty, render, Bool.false_and,
        isEmpty_cons, Bool.and_false]

end Packetize

end LibRe.AV1
