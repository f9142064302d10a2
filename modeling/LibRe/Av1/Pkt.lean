/-
LibRe.Av1.Pkt — the AV1 packetizer (`src/av1/pkt.c`) and the depacketizer of
`test/av1.c` that its packets are tested with.

The three loops of the packetizer take a bound on their number of rounds and
give `none` when it is too small; the callers pass the bounds that the results
of `LibRe.Av1.PktTheorems` show to be large enough. Arguments that may not be
NULL are not. The packet handler is a function of the packet; the packets it
was called with are part of the outcome.
-/
import LibRe.Av1.Obu

namespace LibRe.AV1

/-- `MAX_OBUS`: the largest number of elements the W field can tell. -/
def maxObus : Nat := 3

/-- `struct av1_context`. -/
structure Context where
  mbPkt : Mbuf
  currObu : Mbuf
  mbBuf : Mbuf
  currHdr : ObuHdr
  currRemaining : Nat
  maxlen : Nat

/-- The loop of `leb128_calc_size`. -/
def leb128SizeLoop : Nat → Nat → Nat → Nat
  | 0, bytes, _ => bytes
  | n + 1, bytes, value =>
    if value ≥ 0x80 then leb128SizeLoop n (bytes + 1) (value >>> 7) else bytes

/-- `leb128_calc_size`; nine rounds are enough for a 64-bit value. -/
def leb128CalcSize (value : Nat) : Nat := leb128SizeLoop 9 1 value

/-- `aggr_hdr_encode`. -/
def aggrHdrEncode (z y : Bool) (w : Nat) (n : Bool) : UInt8 :=
  UInt8.ofNat (z.toNat <<< 7 ||| y.toNat <<< 6 ||| w <<< 4 ||| n.toNat <<< 3)

/-- `packetized_obu_size`. -/
def packetizedObuSize (hdr : ObuHdr) : Nat := 1 + hdr.size

/-- A buffer around the first bytes of another one. -/
def wrap (bytes : Bytes) : Mbuf :=
  { buf := bytes, pos := 0, end_ := bytes.length, end_le := le_refl _ }

/-- The loop of `update_curr_obu`. -/
def updateCurrObuLoop : Nat → Context → Option (Except Errno Context)
  | 0, _ => none
  | n + 1, ctx =>
    let remaining := mbufGetLeft ctx.mbBuf
    if remaining < 2 then
      some (.ok { ctx with
        mbBuf := if remaining > 0 then mbufAdvance ctx.mbBuf remaining else ctx.mbBuf
        currObu := mbufSetPos ctx.currObu ctx.currObu.end_
        currRemaining := 0 })
    else
      match av1ObuDecode ctx.mbBuf with
      | .error e => some (.error e)
      | .ok (hdr, mbBuf) =>
        let ctx := { ctx with
          currHdr := hdr
          currObu := wrap (mbBuf.left.take hdr.size)
          currRemaining := packetizedObuSize hdr
          mbBuf := mbufAdvance mbBuf hdr.size }
        if obuAllowedRtp hdr.type then some (.ok ctx) else updateCurrObuLoop n ctx

/-- `update_curr_obu`: every round but the last takes a byte from the buffer. -/
def updateCurrObu (ctx : Context) : Option (Except Errno Context) :=
  updateCurrObuLoop (mbufGetLeft ctx.mbBuf + 1) ctx

/-- `copy_fragment`. -/
def copyFragment (ctx : Context) (includePrefix : Bool) (lenToCopy : Nat) : Context :=
  let ctx :=
    { ctx with mbPkt := if includePrefix then av1Leb128Encode ctx.mbPkt lenToCopy else ctx.mbPkt }
  if ctx.currRemaining = packetizedObuSize ctx.currHdr then
    -- the header goes first, without its size bit
    let obuHdr := (ctx.currHdr.type &&& (0xf : UInt8)) <<< (3 : UInt8)
    let lenToCopy := lenToCopy - 1
    { ctx with
      mbPkt := mbufWriteMem (mbufWriteU8 ctx.mbPkt obuHdr) (ctx.currObu.left.take lenToCopy)
      currObu := mbufAdvance ctx.currObu lenToCopy
      currRemaining := ctx.currRemaining - 1 - lenToCopy }
  else
    { ctx with
      mbPkt := mbufWriteMem ctx.mbPkt (ctx.currObu.left.take lenToCopy)
      currObu := mbufAdvance ctx.currObu lenToCopy
      currRemaining := ctx.currRemaining - lenToCopy }

/-- `calc_fragment_len_with_prefix`: the length of the fragment and of its prefix. -/
def calcFragmentLenWithPrefix (ctx : Context) (remainingPkt : Nat) : Nat × Nat :=
  let lenToCopy := min ctx.currRemaining (remainingPkt - 1)
  let prefixLen := leb128CalcSize lenToCopy
  if lenToCopy + prefixLen > remainingPkt then
    (remainingPkt - prefixLen, leb128CalcSize (remainingPkt - prefixLen))
  else (lenToCopy, prefixLen)

/-- `calc_fragment_len`: whether the fragment has a prefix, and its length. -/
def calcFragmentLen (ctx : Context) (count : Nat) : Except Errno (Bool × Nat) :=
  let isLastObu := mbufGetLeft ctx.mbBuf == 0
  let pktLen := ctx.mbPkt.pos
  if pktLen > ctx.maxlen then .error .ERANGE
  else
    let remainingPkt := ctx.maxlen - pktLen
    if remainingPkt < 1 then .ok (false, 0)
    else
      let (includePrefix, lenToCopy) :=
        if count > maxObus then (true, 0)
        else if !isLastObu && decide (remainingPkt > ctx.currRemaining) then
          let nextFragment := if count > 2 then 2 else 1
          let (lenToCopy, fragmentSizeLen) := calcFragmentLenWithPrefix ctx remainingPkt
          (decide (lenToCopy + fragmentSizeLen ≤ remainingPkt - nextFragment), lenToCopy)
        else (false, 0)
      if includePrefix then
        if remainingPkt < 2 then .ok (false, 0)
        else if lenToCopy = 0 then .ok (true, (calcFragmentLenWithPrefix ctx remainingPkt).1)
        else .ok (true, lenToCopy)
      else .ok (false, min ctx.currRemaining remainingPkt)

/-- What `copy_obus_to_packet` keeps from round to round. -/
structure CopyState where
  ctx : Context
  count : Nat
  includePrefix : Bool
  y : Bool

/-- The loop of `copy_obus_to_packet`. -/
def copyObusLoop : Nat → CopyState → Option (Except Errno CopyState)
  | 0, _ => none
  | n + 1, st =>
    if st.ctx.currRemaining > 0 ∧ st.includePrefix = true then
      match calcFragmentLen st.ctx (st.count + 1) with
      | .error e => some (.error e)
      | .ok (includePrefix, lenToCopy) =>
        if lenToCopy = 0 then some (.ok { st with includePrefix })
        else
          let ctx := copyFragment st.ctx includePrefix lenToCopy
          if ctx.currRemaining = 0 then
            match updateCurrObu ctx with
            | none => none
            | some (.error e) => some (.error e)
            | some (.ok ctx) =>
              copyObusLoop n { ctx, count := st.count + 1, includePrefix, y := false }
          else
            copyObusLoop n { ctx, count := st.count + 1, includePrefix, y := true }
    else some (.ok st)

/-- `copy_obus_to_packet`: the context, W and Y. Every round but the last writes
a byte to the packet. -/
def copyObusToPacket (ctx : Context) (y : Bool) : Option (Except Errno (Context × Nat × Bool)) :=
  match copyObusLoop (ctx.maxlen + 1) { ctx, count := 0, includePrefix := true, y } with
  | none => none
  | some (.error e) => some (.error e)
  | some (.ok st) =>
    some (.ok (st.ctx, if st.count > maxObus ∨ st.includePrefix = true then 0 else st.count, st.y))

/-- A packet as the handler gets it. -/
structure Packet where
  marker : Bool
  rtpTs : UInt64
  hdr : UInt8
  pld : Bytes
  deriving DecidableEq, Repr

/-- What a call of `av1_packetize` does: the return code, the flag behind `newp`
and the packets handed over. -/
structure Outcome where
  err : Option Errno
  newp : Bool
  packets : List Packet
  deriving DecidableEq, Repr

section Packetize

variable (marker : Bool) (rtpTs : UInt64) (pkth : Packet → Option Errno)

/-- The loop of `av1_packetize`. -/
def packetizeLoop : Nat → Context → Bool → Bool → Option Outcome
  | 0, _, _, _ => none
  | n + 1, ctx, newp, continuing =>
    if ctx.currRemaining > 0 then
      match copyObusToPacket ctx continuing with
      | none => none
      | some (.error e) => some { err := some e, newp, packets := [] }
      | some (.ok (ctx, w, y)) =>
        let mbPkt := mbufSetPos ctx.mbPkt 0
        let pkt : Packet :=
          { marker := marker && ctx.currRemaining == 0, rtpTs
            hdr := aggrHdrEncode continuing y w newp, pld := mbPkt.left }
        match pkth pkt with
        | some e => some { err := some e, newp := false, packets := [pkt] }
        | none =>
          match packetizeLoop n { ctx with mbPkt := mbufRewind mbPkt } false y with
          | none => none
          | some o => some { o with packets := pkt :: o.packets }
    else some { err := none, newp, packets := [] }

/-- `av1_packetize`. Every packet takes a byte of the bitstream. -/
def av1Packetize (newp : Bool) (buf : Bytes) (maxlen : Nat) : Option Outcome :=
  if buf.length = 0 ∨ maxlen < 2 then some { err := some .EINVAL, newp, packets := [] }
  else
    match mbufAlloc (maxlen - 1) with
    | none => some { err := some .ENOMEM, newp, packets := [] }
    | some mbPkt =>
      let ctx : Context :=
        { mbPkt, mbBuf := wrap buf, currObu := wrap []
          currHdr := { type := 0, x := false, s := false, size := 0 }
          currRemaining := 0, maxlen := maxlen - 1 }
      match updateCurrObu ctx with
      | none => none
      | some (.error e) => some { err := some e, newp, packets := [] }
      | some (.ok ctx) => packetizeLoop marker rtpTs pkth (buf.length + 1) ctx newp false

end Packetize

/-! ## Reassembly -/

/-- What the depacketizer of the test has: whole units, and the bytes of the one
that is open. -/
structure Depack where
  obus : List Bytes
  cur : Bytes
  deriving DecidableEq, Repr

/-- The size of element number `count`, from its length field or from what is left. -/
def handlerElem (hdr : AggrHdr) (count : Nat) (mb : Mbuf) : Option (Nat × Mbuf) :=
  if hdr.w.toNat = 0 ∨ count < hdr.w.toNat then
    match av1Leb128Decode mb with
    | .error _ => none
    | .ok (size, mb) => if size ≤ mbufGetLeft mb then some (size, mb) else none
  else some (mbufGetLeft mb, mb)

/-- The loop of `av1_packet_handler`, with `count` elements behind it. -/
def handlerLoop (hdr : AggrHdr) : Nat → Nat → Mbuf → Depack → Option (Nat × Depack)
  | 0, _, _, _ => none
  | n + 1, count, mb, d =>
    if mbufGetLeft mb > 0 then
      match handlerElem hdr (count + 1) mb with
      | none => none
      | some (size, mb) =>
        let cur := d.cur ++ mb.left.take size
        let mb := mbufAdvance mb size
        handlerLoop hdr n (count + 1) mb
          (if mbufGetLeft mb > 0 ∨ hdr.y = false then { obus := d.obus ++ [cur], cur := [] }
           else { d with cur })
    else some (count, d)

/-- `av1_packet_handler`, without the counts of markers and N bits. A failed
assertion is `none`. -/
def packetHandler (d : Depack) (pkt : Packet) : Option Depack :=
  match av1AggrHdrDecode (wrap (pkt.hdr :: pkt.pld)) with
  | .error _ => none
  | .ok (hdr, mb) =>
    if hdr.z = d.cur.isEmpty then none
    else
      match handlerLoop hdr (pkt.pld.length + 1) 0 mb d with
      | none => none
      | some (count, d) => if hdr.w.toNat = 0 ∨ count = hdr.w.toNat then some d else none

/-- All packets, in order. -/
def depacketize : Depack → List Packet → Option Depack
  | d, [] => some d
  | d, pkt :: pkts =>
    match packetHandler d pkt with
    | none => none
    | some d => depacketize d pkts

end LibRe.AV1
