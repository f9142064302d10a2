/-
LibRe.Sip.Strans — SIP server transactions (`src/sip/strans.c`).

`act` is what one event does to the table of transactions: an incoming request is looked
up by its branch, an ACK among the INVITE transactions, a CANCEL among all but CANCEL
transactions, and a request without a tag in To also by its Call-ID. What nothing
absorbs is passed on to the users of the stack.

Translation notes. Both hash tables hold the same transactions and their buckets keep the
order in which these were added, so a lookup is a search through the table. `held` says
that a user has the pointer to the transaction, which it needs for a reply and loses with
a final one. What `sip_send` answers to a reply is given with the event. What a user does
in a handler comes as further events. A response is its text.
-/
import LibRe.Lib.Table
import LibRe.Mbuf.Mbuf
import LibRe.Sa.Sa
import LibRe.Sip.Msg

namespace LibRe.Sip.Strans

/-- `enum state` -/
inductive State where
  | TRYING | PROCEEDING | ACCEPTED | COMPLETED | CONFIRMED
  deriving DecidableEq, Repr

/-- `struct sip_strans` -/
structure SipStrans where
  tmr : Option Nat
  tmrg : Option Nat
  dst : Sa
  msg : SipMsg
  cancelMsg : Option SipMsg
  mb : Option String
  cancelh : Bool
  state : State
  txc : Nat
  held : Bool
  deriving DecidableEq, Repr

variable (sts : Table SipStrans) (id : Nat) (msg : SipMsg) (st : SipStrans)

/-- `st->invite` -/
def SipStrans.invite : Bool := st.msg.met = "INVITE"

/-- A response that a user sends with a transaction. -/
structure Response where
  scode : Nat
  dst : Sa
  mb : String
  deriving DecidableEq, Repr

/-- What is to be seen of the transactions: a request passed on, a reply without a
transaction, a response of a user sent by transaction `id`, the buffer of a transaction
sent again, and a call of a cancel handler. -/
inductive Out where
  | passed (msg : SipMsg)
  | reply (msg : SipMsg) (scode : Nat) (reason : String)
  | response (id : Nat) (r : Response)
  | resend (id : Nat) (dst : Sa) (mb : String)
  | cancelh (id : Nat)
  deriving DecidableEq, Repr

/-- `strans_cmp` -/
def stransCmp (msg1 msg2 : SipMsg) : Bool :=
  msg1.viaBranch = msg2.viaBranch ∧ msg1.viaSentby = msg2.viaSentby

/-- `cmp_handler` -/
def cmpHandler : Bool := stransCmp st.msg msg ∧ st.msg.cseqMet = msg.cseqMet

/-- `cmp_ack_handler` -/
def cmpAckHandler : Bool := stransCmp st.msg msg ∧ st.msg.cseqMet = "INVITE"

/-- `cmp_cancel_handler` -/
def cmpCancelHandler : Bool := stransCmp st.msg msg ∧ st.msg.cseqMet ≠ "CANCEL"

/-- `cmp_merge_handler` -/
def cmpMergeHandler : Bool :=
  st.msg.cseqMet = msg.cseqMet ∧ st.msg.cseqNum = msg.cseqNum ∧ st.msg.callid = msg.callid ∧
    st.msg.fromTag = msg.fromTag ∧ st.msg.ruri = msg.ruri

/-- `hash_lookup` -/
def hashLookup (cmp : SipStrans → Bool) : Option (Nat × SipStrans) :=
  sts.items.find? fun item => cmp item.2

/-- `sip_send` of `st->mb` to `st->dst`. -/
def resend : List Out := (st.mb.map fun mb => .resend id st.dst mb).toList

/-- `sip_reply`: an ACK is not replied to. -/
def sipReply (scode : Nat) (reason : String) : List Out :=
  if msg.met = "ACK" then [] else [.reply msg scode reason]

/-- `retransmit_handler` -/
def retransmitHandler : SipStrans × List Out :=
  ({ st with txc := st.txc + 1, tmrg := some (min (sipT1 <<< (st.txc + 1)) sipT2) }, resend id st)

/-! ## Requests -/

/-- `ack_handler`: whether the ACK is absorbed. -/
def ackHandler : Bool × Table SipStrans :=
  match hashLookup sts (cmpAckHandler msg) with
  | none => (false, sts)
  | some (id, st) =>
    match st.state with
    -- make sure ACKs for 2xx are passed to TU
    | .ACCEPTED => (false, sts)
    | .COMPLETED =>
      if sipTranspReliable st.msg.tp then (true, sts.set id none)
      else (true, sts.set id (some
        { st with tmr := some sipT4, tmrg := none, state := .CONFIRMED }))
    | _ => (true, sts)

/-- `cancel_handler` -/
def cancelHandler : Bool × Table SipStrans × List Out :=
  match hashLookup sts (cmpCancelHandler msg) with
  | none => (false, sts, [])
  | some (id, st) =>
    let msg := { msg with tag := st.msg.tag }
    let outs := sipReply msg 200 "OK"
    match st.state with
    | .TRYING | .PROCEEDING =>
      (true, sts.set id (some { st with cancelMsg := some msg }),
        outs ++ if st.cancelh then [.cancelh id] else [])
    | _ => (true, sts, outs)

/-- `request_handler`: whether the request is absorbed. -/
def requestHandler : Bool × Table SipStrans × List Out :=
  if msg.met = "ACK" then
    let (handled, sts) := ackHandler sts msg
    (handled, sts, [])
  else
    match hashLookup sts (cmpHandler msg) with
    | some (id, st) =>
      match st.state with
      | .PROCEEDING | .COMPLETED => (true, sts, resend id st)
      | _ => (true, sts, [])
    | none =>
      if msg.toTag = "" ∧ (hashLookup sts (cmpMergeHandler msg)).isSome then
        (true, sts, sipReply msg 482 "Loop Detected")
      else if msg.met = "CANCEL" then cancelHandler sts msg
      else (false, sts, [])

/-! ## Calls by users -/

/-- `sip_strans_alloc`; `cancelh` says whether there is a cancel handler. -/
def sipStransAlloc (cancelh : Bool) : SipStrans where
  tmr := none
  tmrg := none
  dst := .unspec
  msg := msg
  cancelMsg := none
  mb := none
  cancelh := cancelh
  state := .TRYING
  txc := 0
  held := true

/-- The state after a response has been sent, the second half of `sip_strans_reply`. -/
def replied (scode : Nat) : Option SipStrans :=
  if st.invite then
    if scode < 200 then some { st with state := .PROCEEDING }
    else if scode < 300 then some { st with tmr := some (64 * sipT1), state := .ACCEPTED }
    else
      some
        { st with
          tmr := some (64 * sipT1)
          state := .COMPLETED
          tmrg := if sipTranspReliable st.msg.tp then st.tmrg else some sipT1 }
  else if scode < 200 then some { st with state := .PROCEEDING }
  else if sipTranspReliable st.msg.tp then none
  else some { st with tmr := some (64 * sipT1), state := .COMPLETED }

/-- `sip_strans_reply` with transaction `id`; `err` is the answer of `sip_send`. -/
def sipStransReply (r : Response) (err : Option Errno) :
    Table SipStrans × List Out :=
  let st := { st with mb := some r.mb, dst := r.dst, held := r.scode < 200 }
  match err with
  | some _ => (sts.set id none, [])
  | none => (sts.set id (replied st r.scode), [.response id r])

/-! ## Events -/

/-- A request arrives, a user makes a transaction, replies with one it has or with a new
one (`stp` says whether it asked for the pointer), a timer fires, or a user lets go of a
transaction. -/
inductive Event where
  | recv (msg : SipMsg)
  | alloc (msg : SipMsg) (cancelh : Bool)
  | reply (id : Nat) (r : Response) (err : Option Errno)
  | replyNew (msg : SipMsg) (stp : Bool) (r : Response) (err : Option Errno)
  | tmr (id : Nat)
  | tmrg (id : Nat)
  | drop (id : Nat)
  deriving DecidableEq, Repr

/-- What an event does to the table, and what is to be seen of it. -/
def act : Event → Table SipStrans × List Out
  | .recv msg =>
    let (handled, sts, outs) := requestHandler sts msg
    (sts, if handled then outs else outs ++ [.passed msg])
  | .alloc msg cancelh => (sts.add (sipStransAlloc msg cancelh), [])
  | .reply id r err =>
    match sts.get id with
    | some st => if st.held then sipStransReply sts id st r err else (sts, [])
    | none => (sts, [])
  | .replyNew msg stp r err =>
    if r.scode < 200 ∧ ¬ stp then (sts, [])
    else
      let st := sipStransAlloc msg false
      sipStransReply (sts.add st) sts.fresh st r err
  | .tmr id =>
    match sts.get id with
    | some st => if st.tmr.isSome then (sts.set id none, []) else (sts, [])
    | none => (sts, [])
  | .tmrg id =>
    match sts.get id with
    | some st =>
      if st.tmrg.isSome then
        let (st, outs) := retransmitHandler id st
        (sts.set id (some st), outs)
      else (sts, [])
    | none => (sts, [])
  | .drop id =>
    match sts.get id with
    | some st => if st.held then (sts.set id none, []) else (sts, [])
    | none => (sts, [])

/-- The transactions of a stack, and all that was seen of them. -/
structure Stack where
  sts : Table SipStrans
  log : List Out

def step (s : Stack) (e : Event) : Stack where
  sts := (act s.sts e).1
  log := s.log ++ (act s.sts e).2

/-- A stack without transactions. -/
def start : Stack where
  sts := Table.empty
  log := []

end LibRe.Sip.Strans
