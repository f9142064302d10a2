/-
LibRe.Sip.Ctrans — SIP client transactions (`src/sip/ctrans.c`).

A transaction sends a request and waits for responses to it. `ctransStep` is what one
event does to one transaction, `step` what it does to the stack with all of them: a
response goes to the first transaction with its branch and method, and cancelling an
INVITE makes a second transaction for the CANCEL with the same branch.

Translation notes. A transaction that has been freed is not in the table any more. The
request in `ct->mb` is the message it decodes to, so `request_copy` cannot fail. What
`sip_transp_send` answers is given with the event that calls it. The response handler is
a call in the log; what a user does in it comes as further events. Timers carry the time
they were started with, and only a timer that runs can fire. The buckets of the hash table
keep the order in which transactions were added, and equal branches are in one bucket.
-/
import LibRe.Lib.Table
import LibRe.Mbuf.Mbuf
import LibRe.Sip.Msg

namespace LibRe.Sip.Ctrans

/-- `enum state` -/
inductive State where
  | TRYING | CALLING | PROCEEDING | COMPLETED
  deriving DecidableEq, Repr

/-- `COMPLETE_WAIT` -/
def completeWait : Nat := 32000

/-- `struct sip_ctrans` -/
structure SipCtrans where
  tmr : Option Nat
  tmre : Option Nat
  req : SipMsg
  mbAck : Option String
  met : String
  branch : String
  tp : SipTransp
  state : State
  txc : Nat
  deriving DecidableEq, Repr

variable (software : Option String) (ct : SipCtrans)

/-- `ct->invite` -/
def SipCtrans.invite : Bool := ct.met = "INVITE"

/-- A call of `ct->resph`. -/
structure RespCall where
  err : Option Errno
  msg : Option SipMsg
  deriving DecidableEq, Repr

/-- What a transaction does: it calls its handler, sends its request again, or sends an
ACK. -/
inductive Out where
  | resph (call : RespCall)
  | send
  | ack (mb : String)
  deriving DecidableEq, Repr

/-- The calls of the handler among what a transaction did. -/
def respCalls (outs : List Out) : List RespCall :=
  outs.filterMap fun
    | .resph call => some call
    | _ => none

/-- `request_copy` -/
def requestCopy (req : SipMsg) (met : String) (resp : Option SipMsg) : String :=
  met ++ " " ++ req.ruri ++ " SIP/2.0\r\n" ++
  "Via: " ++ req.viaVal ++ "\r\n" ++
  "Max-Forwards: 70\r\n" ++
  String.join (req.routes.map fun route => "Route: " ++ route ++ "\r\n") ++
  "To: " ++ (match resp with
    | some resp => resp.toVal
    | none => req.toVal) ++ "\r\n" ++
  "From: " ++ req.fromVal ++ "\r\n" ++
  "Call-ID: " ++ req.callid ++ "\r\n" ++
  "CSeq: " ++ toString req.cseqNum ++ " " ++ met ++ "\r\n" ++
  (match software with
    | some software => "User-Agent: " ++ software ++ "\r\n"
    | none => "") ++
  "Content-Length: 0\r\n\r\n"

/-- `terminate` -/
def terminate (err : Errno) : List Out :=
  match ct.state with
  | .TRYING | .CALLING | .PROCEEDING => [.resph { err := some err, msg := none }]
  | .COMPLETED => []

/-- `transport_handler` -/
def transportHandler (err : Errno) : Option SipCtrans × List Out := (none, terminate ct err)

/-- `tmr_handler` -/
def tmrHandler : Option SipCtrans × List Out := (none, terminate ct .ETIMEDOUT)

/-- The time to the next retransmission; in `COMPLETED` there is none. -/
def retransmitTimeout : Option Nat :=
  match ct.state with
  | .TRYING => some (min (sipT1 <<< ct.txc) sipT2)
  | .CALLING => some (sipT1 <<< ct.txc)
  | .PROCEEDING => some sipT2
  | .COMPLETED => none

/-- `retransmit_handler`; `err` is the answer of `sip_transp_send`. -/
def retransmitHandler (err : Option Errno) : Option SipCtrans × List Out :=
  let ct := { ct with txc := ct.txc + 1, tmre := none }
  match retransmitTimeout ct with
  | none => (some ct, [])
  | some timeout =>
    let ct := { ct with tmre := some timeout }
    match err with
    | some err => (none, .send :: terminate ct err)
    | none => (some ct, [.send])

/-- `ct->resph(0, msg, ct->arg)` -/
def respond (msg : SipMsg) : Out := .resph { err := none, msg := some msg }

/-- The case `PROCEEDING` of `invite_response`, into which `CALLING` falls through. -/
def inviteProceeding (msg : SipMsg) : Option SipCtrans × List Out :=
  if msg.scode < 200 then (some { ct with state := .PROCEEDING }, [respond msg])
  else if msg.scode < 300 then (none, [respond msg])
  else
    let mbAck := requestCopy software ct.req "ACK" (some msg)
    let ct := { ct with state := .COMPLETED, mbAck := some mbAck }
    if sipTranspReliable ct.tp then (none, [.ack mbAck, respond msg])
    else (some { ct with tmr := some completeWait }, [.ack mbAck, respond msg])

/-- `invite_response` -/
def inviteResponse (msg : SipMsg) : Option SipCtrans × List Out :=
  match ct.state with
  | .CALLING => inviteProceeding software { ct with tmr := none, tmre := none } msg
  | .PROCEEDING => inviteProceeding software ct msg
  | .COMPLETED =>
    if msg.scode < 300 then (some ct, []) else (some ct, (ct.mbAck.map Out.ack).toList)
  | .TRYING => (some ct, [])

/-- `response_handler` for the transaction it has found. -/
def responseHandler (msg : SipMsg) : Option SipCtrans × List Out :=
  if ct.invite then inviteResponse software ct msg
  else
    match ct.state with
    | .TRYING | .PROCEEDING =>
      if msg.scode < 200 then (some { ct with state := .PROCEEDING }, [respond msg])
      else
        let ct := { ct with state := .COMPLETED }
        if sipTranspReliable ct.tp then (none, [respond msg])
        else (some { ct with tmr := some sipT4, tmre := none }, [respond msg])
    | _ => (some ct, [])

/-- The transaction that `sip_ctrans_request` makes, if the request could be sent. -/
def sipCtransRequest (tp : SipTransp) (met branch : String) (req : SipMsg) : SipCtrans where
  tmr := some (64 * sipT1)
  tmre := if sipTranspReliable tp then none else some sipT1
  req := req
  mbAck := none
  met := met
  branch := branch
  tp := tp
  state := if met = "INVITE" then .CALLING else .TRYING
  txc := 0

/-- `sip_ctrans_cancel` up to the new transaction: whether there is to be one, and the
error if not. -/
def sipCtransCancel : Except (Option Errno) SipCtrans :=
  if ¬ ct.invite then .error none
  else
    match ct.state with
    | .PROCEEDING => .ok { ct with tmr := some (64 * sipT1) }
    | _ => .error (some .EPROTO)

/-- What happens to a transaction, apart from calls by its user. -/
inductive CtEvent where
  | response (msg : SipMsg)
  | tmr
  | retransmit (err : Option Errno)
  | transport (err : Errno)
  deriving DecidableEq, Repr

/-- One event at one transaction. -/
def ctransStep : CtEvent → Option SipCtrans × List Out
  | .response msg => responseHandler software ct msg
  | .tmr => if ct.tmr.isSome then tmrHandler ct else (some ct, [])
  | .retransmit err => if ct.tmre.isSome then retransmitHandler ct err else (some ct, [])
  | .transport err => transportHandler ct err

/-! ## The table of transactions -/

/-- `sip->ht_ctrans`, and all that the transactions have done. -/
structure Stack where
  software : Option String
  cts : Table SipCtrans
  log : List (Nat × Out)

/-- `cmp_handler` -/
def cmpHandler (msg : SipMsg) (ct : SipCtrans) : Bool :=
  msg.viaBranch = ct.branch ∧ msg.cseqMet = ct.met

/-- Events at the stack. A user may let go of a transaction (`drop`). -/
inductive Event where
  | request (tp : SipTransp) (met branch : String) (req : SipMsg) (err : Option Errno)
  | response (msg : SipMsg)
  | tmr (id : Nat)
  | retransmit (id : Nat) (err : Option Errno)
  | transport (id : Nat) (err : Errno)
  | cancel (id : Nat) (err : Option Errno)
  | drop (id : Nat)
  deriving DecidableEq, Repr

/-- An event at one transaction. -/
def Stack.apply (s : Stack) (id : Nat) (e : CtEvent) : Stack :=
  match s.cts.get id with
  | none => s
  | some ct =>
    let (ct, outs) := ctransStep s.software ct e
    { s with cts := s.cts.set id ct, log := s.log ++ outs.map fun out => (id, out) }

/-- `sip_ctrans_request`, with the answer of `sip_transp_send`. -/
def Stack.request (s : Stack) (tp : SipTransp) (met branch : String) (req : SipMsg)
    (err : Option Errno) : Stack :=
  match err with
  | some _ => s
  | none => { s with cts := s.cts.add (sipCtransRequest tp met branch req) }

/-- The transaction that a response belongs to. -/
def Stack.lookup (s : Stack) (msg : SipMsg) : Option (Nat × SipCtrans) :=
  s.cts.items.find? fun item => cmpHandler msg item.2

/-- What an event does. -/
def step (s : Stack) : Event → Stack
  | .request tp met branch req err => s.request tp met branch req err
  | .response msg =>
    match s.lookup msg with
    | none => s
    | some (id, _) => s.apply id (.response msg)
  | .tmr id => s.apply id .tmr
  | .retransmit id err => s.apply id (.retransmit err)
  | .transport id err => s.apply id (.transport err)
  | .cancel id err =>
    match (s.cts.get id).map sipCtransCancel with
    | some (.ok ct) =>
      -- the request of the new transaction is a copy of the INVITE
      { s with cts := s.cts.set id (some ct) }.request ct.tp "CANCEL" ct.branch
        { ct.req with met := "CANCEL", cseqMet := "CANCEL" } err
    | _ => s
  | .drop id => { s with cts := s.cts.set id none }

/-- A stack without transactions. -/
def start : Stack where
  software := software
  cts := Table.empty
  log := []

end LibRe.Sip.Ctrans
