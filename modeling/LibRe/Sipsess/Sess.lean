/-
LibRe.Sipsess.Sess — SIP sessions (`src/sipsess`).

A session answers the INVITEs of its peer, with reliable provisional responses that want a
PRACK and 2xx responses that want an ACK, and sends re-INVITE, UPDATE and PRACK requests of
its own. One negotiation state serves all of them, and one counter the provisional
responses. A request that is to be repeated later waits for a timer with an untyped
argument: that of a PRACK gets the request where its handler takes the PRACK.

Translation notes. What the application, the transport and the authentication answer is
given with each event, as `Env`. A session that is freed goes on, without harm to what is
said of it. Of a response only its number, its timers and what it carried is kept; `offer`,
whether that was an offer, is not in the source, and neither is the log. The BYE of a
session that ends is sent without an error. INFO, REFER, dialogs, headers and
retransmissions are left out, and with the dialog the check that it is established before
a session is modified.
-/
import LibRe.Lib.Machine
import LibRe.Lib.Table
import LibRe.Mbuf.Mbuf

namespace LibRe.Sipsess

open Machine

/-- `enum sdp_neg_state` -/
inductive NegState where
  | NONE | LOCAL_OFFER | REMOTE_OFFER | PREVIEW_ANSWER | DONE
  deriving DecidableEq, Repr

/-- `enum rel100_mode` -/
inductive Rel100 where
  | DISABLED | ENABLED | REQUIRED
  deriving DecidableEq, Repr

inductive Met where
  | INVITE | UPDATE | PRACK | BYE | other (name : Bytes)
  deriving DecidableEq, Repr

/-- A description, `none` for `NULL`. -/
abbrev Desc := Option Bytes

/-- `mbuf_get_left(desc) > 0` -/
def Desc.left (desc : Desc) : Bool := desc.getD [] ≠ []

structure Rack where
  relSeq : UInt32
  cseq : UInt32
  met : Met
  deriving DecidableEq, Repr

/-- A request of the peer, with what it says about 100rel and whether it has a body. -/
structure Msg where
  met : Met
  cseq : UInt32
  rack : Rack := ⟨0, 0, .INVITE⟩
  sdp : Bool
  rel100 : Rel100 := .DISABLED

/-- A response to a request of the session. -/
structure Resp where
  scode : Nat
  sdp : Bool := false
  retryAfter : Option UInt32 := none
  rel : Option UInt32 := none
  cseq : UInt32 := 0

/-- What the application, the transport and the authentication answer. -/
structure Env where
  send : Option Errno := none
  auth : Option Errno := none
  answer : Option Errno := none
  offer : Option Errno × Desc := (none, none)
  reply : Option Errno := none
  ack : Option Errno := none
  rand : UInt32 := 1

/-- `struct sipsess_reply` -/
structure Reply where
  seq : UInt32
  relSeq : UInt32 := 0
  met : Met
  scode : Nat
  awaitingPrack : Bool := false
  timed : Bool := true
  offer : Bool
  deriving DecidableEq

/-- `struct sip_loopstate` -/
structure LoopState where
  failc : Nat := 0
  lastScode : Nat := 0

/-- `sip_request_loops` -/
def LoopState.loops (ls : LoopState) (scode : Nat) : Bool × LoopState :=
  if scode < 200 then (false, ls)
  else if scode < 300 then (false, ⟨0, scode⟩)
  else if scode < 400 then (ls.failc + 1 ≥ 16, ⟨ls.failc + 1, scode⟩)
  else
    let same := ls.lastScode = scode ∧ scode ≠ 401 ∧ scode ≠ 407 ∧ scode ≠ 491
    (same ∨ ls.failc + 1 ≥ 16, ⟨ls.failc + 1, scode⟩)

/-- A request as it is sent. -/
structure Req where
  met : Met
  body : Desc
  rack : Option Rack := none
  deriving DecidableEq

/-- What a timer's handler is called with. -/
inductive Arg where
  | sess | request (id : Nat) | prack (id : Nat)
  deriving DecidableEq

/-- `struct sipsess_request`, with its `struct sipsess_prack` if it is a PRACK. -/
structure Request where
  req : Req
  ls : LoopState := {}
  tmr : Option Arg := none

/-- Who a request belongs to. -/
inductive Src where
  | sess | request (id : Nat)
  deriving DecidableEq

/-- A request was made; a delayed one was sent again (`none`: the timer sent nothing); an ACK or
PRACK ended the session, whose response had an offer or not. -/
inductive Out where
  | original (id : Nat) (req : Req)
  | retry (src : Src) (req : Option Req)
  | ended (offer : Bool)
  deriving DecidableEq

/-- `struct sipsess` -/
structure Sess where
  replyl : List Reply := []
  requests : Table Request := Table.empty
  prackWaitingCnt : Int := 0
  relSeq : UInt32 := 0
  negState : NegState := .NONE
  ls : LoopState := {}
  msg : Option Msg := none
  st : Bool := false
  /-- The request under way, and whether a provisional response has come. -/
  req : Option (Met × Bool) := none
  desc : Desc := none
  tmr : Bool := false
  modifyPending : Bool := false
  established : Bool := false
  peerterm : Bool := false
  terminated : Bool := false
  log : List Out := []

variable (s : Sess) (resp : Except Errno Resp) (id : Nat) (msg : Msg) (env : Env)

def Sess.emit (out : Out) : Sess := { s with log := out :: s.log }

/-! ## Ending and requests -/

/-- `sipsess_terminate`: `termwait` and, if there is nothing to wait for, `terminate`. -/
def terminate : Sess :=
  if s.terminated then s
  else
    let req := s.req.filter (·.2)
    let s := { s with terminated := true, tmr := false, st := false, req }
    let wait := req.isSome || s.replyl ≠ [] || s.requests.items ≠ []
    if wait || !s.established || s.peerterm then s else { s with req := some (.BYE, false) }

/-- `sipsess_reinvite`, with the request if one was sent. -/
def sipsessReinvite (resetLs : Bool) (env : Env) : Option Req × Sess :=
  if s.req.isSome then (none, s)
  else
    let s := if resetLs then { s with ls := {} } else s
    let req : Req := { met := .INVITE, body := s.desc }
    if env.send ≠ none then (some req, s)
    else
      (some req, { s with
        req := some (.INVITE, false), modifyPending := false
        negState := if s.desc.isSome then .LOCAL_OFFER else s.negState })

def Sess.setRequest (r : Option Request) : Sess := { s with requests := s.requests.set id r }

/-- `update_request` and `prack_request`, with the request if one was sent. -/
def request : Option Req × Sess :=
  match s.requests.get id with
  | none => (none, s)
  | some r =>
    if r.tmr.isSome then (none, s.setRequest id none)
    else if env.send ≠ none then (some r.req, s.setRequest id none)
    else if r.req.met = .UPDATE ∧ s.desc.isSome then (some r.req,
      { s with negState := .LOCAL_OFFER })
    else (some r.req, s)

/-- `sipsess_request_alloc` and the first request. -/
def newRequest (req : Req) (env : Env) : Sess :=
  let id := s.requests.fresh
  (request { s with requests := s.requests.add { req }, log := .original id req :: s.log } id env).2

/-- `sipsess_update` -/
def sipsessUpdate : Sess :=
  if s.terminated ∨ s.desc.isNone then s
  else
    let s := newRequest s { met := .UPDATE, body := s.desc } env
    if env.send ≠ none then s else { s with modifyPending := false }

/-- `sipsess_prack` -/
def sipsessPrack (rack : Rack) (desc : Desc) (env : Env) : Sess :=
  if s.terminated then s else newRequest s { met := .PRACK, body := desc, rack := some rack } env

/-- `sipsess_modify` -/
def sipsessModify (desc : Desc) (env : Env) : Sess :=
  if s.terminated then s
  else if Desc.left desc ∧ s.negState ≠ .DONE ∧ s.negState ≠ .NONE then s
  else
    let s := { s with desc }
    if !s.established then sipsessUpdate s env
    else if s.req.isSome || s.tmr || s.replyl ≠ [] then { s with modifyPending := true }
    else (sipsessReinvite s true env).2

/-! ## Replies -/

/-- `sipsess_reply_2xx` -/
def sipsessReply2xx (scode : Nat) (desc : Desc) (env : Env) : Option Errno × Sess :=
  if msg.met = .PRACK ∨ msg.met = .UPDATE then
    let desc := if s.negState ≠ .REMOTE_OFFER then none else desc
    if env.reply ≠ none then (env.reply, s)
    else (none, if Desc.left desc ∧ msg.sdp then { s with negState := .DONE } else s)
  else if s.negState = .NONE ∧ !Desc.left desc then (some .EINVAL, s)
  else
    let desc := if s.negState = .DONE then none else desc
    if s.prackWaitingCnt > 0 then (some .EAGAIN, s)
    else if env.reply ≠ none then (env.reply, { s with st := false })
    else
      let replyl := s.replyl.map fun r => if 100 < r.scode ∧
        r.scode < 200 then { r with timed := false } else r
      let reply : Reply := { seq := msg.cseq, met := msg.met, scode,
                             offer := Desc.left desc && !msg.sdp }
      let negState := if !Desc.left desc then s.negState else if msg.sdp then .DONE
        else .LOCAL_OFFER
      (none, { s with replyl := replyl ++ [reply], negState, st := false })

/-- `sipsess_reply_1xx` -/
def sipsessReply1xx (scode : Nat) (rel100 : Rel100) (desc : Desc) (env : Env) :
    Option Errno × Sess :=
  if rel100 = .REQUIRED ∧ msg.rel100 = .DISABLED ∨ msg.rel100 = .REQUIRED ∧ rel100 = .DISABLED then
    (some .EPROTO, { s with st := false })
  else
    let reliably := rel100 ≠ .DISABLED ∧ msg.rel100 ≠ .DISABLED ∧ scode ≠ 100
    if reliably ∧ s.prackWaitingCnt ≠ 0 then (some .EAGAIN, s)
    else if s.negState = .NONE ∧ reliably ∧ !Desc.left desc then (some .EINVAL, s)
    else
      let desc :=
        match s.negState with
        | .NONE => if reliably then desc else none
        | .DONE | .LOCAL_OFFER => none
        | .REMOTE_OFFER | .PREVIEW_ANSWER => desc
      let s :=
        { s with
          relSeq :=
            if !reliably then s.relSeq else if s.relSeq ≠ 0 then s.relSeq + 1 else env.rand }
      if env.reply ≠ none then (env.reply, { s with st := false })
      else if reliably then
        let reply : Reply :=
          { seq := msg.cseq, relSeq := s.relSeq, met := msg.met, scode, awaitingPrack := true,
            offer := Desc.left desc && !msg.sdp }
        let negState := if desc.isNone then s.negState else if msg.sdp then .DONE else .LOCAL_OFFER
        (none, { s with replyl := s.replyl ++ [reply], prackWaitingCnt := s.prackWaitingCnt + 1,
                        negState })
      else
        let negState := if desc.isSome ∧ s.negState = .REMOTE_OFFER then .PREVIEW_ANSWER
          else s.negState
        (none, { s with negState })

/-- `list_apply` from the tail, and the list without the reply it finds. -/
def takeLast (p : Reply → Bool) : List Reply → Option (Reply × List Reply)
  | [] => none
  | r :: replyl =>
    match takeLast p replyl with
    | some (found, rest) => some (found, r :: rest)
    | none => if p r then some (r, replyl) else none

/-- `ack_handler` -/
def ackHandler : Sess :=
  match takeLast (fun r => msg.cseq = r.seq) s.replyl with
  | none => s
  | some (reply, replyl) =>
    let s := { s with replyl }
    if s.terminated then (if replyl = [] then { s with established := true } else s)
    else if s.negState = .LOCAL_OFFER ∧ !msg.sdp then terminate (s.emit (.ended reply.offer))
    else
      let err := if s.negState = .LOCAL_OFFER then env.answer else none
      let s := if s.negState = .LOCAL_OFFER then { s with negState := .DONE } else s
      let s := if s.modifyPending ∧ replyl = [] then (sipsessReinvite s true env).2 else s
      if s.established then s
      else
        let s := { s with msg := none, established := true }
        if err ≠ none then terminate (s.emit (.ended reply.offer)) else s

/-- `prack_handler` -/
def prackHandler : Sess :=
  match takeLast (fun r => msg.rack.cseq = r.seq ∧ msg.rack.relSeq = r.relSeq ∧
    msg.rack.met = r.met) s.replyl with
  | none => s
  | some (reply, replyl) =>
    let s := { s with replyl }
    if s.terminated then (if replyl = [] then { s with established := true } else s)
    else
      let s := if reply.awaitingPrack then { s with prackWaitingCnt := s.prackWaitingCnt - 1 }
        else s
      if s.negState = .LOCAL_OFFER then
        if !msg.sdp then terminate (s.emit (.ended reply.offer))
        else (sipsessReply2xx { s with negState := .DONE } msg 200 none env).2
      else if s.negState = .DONE ∧ msg.sdp then
        (sipsessReply2xx { s with negState := .REMOTE_OFFER } msg 200 env.offer.2 env).2
      else (sipsessReply2xx s msg 200 none env).2

/-- `target_refresh_handler` -/
def targetRefreshHandler : Sess :=
  let isInvite := msg.met = .INVITE
  if s.terminated ∨ isInvite ∧ s.st ∨ msg.sdp ∧ s.negState = .LOCAL_OFFER ∨
      isInvite ∧ s.req.isSome ∨ msg.sdp ∧ s.negState ≠ .DONE then s
  else if (isInvite ∨ msg.sdp) ∧ env.offer.1 ≠ none then { s with negState := .DONE }
  else
    let s := if isInvite ∨
      msg.sdp then { s with negState := if msg.sdp then .REMOTE_OFFER else .LOCAL_OFFER } else s
    let desc := if isInvite ∨ msg.sdp then env.offer.2 else none
    { (sipsessReply2xx s msg 200 desc env).2 with desc := none, modifyPending := false,
                                                  tmr := false }

/-- `tmr_handler` of a reply whose timer runs. -/
def replyTimeout (reply : Reply) : Sess :=
  if reply ∉ s.replyl ∨ !reply.timed then s
  else
    let s' := { s with replyl := s.replyl.erase reply }
    if s.terminated ∨ reply.scode < 200 ∧ !s.established then s' else terminate
      { s' with established := true }

/-! ## Responses and delayed requests -/

/-- The delays before a request is sent again. -/
def delayed (resp : Resp) : Bool := resp.scode = 491 ∨ resp.scode = 500 ∧ resp.retryAfter.isSome

/-- `reinvite_resp_handler` behind its label `out`. -/
def reinviteOut (err : Option Errno) (env : Env) : Sess :=
  if s.terminated then s
  else if err = some .ETIMEDOUT then terminate s
  else if s.modifyPending then (sipsessReinvite s true env).2
  else { s with desc := none }

/-- `reinvite_resp_handler`, for an error or a final response. -/
def reinviteRespHandler : Sess :=
  let s := { s with req := none }
  match resp with
  | .error err => reinviteOut s (some err) env
  | .ok resp =>
    let (loops, ls) := s.ls.loops resp.scode
    let s := { s with ls }
    if loops then reinviteOut s none env
    else if resp.scode < 300 then
      let asked : Option Errno × Desc × NegState :=
        if resp.sdp ∧ s.negState = .LOCAL_OFFER then (env.answer, none, .DONE)
        else if resp.sdp ∧ s.negState = .NONE then (env.offer.1, env.offer.2, .REMOTE_OFFER)
        else (none, none, s.negState)
      let s := { s with negState := asked.2.2 }
      if asked.1 ≠ none then reinviteOut s asked.1 env
      else if env.ack ≠ none then reinviteOut s env.ack env
      else reinviteOut (if s.negState = .REMOTE_OFFER ∧
        Desc.left asked.2.1 then { s with negState := .DONE } else s) none env
    else
      let s := { s with negState := .DONE }
      if s.terminated then reinviteOut s none env
      else if resp.scode = 401 ∨ resp.scode = 407 then
        if env.auth ≠ none then reinviteOut s (if env.auth = some .EAUTH then none else env.auth)
          env
        else if env.send ≠ none then reinviteOut (sipsessReinvite s false env).2 env.send env
        else (sipsessReinvite s false env).2
      else if resp.scode = 408 ∨ resp.scode = 481 then terminate s
      else if delayed resp then { s with tmr := true }
      else reinviteOut s none env

/-- `update_resp_handler` and `prack_resp_handler` behind their label `out`. -/
def requestOut (err : Option Errno) : Sess :=
  (if err = some .ETIMEDOUT then terminate s else s).setRequest id none

/-- `update_resp_handler` and `prack_resp_handler`, for an error or a final response. -/
def requestRespHandler (r : Request) (resp : Except Errno Resp) (env : Env) : Sess :=
  match resp with
  | .error err => requestOut s id (some err)
  | .ok resp =>
    let update := r.req.met = .UPDATE
    let (loops, ls) := r.ls.loops resp.scode
    let r := { r with ls }
    let s := s.setRequest id (some r)
    if loops then requestOut s id none
    else if resp.scode < 300 then
      let s := if s.negState = .LOCAL_OFFER ∧ (update ∨ resp.sdp) then { s with negState := .DONE }
        else s
      requestOut (if update ∨ !resp.sdp then s else { s with desc := none }) id none
    else if s.terminated then requestOut s id none
    else
      let s := if update then { s with negState := .DONE } else s
      if resp.scode = 401 ∨ resp.scode = 407 then
        if env.auth ≠ none then requestOut s id (if env.auth = some .EAUTH then none else env.auth)
        else if env.send ≠ none then requestOut (request s id env).2 id env.send
        else (request s id env).2
      else if update ∧ (resp.scode = 408 ∨ resp.scode = 481) then requestOut (terminate s) id none
      else if resp.scode = 408 ∨ delayed resp then
        -- both handlers hand the request over
        s.setRequest id (some { r with tmr := some (.request id) })
      else requestOut s id none

/-- `tmr_handler` of `modify.c`. -/
def reinviteTimer : Sess :=
  if !s.tmr then s
  else
    let (sent, s) := sipsessReinvite { s with tmr := false } true env
    s.emit (.retry .sess sent)

/-- `tmr_handler` of `update.c`, which takes a request, and of `prack.c`, which takes a PRACK. With
another argument they read what is not there: nothing is sent. -/
def requestTimer (r : Request) (arg : Arg) (env : Env) : Sess :=
  let s := s.setRequest id (some { r with tmr := none })
  let (sent, s) :=
    match arg with
    | .request id => if r.req.met = Met.UPDATE then request s id env else (none, s)
    | .prack id => if r.req.met = Met.UPDATE then (none, s) else request s id env
    | .sess => (none, s)
  s.emit (.retry (.request id) sent)

/-- `invite_resp_handler`. Its loop limit is left out, and so is the INVITE that a 3xx sends to
another target: here a 3xx ends the session, as does every other failure but 401 and 407. -/
def inviteRespHandler : Sess :=
  match resp with
  | .error _ => terminate { s with req := none }
  | .ok resp =>
    let asked : Option Errno × Desc × NegState :=
      if resp.sdp ∧ s.negState = .LOCAL_OFFER then (env.answer, none, .DONE)
      else if resp.sdp ∧ s.negState = .NONE then (env.offer.1, env.offer.2, .REMOTE_OFFER)
      else (none, none, s.negState)
    let answered := if asked.2.2 = .REMOTE_OFFER ∧ Desc.left asked.2.1 then .DONE else asked.2.2
    if resp.scode < 200 then
      let s := { s with req := s.req.map fun r => (r.1, true) }
      match resp.rel with
      | none => if resp.sdp ∧ s.negState = .LOCAL_OFFER ∧ env.answer ≠ none then terminate s else s
      | some rel =>
        if s.relSeq ≠ 0 ∧ rel ≠ s.relSeq + 1 then s
        else
          let s := { s with relSeq := rel }
          if s.negState = .NONE ∧ !resp.sdp then terminate s
          else
            let s := sipsessPrack { s with negState := asked.2.2 }
              ⟨rel, resp.cseq, .INVITE⟩ asked.2.1 env
            if asked.1 ≠ none ∨ env.send ≠ none then terminate s
              else { s with negState := answered, desc := none }
    else
      let s := { s with req := none }
      if resp.scode < 300 then
        let s := { s with established := true, negState := asked.2.2 }
        if asked.1 ≠ none ∨ env.ack ≠ none ∨ s.negState = .NONE ∧ !resp.sdp then terminate s
        else
          let s := { s with negState := answered }
          if s.terminated then s
          else if s.modifyPending then (sipsessReinvite s true env).2
          else { s with desc := none }
      else if s.terminated then s
      else if (resp.scode = 401 ∨ resp.scode = 407) ∧ env.auth = none ∧ env.send = none then
        { s with req := some (.INVITE, false), modifyPending := false }
      else terminate s

/-! ## Runs -/

/-- What can happen to a session. `sipsess_progress` refuses a code that is not 1xx, and
`sipsess_answer` one that is not 2xx; here they take any code. -/
inductive Event where
  | progress (scode : Nat) (rel100 : Rel100) (desc : Desc)
  | answer (scode : Nat) (desc : Desc)
  | ack (msg : Msg)
  | prack (msg : Msg)
  | refresh (msg : Msg)
  | timeout (reply : Reply)
  | modify (desc : Desc)
  | response (src : Src) (resp : Except Errno Resp)
  | timer (src : Src)
  | bye
  | close
  | abort

def step (e : Event × Env) : Sess :=
  let env := e.2
  match e.1 with
  | .progress scode rel100 desc =>
    match s.msg with
    | some msg => if s.st then (sipsessReply1xx s msg scode rel100 desc env).2 else s
    | none => s
  | .answer scode desc =>
    match s.msg with
    | some msg => if s.st then (sipsessReply2xx s msg scode desc env).2 else s
    | none => s
  | .ack msg => ackHandler s msg env
  | .prack msg => prackHandler s msg env
  | .refresh msg => targetRefreshHandler s msg env
  | .timeout reply => replyTimeout s reply
  | .modify desc => sipsessModify s desc env
  | .response .sess resp =>
    match s.req with
    | some (.INVITE, _) =>
      if s.established then
        match resp with
        | .ok r =>
          if r.scode < 200 then { s with req := some (.INVITE, true) }
            else reinviteRespHandler s resp env
        | .error _ => reinviteRespHandler s resp env
      else inviteRespHandler s resp env
    | some _ => { s with req := none }
    | none => s
  | .response (.request id) resp =>
    match s.requests.get id with
    | some r =>
      match resp with
      | .ok re => if re.scode < 200 then s else requestRespHandler s id r resp env
      | .error _ => requestRespHandler s id r resp env
    | none => s
  | .timer .sess => reinviteTimer s env
  | .timer (.request id) =>
    match s.requests.get id with
    | some r =>
      match r.tmr with
      | some arg => requestTimer s id r arg env
      | none => s
    | none => s
  | .bye => terminate { s with peerterm := true }
  | .close => terminate s
  | .abort =>
    { s with req := if env.send = none then s.req.or (some (.BYE, false)) else s.req,
             terminated := true }

/-- How a session begins: an INVITE is accepted, or sent with what `desch` gives, which is not
kept. -/
inductive Start where
  | accept (msg : Msg)
  | connect (desc : Desc)

def Start.sess : Start → Sess
  | .accept msg =>
    { msg := some msg, st := true, negState := if msg.sdp then .REMOTE_OFFER else .NONE }
  | .connect desc =>
    { req := some (.INVITE, false), negState := if desc.isSome then .LOCAL_OFFER else .NONE }

end LibRe.Sipsess
