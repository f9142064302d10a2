/-
LibRe.Trice.Checks — connectivity checks, the STUN server and the events of an agent.

The calls below the agent (`stun_request`, the table of TCP connections, TCP
connect) are inputs of an event: the environment may answer them in any way.
-/
import LibRe.Trice.Agent

namespace LibRe.Trice

/-- What the calls below the agent return: `stun_request` for a check,
`trice_conn_find` for a pair (a connection found may have lost its socket), and
`trice_conn_alloc` for a pair. -/
structure Env where
  stunRequest : Nat → Option Errno
  connFind : Nat → Option (Option Nat)
  connAlloc : Nat → Option Errno

variable (rcandl : List Rcand) (env : Env) (s : Trice) (compid : UInt32) (id : Nat)

/-- `trice_switch_local_role`. -/
def switchLocalRole : Trice :=
  if s.lrole = .unknown then s
  else
    let lrole := triceSwitchRole s.lrole
    { s with lrole, checkl := candpairPrioOrder s.rcandl (lrole == .controlling) s.checkl }

/-! ## Connectivity checks -/

/-- `re_snprintf` of the user name into 256 bytes. -/
def usernameFits : Bool := decide (s.rufrag.length + 1 + s.lufrag.length ≤ 255)

/-- `trice_conncheck_stun_request`. -/
def conncheckStunRequest (cc : Conncheck) (cp : CandPair) (sock : Option Nat)
    (useCand : Bool) : Trice × Option Errno :=
  let fail (err : Errno) := (s.setPair cp.id (candpairFailed (some err) 0), some err)
  if s.checklist.isNone then (s, some .ENOSYS)
  else if sock.isNone then (s, some .EINVAL)
  else if s.rpwd.isEmpty then fail .EINVAL
  else if !usernameFits s then fail .ENOMEM
  else if s.lrole = .unknown then (s, some .EINVAL)
  else
    let prio := iceCandCalcPrio .prflx 0 cp.lcand.attr.compid
    let useCand := s.lrole == .controlling && useCand
    match env.stunRequest cc.id with
    | none => (s.emit (.request cc.id s.lrole s.tiebrk prio useCand), none)
    | some err => fail err

/-- The tail of `trice_conncheck_send` and `trice_conncheck_trigged`: the check is
listed, or dropped and the pair fails. -/
def conncheckDone (cc : Conncheck) : Trice × Option Errno → Trice × Option Errno
  | (s, none) => ({ s with checklist := s.checklist.map (· ++ [cc]) }, none)
  | (s, some err) => (s.setPair id (candpairFailed (some err) 0), some err)

variable (lcand : Lcand) (cp : CandPair) (sock : Option Nat) (useCand : Bool)

/-- The start of both: a check for the pair, which is in progress now. -/
def conncheckStart : Trice :=
  let s := { s with nextId := s.nextId + 1 }
  if cp.state.beforeInProgress then s.setPair cp.id (candpairSetState .inProgress) else s

/-- `trice_conncheck_send`. -/
def conncheckSend : Trice × Option Errno :=
  match s.pair id with
  | none => (s, some .EINVAL)
  | some cp =>
    if s.checklist.isNone then (s, some .EINVAL)
    else
      let cc : Conncheck := { id := s.nextId, pair := id, useCand }
      let s := conncheckStart s cp
      conncheckDone id cc <|
        match cp.lcand.attr.proto with
        | .udp => conncheckStunRequest env s cc cp (lcandSock s cp.lcand) useCand
        | .tcp =>
          match env.connFind id with
          | some tc => conncheckStunRequest env s cc cp tc useCand
          | none =>
            match cp.lcand.attr.tcptype with
            | .active | .so => (s, env.connAlloc id)
            | .passive => (s.setPair id (candpairSetState .inProgress), none)
        | .other _ => (s, some .EPROTONOSUPPORT)

/-- `trice_conncheck_trigged`. -/
def conncheckTrigged :
    Trice × Option Errno :=
  match s.pair id with
  | none => (s, some .EINVAL)
  | some cp =>
    if s.checklist.isNone then (s, some .EINVAL)
    else
      let cc : Conncheck := { id := s.nextId, pair := id, useCand }
      let s := conncheckStart s cp
      conncheckDone id cc (conncheckStunRequest env s cc cp sock useCand)

/-- `pair_established`. -/
def pairEstablished : Trice :=
  match s.pair id with
  | none => s
  | some cp =>
    if cp.estab then s
    else (s.setPair id setEstab).emit (.established id)

/-- The bytes of `"FND"`. -/
def foundationFnd : Bytes := [70, 78, 68]

/-- The local candidate for a mapped address that is not known yet. -/
def prflxLcand (mapped : Sa) : Lcand where
  id := s.nextId
  attr := {
    foundation := foundationFnd, compid := cp.lcand.attr.compid, proto := cp.lcand.attr.proto
    prio := iceCandCalcPrio .prflx 0 cp.lcand.attr.compid, addr := mapped, type := .prflx
    tcptype := cp.lcand.attr.tcptype }
  baseAddr := cp.lcand.attr.addr
  us := cp.lcand.us

/-- `handle_success` with a mapped address that is no local candidate. -/
def handlePrflx (mapped : Sa) : Trice :=
  let lcand := prflxLcand s cp mapped
  let s := s.addLcand lcand
  match candpairAlloc s lcand cp.rcand with
  | .error _ => s
  | .ok (s, prflx) =>
    let s := s.setPair cp.id (candpairFailed none 0)
    pairEstablished (candpairMakeValid s prflx) prflx

/-- `handle_success` with the address of a local candidate. -/
def handleMapped : Trice :=
  let s := candpairMakeValid (s.setPair id setFrozen) id
  let s := if s.lrole = .controlling && useCand then s.setPair id setNominated else s
  pairEstablished s id

/-- `handle_success`. -/
def handleSuccess (mapped : Sa) (useCand : Bool) : Trice :=
  match s.pair id with
  | none => s
  | some cp =>
    match lcandFind s none cp.lcand.attr.compid cp.lcand.attr.proto mapped with
    | none => handlePrflx s cp mapped
    | some _ => handleMapped s id useCand

/-- What a check ends with: an error (a timeout among them), a status code, the
mapped address of a response. -/
structure Response where
  err : Option Errno
  scode : UInt16
  mapped : Option Sa
  deriving DecidableEq, Repr

/-- `stunc_resp_handler`, for a check that is pending. -/
def stuncRespHandler (resp : Response) : Trice :=
  match (s.checklist.getD []).find? (·.id == id) with
  | none => s
  | some cc =>
    let s :=
      if resp.err ≠ none then s.setPair cc.pair (candpairFailed resp.err resp.scode)
      else if resp.scode = 0 then
        match resp.mapped with
        | none => s.setPair cc.pair (candpairFailed (some .EPROTO) 0)
        | some mapped => handleSuccess s cc.pair mapped cc.useCand
      else if resp.scode = 487 then (conncheckSend env (switchLocalRole s) cc.pair cc.useCand).1
      else s.setPair cc.pair (candpairFailed resp.err resp.scode)
    let s := if resp.err ≠ none || resp.scode ≠ 0 then s.emit (.failed resp.err resp.scode cc.pair)
      else s
    { s with checklist := s.checklist.map (·.filter (·.id ≠ id)) }

/-! ## The STUN server -/

/-- The bytes of `"444"`. -/
def foundation444 : Bytes := [52, 52, 52]

/-- The triggered check at the end of `handle_stun_full`. -/
def triggerCheck : Trice :=
  if useCand && s.checklist.isSome && !cp.trigged then
    (conncheckTrigged env s cp.id sock useCand).1.setPair cp.id setTrigged
  else s

/-- `handle_stun_full` behind the look-up of the remote candidate. -/
def handlePair (rcand : Nat) (sock : Option Nat) (useCand : Bool) : Trice :=
  match candpairFind s.validl lcand.id rcand with
  | some cp => triggerCheck env s cp sock useCand
  | none =>
    match candpairFind s.checkl lcand.id rcand with
    | none => s
    | some cp =>
      let s := if useCand && s.lrole = .controlled then s.setPair cp.id setNominated else s
      triggerCheck env s cp sock useCand

/-- The remote candidate of a request, added when it is not known. -/
def requestRcand (src : Sa) (prio : UInt32) : Trice × Except Errno Nat :=
  match rcandFind s lcand.attr.compid lcand.attr.proto src with
  | some rcand => (s, .ok rcand)
  | none =>
    rcandAdd s lcand.attr.compid foundation444 lcand.attr.proto prio src .prflx
      (tcptypeReverse lcand.attr.tcptype)

/-- `handle_stun_full`. -/
def handleStunFull (src : Sa) (prio : UInt32) (useCand : Bool) : Trice × Option Errno :=
  match requestRcand s lcand src prio with
  | (s, .error err) => (s, some err)
  | (s, .ok rcand) => (handlePair env s lcand rcand sock useCand, none)

/-- The role attributes of a request; the second one looked at wins. -/
def remoteRole (req : Request) : Role × UInt64 :=
  match req.controlling with
  | some tiebrk => (.controlling, tiebrk)
  | none =>
    match req.controlled with
    | some tiebrk => (.controlled, tiebrk)
    | none => (.unknown, 0)

/-- `trice_stund_recv_role_set` behind the role logic. -/
def stundServe (number : Nat) (lcand : Lcand) (sock : Option Nat) (src : Sa)
    (req : Request) : Trice :=
  match req.priority with
  | none => s.emit (.reply number 400)
  | some prio =>
    let r := handleStunFull env s lcand sock src prio req.useCand
    r.1.emit (.reply number (if r.2 = none then 0 else 400))

/-- `trice_stund_recv_role_set`. -/
def stundRecvRoleSet (number : Nat) (lcand : Lcand) (sock : Option Nat)
    (src : Sa) (req : Request) : Trice :=
  let s := s.emit (.roleLogic number)
  let (role, tiebrk) := remoteRole req
  if role = .unknown then s.emit (.reply number 400)
  else if role = s.lrole then
    if s.tiebrk ≥ tiebrk then stundServe env (switchLocalRole s) number lcand sock src req
    else s.emit (.reply number 487)
  else stundServe env s number lcand sock src req

/-- `re_regex` with `[^:]+:[^]+`: behind any leading colons, what stands before the
next colon and the rest, neither of them empty. -/
def usernameParts (username : Bytes) : Option (Bytes × Bytes) :=
  let name := username.dropWhile (· == 58)
  match name.dropWhile (· != 58) with
  | _ :: c :: ru => some (name.takeWhile (· != 58), c :: ru)
  | _ => none

/-- The checks of `trice_stund_recv` up to the role: `none` when the request is
dropped, a status code for an error reply, 0 when it is authentic. -/
def stundCheck (req : Request) : Option UInt16 :=
  if !req.fingerprint then none
  else
    match req.integrity, req.username with
    | .badmsg, _ => some 401
    | .missing, _ => some 400
    | .ok, none => some 400
    | .ok, some username =>
      match usernameParts username with
      | none => some 401
      | some (lu, ru) =>
        if lu ≠ s.lufrag then some 401
        else if !s.rufrag.isEmpty && ru ≠ s.rufrag then some 401
        else some 0

/-- `trice_reqbuf_append`. -/
def reqbufAppend (number : Nat) (lcand : Lcand) (sock : Option Nat) (src : Sa)
    (req : Request) : Trice :=
  let entry : Reqbuf := { number, lcand, sock, src, req }
  ({ s with reqbufl := s.reqbufl ++ [entry] }).refLcand lcand.id

/-- `trice_stund_recv`. -/
def stundRecv (src : Sa) (req : Request) :
    Trice :=
  let number := s.received
  let s := { s with received := number + 1 }
  match stundCheck s req with
  | none => s
  | some 0 =>
    let s := if s.lrole = .unknown then reqbufAppend s number lcand sock src req else s
    stundRecvRoleSet env s number lcand sock src req
  | some scode => s.emit (.reply number scode)

/-! ## The role -/

/-- `trice_create_candpairs`. -/
def createCandpairs : Trice :=
  let s := s.lcandl.foldl (fun s lcand => (candpairWithLocal s lcand).1) s
  (List.range s.rcandl.length).foldl (fun s rcand => (candpairWithRemote s rcand).1) s

/-- One round of `trice_reqbuf_process`. -/
def reqbufServe (entry : Reqbuf) : Trice :=
  let s := stundRecvRoleSet env s entry.number entry.lcand entry.sock entry.src entry.req
  ({ s with reqbufl := s.reqbufl.drop 1 }).derefLcand entry.lcand.id

/-- `trice_reqbuf_process`. -/
def reqbufProcess : Trice := s.reqbufl.foldl (reqbufServe env) s

/-- `trice_set_role`. -/
def setRole (role : Role) : Trice :=
  if role = .unknown then s
  else if s.lrole = role then s
  else if s.lrole = .unknown then reqbufProcess env (createCandpairs { s with lrole := role })
  else
    reqbufProcess env
      { s with lrole := role, checkl := candpairPrioOrder s.rcandl (role == .controlling) s.checkl }

/-! ## The checklist -/

/-- `trice_checklist_start`. -/
def checklistStart : Trice :=
  if s.lrole = .unknown then s
  else if s.checklist.isSome then s
  else if s.rpwd.isEmpty then s
  else { s with checklist := some [] }

/-- `trice_conncheck_schedule_check`. -/
def scheduleCheck : Trice :=
  let send (cp : CandPair) : Trice :=
    match conncheckSend env s cp.id false with
    | (s, none) => s
    | (s, some err) => s.setPair cp.id (candpairFailed (some err) 0)
  match candpairFindState s.checkl .waiting with
  | some cp => send cp
  | none =>
    match candpairFindState s.checkl .frozen with
    | some cp => send cp
    | none => s

/-- `trice_candpair_cmp_fnd`. -/
def candpairCmpFnd (cp1 cp2 : CandPair) : Bool :=
  cp1.lcand.attr.foundation == cp2.lcand.attr.foundation &&
    (rcandl[cp1.rcand]?).map (·.attr.foundation) == (rcandl[cp2.rcand]?).map (·.attr.foundation)

/-- The inner loop of `trice_checklist_set_waiting`. -/
def waitingPair (cp cp2 : CandPair) : CandPair :=
  if candpairCmpFnd rcandl cp cp2 && decide (cp2.lcand.attr.compid < cp.lcand.attr.compid) &&
      decide (cp2.pprio > cp.pprio) then cp2
  else cp

/-- `trice_checklist_set_waiting`. -/
def checklistSetWaiting : Trice :=
  if s.lrole = .unknown then s
  else
    s.checkl.foldl (fun t cp =>
      let cp := s.checkl.foldl (waitingPair s.rcandl) cp
      t.setPair cp.id fun cp => if cp.state = .frozen then candpairSetState .waiting cp else cp) s

/-! ## TCP connections -/

/-- A pair uses the connection that came up. -/
def estabMatch (laddr paddr : Sa) (cp : CandPair) : Bool :=
  cp.state == .inProgress && cp.lcand.attr.compid == compid && cp.lcand.attr.proto == .tcp &&
    saCmp cp.lcand.attr.addr laddr saAddr &&
    match rcandl[cp.rcand]? with
    | some r => saCmp r.attr.addr paddr saAll
    | none => false

/-- One round of `tcp_estab_handler`. -/
def estabCheck (laddr paddr : Sa) (tc : Option Nat) (s : Trice) (cc : Conncheck) : Trice :=
  match s.pair cc.pair with
  | none => s
  | some cp =>
    if estabMatch s.rcandl compid laddr paddr cp then (conncheckStunRequest env s cc cp tc
      cc.useCand).1
    else s

/-- `tcp_estab_handler`: the pending checks go out. -/
def tcpEstab (laddr paddr : Sa) (tc : Option Nat) : Trice :=
  (s.checklist.getD []).foldl (estabCheck env compid laddr paddr tc) s

/-- A pair of the check list uses the connection that was closed. -/
def closeMatch (paddr : Sa) (cp : CandPair) : Bool :=
  cp.lcand.attr.compid == compid && cp.lcand.attr.proto == .tcp &&
    match rcandl[cp.rcand]? with
    | some r => saCmp r.attr.addr paddr saAll
    | none => false

/-- `tcp_close_handler`. -/
def tcpClose (paddr : Sa) (err : Option Errno) : Trice :=
  let err := some (err.getD .ECONNRESET)
  s.checkl.foldl (fun t cp =>
    if closeMatch s.rcandl compid paddr cp then
      let t := t.setPair cp.id (candpairFailed err 0)
      if t.checklist.isSome then t.emit (.failed err 0 cp.id) else t
    else t) s

/-! ## Events -/

/-- What happens to an agent: calls of the application, packets, timers,
connections. -/
inductive Event where
  | setRemoteUfrag (rufrag : Bytes)
  | setRemotePwd (rpwd : Bytes)
  | lcandAdd (args : LcandArgs) (env : SockEnv)
  | rcandAdd (compid : UInt32) (foundation : Bytes) (proto : Proto) (prio : UInt32) (addr : Sa)
      (type : CandType) (tcptype : TcpType)
  | setRole (role : Role) (env : Env)
  | checklistStart
  | setWaiting
  | pace (env : Env)
  | conncheckSend (pair : Nat) (useCand : Bool) (env : Env)
  | request (lcand : Nat) (sock : Option Nat) (src : Sa) (req : Request) (env : Env)
  | response (cc : Nat) (resp : Response) (env : Env)
  | tcpEstab (compid : UInt32) (laddr paddr : Sa) (tc : Option Nat) (env : Env)
  | tcpClose (compid : UInt32) (paddr : Sa) (err : Option Errno)

/-- What an agent does with an event. A request arrives on a local candidate, and
the timer runs once there is a checklist. -/
def step : Event → Trice
  | .setRemoteUfrag rufrag => { s with rufrag }
  | .setRemotePwd rpwd => { s with rpwd }
  | .lcandAdd args env => (lcandAdd s args env).1
  | .rcandAdd compid foundation proto prio addr type tcptype =>
    (rcandAdd s compid foundation proto prio addr type tcptype).1
  | .setRole role env => setRole env s role
  | .checklistStart => checklistStart s
  | .setWaiting => checklistSetWaiting s
  | .pace env => if s.checklist.isSome then scheduleCheck env s else s
  | .conncheckSend pair useCand env => (conncheckSend env s pair useCand).1
  | .request lcand sock src req env =>
    match s.lcandl.find? (·.id == lcand) with
    | none => s
    | some lcand => stundRecv env s lcand sock src req
  | .response cc resp env => stuncRespHandler env s cc resp
  | .tcpEstab compid laddr paddr tc env => tcpEstab env s compid laddr paddr tc
  | .tcpClose compid paddr err => tcpClose s compid paddr err

/-- The agent after a sequence of events. -/
def run (events : List Event) : Trice := events.foldl step s

/-! ## A small agent -/

/-- Calls below the agent that all succeed, without TCP connections. -/
def plainEnv : Env :=
  { stunRequest := fun _ => none, connFind := fun _ => none, connAlloc := fun _ => none }

/-- An agent in a role, with tie-breaker 7. -/
def sampleAgent (role : Role) : Trice := freshTrice false role 7 [1, 2, 3, 4]

theorem sampleAgent_alloc (role : Role) :
    triceAlloc false role 7 [1, 2, 3, 4] (List.replicate 22 0) = .ok (sampleAgent role) := rfl

/-- A local candidate with priority 10. -/
def addSample : Event :=
  .lcandAdd {
    compid := 1, proto := .udp, prio := 10, addr := .inet 0x0a000001 0, baseAddr :=
      .unspec, type := .host
    tcptype := .active, sock := some 5 } (.ok (5, .inet 0x0a000001 1000))

/-- A local candidate with priority 10 and a remote one with priority 20 are
paired, and a check of the pair succeeds. -/
def pairSucceeds : List Event := [ .setRemotePwd [1], addSample,
  .rcandAdd 1 [49] .udp 20 (.inet 0x0a000002 2000) .host .active, .checklistStart,
  .conncheckSend 1 useCand plainEnv,
  .response 2 { err := none, scode := 0, mapped := some (.inet 0x0a000001 1000) } plainEnv]

/-- An authentic request from the remote candidate, in the controlling role. -/
def sampleRequest : Event :=
  .request 0 (some 5) (.inet 0x0a000002 2000) {
    fingerprint := true, integrity := .ok, username := some [1, 2, 3, 4, 58, 9], controlled := none
    controlling := some 5, priority := some 30, useCand } plainEnv

end LibRe.Trice
