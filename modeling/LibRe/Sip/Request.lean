/-
LibRe.Sip.Request — SIP requests (`src/sip/request.c`).

A request finds out where to go by NAPTR, SRV and address queries, tries one address after
the other, and passes the responses of its transaction on to the user. `reqStep` is what
one event does to one request: the answer to a query, an event at its transaction, or a
call by the user.

Translation notes. A request that has been freed is gone (`none`). Answers are lists of
record objects. That a record is linked in a list of another request is given by `busy`,
its own lists the request knows itself. What `dnsc_query` and the sending of a request
answer is given with the event, by how often they were called in it. The log also says
which lists were sorted and which records were taken from them. The branch and the message
of a new transaction are given as well; one is started in a step at most. `sendh`,
`srcport` and errors of allocations are left out.
-/
import LibRe.Dns.RrList
import LibRe.Lib.Words
import LibRe.Sa.Sa
import LibRe.Sip.Ctrans

namespace LibRe.Sip.Request

open Dns Bytes
open Sip.Ctrans (SipCtrans RespCall CtEvent ctransStep respCalls sipCtransRequest sipCtransCancel)

/-! ## Transports -/

/-- What a request asks the stack for. `none` is `AF_UNSPEC`, and `SIP_TRANSP_NONE`. -/
structure SipStack where
  supported : SipTransp → Option Af → Bool
  tpDef : Option SipTransp
  getaddrinfoOnly : Bool
  software : Option String

/-- The transports, in the order of `enum sip_transp`. -/
def sipTransps : List SipTransp := [.UDP, .TCP, .TLS, .WS, .WSS]

/-- The value in the enumeration. -/
def transpIndex : SipTransp → Nat
  | .UDP => 0
  | .TCP => 1
  | .TLS => 2
  | .WS => 3
  | .WSS => 4

/-- `sip_transp_srvid` -/
def sipTranspSrvid : SipTransp → String
  | .UDP => "_sip._udp"
  | .TCP => "_sip._tcp"
  | .TLS => "_sips._tcp"
  | _ => "???"

/-- `sip_transp_port` -/
def sipTranspPort (tp : SipTransp) (port : UInt16) : UInt16 :=
  if port ≠ 0 then port
  else
    match tp with
    | .UDP | .TCP => 5060
    | .TLS => 5061
    | .WS => 80
    | .WSS => 443

/-- `transp_next_srv` from the transport with this value, or from `SIP_TRANSPC`. -/
def transpNextSrv (sip : SipStack) (i : Nat) : Option SipTransp :=
  (sipTransps.take i).reverse.find? fun tp => sipTranspSrvid tp ≠ "???" ∧ sip.supported tp none

/-- `transp_first` -/
def transpFirst (sip : SipStack) : Option SipTransp :=
  match sip.tpDef.filter fun tp => sip.supported tp none with
  | some tp => some tp
  | none => sipTransps.find? fun tp => sip.supported tp none

/-! ## Requests -/

/-- The handler of a pending query. -/
inductive DnsHandler where
  | naptr | srv | addr
  deriving DecidableEq, Repr

/-- `struct sip_request`; `reqp` says that the user has, or is to get, a pointer to it. -/
structure SipRequest where
  met : String
  host : Bytes
  cachel : List Rr
  addrl : List Rr
  srvl : List Rr
  reqp : Bool
  ct : Option SipCtrans
  dnsq : Option DnsHandler
  dnsq2 : Option DnsHandler
  resph : Bool
  sortkey : UInt64
  tp : SipTransp
  tpSelected : Bool
  stateful : Bool
  canceled : Bool
  provrecv : Bool
  port : UInt16
  deriving DecidableEq, Repr

/-- What a request does. -/
inductive Out where
  | query (name : Bytes) (type : UInt16) (err : Option Errno)
  | answer (ansl addl : List Rr)
  | srvs (key : UInt64) (srvl : List Rr)
  | srv (rr : Rr)
  | addrs (key : UInt64) (addrl : List Rr)
  | attempt (rr : Option Rr) (tp : SipTransp) (dst : Sa) (err : Option Errno)
  | cached (cachel : List Rr)
  | cancel
  | resph (call : RespCall)
  deriving DecidableEq, Repr

/-- What the rest of the program answers in one step. -/
structure Env where
  send : Nat → Option Errno
  query : Nat → Option Errno
  busy : Rr → Bool
  branch : String
  msg : SipMsg

variable (sip : SipStack) (env : Env) (req : SipRequest)

/-- `terminate` -/
def terminate (err : Option Errno) (msg : Option SipMsg) : List Out :=
  if req.resph then [.resph { err, msg }] else []

/-- `terminate(req, err, NULL)` and `mem_deref(req)`. -/
def fail (err : Errno) : Option SipRequest × List Out := (none, terminate req (some err) none)

/-! ## Queries -/

/-- `srv_lookup`; the name has to fit into 256 bytes. -/
def srvLookup (domain : Bytes) : Option Errno × SipRequest × List Out :=
  let name := asciiBytes (sipTranspSrvid req.tp) ++ [46] ++ domain
  if name.length ≥ 256 then (some .ENOMEM, req, [])
  else
    match env.query 0 with
    | some err => (some err, req, [.query name RrType.SRV.code (some err)])
    | none => (none, { req with dnsq := some .srv }, [.query name RrType.SRV.code none])

/-- The second query of `addr_lookup`, and its end. -/
def addrLookup6 (name : Bytes) :
    Option Errno × SipRequest × List Out :=
  if sip.supported req.tp (some .inet6) then
    match env.query 1 with
    | some err => (some err, req, [.query name RrType.AAAA.code (some err)])
    | none => (none, { req with dnsq2 := some .addr }, [.query name RrType.AAAA.code none])
  else if req.dnsq = none ∧ req.dnsq2 = none then (some .EPROTONOSUPPORT, req, [])
  else (none, req, [])

/-- `addr_lookup` -/
def addrLookup (name : Bytes) :
    Option Errno × SipRequest × List Out :=
  if sip.supported req.tp (some .inet) then
    match env.query 0 with
    | some err => (some err, req, [.query name RrType.A.code (some err)])
    | none =>
      let (err, req, outs) := addrLookup6 sip env { req with dnsq := some .addr } name
      (err, req, .query name RrType.A.code none :: outs)
  else addrLookup6 sip env req name

/-! ## Records -/

/-- `rr_append_handler` for a list; `busy` says that the record is linked in another. -/
def rrAppendHandler (busy : Rr → Bool) (lst : List Rr) (rr : Rr) : List Rr :=
  match rr.rr.rdata with
  | .a .. | .aaaa .. | .srv .. => if busy rr || lst.contains rr then lst else lst ++ [rr]
  | _ => lst

/-- `rr_append_handler` for all records of a walk. -/
def rrAppend (busy : Rr → Bool) (lst : List Rr) (rrs : List Rr) : List Rr :=
  rrs.foldl (rrAppendHandler busy) lst

/-- Whether `rr_cache_handler` takes a record. -/
def rrCached (tp : SipTransp) (rr : Rr) : Bool :=
  match rr.rr.rdata with
  | .a .. => sip.supported tp (some .inet)
  | .aaaa .. => sip.supported tp (some .inet6)
  | .cname .. => true
  | _ => false

/-- `rr_cache_handler` for the records of the additional section. -/
def rrCache (addl : List Rr) : List Rr :=
  (rrlistApply addl none { type1 := dnsAny, type2 := dnsAny, dnsclass := dnsClassIn,
                           recurse := false }).filter
    (rrCached sip req.tp)

/-- The address list that an SRV record gives. -/
def srvAddrs (srvl : List Rr) (target : Bytes) : List Rr :=
  rrAppend (fun rr => env.busy rr || srvl.contains rr) []
    (rrlistApply req.cachel (some target)
      { type1 := RrType.A.code, type2 := RrType.AAAA.code, dnsclass := dnsClassIn,
        recurse := true })

/-- Port and target of an SRV record. -/
def srvData (rr : Rr) : UInt16 × Bytes :=
  match rr.rr.rdata with
  | .srv _ _ port target => (port, target)
  | _ => (0, [])

/-- The address in a record. -/
def rrAddr (rr : Rr) (port : UInt16) : Option Sa :=
  match rr.rr.rdata with
  | .a addr => some (.inet addr port)
  | .aaaa addr _ => some (.inet6 (BitVec.ofNat 128 (ofBe addr)) port)
  | _ => none

/-! ## Trying addresses -/

/-- How the address list was gone through: a request was sent, a record that is no address
is in the way, or all attempts failed, the last one with an error. -/
inductive Tried where
  | sent (rest : List Rr)
  | stuck (rest : List Rr)
  | failed (err : Option Errno)

/-- The loop of `request_next` while there are addresses. -/
def tryAddrs (env : Env) (req : SipRequest) : Nat → Option Errno → List Rr → Tried × List Out
  | _, err, [] => (.failed err, [])
  | n, _, rr :: rest =>
    match rrAddr rr req.port with
    | none => (.stuck (rr :: rest), [])
    | some dst =>
      match env.send n with
      | none => (.sent rest, [.attempt (some rr) req.tp dst none])
      | some err =>
        let (tried, outs) := tryAddrs env req (n + 1) (some err) rest
        (tried, .attempt (some rr) req.tp dst (some err) :: outs)

/-- What `request_next` leaves: the request goes on, it is gone because it was sent without
a transaction, or there was an error. -/
inductive Next where
  | goesOn (req : SipRequest)
  | gone
  | error (err : Errno) (req : SipRequest)

/-- A request has been sent: there is a transaction, or nothing more to do. -/
def sent : Next :=
  if req.stateful then
    .goesOn { req with ct := some (sipCtransRequest req.tp req.met env.branch env.msg),
                       provrecv := false }
  else .gone

/-- `addr_lookup` at the end of `request_next`. -/
def nextOf : Option Errno × SipRequest × List Out → Next × List Out
  | (some err, req, outs) => (.error err req, outs)
  | (none, req, outs) => (.goesOn req, outs)

/-- `request_next`; the first argument is the SRV list. -/
def requestNext (sip : SipStack) (env : Env) : List Rr → Nat → SipRequest → Next × List Out
  | [], n, req =>
    let provrecv := req.provrecv && req.addrl.isEmpty
    match tryAddrs env req n none req.addrl with
    | (.sent rest, outs) => (sent env { req with addrl := rest, srvl := [] }, outs)
    | (.stuck rest, outs) => (.error .EINVAL { req with addrl := rest, srvl := [], provrecv }, outs)
    | (.failed err, outs) =>
      (.error (err.getD .ENOENT) { req with addrl := [], srvl := [], provrecv }, outs)
  | rr :: srvl, n, req =>
    let provrecv := req.provrecv && req.addrl.isEmpty
    match tryAddrs env req n none req.addrl with
    | (.sent rest, outs) => (sent env { req with addrl := rest, srvl := rr :: srvl }, outs)
    | (.stuck rest, outs) =>
      (.error .EINVAL { req with addrl := rest, srvl := rr :: srvl, provrecv }, outs)
    | (.failed _, outs) =>
      let (port, target) := srvData rr
      let addrl := srvAddrs env req (rr :: srvl) target
      if addrl ≠ [] then
        let addrl := dnsRrlistSortAddr addrl req.sortkey
        let (next, outs') :=
          requestNext sip env srvl (n + outs.length) { req with port, addrl, provrecv }
        (next, outs ++ .srv rr :: .addrs req.sortkey addrl :: outs')
      else
        let (next, outs') :=
          nextOf (addrLookup sip env { req with port, addrl := [], srvl, provrecv } target)
        (next, outs ++ .srv rr :: outs')

/-- `request_next` from a DNS handler. -/
def handlerNext : Option SipRequest × List Out :=
  match requestNext sip env req.srvl 0 req with
  | (.goesOn req, outs) => (some req, outs)
  | (.gone, outs) => (none, outs)
  | (.error err req, outs) => (none, outs ++ (fail req err).2)

/-- A query at the end of a DNS handler. -/
def handlerQuery : Option Errno × SipRequest × List Out → Option SipRequest × List Out
  | (some err, req, outs) => (none, outs ++ (fail req err).2)
  | (none, req, outs) => (some req, outs)

/-! ## Answers -/

/-- The transports of `rr_naptr_handler`. -/
def naptrTransp (services : Bytes) : Option SipTransp :=
  if strCaseeq services (asciiBytes "SIP+D2U") then some .UDP
  else if strCaseeq services (asciiBytes "SIP+D2T") then some .TCP
  else if strCaseeq services (asciiBytes "SIPS+D2T") then some .TLS
  else if strCaseeq services (asciiBytes "SIP+D2W") then some .WS
  else if strCaseeq services (asciiBytes "SIPS+D2W") then some .WSS
  else none

/-- `rr_naptr_handler`: the transport and the replacement of a record that is taken. -/
def rrNaptrHandler (rr : Rr) : Option (SipTransp × Bytes) :=
  match rr.rr.rdata with
  | .naptr _ _ _ services _ replace =>
    ((naptrTransp services).filter fun tp => sip.supported tp none).map fun tp => (tp, replace)
  | _ => none

/-- The end of `naptr_handler` and `srv_handler`, with SRV records. -/
def srvFound (srvl addl : List Rr) : Option SipRequest × List Out :=
  let srvl := dnsRrlistSort srvl RrType.SRV.code req.sortkey
  let cached := rrCache sip req addl
  let (req', outs) :=
    handlerNext sip env
      { req with srvl, cachel := req.cachel.filter (!cached.contains ·) ++ cached }
  (req', .srvs req.sortkey srvl :: .cached cached :: outs)

/-- `naptr_handler` -/
def naptrHandler (ansl addl : List Rr) : Option SipRequest × List Out :=
  let ansl := dnsRrlistSort ansl RrType.NAPTR.code req.sortkey
  match (rrlistApply ansl none
      { type1 := RrType.NAPTR.code, type2 := RrType.NAPTR.code, dnsclass := dnsClassIn,
        recurse := false }).findSome?
        (rrNaptrHandler sip) with
  | none =>
    match transpNextSrv sip sipTransps.length with
    | none => fail req .EPROTONOSUPPORT
    | some tp => handlerQuery (srvLookup env { req with tp } req.host)
  | some (tp, replace) =>
    let req := { req with tp, tpSelected := true }
    let srvl := rrAppend (fun rr => env.busy rr || req.addrl.contains rr) req.srvl
      (rrlistApply addl (some replace)
        { type1 := RrType.SRV.code, type2 := RrType.SRV.code, dnsclass := dnsClassIn,
          recurse := true })
    if srvl = [] then
      match env.query 0 with
      | some err => handlerQuery (some err, req, [.query replace RrType.SRV.code (some err)])
      | none => (some { req with dnsq := some .srv }, [.query replace RrType.SRV.code none])
    else srvFound sip env req srvl addl

/-- `srv_handler` -/
def srvHandler (ansl addl : List Rr) : Option SipRequest × List Out :=
  let srvl := rrAppend (fun rr => env.busy rr || req.addrl.contains rr) req.srvl
    (rrlistApply ansl none
      { type1 := RrType.SRV.code, type2 := RrType.SRV.code, dnsclass := dnsClassIn,
        recurse := false })
  if srvl = [] then
    if req.tpSelected then
      handlerQuery (addrLookup sip env { req with port := sipTranspPort req.tp 0 } req.host)
    else
      match transpNextSrv sip (transpIndex req.tp) with
      | some tp => handlerQuery (srvLookup env { req with tp } req.host)
      | none =>
        match transpFirst sip with
        | none => fail req .EPROTONOSUPPORT
        | some tp =>
          handlerQuery (addrLookup sip env { req with tp, port := sipTranspPort tp 0 } req.host)
  else srvFound sip env req srvl addl

/-- `addr_handler` -/
def addrHandler (err : Option Errno) (ansl : List Rr) :
    Option SipRequest × List Out :=
  let addrl := rrAppend (fun rr => env.busy rr || req.srvl.contains rr) req.addrl
    (rrlistApply ansl none
      { type1 := RrType.A.code, type2 := RrType.AAAA.code, dnsclass := dnsClassIn,
        recurse := false })
  -- wait for other (A/AAAA) query to complete
  if req.dnsq.isSome ∨ req.dnsq2.isSome then (some { req with addrl }, [])
  else if addrl = [] ∧ req.srvl = [] then fail { req with addrl } (err.getD .EDESTADDRREQ)
  else
    let addrl := dnsRrlistSortAddr addrl req.sortkey
    let (req', outs) := handlerNext sip env { req with addrl }
    (req', .addrs req.sortkey addrl :: outs)

/-- The handler of a query is called. -/
def dnsHandler (h : DnsHandler) (err : Option Errno) (ansl addl : List Rr) :
    Option SipRequest × List Out :=
  match h with
  | .naptr => naptrHandler sip env req ansl addl
  | .srv => srvHandler sip env req ansl addl
  | .addr => addrHandler sip env req err ansl

/-! ## Responses, and calls by the user -/

/-- `sip_ctrans_cancel` -/
def ctransCancel : SipRequest × List Out :=
  match req.ct.map sipCtransCancel with
  | some (.ok ct) => ({ req with ct := some ct }, [.cancel])
  | _ => (req, [])

/-- `response_handler` -/
def responseHandler (call : RespCall) : Option SipRequest × List Out :=
  if call.msg.any fun msg => msg.scode < 200 then
    let (req', outs) :=
      if req.provrecv then (req, [])
      else if req.canceled then ctransCancel { req with provrecv := true }
      else ({ req with provrecv := true }, [])
    (some req', outs ++ if req.resph then [.resph call] else [])
  else
    let req := { req with ct := none }
    if !req.canceled ∧ (call.err.isSome ∨ call.msg.any fun msg => msg.scode = 503) ∧
      (req.addrl ≠ [] ∨ req.srvl ≠ []) then
      match requestNext sip env req.srvl 0 req with
      | (.goesOn req, outs) => (some req, outs)
      | (.gone, outs) => (none, outs)
      | (.error err req, outs) => (none, outs ++ terminate req (some err) call.msg)
    else (none, terminate req call.err call.msg)

/-- The calls of a transaction, one after the other. -/
def respond (sip : SipStack) (env : Env) : SipRequest → List RespCall → Option SipRequest × List Out
  | req, [] => (some req, [])
  | req, call :: calls =>
    match responseHandler sip env req call with
    | (none, outs) => (none, outs)
    | (some req, outs) =>
      let (req', outs') := respond sip env req calls
      (req', outs ++ outs')

/-- `sip_request_cancel` -/
def sipRequestCancel : SipRequest × List Out :=
  if req.canceled then (req, [])
  else
    let req := { req with canceled := true }
    if req.provrecv then ctransCancel req else ({ req with ct := none }, [])

/-- `mem_deref(req)` with the destructor. -/
def release : Option SipRequest × List Out :=
  if req.reqp ∧ req.stateful then
    -- user does deref before request has completed
    let (req, outs) := sipRequestCancel { req with reqp := false, resph := false }
    (some req, outs)
  else (none, [])

/-- What happens to a request: the answer to its first or second query, an event at its
transaction, calls by the user who has the pointer, and the end of the stack. -/
inductive Event where
  | answer (second : Bool) (err : Option Errno) (ansl addl : List Rr) (env : Env)
  | ct (e : CtEvent) (env : Env)
  | cancel
  | drop
  | close

/-- What an event does. -/
def reqStep : Event → Option SipRequest × List Out
  | .answer second err ansl addl env =>
    match if second then req.dnsq2 else req.dnsq with
    | none => (some req, [])
    | some h =>
      let req := if second then { req with dnsq2 := none } else { req with dnsq := none }
      let (req', outs) := dnsHandler sip env req h err ansl addl
      (req', .answer ansl addl :: outs)
  | .ct e env =>
    match req.ct with
    | none => (some req, [])
    | some ct =>
      let (ct', outs) := ctransStep sip.software ct e
      respond sip env { req with ct := ct' } (respCalls outs)
  | .cancel =>
    if req.reqp then
      let (req, outs) := sipRequestCancel req
      (some req, outs)
    else (some req, [])
  | .drop => if req.reqp then release req else (some req, [])
  | .close => (none, terminate req (some .ECONNABORTED) none)

/-! ## Starting a request -/

/-- What `sip_request` is called with: besides the fields of the request, whether the
route is a SIP URI, the transport of a dialog, the transport parameter of the route (`some
none` for an unknown one), its port, and the address in its host. -/
structure Args where
  isSip : Bool
  met : String
  host : Bytes
  hostSa : Option Sa
  routePort : UInt16
  dlgTp : Option SipTransp
  transport : Option (Option SipTransp)
  stateful : Bool
  reqp : Bool
  resph : Bool
  sortkey : UInt64
  deriving DecidableEq, Repr

/-- The transport that `sip_request_alloc` chooses, and whether it is a selected one. -/
def allocTransp (args : Args) : Option (SipTransp × Bool) :=
  match args.dlgTp, args.transport with
  | some tp, _ => some (tp, false)
  | none, some tp => (tp.filter fun tp => sip.supported tp none).map fun tp => (tp, true)
  | none, none => (transpFirst sip).map fun tp => (tp, false)

/-- `sip_request_alloc` -/
def sipRequestAlloc (args : Args) : Except Errno SipRequest :=
  if !args.isSip then .error .ENOSYS
  else
    match allocTransp sip args with
    | none => .error .EPROTONOSUPPORT
    | some (tp, tpSelected) =>
      .ok
        { met := args.met, host := args.host, cachel := [], addrl := [], srvl := [],
          reqp := args.reqp, ct := none,
          dnsq := none, dnsq2 := none, resph := args.resph, sortkey := args.sortkey, tp,
          tpSelected, stateful := args.stateful, canceled := false, provrecv := false, port := 0 }

/-- The first step of a request, in `sip_request_send`. -/
def firstStep (args : Args) : Next × List Out :=
  match args.hostSa with
  | some sa =>
    let dst := saSetPort (sipTranspPort req.tp args.routePort) sa
    match env.send 0 with
    | none => (sent env req, [.attempt none req.tp dst none])
    | some err => (.error err req, [.attempt none req.tp dst (some err)])
  | none =>
    if args.routePort ≠ 0 ∨ (req.tpSelected ∧ sip.getaddrinfoOnly) then
      nextOf (addrLookup sip env { req with port := sipTranspPort req.tp args.routePort } req.host)
    else if req.tpSelected then nextOf (srvLookup env req req.host)
    else
      match env.query 0 with
      | some err => (.error err req, [.query req.host RrType.NAPTR.code (some err)])
      | none => (.goesOn { req with dnsq := some .naptr }, [.query req.host RrType.NAPTR.code none])

/-- `sip_request`: the request that is left on the list, and the error that is returned. -/
def sipRequest (args : Args) : Option SipRequest × List Out × Option Errno :=
  match sipRequestAlloc sip args with
  | .error err => (none, [], some err)
  | .ok req =>
    match firstStep sip env req args with
    | (.goesOn req, outs) => (some req, outs, none)
    | (.gone, outs) => (none, outs, none)
    | (.error err req, outs) =>
      let (req, outs') := release req
      (req, outs ++ outs', some err)

end LibRe.Sip.Request
