/-
LibRe.Trice.Agent — the state of an agent, its candidates and their pairing.

The log is what the agent hands to its sockets and to the application, in order.
Requests are numbered as they arrive. Sockets are numbers; opening one is up to
the environment.
-/
import LibRe.Trice.Candpair

namespace LibRe

namespace Trice

/-- How `stun_msg_chk_mi` ends. -/
inductive Integrity where
  | ok
  | badmsg
  | missing
  deriving DecidableEq, Repr

/-- A decoded Binding request, as far as it is looked at. -/
structure Request where
  fingerprint : Bool
  integrity : Integrity
  username : Option Bytes
  controlled : Option UInt64
  controlling : Option UInt64
  priority : Option UInt32
  useCand : Bool
  deriving DecidableEq, Repr

/-- `struct trice_reqbuf`. -/
structure Reqbuf where
  number : Nat
  lcand : Lcand
  sock : Option Nat
  src : Sa
  req : Request
  deriving DecidableEq, Repr

/-- `struct ice_conncheck`. -/
structure Conncheck where
  id : Nat
  pair : Nat
  useCand : Bool
  deriving DecidableEq, Repr

/-- What leaves the agent. `roleLogic` marks the entry of
`trice_stund_recv_role_set`. -/
inductive Output where
  | roleLogic (number : Nat)
  | reply (number : Nat) (scode : UInt16)
  | request (cc : Nat) (role : Role) (tiebrk : UInt64) (prio : UInt32) (useCand : Bool)
  | established (pair : Nat)
  | failed (err : Option Errno) (scode : UInt16) (pair : Nat)
  deriving DecidableEq, Repr

end Trice

open Trice in
/-- `struct trice`. `lrefs` counts the references to a local candidate, `nextId`
is the next free identity, `received` the number of requests so far. -/
structure Trice where
  optimizeLoopbackPairing : Bool
  lrole : Role
  tiebrk : UInt64
  lufrag : Bytes
  rufrag : Bytes
  rpwd : Bytes
  lcandl : List Lcand
  lrefs : Nat → Nat
  rcandl : List Rcand
  checkl : List CandPair
  validl : List CandPair
  reqbufl : List Reqbuf
  checklist : Option (List Conncheck)
  nextId : Nat
  received : Nat
  log : List Output

namespace Trice

/-- The object that `trice_alloc` makes. -/
def freshTrice (optimizeLoopbackPairing : Bool) (role : Role) (tiebrk : UInt64) (lufrag : Bytes) :
    Trice where
  optimizeLoopbackPairing := optimizeLoopbackPairing
  lrole := role
  tiebrk := tiebrk
  lufrag := lufrag
  rufrag := []
  rpwd := []
  lcandl := []
  lrefs := fun _ => 0
  rcandl := []
  checkl := []
  validl := []
  reqbufl := []
  checklist := none
  nextId := 0
  received := 0
  log := []

/-- `trice_alloc`. -/
def triceAlloc (optimizeLoopbackPairing : Bool) (role : Role) (tiebrk : UInt64)
    (lufrag lpwd : Bytes) : Except Errno Trice :=
  if lufrag.length < 4 || lpwd.length < 22 then .error .EINVAL
  else .ok (freshTrice optimizeLoopbackPairing role tiebrk lufrag)

variable (s : Trice) (compid : UInt32) (id : Nat)

/-- An assignment to the pair with an identity. -/
def assignAt (f : CandPair → CandPair) (cp : CandPair) : CandPair :=
  if cp.id = id then f cp else cp

def emit (o : Output) : Trice := { s with log := s.log ++ [o] }

/-- The pair with an identity, on either list. -/
def pair : Option CandPair :=
  (s.checkl ++ s.validl).find? fun cp => cp.id == id

/-- An assignment through a pointer to a pair. -/
def setPair (f : CandPair → CandPair) : Trice :=
  { s with checkl := s.checkl.map (assignAt id f), validl := s.validl.map (assignAt id f) }

/-- `list_unlink` of a pair. -/
def unlinkPair : Trice :=
  { s with checkl := s.checkl.filter (·.id ≠ id), validl := s.validl.filter (·.id ≠ id) }

/-- `mem_ref` of a local candidate. -/
def refLcand : Trice :=
  { s with lrefs := Function.update s.lrefs id (s.lrefs id + 1) }

/-- `mem_deref` of a local candidate: the last one unlinks it. -/
def derefLcand : Trice :=
  { s with
    lrefs := Function.update s.lrefs id (s.lrefs id - 1)
    lcandl := if s.lrefs id ≤ 1 then s.lcandl.filter (·.id ≠ id) else s.lcandl }

variable (lcand : Lcand) (rcand : Nat)

/-- A new local candidate: `trice_add_lcandidate`. -/
def addLcand : Trice :=
  ({ s with lcandl := s.lcandl ++ [lcand], nextId := s.nextId + 1 }).refLcand lcand.id

/-! ## Pairs -/

/-- The pair that `trice_candpair_alloc` makes. -/
def newPair : CandPair :=
  candpairSetPprio s.rcandl (s.lrole == .controlling) {
    id := s.nextId, lcand, rcand, state := .frozen, pprio := 0, valid := false
    nominated := false, estab := false, trigged := false, err := none, scode := 0 }

/-- `trice_candpair_alloc`. -/
def candpairAlloc : Except Errno (Trice × Nat) :=
  if s.lrole = .unknown then .error .EINVAL
  else
    let cp := newPair s lcand rcand
    let s := s.refLcand lcand.id
    .ok ({ s with checkl := listAddSorted s.checkl cp, nextId := s.nextId + 1 }, cp.id)

/-- The assignments of `trice_candpair_make_valid`. -/
def validPair (cp : CandPair) : CandPair :=
  { cp with err := none, scode := 0, valid := true, state := .succeeded }

/-- `trice_candpair_make_valid`. -/
def candpairMakeValid : Trice :=
  match s.pair id with
  | none => s
  | some cp =>
    let s := s.unlinkPair id
    { s with validl := listAddSorted s.validl (validPair cp) }

/-- `create_pair`. -/
def createPair : Trice × Option Errno :=
  match s.rcandl[rcand]? with
  | none => (s, none)
  | some r =>
    if lcand.attr.compid ≠ r.attr.compid || lcand.attr.proto ≠ r.attr.proto ||
        saAf lcand.attr.addr ≠ saAf r.attr.addr then (s, none)
    else if saAf lcand.attr.addr = .inet6 &&
        saIsLinklocal lcand.attr.addr ≠ saIsLinklocal r.attr.addr then (s, none)
    else if s.optimizeLoopbackPairing &&
        saIsLoopback lcand.attr.addr ≠ saIsLoopback r.attr.addr then (s, none)
    else if (s.checkl ++ s.validl).any (sameBase s.rcandl lcand r) then (s, none)
    else if lcand.attr.proto = .tcp && !tcptypeMatch lcand.attr.tcptype
      r.attr.tcptype then (s, none)
    else
      match candpairAlloc s lcand rcand with
      | .error err => (s, some err)
      | .ok (s, _) => (s, none)

/-- The loop of `trice_candpair_with_local` and `trice_candpair_with_remote`, over
the candidates of the other kind. -/
def pairLoop (pair : Trice → α → Trice × Option Errno) : Trice → List α → Trice × Option Errno
  | s, [] => (s, none)
  | s, cand :: cands =>
    let (s, err) := pair s cand
    if err ≠ none then (s, err) else pairLoop pair s cands

/-- `trice_candpair_with_local`. -/
def candpairWithLocal : Trice × Option Errno :=
  if s.lrole = .unknown then (s, some .EINVAL)
  else pairLoop (fun s rcand => createPair s lcand rcand) s (List.range s.rcandl.length)

/-- `trice_candpair_with_remote`. -/
def candpairWithRemote : Trice × Option Errno :=
  if s.lrole = .unknown then (s, some .EINVAL)
  else pairLoop (fun s lcand => createPair s lcand rcand) s s.lcandl

/-! ## Remote candidates -/

/-- `trice_rcand_find`. -/
def rcandFind (proto : Proto) (addr : Sa) : Option Nat :=
  s.rcandl.findIdx? fun r =>
    (compid == 0 || r.attr.compid == compid) && r.attr.proto == proto && saCmp
      r.attr.addr addr saAll

/-- The candidate that `trice_add_rcandidate` appends. -/
def newRcand (foundation : Bytes) (proto : Proto) (prio : UInt32) (addr : Sa)
    (type : CandType) (tcptype : TcpType) : Rcand where
  attr := {
    foundation := foundation.take 31, compid, proto, prio, addr
    type, tcptype }

/-- A peer-reflexive candidate is upgraded by a higher priority. -/
def upgradeRcand (type : CandType) (prio : UInt32) (r : Rcand) : Rcand :=
  if r.attr.type = .prflx ∧ prio > r.attr.prio then
    { attr := { r.attr with type, prio } }
  else r

/-- `trice_rcand_add`: the candidate's place, or an error. -/
def rcandAdd (foundation : Bytes) (proto : Proto) (prio : UInt32)
    (addr : Sa) (type : CandType) (tcptype : TcpType) : Trice × Except Errno Nat :=
  let port := proto = .udp ∨ proto = .tcp ∧ (tcptype = .passive ∨ tcptype = .so)
  if !saIsset addr { addr := true, port := decide port } then (s, .error .EINVAL)
  else
    match rcandFind s compid proto addr with
    | some i => ({ s with rcandl := s.rcandl.modify i (upgradeRcand type prio) }, .ok i)
    | none =>
      if compid = 0 then (s, .error .EINVAL)
      else
        let i := s.rcandl.length
        let s :=
          { s with rcandl := s.rcandl ++ [newRcand compid foundation proto prio addr type tcptype] }
        if s.lrole = .unknown then (s, .ok i)
        else
          let r := candpairWithRemote s i
          (r.1, match r.2 with
            | none => .ok i
            | some err => .error err)

/-! ## Local candidates -/

/-- `trice_lcand_find`; without a type, any type. -/
def lcandFind (type : Option CandType) (compid : UInt32) (proto : Proto) (addr : Sa) :
    Option Lcand :=
  s.lcandl.find? fun c =>
    (type.isNone || type == some c.attr.type) && (compid == 0 || c.attr.compid == compid) &&
      c.attr.proto == proto && saCmp c.attr.addr addr saAll

/-- `ice_cand_type_base`. -/
def candTypeBase : CandType → CandType
  | .relay => .relay
  | _ => .host

/-- `trice_lcand_sock`. -/
def lcandSock : Option Nat :=
  let base :=
    if saIsset lcand.baseAddr saAll then
      lcandFind s (some (candTypeBase lcand.attr.type)) lcand.attr.compid lcand.attr.proto
        lcand.baseAddr
    else none
  match lcand.attr.type with
  | .host => lcand.us
  | .relay => lcand.us
  | .srflx | .prflx => lcand.us.or (base.bind (·.us))

/-- The `%08x` of `compute_foundation`. -/
def hex8 (v : UInt32) : Bytes :=
  (List.range 8).map fun i =>
    let digit := (v >>> (28 - 4 * i).toUInt32) &&& 15
    (if digit < 10 then 48 + digit else 87 + digit).toUInt8

/-- `compute_foundation`. -/
def computeFoundation (addr : Sa) (type : CandType) : Bytes :=
  let code : UInt32 := match type with
    | .host => 0
    | .srflx => 1
    | .prflx => 2
    | .relay => 3
  hex8 (saHashAddr addr ^^^ code)

/-- The arguments of `trice_lcand_add`. -/
structure LcandArgs where
  compid : UInt32
  proto : Proto
  prio : UInt32
  addr : Sa
  baseAddr : Sa
  type : CandType
  tcptype : TcpType
  sock : Option Nat

/-- What the environment makes of a candidate's socket: an error of a call on it,
or the socket and its local address. -/
abbrev SockEnv := Except Errno (Nat × Sa)

/-- The socket of a candidate: the switch over type and protocol in
`trice_lcand_add`. -/
def lcandOpen (args : LcandArgs) (env : SockEnv) (lcand : Lcand) : Except Errno Lcand :=
  match args.type, args.proto with
  | .host, .udp =>
    match env with
    | .error err => .error err
    | .ok (us, laddr) =>
      match args.sock with
      | some sock =>
        let port := match laddr with
          | .inet _ port | .inet6 _ port => port
          | .unspec => 0
        .ok { lcand with us := some sock, attr.addr := saSetPort port args.addr }
      | none => .ok { lcand with us := some us, attr.addr := laddr }
  | .host, .tcp =>
    match args.tcptype with
    | .active => .ok lcand
    | .passive | .so =>
      match env with
      | .error err => .error err
      | .ok (_, laddr) => .ok { lcand with attr.addr := laddr }
  | .relay, .udp =>
    match env with
    | .error err => .error err
    | .ok (us, _) => .ok { lcand with us := some (args.sock.getD us) }
  | .srflx, .udp | .prflx, .udp =>
    match args.sock, env with
    | some _, .error err => .error err
    | some sock, .ok _ => .ok { lcand with us := some sock }
    | none, _ => .ok lcand
  | .srflx, _ | .prflx, _ => .ok lcand
  | .host, .other _ | .relay, _ => .error .EPROTONOSUPPORT

/-- The candidate that `trice_lcand_add` makes. -/
def newLcand (args : LcandArgs) : Lcand where
  id := s.nextId
  attr := {
    foundation := computeFoundation args.addr args.type, compid := args.compid, proto := args.proto
    prio := args.prio, addr := args.addr, type := args.type, tcptype := args.tcptype }
  baseAddr := args.baseAddr
  us := none

/-- `trice_lcand_add` from `trice_add_lcandidate` on. -/
def lcandInsert (args : LcandArgs) (env : SockEnv) : Trice × Option Errno :=
  match lcandOpen args env (newLcand s args) with
  | .error err => ({ s with nextId := s.nextId + 1 }, some err)
  | .ok lcand =>
    let s := s.addLcand lcand
    if s.lrole = .unknown then (s, none)
    else
      let r := candpairWithLocal s lcand
      if r.2 = none then r else (r.1.derefLcand lcand.id, r.2)

/-- `trice_lcand_add`. -/
def lcandAdd (args : LcandArgs) (env : SockEnv) : Trice × Option Errno :=
  if args.compid = 0 then (s, some .EINVAL)
  else if !saIsset args.addr saAddr then (s, some .EINVAL)
  else if args.type ≠ .host && !saIsset args.addr saPort then (s, some .EINVAL)
  else if args.proto = .udp then
    match lcandFind s none args.compid args.proto args.addr with
    | some c =>
      if args.prio > c.attr.prio then lcandInsert (s.derefLcand c.id) args env else (s, none)
    | none => lcandInsert s args env
  else lcandInsert s args env

end Trice

end LibRe
